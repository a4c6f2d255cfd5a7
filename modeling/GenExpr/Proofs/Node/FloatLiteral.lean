import GenExpr.Proofs.Expression.Rendering
import GenExpr.Proofs.Json.Float
import GenExpr.Proofs.Node.Quotation

/-!
# Floats as literals

A float is read back from its JSON text as a float of the same sign that is at most three numbers away,
and a literal of that text draws that one. It is the float itself if the gathered digits and the power of
ten are exact. With more digits it need not be: the reader rounds the digits before it scales them.
-/

namespace GenExpr

open Binary64

namespace Binary64

variable {x y : Binary64}

/-- A number is zero, or the digits of its JSON text make a whole number of at most 53 bits that is
scaled by a power of ten of at most 10^22. -/
def IsShort (x : Binary64) : Prop :=
  x.magnitude = 0 ∨ (Json.gatheredOf x.magnitude).digits ≤ 2 ^ 53 ∧
    (Json.gatheredOf x.magnitude).exponent.natAbs ≤ 22

instance (x : Binary64) : Decidable x.IsShort := inferInstanceAs (Decidable (_ ∨ _ ∧ _))

theorem eq_of_magnitude_eq (hsign : y.negative = x.negative) (hmagnitude : y.magnitude = x.magnitude) :
    y = x := by
  obtain ⟨_, _, _⟩ := x
  obtain ⟨_, _, _⟩ := y
  obtain rfl : _ = _ := hsign
  obtain rfl : _ = _ := hmagnitude
  rfl

theorem eq_zero_of_magnitude (h : x.magnitude = 0) : x = zero x.negative := eq_of_magnitude_eq rfl h

end Binary64

namespace Json

variable {x y : Binary64}

/-- What is read back from the text of a float. -/
structure ReadsBackAs (x y : Binary64) : Prop where
  read_eq : read (Value.float x).json = .ok (.float y)
  finite : y.isFinite = true
  negative_eq : y.negative = x.negative
  le_add : y.magnitude ≤ x.magnitude + 3
  add_ge : x.magnitude ≤ y.magnitude + 3

/-- What the reader makes of a number's magnitude, with the sign of the number. -/
def withSignOf (x y : Binary64) : Binary64 := if x.negative then y.neg else y

theorem magnitude_withSignOf (x y : Binary64) : (withSignOf x y).magnitude = y.magnitude := by
  rw [withSignOf]
  split
  next => rfl
  next => rfl

theorem negative_withSignOf (x : Binary64) (hy : y.negative = false) :
    (withSignOf x y).negative = x.negative := by
  rw [withSignOf]
  split
  next h => rw [neg, hy, h]; rfl
  next h => rw [hy, Bool.eq_false_iff.2 h]

theorem readsBackAs_of_zero (finite : x.isFinite = true) (h : x.magnitude = 0) : ReadsBackAs x x := by
  refine ⟨?_, finite, rfl, Nat.le_add_right _ _, Nat.le_add_right _ _⟩
  have hread := read_zero x.negative
  rwa [← eq_zero_of_magnitude h] at hread

theorem exists_readsBackAs (finite : x.isFinite = true) :
    ∃ y, ReadsBackAs x y ∧ (x.IsShort → y = x) := by
  obtain hzero | hpos := Nat.eq_zero_or_pos x.magnitude
  · exact ⟨x, readsBackAs_of_zero finite hzero, fun _ => rfl⟩
  have hmagnitude : x.magnitude < infiniteMagnitude := of_decide_eq_true finite
  obtain ⟨y, hscale, hbeside, hfinite⟩ := exists_finite_beside hpos hmagnitude
  have hsame := magnitude_withSignOf x y
  have hsign := negative_withSignOf x hbeside.nonnegative
  refine ⟨withSignOf x y, ⟨read_float finite hpos hscale, ?_, hsign, ?_, ?_⟩, ?_⟩
  · rw [isFinite, hsame]
    exact decide_eq_true hfinite
  · rw [hsame]
    exact hbeside.le_add
  · rw [hsame]
    exact hbeside.add_ge
  · intro hshort
    obtain ⟨hdigits, hexponent⟩ := hshort.resolve_left (Nat.ne_of_gt hpos)
    obtain ⟨z, hz, -, hexact⟩ := scale_of_short (digits_gatheredOf_pos hpos) hdigits hexponent
      hmagnitude (roundsTo_gatheredOf hpos)
    obtain rfl := Option.some.inj (hscale.symm.trans hz)
    exact eq_of_magnitude_eq hsign (hsame.trans hexact)

section Balanced

open Expression (Balanced)

theorem balanced_of_digits {cs : List Char} (h : ∀ c ∈ cs, c.isDigit = true) : Balanced cs :=
  .of_plain fun c hc => Expression.plain_of_isDigit (h c hc)

theorem balanced_ofInt (i : Int) : Balanced (Decimal.ofInt i) := by
  have hdigits : ∀ n, Balanced (Nat.toDigits 10 n) :=
    fun n => balanced_of_digits Decimal.isDigit_of_mem_toDigits
  cases i with
  | ofNat n => exact hdigits n
  | negSucc n => exact (Balanced.singleton (by decide) (by decide) : Balanced ['-']).append (hdigits _)

/-- No parentheses stand in the text of a number. -/
theorem balanced_digits (l : Decimal.Layout) (d : Decimal.Digits) : Balanced (l.digits d) := by
  obtain ⟨whole, part, rest, e, h⟩ := Decimal.exists_writes l d
  have hsingle : ∀ c, c ≠ '(' → c ≠ ')' → Balanced [c] := fun c => .singleton
  have hwhole := balanced_of_digits h.whole_digits
  have hpart := balanced_of_digits h.part_digits
  have hmantissa : Balanced (Decimal.mantissa whole part) := by
    rw [Decimal.mantissa]
    split
    next => exact hwhole
    next => exact hwhole.append ((hsingle '.' (by decide) (by decide)).append hpart)
  rw [h.text]
  apply hmantissa.append
  rcases h.range with ⟨rfl, -⟩ | ⟨rfl, -⟩
  · exact .nil
  · have hplus : Balanced (if l.plus ∧ 0 < e then ['+'] else []) := by
      split
      next => exact hsingle '+' (by decide) (by decide)
      next => exact .nil
    exact (hsingle 'e' (by decide) (by decide)).append (hplus.append (balanced_ofInt e))

theorem balanced_json (finite : x.isFinite = true) : Balanced (Value.float x).json.toList := by
  have hsigned : ∀ {cs}, Balanced cs → Balanced (Decimal.signed x.negative cs) := by
    intro cs hcs
    rw [Decimal.signed]
    split
    next => exact (Balanced.singleton (by decide) (by decide) : Balanced ['-']).append hcs
    next => exact hcs
  rw [Value.json, String.toList_ofList]
  obtain hzero | hpos := Nat.eq_zero_or_pos x.magnitude
  · rw [eq_zero_of_magnitude hzero, write_zero]
    exact hsigned (Expression.balanced_iff.2 rfl)
  · rw [write_of_pos finite hpos]
    exact hsigned (balanced_digits _ _)

end Balanced

end Json

namespace Node

/-- Under all options an expression builds, and it draws a value every time, at once and without random
words. -/
def DrawsOnly (e : String) (v : Value) : Prop :=
  ∀ o b, ∃ n b', (build .standard o e).run.run b = (.ok n, b') ∧
    ∀ s, n.source.draw.run.run s = (.ok (.ready v), s)

theorem drawsOnly_literal {e text : String} {v : Value}
    (parsed : Expression.parse e = .ok ⟨"literal", [text]⟩) (read : Json.read text = .ok v) :
    DrawsOnly e v := by
  intro o b
  obtain ⟨b', built⟩ := returns_build_literal (o := o) parsed (orDefault_empty text [] ▸ read) b
  exact ⟨_, b', built, fun s => rfl⟩

/-- A finite float is read back from its JSON text as a float that is at most three numbers away, and
exactly if its digits are few enough. The literal of that text draws what is read. -/
theorem float_literal_draws_nearby {x : Binary64} (finite : x.isFinite = true) :
    ∃ y, Json.ReadsBackAs x y ∧ (x.IsShort → y = x) ∧
      Expression.parse (Invocation.render ⟨"literal", [(Value.float x).json]⟩) =
        .ok ⟨"literal", [(Value.float x).json]⟩ ∧
      ∀ e, Expression.parse e = .ok ⟨"literal", [(Value.float x).json]⟩ → DrawsOnly e (.float y) := by
  obtain ⟨y, hback, hexact⟩ := Json.exists_readsBackAs finite
  have hformed : Invocation.WellFormed ⟨"literal", [(Value.float x).json]⟩ :=
    Expression.wellFormed_shorthand (by decide) (Expression.balanced_iff.2 rfl)
      (Json.balanced_json finite)
  exact ⟨y, hback, hexact, Expression.parse_render hformed,
    fun e parsed => drawsOnly_literal parsed hback.read_eq⟩

theorem tenth_is_drawn :
    let x := Binary64.ofBits 0x3fb999999999999a
    x.isFinite = true ∧ x.IsShort ∧ (Value.float x).json = "0.1" ∧ Json.read "0.1" = .ok (.float x) ∧
      DrawsOnly "literal:0.1" (.float x) := by
  intro x
  have finite : x.isFinite = true := by decide
  have hshort : x.IsShort := by decide +kernel
  have hjson : (Value.float x).json = "0.1" := by decide +kernel
  obtain ⟨y, hback, hexact, -, hdraws⟩ := float_literal_draws_nearby finite
  obtain rfl := hexact hshort
  have parsed : Expression.parse "literal:0.1" = .ok ⟨"literal", ["0.1"]⟩ := rfl
  exact ⟨finite, hshort, hjson, hjson ▸ hback.read_eq, hdraws _ (hjson ▸ parsed)⟩

/-- The greatest whole number with an exact successor is written with all its digits, and the one before
it is read. -/
theorem limit_is_drawn_less :
    let x := Binary64.ofBits 0x433fffffffffffff
    let y := Binary64.ofBits 0x433ffffffffffffe
    x.isFinite = true ∧ (Value.float x).json = "9007199254740991.0" ∧
      Json.read (Value.float x).json = .ok (.float y) ∧ y.eq x = false ∧
      DrawsOnly "literal:9007199254740991.0" (.float y) := by
  intro x y
  have finite : x.isFinite = true := by decide
  have hjson : (Value.float x).json = "9007199254740991.0" := by decide +kernel
  have hscale : Json.scale (Json.gatheredOf x.magnitude).digits
      (Json.gatheredOf x.magnitude).exponent = some y := by
    decide +kernel
  have hread : Json.read (Value.float x).json = .ok (.float y) :=
    Json.read_float finite (by decide) hscale
  have parsed : Expression.parse "literal:9007199254740991.0" =
      .ok ⟨"literal", ["9007199254740991.0"]⟩ := rfl
  exact ⟨finite, hjson, hread, by decide, drawsOnly_literal parsed (hjson ▸ hread)⟩

end Node

end GenExpr
