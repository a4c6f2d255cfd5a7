import GenExpr.Proofs.Json.Integer
import Mathlib.Data.List.TakeWhile

/-!
# Reading with more text after

What a reader takes off the front of a text it also takes off when the text goes on, as long as that does
not go on with a number. A reader that may open more brackets takes the same, too. So a value is read
inside a document as it is read on its own.
-/

namespace GenExpr.Json

/-- What one reader takes off a text, another takes off the text with more after it. -/
def Extends {α : Type} (t : List Char) (f g : Reader α) : Prop :=
  ∀ cs a r, f cs = .ok (a, r) → g (cs ++ t) = .ok (a, r ++ t)

section Blanks

/-- There are only blanks in a text. -/
def Blank (bs : List Char) : Prop := ∀ c ∈ bs, isBlank c = true

instance (bs : List Char) : Decidable (Blank bs) := List.decidableBAll _ bs

theorem skipBlank_append_of_blank {bs : List Char} (h : Blank bs) (cs : List Char) :
    skipBlank (bs ++ cs) = skipBlank cs := List.dropWhile_append_of_pos h

theorem skipBlank_eq_nil_iff {cs : List Char} : skipBlank cs = [] ↔ Blank cs :=
  List.dropWhile_eq_nil_iff

/-- Blanks do not go on with a number. -/
theorem Blank.apart_append {bs cs : List Char} (h : Blank bs) (hcs : Apart cs) : Apart (bs ++ cs) := by
  intro c r hcr
  cases bs with
  | nil => exact hcs c r hcr
  | cons b bs =>
    obtain ⟨rfl, -⟩ := List.cons.inj hcr
    have hblank := h b List.mem_cons_self
    simp only [isBlank, Bool.or_eq_true, decide_eq_true_eq] at hblank
    rcases hblank with ((rfl | rfl) | rfl) | rfl
    · decide
    · decide
    · decide
    · decide

/-- A text is read as a whole if nothing but blanks is left of it. -/
theorem readAll_eq_ok_iff {α : Type} {reader : Reader α} {text : String} {a : α} :
    readAll reader text = .ok a ↔ ∃ r, reader text.toList = .ok (a, r) ∧ Blank r := by
  constructor
  · intro h
    rw [readAll] at h
    split at h
    next => cases h
    next b r hread =>
      rw [finish] at h
      split at h
      next => cases h
      next hfinish =>
        obtain rfl := Except.ok.inj h
        split at hfinish
        next hskip => exact ⟨r, hread, skipBlank_eq_nil_iff.1 hskip⟩
        next => cases hfinish
  · rintro ⟨r, hread, hblank⟩
    simp only [readAll, hread, finish, skipBlank_eq_nil_iff.2 hblank]

end Blanks

section Strings

variable {t : List Char}

theorem skipBlank_append {cs r : List Char} {c : Char} (h : skipBlank cs = c :: r) (t : List Char) :
    skipBlank (cs ++ t) = c :: (r ++ t) := by
  rw [skipBlank] at h
  rw [skipBlank, List.dropWhile_append, h]
  rfl

theorem word_append {ws cs r : List Char} (h : word ws cs = .ok r) (t : List Char) :
    word ws (cs ++ t) = .ok (r ++ t) := by
  induction ws generalizing cs with
  | nil =>
    obtain rfl := Except.ok.inj h
    rfl
  | cons w ws ih =>
    cases cs with
    | nil => cases h
    | cons c cs =>
      rw [word] at h
      rw [List.cons_append, word]
      split at h
      next hc =>
        rw [if_pos hc]
        exact ih h
      next => cases h

theorem length_of_hexQuad? {cs : List Char} {n : Nat} (h : hexQuad? cs = some n) : cs.length = 4 := by
  rw [hexQuad?.eq_def] at h
  split at h
  next => rfl
  next => cases h

theorem extends_hexQuad : Extends t hexQuad hexQuad := by
  intro cs n r h
  rw [hexQuad] at h
  split at h
  next => cases h
  next hbytes =>
    split at h
    next m hquad =>
      obtain ⟨rfl, rfl⟩ := Prod.mk.inj (Except.ok.inj h)
      have hlength := length_of_hexQuad? hquad
      rw [List.length_take] at hlength
      have htake : (cs ++ t).take 4 = cs.take 4 := List.take_append_of_le_length (by omega)
      have hdrop : (cs ++ t).drop 4 = cs.drop 4 ++ t := List.drop_append_of_le_length (by omega)
      simp only [hexQuad, htake, hdrop, if_neg hbytes, hquad]
    next => cases h

theorem extends_codePoint : Extends t codePoint codePoint := by
  intro cs c r h
  rw [codePoint] at h
  split at h
  next => cases h
  next n r₁ hfirst =>
    rw [codePoint, extends_hexQuad _ _ _ hfirst]
    split at h
    next => cases h
    next hlone =>
      simp only [if_neg hlone]
      split at h
      next hsingle =>
        obtain ⟨rfl, rfl⟩ := Prod.mk.inj (Except.ok.inj h)
        rw [if_pos hsingle]
      next hsingle =>
        rw [if_neg hsingle]
        split at h
        next r₂ =>
          split at h
          next => cases h
          next m r₃ hsecond =>
            simp only [List.cons_append, extends_hexQuad _ _ _ hsecond]
            split at h
            next hpair =>
              obtain ⟨rfl, rfl⟩ := Prod.mk.inj (Except.ok.inj h)
              rw [if_pos hpair]
            next => cases h
        next => cases h
        next => cases h
        next => cases h
        next => cases h

/-- A character after a backslash stands for one character or for none, unless it begins a number. -/
theorem escaped_cases {d : Char} (hu : d ≠ 'u') :
    (∃ c, ∀ r, escaped (d :: r) = .ok (c, r)) ∨ ∀ r, ∃ e, escaped (d :: r) = .error e := by
  by_cases hself : d = '"' ∨ d = '\\' ∨ d = '/'
  · exact .inl ⟨d, fun r => if_pos hself⟩
  by_cases hletter : d ∈ ['b', 'f', 'n', 'r', 't']
  · simp only [List.mem_cons, List.not_mem_nil, or_false] at hletter
    rcases hletter with rfl | rfl | rfl | rfl | rfl
    · exact .inl ⟨_, fun _ => rfl⟩
    · exact .inl ⟨_, fun _ => rfl⟩
    · exact .inl ⟨_, fun _ => rfl⟩
    · exact .inl ⟨_, fun _ => rfl⟩
    · exact .inl ⟨_, fun _ => rfl⟩
  · simp only [List.mem_cons, List.not_mem_nil, or_false, not_or] at hletter
    obtain ⟨hb, hf, hn, hr, ht⟩ := hletter
    refine .inr fun r => ⟨.at .invalidEscape (d :: r), ?_⟩
    simp only [escaped, if_neg hself, if_neg hb, if_neg hf, if_neg hn, if_neg hr, if_neg ht, if_neg hu]

theorem extends_escaped : Extends t escaped escaped := by
  intro cs c r h
  cases cs with
  | nil => cases h
  | cons d cs =>
    by_cases hu : d = 'u'
    · subst hu
      exact extends_codePoint _ _ _ h
    · rcases escaped_cases hu with ⟨c', hc⟩ | herror
      · rw [hc] at h
        obtain ⟨rfl, rfl⟩ := Prod.mk.inj (Except.ok.inj h)
        rw [List.cons_append, hc]
      · obtain ⟨e, he⟩ := herror cs
        rw [he] at h
        cases h

/-- With more to come there is still the same string, and fuel does not matter beyond what is needed. -/
theorem characters_append {n m : Nat} {cs more r : List Char} (h : characters n cs = .ok (more, r))
    (hle : n ≤ m) : characters m (cs ++ t) = .ok (more, r ++ t) := by
  induction n generalizing m cs more with
  | zero => cases h
  | succ n ih =>
    obtain ⟨m, rfl⟩ := Nat.exists_eq_succ_of_ne_zero (Nat.ne_zero_of_lt hle)
    have hle := Nat.le_of_succ_le_succ hle
    cases cs with
    | nil => cases h
    | cons c cs =>
      rw [characters] at h
      rw [List.cons_append, characters]
      split at h
      next hquote =>
        obtain ⟨rfl, rfl⟩ := Prod.mk.inj (Except.ok.inj h)
        rw [if_pos hquote]
      next hquote =>
        rw [if_neg hquote]
        split at h
        next hslash =>
          rw [if_pos hslash]
          split at h
          next => cases h
          next d r₁ hescaped =>
            simp only [extends_escaped _ _ _ hescaped]
            split at h
            next => cases h
            next more' r₂ hmore =>
              obtain ⟨rfl, rfl⟩ := Prod.mk.inj (Except.ok.inj h)
              rw [ih hmore hle]
        next hslash =>
          rw [if_neg hslash]
          split at h
          next => cases h
          next hcontrol =>
            rw [if_neg hcontrol]
            split at h
            next => cases h
            next more' r₂ hmore =>
              obtain ⟨rfl, rfl⟩ := Prod.mk.inj (Except.ok.inj h)
              rw [ih hmore hle]

theorem extends_stringRest : Extends t stringRest stringRest := by
  intro cs s r h
  rw [stringRest] at h
  split at h
  next => cases h
  next chars r₁ hchars =>
    obtain ⟨rfl, rfl⟩ := Prod.mk.inj (Except.ok.inj h)
    have hlength : cs.length + 1 ≤ (cs ++ t).length + 1 := by
      rw [List.length_append]
      omega
    rw [stringRest, characters_append hchars hlength]

end Strings

section Numbers

variable {t : List Char} (ht : Apart t)
include ht

theorem Apart.startsWithDigit_append (cs : List Char) :
    startsWithDigit (cs ++ t) = startsWithDigit cs := by
  cases cs with
  | nil => exact ht.not_startsWithDigit
  | cons c r => rfl

theorem Apart.takeWhile_append (cs : List Char) :
    (cs ++ t).takeWhile Char.isDigit = cs.takeWhile Char.isDigit := by
  induction cs with
  | nil =>
    cases t with
    | nil => rfl
    | cons c r => rw [List.nil_append, List.takeWhile_cons, (ht c r rfl).1]; rfl
  | cons c r ih => rw [List.cons_append, List.takeWhile_cons, List.takeWhile_cons, ih]

theorem Apart.dropWhile_append (cs : List Char) :
    (cs ++ t).dropWhile Char.isDigit = cs.dropWhile Char.isDigit ++ t := by
  induction cs with
  | nil =>
    cases t with
    | nil => rfl
    | cons c r => rw [List.nil_append, List.dropWhile_cons, (ht c r rfl).1]; rfl
  | cons c r ih =>
    rw [List.cons_append, List.dropWhile_cons, List.dropWhile_cons, ih]
    split
    next => rfl
    next => rfl

theorem Apart.gather_append (significand count : Nat) (cs : List Char) :
    gather significand count (cs ++ t) = ((gather significand count cs).1,
      (gather significand count cs).2.1, (gather significand count cs).2.2 ++ t) := by
  induction cs generalizing significand count with
  | nil =>
    cases t with
    | nil => rfl
    | cons c r =>
      have hc := (ht c r rfl).1
      simp [gather, hc]
  | cons c r ih =>
    rw [List.cons_append, gather, gather]
    split
    next => exact ih _ _
    next => rfl

theorem Apart.gatherExponent_append (n : Nat) (cs : List Char) :
    gatherExponent n (cs ++ t) = ((gatherExponent n cs).1, (gatherExponent n cs).2 ++ t) := by
  induction cs generalizing n with
  | nil =>
    cases t with
    | nil => rfl
    | cons c r =>
      have hc := (ht c r rfl).1
      simp [gatherExponent, hc]
  | cons c r ih =>
    rw [List.cons_append, gatherExponent, gatherExponent]
    split
    next =>
      split
      next => exact ih _
      next => rfl
    next => rfl

variable {negative : Bool} {significand : Nat}

omit ht in
theorem extends_float {e : Int} : Extends t (float negative significand e) (float negative significand e) := by
  intro cs x r h
  rw [float] at h
  rw [float]
  split at h
  next => cases h
  next y hscale =>
    obtain ⟨rfl, rfl⟩ := Prod.mk.inj (Except.ok.inj h)
    rfl

omit ht in
theorem sign?_append {cs : List Char} (h : cs ≠ []) (t : List Char) :
    Decimal.sign? (cs ++ t) = ((Decimal.sign? cs).1, (Decimal.sign? cs).2 ++ t) := by
  cases cs with
  | nil => exact absurd rfl h
  | cons c r =>
    by_cases hminus : c = '-'
    · subst hminus
      rfl
    · by_cases hplus : c = '+'
      · subst hplus
        rfl
      · have hsign : ∀ cs, Decimal.sign? (c :: cs) = (false, c :: cs) := by
          intro cs
          rw [Decimal.sign?.eq_def]
          split
          next heq => exact absurd (List.cons.inj heq).1 hminus
          next heq => exact absurd (List.cons.inj heq).1 hplus
          next => rfl
        rw [List.cons_append, hsign, hsign, List.cons_append]

theorem extends_exponent {start : Int} :
    Extends t (exponent negative significand start) (exponent negative significand start) := by
  intro cs x r h
  have hne : cs ≠ [] := by
    rintro rfl
    cases h
  rw [exponent] at h
  rw [exponent, sign?_append hne]
  generalize Decimal.sign? cs = signed at h ⊢
  obtain ⟨down, digits⟩ := signed
  cases digits with
  | nil => cases h
  | cons c digits =>
    simp only [List.cons_append] at h ⊢
    split at h
    next hc =>
      rw [if_pos hc, ht.gatherExponent_append]
      generalize gatherExponent (digit c) digits = gathered at h ⊢
      obtain ⟨_ | e, rest⟩ := gathered
      · simp only at h ⊢
        split at h
        next => cases h
        next hzero =>
          rw [if_neg hzero, ht.dropWhile_append]
          exact extends_float _ _ _ h
      · exact extends_float _ _ _ h
    next => cases h

theorem extends_ending {start : Int} :
    Extends t (ending negative significand start) (ending negative significand start) := by
  intro cs x r h
  cases cs with
  | nil =>
    -- The number has ended with its text, and what is after it has no exponent to add.
    have hfloat := extends_float (t := t) _ _ _ h
    rw [List.nil_append] at hfloat ⊢
    cases t with
    | nil => exact hfloat
    | cons c t =>
      obtain ⟨-, -, he, hE⟩ := ht c t rfl
      rw [ending, if_neg (not_or.2 ⟨he, hE⟩)]
      exact hfloat
  | cons c cs =>
    rw [ending] at h
    rw [List.cons_append, ending]
    split at h
    next hc =>
      rw [if_pos hc]
      exact extends_exponent ht _ _ _ h
    next hc =>
      rw [if_neg hc]
      exact extends_float _ _ _ h

theorem extends_decimals {start : Int} :
    Extends t (decimals negative significand start) (decimals negative significand start) := by
  intro cs x r h
  rw [decimals] at h
  rw [decimals, ht.gather_append]
  generalize gather significand 0 cs = gathered at h ⊢
  obtain ⟨significand, count, rest⟩ := gathered
  simp only [ht.startsWithDigit_append] at h ⊢
  split at h
  next hmore =>
    rw [if_pos hmore, ht.dropWhile_append]
    exact extends_ending ht _ _ _ h
  next hmore =>
    rw [if_neg hmore]
    split at h
    next =>
      split at h
      next => cases h
      next => cases h
    next hcount =>
      rw [if_neg hcount]
      exact extends_ending ht _ _ _ h

theorem whole_append_of_plain {cs r : List Char} {x : Number}
    (hplain : ∀ c r, cs = c :: r → c ≠ '.' ∧ c ≠ 'e' ∧ c ≠ 'E')
    (h : whole negative significand cs = .ok (x, r)) :
    whole negative significand (cs ++ t) = .ok (x, r ++ t) := by
  have happend : ∀ c r, cs ++ t = c :: r → c ≠ '.' ∧ c ≠ 'e' ∧ c ≠ 'E' := by
    intro c r hcr
    cases cs with
    | nil => exact (ht c r hcr).2
    | cons d cs =>
      obtain ⟨rfl, -⟩ := List.cons.inj hcr
      exact hplain d cs rfl
  rw [whole_of_plain _ _ hplain] at h
  rw [whole_of_plain _ _ happend]
  split at h
  next hpositive =>
    obtain ⟨rfl, rfl⟩ := Prod.mk.inj (Except.ok.inj h)
    rw [if_pos hpositive]
  next hpositive =>
    rw [if_neg hpositive]
    split at h
    next hword =>
      obtain ⟨rfl, rfl⟩ := Prod.mk.inj (Except.ok.inj h)
      rw [if_pos hword]
    next hword =>
      obtain ⟨rfl, rfl⟩ := Prod.mk.inj (Except.ok.inj h)
      rw [if_neg hword]

theorem extends_whole : Extends t (whole negative significand) (whole negative significand) := by
  intro cs x r h
  cases cs with
  | nil =>
    refine whole_append_of_plain ht ?_ h
    intro d r hcons
    cases hcons
  | cons c cs =>
    by_cases hdot : c = '.'
    · subst hdot
      exact extends_decimals ht _ _ _ h
    by_cases he : c = 'e'
    · subst he
      have hending : ending negative significand 0 ('e' :: cs) = .ok (x, r) := h
      exact extends_ending ht _ _ _ hending
    by_cases hE : c = 'E'
    · subst hE
      have hending : ending negative significand 0 ('E' :: cs) = .ok (x, r) := h
      exact extends_ending ht _ _ _ hending
    · refine whole_append_of_plain ht ?_ h
      intro d r hcons
      obtain ⟨rfl, -⟩ := List.cons.inj hcons
      exact ⟨hdot, he, hE⟩

theorem extends_long : Extends t (long negative significand) (long negative significand) := by
  intro cs x r h
  rw [long] at h
  rw [long, ht.takeWhile_append, ht.dropWhile_append]
  generalize cs.dropWhile Char.isDigit = rest at h ⊢
  split at h
  next rest => exact extends_decimals ht _ _ _ h
  next hdot =>
    have hending := extends_ending ht _ _ _ h
    split
    next rest' heq =>
      cases rest with
      | nil => exact absurd rfl (ht '.' rest' heq).2.1
      | cons c rest =>
        obtain ⟨rfl, -⟩ := List.cons.inj heq
        exact absurd rfl (hdot rest)
    next => exact hending

theorem extends_unsigned : Extends t (unsigned negative) (unsigned negative) := by
  intro cs x r h
  cases cs with
  | nil => cases h
  | cons c cs =>
    rw [unsigned] at h
    rw [List.cons_append, unsigned, ht.startsWithDigit_append, ht.gather_append]
    split at h
    next hzero =>
      rw [if_pos hzero]
      split at h
      next => cases h
      next hdigit =>
        rw [if_neg hdigit]
        exact extends_whole ht _ _ _ h
    next hzero =>
      rw [if_neg hzero]
      split at h
      next hdigit =>
        rw [if_pos hdigit]
        generalize gather (digit c) 1 cs = gathered at h ⊢
        obtain ⟨significand, count, rest⟩ := gathered
        simp only [ht.startsWithDigit_append] at h ⊢
        split at h
        next hmore =>
          rw [if_pos hmore]
          exact extends_long ht _ _ _ h
        next hmore =>
          rw [if_neg hmore]
          exact extends_whole ht _ _ _ h
      next => cases h

theorem extends_number : Extends t number number := by
  intro cs x r h
  rw [number.eq_def] at h
  split at h
  next rest => exact extends_unsigned ht _ _ _ h
  next hsign =>
    have hne : cs ≠ [] := by
      rintro rfl
      cases h
    have hnumber : number (cs ++ t) = unsigned false (cs ++ t) := by
      cases cs with
      | nil => exact absurd rfl hne
      | cons c cs =>
        rw [number.eq_def]
        split
        next heq =>
          obtain ⟨rfl, -⟩ := List.cons.inj heq
          exact absurd rfl (hsign cs)
        next => rfl
    rw [hnumber]
    exact extends_unsigned ht _ _ _ h

theorem extends_numberValue : Extends t numberValue numberValue := by
  intro cs v r h
  rw [numberValue] at h
  split at h
  next => cases h
  next n r₁ hnumber =>
    obtain ⟨rfl, rfl⟩ := Prod.mk.inj (Except.ok.inj h)
    rw [numberValue, extends_number ht _ _ _ hnumber]

end Numbers

section Brackets

variable {t : List Char}

/-- What comes next among the parts of a list or an object: its closing bracket, which leaves a result,
or one part more, after a comma unless it is the first. -/
def separated {α : Type} (close : Char) (inside : Inside) (expected : Cause) (result : α)
    (more : Reader α) (first : Bool) : Reader α := fun cs =>
  match skipBlank cs with
  | [] => .error (.ended inside)
  | c :: r =>
    if c = close then .ok (result, r)
    else if first then more (c :: r)
    else if c = ',' then
      match skipBlank r with
      | [] => .error (.ended .value)
      | d :: r => if d = close then .error (.at .trailingComma (d :: r)) else more (d :: r)
    else .error (.at expected (c :: r))

section Separated

variable {α : Type} {close : Char} {inside : Inside} {expected : Cause} {result : α}
variable {more more' : Reader α} {first : Bool}

/-- Blanks before a part do not matter. -/
theorem separated_congr {cs cs' : List Char} (h : skipBlank cs = skipBlank cs') :
    separated close inside expected result more first cs =
      separated close inside expected result more first cs' := by
  rw [separated, separated, h]

theorem separated_first {cs r : List Char} {c : Char} (h : skipBlank cs = c :: r) (hclose : c ≠ close) :
    separated close inside expected result more true cs = more (c :: r) := by
  simp only [separated, h, if_neg hclose, if_true]

theorem separated_comma {cs r : List Char} {c : Char} (h : skipBlank cs = c :: r) (hclose : c ≠ close)
    (hcomma : close ≠ ',') :
    separated close inside expected result more false (',' :: cs) = more (c :: r) := by
  have hskip : skipBlank (',' :: cs) = ',' :: cs := rfl
  simp only [separated, hskip, h, if_neg hclose, if_neg hcomma.symm, if_true, Bool.false_eq_true, if_false]

theorem extends_separated (hmore : Extends t more more') :
    Extends t (separated close inside expected result more first)
      (separated close inside expected result more' first) := by
  intro cs a r h
  rw [separated] at h
  rw [separated]
  split at h
  next => cases h
  next c r₀ hskip =>
    simp only [skipBlank_append hskip]
    split at h
    next hclose =>
      obtain ⟨rfl, rfl⟩ := Prod.mk.inj (Except.ok.inj h)
      rw [if_pos hclose]
    next hclose =>
      rw [if_neg hclose]
      split at h
      next hfirst =>
        rw [if_pos hfirst]
        exact hmore _ _ _ h
      next hfirst =>
        rw [if_neg hfirst]
        split at h
        next hcomma =>
          rw [if_pos hcomma]
          split at h
          next => cases h
          next d r₁ hskip' =>
            simp only [skipBlank_append hskip']
            split at h
            next => cases h
            next hend =>
              rw [if_neg hend]
              exact hmore _ _ _ h
        next => cases h

end Separated

/-- One item and the items after it. -/
def itemThen {α : Type} (item : Reader α) (more : Reader (List α)) : Reader (List α) := fun r =>
  match item r with
  | .error e => .error e
  | .ok (a, r) =>
    match more r with
    | .error e => .error e
    | .ok (as, r) => .ok (a :: as, r)

theorem items_succ {α : Type} (item : Reader α) (n : Nat) (first : Bool) :
    items item (n + 1) first =
      separated ']' .list .expectedListEnd [] (itemThen item (items item n false)) first := rfl

theorem extends_itemThen {α : Type} {item item' : Reader α} {more more' : Reader (List α)}
    (hitem : Extends t item item') (hmore : Extends t more more') :
    Extends t (itemThen item more) (itemThen item' more') := by
  intro cs as r h
  rw [itemThen] at h
  split at h
  next => cases h
  next a r₁ ha =>
    rw [itemThen, hitem _ _ _ ha]
    split at h
    next => cases h
    next as' r₂ has =>
      obtain ⟨rfl, rfl⟩ := Prod.mk.inj (Except.ok.inj h)
      simp only [hmore _ _ _ has]

/-- Fuel for the items of a list does not matter beyond what is needed. -/
theorem extends_items {α : Type} {item item' : Reader α} (hitem : Extends t item item') {n m : Nat}
    (hle : n ≤ m) (first : Bool) : Extends t (items item n first) (items item' m first) := by
  induction n generalizing m first with
  | zero =>
    intro cs as r h
    cases h
  | succ n ih =>
    obtain ⟨m, rfl⟩ := Nat.exists_eq_succ_of_ne_zero (Nat.ne_zero_of_lt hle)
    rw [items_succ, items_succ]
    exact extends_separated (extends_itemThen hitem (ih (Nat.le_of_succ_le_succ hle) false))

/-- A member, from its opening quote on, and the members after it. -/
def memberThen {σ : Type} (member : σ → String → Reader σ) (more : σ → Reader σ) (s : σ) : Reader σ :=
  fun r =>
    match r with
    | '"' :: r =>
      match stringRest r with
      | .error e => .error e
      | .ok (key, r) =>
        match member s key r with
        | .error e => .error e
        | .ok (s, r) => more s r
    | r => .error (.at .keyNotString r)

theorem members_succ {σ : Type} (member : σ → String → Reader σ) (n : Nat) (first : Bool) (s : σ) :
    members member (n + 1) first s = separated '\x7d' .object .expectedObjectEnd s
      (memberThen member (members member n false) s) first := rfl

theorem extends_memberThen {σ : Type} {member member' : σ → String → Reader σ}
    {more more' : σ → Reader σ} (hmember : ∀ s key, Extends t (member s key) (member' s key))
    (hmore : ∀ s, Extends t (more s) (more' s)) (s : σ) :
    Extends t (memberThen member more s) (memberThen member' more' s) := by
  intro cs s' r h
  rw [memberThen.eq_def] at h
  split at h
  next r₀ =>
    rw [List.cons_append, memberThen]
    split at h
    next => cases h
    next key r₁ hkey =>
      simp only [extends_stringRest _ _ _ hkey]
      split at h
      next => cases h
      next s₁ r₂ hs =>
        simp only [hmember s key _ _ _ hs]
        exact hmore s₁ _ _ _ h
  next => cases h

/-- Fuel for the members of an object does not matter beyond what is needed. -/
theorem extends_members {σ : Type} {member member' : σ → String → Reader σ}
    (hmember : ∀ s key, Extends t (member s key) (member' s key)) {n m : Nat} (hle : n ≤ m)
    (first : Bool) (s : σ) :
    Extends t (members member n first s) (members member' m first s) := by
  induction n generalizing m first s with
  | zero =>
    intro cs as r h
    cases h
  | succ n ih =>
    obtain ⟨m, rfl⟩ := Nat.exists_eq_succ_of_ne_zero (Nat.ne_zero_of_lt hle)
    have hmore := fun s => ih (Nat.le_of_succ_le_succ hle) false s
    rw [members_succ, members_succ]
    exact extends_separated (extends_memberThen hmember hmore s)

theorem colon_append {cs r : List Char} (h : colon cs = .ok r) (t : List Char) :
    colon (cs ++ t) = .ok (r ++ t) := by
  rw [colon] at h
  split at h
  next => cases h
  next r₀ hskip =>
    obtain rfl := Except.ok.inj h
    rw [colon, skipBlank_append hskip]
    rfl
  next => cases h

theorem extends_entry {value value' : Reader Value} (hvalue : Extends t value value')
    (entries : List (String × Value)) (key : String) :
    Extends t (entry value entries key) (entry value' entries key) := by
  intro cs entries' r h
  rw [entry] at h
  split at h
  next => cases h
  next r₀ hcolon =>
    rw [entry, colon_append hcolon]
    split at h
    next => cases h
    next v r₁ hv =>
      obtain ⟨rfl, rfl⟩ := Prod.mk.inj (Except.ok.inj h)
      simp only [hvalue _ _ _ hv]

theorem extends_bracketed {inner inner' : Reader Value} (hinner : Extends t inner inner') (c : Char) :
    Extends t (bracketed inner c) (bracketed inner' c) := by
  intro cs v r h
  have hle : cs.length + 1 ≤ (cs ++ t).length + 1 := by
    rw [List.length_append]
    omega
  rw [bracketed] at h
  rw [bracketed]
  split at h
  next hlist =>
    rw [if_pos hlist]
    split at h
    next => cases h
    next vs r₁ hitems =>
      obtain ⟨rfl, rfl⟩ := Prod.mk.inj (Except.ok.inj h)
      rw [extends_items hinner hle true _ _ _ hitems]
  next hlist =>
    rw [if_neg hlist]
    split at h
    next => cases h
    next entries r₁ hmembers =>
      obtain ⟨rfl, rfl⟩ := Prod.mk.inj (Except.ok.inj h)
      rw [extends_members (fun es key => extends_entry hinner es key) hle true [] _ _ _ hmembers]

end Brackets

section Values

variable {t : List Char}

theorem extends_wordValue (rest : List Char) (v : Value) :
    Extends t (wordValue rest v) (wordValue rest v) := by
  intro cs w r h
  rw [wordValue] at h
  split at h
  next => cases h
  next r₀ hword =>
    obtain ⟨rfl, rfl⟩ := Prod.mk.inj (Except.ok.inj h)
    rw [wordValue, word_append hword]

theorem extends_valueWith (ht : Apart t) {bracket bracket' : Char → Reader Value}
    (hbracket : ∀ c, Extends t (bracket c) (bracket' c)) :
    Extends t (valueWith bracket) (valueWith bracket') := by
  intro cs v r h
  rw [valueWith] at h
  split at h
  next => cases h
  next c r₀ hskip =>
    simp only [valueWith, skipBlank_append hskip]
    split at h
    next hc => rw [if_pos hc]; exact extends_wordValue _ _ _ _ _ h
    next hn =>
      rw [if_neg hn]
      split at h
      next hc => rw [if_pos hc]; exact extends_wordValue _ _ _ _ _ h
      next ht' =>
        rw [if_neg ht']
        split at h
        next hc => rw [if_pos hc]; exact extends_wordValue _ _ _ _ _ h
        next hf =>
          rw [if_neg hf]
          split at h
          next hc => rw [if_pos hc]; exact extends_numberValue ht _ _ _ h
          next hnumber =>
            rw [if_neg hnumber]
            split at h
            next hc =>
              rw [if_pos hc]
              split at h
              next => cases h
              next s r₁ hs =>
                obtain ⟨rfl, rfl⟩ := Prod.mk.inj (Except.ok.inj h)
                simp only [extends_stringRest _ _ _ hs]
            next hquote =>
              rw [if_neg hquote]
              split at h
              next hc => rw [if_pos hc]; exact hbracket _ _ _ _ h
              next => cases h

/-- A value is read the same with more text after it and with more brackets allowed. -/
theorem extends_value (ht : Apart t) {depth depth' : Nat} (hle : depth ≤ depth') :
    Extends t (value depth) (value depth') := by
  induction depth generalizing depth' with
  | zero =>
    have hnone : ∀ bracket : Char → Reader Value, ∀ c,
        Extends t (fun r => .error (.at .tooDeep (c :: r))) (bracket c) := by
      intro bracket c cs v r h
      cases h
    cases depth' with
    | zero => exact extends_valueWith ht (hnone _)
    | succ depth' => exact extends_valueWith ht (hnone _)
  | succ depth ih =>
    obtain ⟨depth', rfl⟩ := Nat.exists_eq_succ_of_ne_zero (Nat.ne_zero_of_lt hle)
    exact extends_valueWith ht (extends_bracketed (ih (Nat.le_of_succ_le_succ hle)))

end Values

end GenExpr.Json
