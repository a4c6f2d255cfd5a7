import GenExpr.Proofs.Decimal.Layout
import GenExpr.Proofs.Deferred.Join
import GenExpr.Proofs.Node.Builtin

/-!
# Repetitions put together

Drawing a number of times and then another number of times is drawing so often as both together. What a
repetition draws is made of the texts of its draws in order, so that the text of the longer repetition is
put together from the texts of the two shorter ones.
-/

namespace GenExpr

open List (Forall₂)

namespace DrawM

variable {α : Type}

theorem repeated_add (x : DrawM α) (n m : Nat) :
    repeated x (n + m) = (do
      let as ← repeated x n
      return as ++ (← repeated x m)) := by
  induction n with
  | zero => simp [repeated]
  | succ n ih => simp [Nat.succ_add, repeated, ih]

theorem returns_repeated_add {x : DrawM α} {n m : Nat} {s s' : DrawState} {cs : List α} :
    Returns (repeated x (n + m)) s cs s' ↔
      ∃ as t bs, Returns (repeated x n) s as t ∧ Returns (repeated x m) t bs s' ∧ as ++ bs = cs := by
  rw [repeated_add, returns_bind]
  constructor
  · intro h
    obtain ⟨as, t, has, h⟩ := h
    obtain ⟨bs, hbs, rfl⟩ := returns_map.1 h
    exact ⟨as, t, bs, has, hbs, rfl⟩
  · intro h
    obtain ⟨as, t, bs, has, hbs, rfl⟩ := h
    exact ⟨as, t, has, returns_map.2 ⟨bs, hbs, rfl⟩⟩

end DrawM

/-- What comes of a draw is the text of one draw followed by that of another: at once, when it is polled
in a course of events, and when it is waited for. -/
structure Draw.Concatenates (d₁ d₂ d : Draw) : Prop where
  ready : ∀ v, d = .ready v ↔ ∃ a b, d₁ = .ready (.str a) ∧ d₂ = .ready (.str b) ∧ v = .str (a ++ b)
  settled : ∀ opened events v, d.after opened (events ++ [.polling]) = some (.ok v) ↔
    ∃ a b, d₁.after opened (events ++ [.polling]) = some (.ok (.str a)) ∧
      d₂.after opened (events ++ [.polling]) = some (.ok (.str b)) ∧ v = .str (a ++ b)
  waited : ∀ v, d.wait.run = .ok v ↔
    ∃ a b, d₁.wait.run = .ok (.str a) ∧ d₂.wait.run = .ok (.str b) ∧ v = .str (a ++ b)

/-- The text that values are put together to. -/
def Value.joined (vs : List Value) : String := String.join (vs.map Value.text)

theorem Value.joined_append (as bs : List Value) :
    Value.joined (as ++ bs) = Value.joined as ++ Value.joined bs := by
  simp [Value.joined]

namespace Draw

/-- A way to read values off draws that reads a concatenation item by item reads the concatenation of two
lists of draws as the two texts, one after the other. -/
theorem concat_append_iff (Reads : Draw → Value → Prop)
    (hreads : ∀ ds v, Reads (.all Value.concat ds) v ↔
      ∃ vs, Forall₂ Reads ds vs ∧ Value.concat vs = v) (ds ds' : List Draw) (v : Value) :
    Reads (.all Value.concat (ds ++ ds')) v ↔
      ∃ a b, Reads (.all Value.concat ds) (.str a) ∧ Reads (.all Value.concat ds') (.str b) ∧
        v = .str (a ++ b) := by
  simp only [hreads]
  constructor
  · intro h
    obtain ⟨vs, hvs, rfl⟩ := h
    refine ⟨Value.joined (vs.take ds.length), Value.joined (vs.drop ds.length), ?_, ?_, ?_⟩
    · exact ⟨_, List.forall₂_take_append vs ds ds' hvs.flip |>.flip, rfl⟩
    · exact ⟨_, List.forall₂_drop_append vs ds ds' hvs.flip |>.flip, rfl⟩
    · rw [← Value.joined_append, List.take_append_drop]
      rfl
  · intro h
    obtain ⟨a, b, ⟨vs, hvs, ha⟩, ⟨ws, hws, hb⟩, rfl⟩ := h
    refine ⟨vs ++ ws, List.rel_append hvs hws, ?_⟩
    rw [← Value.str.inj ha, ← Value.str.inj hb]
    exact congrArg Value.str (Value.joined_append vs ws)

theorem concatenates_append (ds ds' : List Draw) :
    Draw.Concatenates (.all Value.concat ds) (.all Value.concat ds')
      (.all Value.concat (ds ++ ds')) where
  ready := concat_append_iff (fun d v => d = .ready v) (fun _ _ => Deferred.all_eq_ready_iff) ds ds'
  settled opened events :=
    concat_append_iff (fun d v => d.after opened (events ++ [.polling]) = some (.ok v))
      (fun _ _ => Deferred.after_all_eq_ok_iff) ds ds'
  waited :=
    concat_append_iff (fun d v => d.wait.run = .ok v) (fun _ _ => Deferred.wait_all_eq_ok_iff) ds ds'

end Draw

theorem Decimal.count?_toDigits {n : Nat} (h : n < 1 <<< 64) : count? (Nat.toDigits 10 n) = some n := by
  have hdigits : (Nat.toDigits 10 n).all Char.isDigit = true := List.all_eq_true.2 isDigit_of_mem_toDigits
  have hunsigned : ∀ rest, Nat.toDigits 10 n ≠ '+' :: rest := by
    intro rest hplus
    have hdigit : '+'.isDigit = true := isDigit_of_mem_toDigits _ (hplus ▸ List.mem_cons_self)
    cases hdigit
  have hfits : natOfDigits (Nat.toDigits 10 n) < 1 <<< 64 := by rwa [natOfDigits_toDigits]
  rw [count?, if_pos ⟨Nat.toDigits_ne_nil, hdigits, hfits⟩, natOfDigits_toDigits]
  exact hunsigned

/-- A repetition whose count is written out in digits builds a source that draws so often. -/
theorem Builtin.build_repetition {count : Nat} (h : count < 1 <<< 64) (nest : String → BuildM Node)
    (o : Options) (e : String) : repetition.build nest o [toString count, e] =
      (do return .times count (← nest e).source) := by
  have counts : Decimal.count? (toString count).toList = some count := by
    rw [Nat.toString_eq_repr, Nat.toList_repr, Decimal.count?_toDigits h]
  rw [build, firstArgument_repetition, counts]

namespace Source

theorem returns_times {inner : Source} {count : Nat} {s s' : DrawState} {d : Draw} :
    Returns (times count inner).draw s d s' ↔
      ∃ ds, Returns (DrawM.repeated inner.draw count) s ds s' ∧ .all Value.concat ds = d := by
  rw [draw]
  exact returns_map

/-- Drawing a source so often as two counts together is drawing it so often as the one and then so often
as the other: it takes the same words and leaves the same state. What is drawn is the text of the first
draw followed by that of the second, whether they are there, settle in any course of events, or are
waited for. Each count that fits 64 bits can be written. -/
theorem repetition_is_additive (inner : Source) (n m : Nat) (s s' : DrawState) :
    (∀ d₁ t d₂, Returns (times n inner).draw s d₁ t → Returns (times m inner).draw t d₂ s' →
      ∃ d, Returns (times (n + m) inner).draw s d s' ∧ Draw.Concatenates d₁ d₂ d) ∧
    (∀ d, Returns (times (n + m) inner).draw s d s' →
      ∃ d₁ t d₂, Returns (times n inner).draw s d₁ t ∧ Returns (times m inner).draw t d₂ s' ∧
        Draw.Concatenates d₁ d₂ d) ∧
    (n + m < 1 <<< 64 → ∀ count ≤ n + m, ∀ nest o e,
      Builtin.repetition.build nest o [toString count, e] =
        (do return .times count (← nest e).source)) := by
  refine ⟨?_, ?_, ?_⟩
  · intro d₁ t d₂ h₁ h₂
    obtain ⟨ds₁, hds₁, rfl⟩ := returns_times.1 h₁
    obtain ⟨ds₂, hds₂, rfl⟩ := returns_times.1 h₂
    have htogether := DrawM.returns_repeated_add.2 ⟨ds₁, t, ds₂, hds₁, hds₂, rfl⟩
    exact ⟨_, returns_times.2 ⟨_, htogether, rfl⟩, Draw.concatenates_append ds₁ ds₂⟩
  · intro d h
    obtain ⟨ds, hds, rfl⟩ := returns_times.1 h
    obtain ⟨ds₁, t, ds₂, hds₁, hds₂, rfl⟩ := DrawM.returns_repeated_add.1 hds
    exact ⟨_, t, _, returns_times.2 ⟨ds₁, hds₁, rfl⟩, returns_times.2 ⟨ds₂, hds₂, rfl⟩,
      Draw.concatenates_append ds₁ ds₂⟩
  · intro hfits count hcount nest o e
    exact Builtin.build_repetition (Nat.lt_of_le_of_lt hcount hfits) nest o e

end Source

end GenExpr
