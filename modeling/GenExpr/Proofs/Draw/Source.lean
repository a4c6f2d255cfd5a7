import GenExpr.Proofs.Action
import GenExpr.Proofs.Deferred.Combine

/-!
# Draws that are there at once

Each source of a builtin kind draws a value at once, whatever the entropy and however often it was drawn
before. What the value is like follows from what the values of nested sources are like.
-/

namespace GenExpr

open List (Forall₂)

/-- Every draw of a source is there at once, and its value is of a kind. -/
def Source.Draws (s : Source) (P : Value → Prop) : Prop :=
  Always s.draw fun d => ∃ v, d = .ready v ∧ P v

/-- A value can be picked from a collection. -/
def Collection.Has : Collection → Value → Prop
  | items vs _, v => v ∈ vs
  | chars cs _, v => ∃ c ∈ cs, v = .str (String.singleton c)

theorem Collection.yields_random (c : Collection) : Sampling.Yields c.random c.Has := by
  cases c with
  | items vs h => exact Sampling.yields_pick h
  | chars cs h => exact (Sampling.yields_pick h).bind fun c hc => Sampling.Yields.pure ⟨c, hc, rfl⟩

namespace Source

variable {P : Value → Prop}

theorem Draws.mono {s : Source} {Q : Value → Prop} (h : s.Draws P) (hPQ : ∀ v, P v → Q v) :
    s.Draws Q := by
  intro state
  obtain ⟨_, state', hreturns, v, rfl, hv⟩ := h state
  exact ⟨_, state', hreturns, v, rfl, hPQ v hv⟩

theorem draws_letters (length : NumberRange) (l : Letters) :
    (letters length l).Draws fun v => ∃ s, v = .str s ∧ length.lowest.toNat ≤ s.length ∧
      s.length ≤ length.highest.toNat ∧ ∀ c ∈ s.toList, l.Has c := by
  unfold Draws
  rw [draw]
  apply (Always.sample length.yields_randomInt).bind
  intro n hn
  apply (Always.sample (l.yields_randomChars n.toNat)).map
  intro cs hcs
  obtain ⟨hlength, hall⟩ := hcs
  refine ⟨_, rfl, String.ofList cs, rfl, ?_, ?_, ?_⟩
  · rw [String.length_ofList, hlength]
    omega
  · rw [String.length_ofList, hlength]
    omega
  · rwa [String.toList_ofList]

theorem draws_text {inner : Source} (h : inner.Draws P) :
    (text inner).Draws fun v => ∃ u, P u ∧ v = .str u.text := by
  unfold Draws
  rw [draw]
  apply Always.map h
  intro w hw
  obtain ⟨u, rfl, hu⟩ := hw
  exact ⟨_, rfl, u, hu, rfl⟩

theorem draws_number (range : NumberRange) (precision : Option Binary64) :
    (number range precision).Draws fun v => ∃ x, v = .float x := by
  unfold Draws
  rw [draw]
  apply (Always.sample (.any _)).bind
  intro x _
  cases precision with
  | none => exact Always.pure ⟨_, rfl, _, rfl⟩
  | some p => exact Always.pure ⟨_, rfl, _, rfl⟩

theorem draws_int (range : NumberRange) :
    (int range).Draws fun v => ∃ i, v = .int i ∧ range.lowest ≤ i ∧ i ≤ range.highest := by
  unfold Draws
  rw [draw]
  exact (Always.sample range.yields_randomInt).map fun i hi => ⟨_, rfl, i, rfl, hi⟩

theorem draws_char (range : CharRange) :
    (char range).Draws fun v => ∃ c, v = .str (String.singleton c) ∧ range.min ≤ c ∧ c ≤ range.max := by
  unfold Draws
  rw [draw]
  exact (Always.sample range.yields_random).map fun c hc => ⟨_, rfl, c, rfl, hc⟩

theorem draws_boolean (bias : Binary64) : (boolean bias).Draws fun v => ∃ b, v = .bool b := by
  unfold Draws
  rw [draw]
  exact (Always.sample (.any _)).map fun b _ => ⟨_, rfl, b, rfl⟩

theorem draws_eq_map (items : List Source) : draws items = items.map draw := by
  induction items with
  | nil => rfl
  | cons s rest ih => rw [draws, ih, List.map_cons]

theorem draws_oneOf {first : Source} {others : List Source} (h : ∀ s ∈ first :: others, s.Draws P) :
    (oneOf first others).Draws P := by
  have hactions : ∀ action ∈ draw first :: draws others,
      Always action fun d => ∃ v, d = .ready v ∧ P v := by
    rw [draws_eq_map, ← List.map_cons]
    intro action haction
    obtain ⟨s, hs, rfl⟩ := List.mem_map.1 haction
    exact h s hs
  unfold Draws
  rw [draw]
  exact (Always.sample (.any _)).bind fun i _ => hactions _ (List.getElem_mem _)

theorem draws_array {γ : Type} {R : γ → Value → Prop} {cs : List γ} {items : List Source}
    (h : Forall₂ (fun c s => s.Draws (R c)) cs items) :
    (array items).Draws fun v => ∃ vs, v = .array vs ∧ Forall₂ R cs vs := by
  unfold Draws
  rw [draw, draws_eq_map]
  apply (Always.sequence (List.forall₂_map_right_iff.2 h)).map
  intro ds hds
  obtain ⟨vs, rfl, hvs⟩ := Deferred.exists_ready_of_forall₂ hds
  exact ⟨_, Deferred.all_map_ready .array vs, vs, rfl, hvs⟩

theorem draws_times {inner : Source} (h : inner.Draws P) (count : Nat) :
    (times count inner).Draws fun v =>
      ∃ vs : List Value, vs.length = count ∧ (∀ u ∈ vs, P u) ∧ v = Value.concat vs := by
  unfold Draws
  rw [draw]
  apply (Always.repeated h count).map
  intro ds hds
  obtain ⟨hlength, hall⟩ := hds
  obtain ⟨vs, rfl, hvs⟩ := Deferred.exists_ready_of_forall hall
  rw [List.length_map] at hlength
  exact ⟨_, Deferred.all_map_ready Value.concat vs, vs, hlength, hvs, rfl⟩

theorem draws_literal (v : Value) : (literal v).Draws (· = v) := by
  unfold Draws
  rw [draw]
  exact Always.pure ⟨v, rfl, rfl⟩

theorem draws_entry (collection : Collection) : (entry collection).Draws collection.Has := by
  unfold Draws
  rw [draw]
  exact (Always.sample collection.yields_random).map fun v hv => ⟨v, rfl, hv⟩

end Source

end GenExpr
