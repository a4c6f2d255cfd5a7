import GenExpr.Proofs.Draw.Suspension

/-!
# Prompt sources

A source is prompt if no draw of it is pending: each is there at once or fails. Whether draws are pending
is decided draw by draw, by the choice of a source out of several and by the parts that are put together.
A source is prompt all the same if every leaf that it can reach is.
-/

namespace GenExpr

/-- Each draw of a leaf is there at once or fails. -/
def Leaf.Prompt (l : Leaf) : Prop :=
  ∀ n, (∃ v, l.draw n = .ready v) ∨ ∃ e, l.draw n = .fail e

/-- Whenever a source can be drawn, the draw is there at once. -/
def Source.Prompt (s : Source) : Prop := Ensures s.draw fun d => d.isReady = true

theorem Deferred.isReady_map {α : Type} (f : α → α) (d : Deferred Id α) :
    (d.map f).isReady = d.isReady := by
  cases d <;> rfl

theorem Deferred.isReady_of_andThen {α : Type} {f : α → Except Error α} {d d' : Deferred Id α}
    (h : Deferred.andThen (m := Id) f d = .ok d') : d'.isReady = d.isReady := by
  cases d with
  | ready a =>
    have hready : Deferred.andThen (m := Id) f (.ready a) = (f a).map Deferred.ready := by
      rw [andThen]
      cases f a <;> rfl
    rw [hready] at h
    cases hfa : f a with
    | error e => simp [hfa, Except.map] at h
    | ok b =>
      rw [hfa] at h
      obtain rfl := Except.ok.inj h
      rfl
  | pending source =>
    obtain rfl := Except.ok.inj h
    rfl

namespace Source

mutual

/-- The leaves that some draw of a source may reach. -/
def leaves : Source → List Leaf
  | text inner => leaves inner
  | oneOf first others => leaves first ++ leavesOfAll others
  | array items => leavesOfAll items
  | times _ inner => leaves inner
  | leaf _ l => [l]
  | adapted inner _ => leaves inner
  | _ => []

def leavesOfAll : List Source → List Leaf
  | [] => []
  | s :: rest => leaves s ++ leavesOfAll rest

end

mutual

theorem isAsync_eq_any_leaves : ∀ s : Source, s.isAsync = s.leaves.any Leaf.asynchronous
  | text inner => by rw [isAsync, leaves, isAsync_eq_any_leaves inner]
  | oneOf first others => by
    rw [isAsync, leaves, isAsync_eq_any_leaves first, anyAsync_eq_any_leaves others, List.any_append]
  | array items => by rw [isAsync, leaves, anyAsync_eq_any_leaves items]
  | times _ inner => by rw [isAsync, leaves, isAsync_eq_any_leaves inner]
  | leaf _ l => by simp [isAsync, leaves]
  | adapted inner _ => by rw [isAsync, leaves, isAsync_eq_any_leaves inner]
  | letters _ _ | number _ _ | int _ | char _ | boolean _ | literal _ | entry _ => rfl

theorem anyAsync_eq_any_leaves :
    ∀ ss : List Source, anyAsync ss = (leavesOfAll ss).any Leaf.asynchronous
  | [] => rfl
  | s :: rest => by
    rw [anyAsync, leavesOfAll, isAsync_eq_any_leaves s, anyAsync_eq_any_leaves rest, List.any_append]

end

theorem IsPlain.prompt {s : Source} (h : s.IsPlain) : s.Prompt := by
  obtain ⟨x, hx⟩ := h
  unfold Prompt
  rw [hx]
  exact (Ensures.any (DrawM.sample x)).map fun _ _ => rfl

theorem prompt_text {inner : Source} (h : inner.Prompt) : (text inner).Prompt := by
  unfold Prompt
  rw [draw]
  exact Ensures.map h fun d hd => by rw [Deferred.isReady_map, hd]

theorem ensures_draws {ss : List Source} (h : ∀ s ∈ ss, s.Prompt) :
    ∀ action ∈ draws ss, Ensures action fun d => d.isReady = true := by
  rw [draws_eq_map, List.forall_mem_map]
  exact h

theorem prompt_oneOf {first : Source} {others : List Source} (h : ∀ s ∈ first :: others, s.Prompt) :
    (oneOf first others).Prompt := by
  have hactions : ∀ action ∈ draw first :: draws others,
      Ensures action fun d => d.isReady = true := ensures_draws h
  unfold Prompt
  rw [draw]
  exact (Ensures.any _).bind fun i _ => hactions _ (List.getElem_mem _)

theorem prompt_array {items : List Source} (h : ∀ s ∈ items, s.Prompt) : (array items).Prompt := by
  unfold Prompt
  rw [draw]
  exact (Ensures.sequence (ensures_draws h)).map fun _ hds => Deferred.isReady_all_iff.2 hds

theorem prompt_times {inner : Source} (h : inner.Prompt) (count : Nat) :
    (times count inner).Prompt := by
  unfold Prompt
  rw [draw]
  exact (Ensures.repeated h count).map fun _ hds => Deferred.isReady_all_iff.2 hds

theorem prompt_leaf {l : Leaf} (h : l.Prompt) (id : Nat) : (leaf id l).Prompt := by
  unfold Prompt
  rw [draw]
  refine (Ensures.any (DrawM.count id)).bind fun n _ => ?_
  rcases h n with ⟨v, hv⟩ | ⟨e, he⟩
  · rw [hv]
    exact .pure rfl
  · rw [he]
    exact .throw e

theorem prompt_adapted {inner : Source} (h : inner.Prompt) (f : Value → Except Error Value) :
    (adapted inner f).Prompt := by
  unfold Prompt
  rw [draw]
  refine Ensures.bind h fun d hd => ?_
  split
  next d' hd' => exact .pure (by rw [Deferred.isReady_of_andThen hd', hd])
  next e _ => exact .throw e

mutual

theorem prompt_of_leaves : ∀ s : Source, (∀ l ∈ s.leaves, l.Prompt) → s.Prompt
  | text inner, h => prompt_text (prompt_of_leaves inner (by rwa [leaves] at h))
  | oneOf first others, h => by
    rw [leaves, List.forall_mem_append] at h
    exact prompt_oneOf (List.forall_mem_cons.2
      ⟨prompt_of_leaves first h.1, prompt_of_leavesOfAll others h.2⟩)
  | array items, h => prompt_array (prompt_of_leavesOfAll items (by rwa [leaves] at h))
  | times count inner, h => prompt_times (prompt_of_leaves inner (by rwa [leaves] at h)) count
  | leaf id l, h => prompt_leaf (h l (by simp [leaves])) id
  | adapted inner f, h => prompt_adapted (prompt_of_leaves inner (by rwa [leaves] at h)) f
  | letters length l, _ => (isPlain_letters length l).prompt
  | number range precision, _ => (isPlain_number range precision).prompt
  | int range, _ => (isPlain_int range).prompt
  | char range, _ => (isPlain_char range).prompt
  | boolean bias, _ => (isPlain_boolean bias).prompt
  | literal v, _ => (isPlain_literal v).prompt
  | entry collection, _ => (isPlain_entry collection).prompt

theorem prompt_of_leavesOfAll :
    ∀ ss : List Source, (∀ l ∈ leavesOfAll ss, l.Prompt) → ∀ s ∈ ss, s.Prompt
  | [], _ => List.forall_mem_nil _
  | s :: rest, h => by
    rw [leavesOfAll, List.forall_mem_append] at h
    exact List.forall_mem_cons.2 ⟨prompt_of_leaves s h.1, prompt_of_leavesOfAll rest h.2⟩

end

end Source

end GenExpr
