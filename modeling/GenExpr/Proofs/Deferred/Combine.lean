import GenExpr.Proofs.Deferred.Course

/-!
# Combining promises

What is attached to a deferred value, or put together from several, promises what comes out of the values
that they promise, whether they are there or not. Values that are all there stay so.
-/

namespace GenExpr.Deferred

open List (Forall₂)

section Ready

variable {m : Type → Type} {α γ : Type}

theorem exists_ready_of_forall₂ {R : γ → α → Prop} {cs : List γ} {ds : List (Deferred m α)}
    (h : Forall₂ (fun c d => ∃ a, d = .ready a ∧ R c a) cs ds) :
    ∃ as : List α, ds = as.map .ready ∧ Forall₂ R cs as := by
  induction h with
  | nil => exact ⟨[], rfl, .nil⟩
  | cons hd _ ih =>
    obtain ⟨a, rfl, ha⟩ := hd
    obtain ⟨as, rfl, has⟩ := ih
    exact ⟨a :: as, rfl, .cons ha has⟩

theorem exists_ready_of_forall {P : α → Prop} {ds : List (Deferred m α)}
    (h : ∀ d ∈ ds, ∃ a, d = .ready a ∧ P a) :
    ∃ as : List α, ds = as.map .ready ∧ ∀ a ∈ as, P a := by
  induction ds with
  | nil => exact ⟨[], rfl, by simp⟩
  | cons d ds ih =>
    obtain ⟨a, rfl, ha⟩ := h d List.mem_cons_self
    obtain ⟨as, rfl, has⟩ := ih fun d hd => h d (List.mem_cons_of_mem _ hd)
    exact ⟨a :: as, rfl, List.forall_mem_cons.2 ⟨ha, has⟩⟩

theorem values?_cons_ready (a : α) (rest : List (Deferred m α)) :
    values? (ready a :: rest) = (values? rest).map (a :: ·) := by
  rw [values?]
  cases values? rest <;> rfl

theorem values?_eq_some_iff {ds : List (Deferred m α)} {as : List α} :
    values? ds = some as ↔ ds = as.map .ready := by
  induction ds generalizing as with
  | nil => cases as <;> simp [values?]
  | cons d rest ih =>
    cases d with
    | pending f => cases as <;> simp [values?]
    | ready a =>
      rw [values?_cons_ready]
      cases as with
      | nil => simp
      | cons b bs =>
        simp only [Option.map_eq_some_iff, List.cons.injEq, List.map_cons, ready.injEq, ih]
        constructor
        · intro hx
          obtain ⟨cs, hcs, rfl, rfl⟩ := hx
          exact ⟨rfl, hcs⟩
        · intro hx
          obtain ⟨rfl, hbs⟩ := hx
          exact ⟨bs, hbs, rfl, rfl⟩

theorem all_map_ready (combine : List α → α) (as : List α) :
    all combine (as.map fun a => (ready a : Deferred m α)) = ready (combine as) := by
  rw [all, values?_eq_some_iff.2 rfl]

end Ready

variable {α : Type}

theorem force_map (d : Deferred Id α) (f : α → α) :
    (d.map f).toFuture.force.run = d.toFuture.force.run.map f := by
  cases d with
  | ready a => rfl
  | pending source =>
    have hsource : (pending source).toFuture = source := rfl
    refine (Future.force_andThen source _).trans ?_
    rw [hsource]
    cases source.force.run <;> rfl

theorem force_all (combine : List α → α) (ds : List (Deferred Id α)) :
    (all combine ds).toFuture.force.run =
      (Future.forceItems (ds.map toFuture)).run.map combine := by
  rw [all]
  split
  next as has =>
    obtain rfl := values?_eq_some_iff.1 has
    have hitems : (Future.forceItems ((as.map fun a => (ready a : Deferred Id α)).map toFuture)).run =
        .ok as := by
      rw [List.map_map]
      exact Future.forceItems_eq_ok_iff.2 (Future.forall₂_promises_map as)
    rw [hitems]
    rfl
  next => exact Future.force_join _ combine

theorem promises_map {d : Deferred Id α} {v : α} (h : d.toFuture.Promises v) (f : α → α) :
    (d.map f).toFuture.Promises (f v) := by
  unfold Future.Promises at h ⊢
  rw [force_map, h]
  rfl

theorem promises_all {ds : List (Deferred Id α)} {vs : List α}
    (h : Forall₂ (fun d v => d.toFuture.Promises v) ds vs) (combine : List α → α) :
    (all combine ds).toFuture.Promises (combine vs) := by
  have hitems : (Future.forceItems (ds.map toFuture)).run = .ok vs :=
    Future.forceItems_eq_ok_iff.2 (List.forall₂_map_left_iff.2 h)
  unfold Future.Promises
  rw [force_all, hitems]
  rfl

end GenExpr.Deferred
