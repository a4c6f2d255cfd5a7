import GenExpr.Proofs.Deferred.Combine
import GenExpr.Proofs.Deferred.Poll

/-!
# Joins in a course of events

What becomes of a join follows from what becomes of its items. It settles to a value only when the last
item has one, and then to all of them in order; it settles to an error only if an item does. How soon an
error ends it depends on its length. In a short join the error of any item counts at once. In a long one
an error counts when every item before it has a value.
-/

namespace GenExpr

open List (Forall₂)

namespace Future

variable {α : Type}

theorem exists_of_hasValue {f : Future Id α} (h : f.hasValue = true) : ∃ a, f = settled (.ok a) := by
  rcases f with (e | a) | _ | _ | _
  case settled.ok => exact ⟨a, rfl⟩
  all_goals simp [hasValue] at h

/-- The error that ends a join whose items have been polled, if one counts. -/
def blamed (short : Bool) : List (Future Id α) → Option Error
  | [] => none
  | settled (.error e) :: _ => some e
  | item :: rest => if short || item.hasValue then blamed short rest else none

/-- An item has failed whose error counts: in a long list those before it all have values. -/
structure Blames (short : Bool) (items front : List (Future Id α)) (e : Error) : Prop where
  failed : ∃ back, items = front ++ settled (.error e) :: back
  before : short = false → ∀ f ∈ front, f.hasValue = true

theorem Blames.mem {short : Bool} {items front : List (Future Id α)} {e : Error}
    (h : Blames short items front e) : settled (.error e) ∈ items := by
  obtain ⟨back, rfl⟩ := h.failed
  exact List.mem_append_right front List.mem_cons_self

section Blamed

variable {short : Bool} {item : Future Id α} {items : List (Future Id α)}

theorem blamed_cons (h : ∀ e, item ≠ settled (.error e)) (rest : List (Future Id α)) :
    blamed short (item :: rest) = if short || item.hasValue then blamed short rest else none := by
  rw [blamed]
  exact fun e he => h e he

theorem blames_of_blamed {e : Error} (h : blamed short items = some e) :
    ∃ front, Blames short items front e := by
  induction items with
  | nil => cases h
  | cons item rest ih =>
    by_cases hitem : ∃ d, item = settled (.error d)
    · obtain ⟨d, rfl⟩ := hitem
      obtain rfl : d = e := Option.some.inj h
      exact ⟨[], ⟨rest, rfl⟩, fun _ => List.forall_mem_nil _⟩
    · rw [blamed_cons (not_exists.1 hitem)] at h
      obtain ⟨hpass, h⟩ := Option.ite_none_right_eq_some.1 h
      obtain ⟨front, ⟨back, rfl⟩, hbefore⟩ := ih h
      refine ⟨item :: front, ⟨back, rfl⟩, fun hlong => List.forall_mem_cons.2 ⟨?_, hbefore hlong⟩⟩
      simpa [hlong] using hpass

theorem blamed_of_hasValue {front : List (Future Id α)} (h : ∀ f ∈ front, f.hasValue = true)
    (e : Error) (back : List (Future Id α)) :
    blamed short (front ++ settled (.error e) :: back) = some e := by
  induction front with
  | nil => rfl
  | cons item front ih =>
    obtain ⟨hitem, hfront⟩ := List.forall_mem_cons.1 h
    obtain ⟨a, rfl⟩ := exists_of_hasValue hitem
    rw [List.cons_append, blamed_cons (by simp), ih hfront, hitem, Bool.or_true, if_pos rfl]

theorem exists_blamed_of_short (front : List (Future Id α)) (e : Error) (back : List (Future Id α)) :
    ∃ d, blamed true (front ++ settled (.error e) :: back) = some d := by
  induction front with
  | nil => exact ⟨e, rfl⟩
  | cons item front ih =>
    by_cases hitem : ∃ d, item = settled (.error d)
    · obtain ⟨d, rfl⟩ := hitem
      exact ⟨d, rfl⟩
    · rw [List.cons_append, blamed_cons (not_exists.1 hitem), Bool.true_or, if_pos rfl]
      exact ih

end Blamed

section Poll

variable (opened : Nat → Bool)

/-- Items that have been polled, unless an error among them counts. -/
def surviving (short : Bool) (polled : List (Future Id α)) : Except Error (List (Future Id α)) :=
  match blamed short polled with
  | some e => .error e
  | none => .ok polled

theorem surviving_cons {short : Bool} {item : Future Id α} (h : ∀ e, item ≠ settled (.error e))
    (hpass : (short || item.hasValue) = true) (rest : List (Future Id α)) :
    surviving short (item :: rest) = (surviving short rest).map (item :: ·) := by
  rw [surviving, surviving, blamed_cons h, if_pos hpass]
  cases blamed short rest <;> rfl

/-- Past an item of a long list that has no value no error counts. -/
theorem pollItems_unclear (items : List (Future Id α)) :
    (pollItems opened false false items).run = .ok (items.map fun f => (f.poll opened).run) := by
  induction items with
  | nil => rw [pollItems]; rfl
  | cons item rest ih =>
    rw [pollItems_cons, List.map_cons]
    rcases (item.poll opened).run with (e | a) | _ | _ | _ <;> simp [ih, Except.map]

theorem pollItems_eq (short : Bool) (items : List (Future Id α)) :
    ∀ clear, (short || clear) = true → (pollItems opened short clear items).run =
      surviving short (items.map fun f => (f.poll opened).run) := by
  induction items with
  | nil =>
    intro clear _
    rw [pollItems]
    rfl
  | cons item rest ih =>
    intro clear hclear
    have hrest : ∀ polled : Future Id α, (∀ e, polled ≠ settled (.error e)) →
        (pollItems opened short (clear && polled.hasValue) rest).run.map (polled :: ·) =
          surviving short (polled :: rest.map fun f => (f.poll opened).run) := by
      intro polled hpolled
      cases hpass : short || polled.hasValue with
      | true =>
        have hgo : (short || (clear && polled.hasValue)) = true := by
          revert hclear hpass
          cases short <;> simp +contextual
        rw [ih _ hgo, surviving_cons hpolled hpass]
      | false =>
        obtain ⟨rfl, hvalue⟩ := Bool.or_eq_false_iff.1 hpass
        rw [surviving, blamed_cons hpolled, hpass, if_neg Bool.false_ne_true, hvalue, Bool.and_false,
          pollItems_unclear]
        rfl
    rw [pollItems_cons, List.map_cons]
    rcases (item.poll opened).run with (e | a) | _ | _ | _
    · simp [hclear, surviving, blamed]
    all_goals exact hrest _ (by simp)

theorem poll_join_eq (items : List (Future Id α)) (combine : List α → α) :
    ((join items combine).poll opened).run = joined combine
      (surviving (items.length ≤ shortJoin) (items.map fun f => (f.poll opened).run)) := by
  rw [poll_join, pollItems_eq opened _ _ _ (Bool.or_true _)]

end Poll

/-- What may have become of a join, given what has become of its items. -/
inductive Joining (short : Bool) (combine : List α → α) (items : List (Future Id α)) :
    Future Id α → Prop
  | failed {front : List (Future Id α)} {e : Error} (h : Blames short items front e) :
    Joining short combine items (settled (.error e))
  | done {vs : List α} (h : items = vs.map fun v => settled (.ok v)) :
    Joining short combine items (settled (.ok (combine vs)))
  | waiting : Joining short combine items (join items combine)

/-- A poll settles a join, or leaves it waiting for items of which no error counts and some have no
value. -/
theorem joined_cases (short : Bool) (combine : List α → α) (polled : List (Future Id α)) :
    (∃ r, joined combine (surviving short polled) = settled r ∧
      Joining short combine polled (settled r)) ∨
    (joined combine (surviving short polled) = join polled combine ∧
      blamed short polled = none ∧ values? polled = none) := by
  cases hblamed : blamed short polled with
  | some e =>
    obtain ⟨front, hfront⟩ := blames_of_blamed hblamed
    rw [surviving, hblamed]
    exact .inl ⟨_, rfl, .failed hfront⟩
  | none =>
    rw [surviving, hblamed]
    cases hvalues : values? polled with
    | none =>
      refine .inr ⟨?_, rfl, rfl⟩
      simp only [joined, hvalues]
    | some vs =>
      simp only [joined, hvalues]
      exact .inl ⟨_, rfl, .done (values?_eq_some_iff.1 hvalues)⟩

theorem settled_follow (r : Except Error α) (events : List Event) (opened : List Nat) :
    (settled r : Future Id α).follow events opened = settled r := by
  induction events generalizing opened with
  | nil => rfl
  | cons event rest ih =>
    cases event with
    | opening gate => exact ih _
    | polling => rw [follow, poll_settled, ih]

theorem hasValue_follow {f : Future Id α} (h : f.hasValue = true) (events : List Event)
    (opened : List Nat) : (f.follow events opened).hasValue = true := by
  obtain ⟨a, rfl⟩ := exists_of_hasValue h
  rw [settled_follow]
  rfl

section Follow

variable {short : Bool} {combine : List α → α} {items : List (Future Id α)}

/-- A join that has settled stays so, whatever else becomes of its items. -/
theorem Joining.settled_follow {r : Except Error α} (h : Joining short combine items (settled r))
    (events : List Event) (opened : List Nat) :
    Joining short combine (items.map fun f => f.follow events opened) (settled r) := by
  cases h with
  | @failed front e h =>
    obtain ⟨⟨back, rfl⟩, hbefore⟩ := h
    let after (f : Future Id α) : Future Id α := f.follow events opened
    have hblames : Blames short ((front ++ settled (.error e) :: back).map after)
        (front.map after) e := by
      refine ⟨⟨back.map after, ?_⟩, ?_⟩
      · rw [List.map_append, List.map_cons]
        exact congrArg (front.map after ++ · :: back.map after) (Future.settled_follow _ events opened)
      · intro hlong f hf
        obtain ⟨g, hg, rfl⟩ := List.mem_map.1 hf
        exact hasValue_follow (hbefore hlong g hg) events opened
    exact .failed hblames
  | @done vs h =>
    apply Joining.done
    rw [h, List.map_map]
    exact List.map_congr_left fun v _ => Future.settled_follow (.ok v) events opened

theorem map_follow_polling (events : List Event) (opened : List Nat) (items : List (Future Id α)) :
    (items.map fun f => f.follow (.polling :: events) opened) =
      (items.map fun f => (f.poll opened.contains).run).map fun f => f.follow events opened :=
  (List.map_map ..).symm

theorem joining_follow (combine : List α → α) (items : List (Future Id α)) (events : List Event)
    (opened : List Nat) :
    Joining (items.length ≤ shortJoin) combine (items.map fun f => f.follow events opened)
      ((join items combine).follow events opened) := by
  induction events generalizing items opened with
  | nil =>
    simp only [follow, List.map_id']
    exact .waiting
  | cons event rest ih =>
    cases event with
    | opening gate => exact ih items (gate :: opened)
    | polling =>
      -- The poll either settles the join for good or leaves one of the items that were polled.
      rw [map_follow_polling, follow, poll_join_eq]
      generalize hpolled : (items.map fun f => (f.poll opened.contains).run) = polled
      have hlength : polled.length = items.length := by rw [← hpolled, List.length_map]
      rw [← hlength]
      rcases joined_cases (polled.length ≤ shortJoin) combine polled with ⟨r, hr, hjoining⟩ | ⟨hj, -⟩
      · rw [hr, settled_follow]
        exact hjoining.settled_follow rest opened
      · rw [hj]
        exact ih polled opened

/-- Of the items of a join that a poll leaves waiting no error counts, and some have no value. -/
theorem waiting_polling {events : List Event} {opened : List Nat}
    (h : ((join items combine).follow (.polling :: events) opened).outcome? = none) :
    let polled := items.map fun f => (f.poll opened.contains).run
    ((join polled combine).follow events opened).outcome? = none ∧
      blamed (items.length ≤ shortJoin) polled = none ∧ values? polled = none := by
  rw [follow, poll_join_eq] at h
  rcases joined_cases (items.length ≤ shortJoin) combine
      (items.map fun f => (f.poll opened.contains).run) with ⟨r, hr, -⟩ | ⟨hj, hnone⟩
  · rw [hr, settled_follow] at h
    cases h
  · rw [hj] at h
    exact ⟨h, hnone⟩

theorem waiting_follow {events : List Event} {opened : List Nat}
    (h : ((join items combine).follow (events ++ [.polling]) opened).outcome? = none) :
    let now := items.map fun f => f.follow (events ++ [.polling]) opened
    blamed (items.length ≤ shortJoin) now = none ∧ values? now = none := by
  induction events generalizing items opened with
  | nil => exact (waiting_polling h).2
  | cons event rest ih =>
    cases event with
    | opening gate => exact ih h
    | polling =>
      rw [List.cons_append] at h ⊢
      have hrest := ih (waiting_polling h).1
      rw [List.length_map] at hrest
      rwa [map_follow_polling]

end Follow

end Future

namespace Deferred

variable {α : Type} {combine : List α → α} {items : List (Deferred Id α)}

theorem all_cases (combine : List α → α) (items : List (Deferred Id α)) :
    (∃ as : List α, items = as.map .ready ∧ all combine items = ready (combine as)) ∨
      all combine items = pending (.join (items.map toFuture) combine) := by
  rw [all]
  cases hvalues : values? items with
  | none => exact .inr rfl
  | some as => exact .inl ⟨as, values?_eq_some_iff.1 hvalues, rfl⟩

theorem joining_all (combine : List α → α) (items : List (Deferred Id α)) (opened : List Nat)
    (events : List Event) :
    Future.Joining (items.length ≤ Future.shortJoin) combine
      (items.map fun d => d.toFuture.follow events opened)
      ((all combine items).toFuture.follow events opened) := by
  rcases all_cases combine items with ⟨as, rfl, hall⟩ | hall
  · rw [hall, toFuture, Future.settled_follow, List.map_map]
    apply Future.Joining.done
    exact List.map_congr_left fun a _ => Future.settled_follow (.ok a) events opened
  · rw [hall, toFuture]
    have h := Future.joining_follow combine (items.map toFuture) events opened
    rwa [List.length_map, List.map_map] at h

theorem waiting_all {opened : List Nat} {events : List Event}
    (h : (all combine items).after opened (events ++ [.polling]) = none) :
    let now := items.map fun d => d.toFuture.follow (events ++ [.polling]) opened
    Future.blamed (items.length ≤ Future.shortJoin) now = none ∧ Future.values? now = none := by
  rcases all_cases combine items with ⟨as, rfl, hall⟩ | hall
  · rw [after, hall, toFuture, Future.settled_follow] at h
    cases h
  · rw [after, hall, toFuture] at h
    have hnone := Future.waiting_follow h
    rwa [List.length_map, List.map_map] at hnone

theorem map_follow_eq_iff {opened : List Nat} {events : List Event} {vs : List α} :
    (items.map fun d => d.toFuture.follow events opened) =
        vs.map (fun v => (.settled (.ok v) : Future Id α)) ↔
      Forall₂ (fun d a => d.after opened events = some (.ok a)) items vs := by
  rw [← List.forall₂_eq_eq_eq, List.forall₂_map_left_iff, List.forall₂_map_right_iff]
  constructor
  · intro h
    refine h.imp fun d a hd => ?_
    rw [after, hd]
    rfl
  · intro h
    exact h.imp fun d a hd => Future.outcome?_eq_some hd

theorem values_of_all {opened : List Nat} {events : List Event} {v : α}
    (h : (all combine items).after opened events = some (.ok v)) :
    ∃ vs, v = combine vs ∧
      Forall₂ (fun d a => d.after opened events = some (.ok a)) items vs := by
  have hjoining := joining_all combine items opened events
  rw [Future.outcome?_eq_some h] at hjoining
  cases hjoining with
  | done hnow => exact ⟨_, rfl, map_follow_eq_iff.1 hnow⟩

theorem exists_failed_of_all {opened : List Nat} {events : List Event} {e : Error}
    (h : (all combine items).after opened events = some (.error e)) :
    ∃ d ∈ items, d.after opened events = some (.error e) := by
  have hjoining := joining_all combine items opened events
  rw [Future.outcome?_eq_some h] at hjoining
  cases hjoining with
  | failed hblames =>
    obtain ⟨d, hd, hfailed⟩ := List.mem_map.1 hblames.mem
    refine ⟨d, hd, ?_⟩
    rw [after, hfailed]
    rfl

theorem exists_value_of_all {opened : List Nat} {events : List Event} {v : α}
    (h : (all combine items).after opened events = some (.ok v))
    {d : Deferred Id α} (hd : d ∈ items) : ∃ a, d.after opened events = some (.ok a) := by
  obtain ⟨vs, -, hvs⟩ := values_of_all h
  have hnow := List.mem_map_of_mem (f := fun d => d.toFuture.follow events opened) hd
  rw [map_follow_eq_iff.2 hvs] at hnow
  obtain ⟨a, -, ha⟩ := List.mem_map.1 hnow
  refine ⟨a, ?_⟩
  rw [after, ← ha]
  rfl

/-- Items that have all settled to values settle what they are joined to at the next poll. -/
theorem after_all_of_values {opened : List Nat} {events : List Event} {vs : List α}
    (hvs : Forall₂ (fun d a => d.after opened (events ++ [.polling]) = some (.ok a)) items vs) :
    (all combine items).after opened (events ++ [.polling]) = some (.ok (combine vs)) := by
  have hnow := map_follow_eq_iff.2 hvs
  have hjoining := joining_all combine items opened (events ++ [.polling])
  rw [hnow] at hjoining
  cases hout : (all combine items).after opened (events ++ [.polling]) with
  | none =>
    have hnone := (waiting_all hout).2
    rw [hnow, Future.values?_eq_some_iff.2 rfl] at hnone
    cases hnone
  | some r =>
    rw [Future.outcome?_eq_some hout] at hjoining
    cases hjoining with
    | failed h =>
      obtain ⟨v, -, hv⟩ := List.mem_map.1 h.mem
      cases hv
    | done h =>
      rw [← Future.values?_eq_some_iff, Future.values?_eq_some_iff.2 rfl] at h
      rw [Option.some.inj h]

/-- What items are joined to has a value after a poll exactly if every one of them has. -/
theorem after_all_eq_ok_iff {opened : List Nat} {events : List Event} {v : α} :
    (all combine items).after opened (events ++ [.polling]) = some (.ok v) ↔
      ∃ vs, Forall₂ (fun d a => d.after opened (events ++ [.polling]) = some (.ok a)) items vs ∧
        combine vs = v := by
  constructor
  · intro h
    obtain ⟨vs, rfl, hvs⟩ := values_of_all h
    exact ⟨vs, hvs, rfl⟩
  · intro h
    obtain ⟨vs, hvs, rfl⟩ := h
    exact after_all_of_values hvs

/-- What items are joined to is there exactly if every one of them is. -/
theorem all_eq_ready_iff {v : α} : all combine items = ready v ↔
    ∃ vs, Forall₂ (fun d a => d = ready a) items vs ∧ combine vs = v := by
  constructor
  · intro h
    rcases all_cases combine items with ⟨as, rfl, hall⟩ | hall
    · rw [hall] at h
      exact ⟨as, List.forall₂_map_left_iff.2 (List.forall₂_refl as), ready.inj h⟩
    · rw [hall] at h
      cases h
  · intro h
    obtain ⟨vs, hvs, rfl⟩ := h
    have hitems : items = vs.map .ready := by
      rw [← List.forall₂_eq_eq_eq, List.forall₂_map_right_iff]
      exact hvs
    rw [hitems, all_map_ready]

theorem wait_eq_force (d : Deferred Id α) : d.wait.run = d.toFuture.force.run := by
  cases d with
  | ready a =>
    rw [wait, toFuture, Future.force]
  | pending f => rfl

/-- Waiting for what items are joined to gives a value exactly if waiting for each of them does. -/
theorem wait_all_eq_ok_iff {v : α} : (all combine items).wait.run = .ok v ↔
    ∃ vs, Forall₂ (fun d a => d.wait.run = .ok a) items vs ∧ combine vs = v := by
  have hpromises : ∀ vs, (Future.forceItems (items.map toFuture)).run = .ok vs ↔
      Forall₂ (fun d a => d.wait.run = .ok a) items vs := by
    intro vs
    rw [Future.forceItems_eq_ok_iff, List.forall₂_map_left_iff]
    simp only [wait_eq_force, Future.Promises]
  rw [wait_eq_force, force_all]
  constructor
  · intro h
    cases hitems : (Future.forceItems (items.map toFuture)).run with
    | error e =>
      rw [hitems] at h
      cases h
    | ok vs =>
      rw [hitems] at h
      exact ⟨vs, (hpromises vs).1 hitems, Except.ok.inj h⟩
  · intro h
    obtain ⟨vs, hvs, rfl⟩ := h
    rw [(hpromises vs).2 hvs]
    rfl

/-- Deferred values that are all there are joined at once. Otherwise, in every course of events, what
they are joined to settles to a value only when every one of them has, at the next poll, and then to
their values in order. -/
theorem all_joins_in_order (combine : List α → α) (items : List (Deferred Id α)) :
    ((all combine items).isReady = true ↔ ∀ d ∈ items, d.isReady = true) ∧
    (∀ as : List α, items = as.map .ready → all combine items = ready (combine as)) ∧
    ∀ opened events,
      (∀ v, (all combine items).after opened events = some (.ok v) →
        ∃ vs, v = combine vs ∧
          Forall₂ (fun d a => d.after opened events = some (.ok a)) items vs) ∧
      ∀ vs, Forall₂ (fun d a => d.after opened (events ++ [.polling]) = some (.ok a)) items vs →
        (all combine items).after opened (events ++ [.polling]) = some (.ok (combine vs)) := by
  refine ⟨isReady_all_iff, ?_, fun opened events => ⟨?_, ?_⟩⟩
  · rintro as rfl
    exact all_map_ready combine as
  · exact fun v hv => values_of_all hv
  · exact fun vs hvs => after_all_of_values hvs

end Deferred

end GenExpr
