import GenExpr.Proofs.Deferred.Join

/-!
# Futures that can only fail

A deferred value fails with an error if it settles to nothing else, whatever happens and in whatever order.
What is attached to it fails with the same error, and so does what it is joined to, as long as all other
items have values or fail with that error too.
-/

namespace GenExpr

/-- A deferred value fails with an error: in no course of events does it settle to anything else, and it
does when it is polled after all its gates have opened or is waited for. -/
structure Deferred.RejectsWith {α : Type} (d : Deferred Id α) (e : Error) : Prop where
  never_else : ∀ opened events r, d.after opened events = some r → r = .error e
  at_last : ∀ opened events, (∀ g ∈ d.toFuture.gates, g ∈ opened ∨ .opening g ∈ events) →
    d.after opened (events ++ [.polling]) = some (.error e)
  waited : d.wait.run = .error e

namespace Future

variable {α : Type}

/-- What becomes of a future with a function attached to it, given what becomes of the future. -/
inductive Going (g : α → Id (Except Error α)) : Future Id α → Future Id α → Prop
  | waiting (source : Future Id α) : Going g source (andThen source g)
  | done (a : α) : Going g (settled (.ok a)) (settled (g a).run)
  | failed (e : Error) : Going g (settled (.error e)) (settled (.error e))

theorem Going.follow {g : α → Id (Except Error α)} {source f : Future Id α} (h : Going g source f)
    (events : List Event) (opened : List Nat) :
    Going g (source.follow events opened) (f.follow events opened) := by
  induction events generalizing source f opened with
  | nil => exact h
  | cons event rest ih =>
    cases event with
    | opening gate => exact ih h _
    | polling =>
      apply ih
      cases h with
      | waiting =>
        rw [poll_andThen]
        rcases (source.poll opened.contains).run with (e | a) | _ | _ | _
        · exact .failed e
        · exact .done a
        all_goals exact .waiting _
      | done a =>
        rw [poll_settled, poll_settled]
        exact .done a
      | failed e =>
        rw [poll_settled]
        exact .failed e

end Future

namespace Deferred

variable {α : Type} {d : Deferred Id α} {e : Error}

theorem rejectsWith_of_never_else
    (h : ∀ opened events r, d.after opened events = some r → r = .error e) : d.RejectsWith e where
  never_else := h
  at_last opened events hopen := by
    obtain ⟨r, hr⟩ := Future.exists_settled_of_opened d.toFuture hopen
    have hafter : d.after opened (events ++ [.polling]) = some r := by
      rw [after, hr]
      rfl
    rw [hafter, h opened _ r hafter]
  waited := by
    have hafter : d.after d.toFuture.gates [.polling] = some d.wait.run := by
      have hpoll := Future.poll_congr d.toFuture.gates.contains (fun _ => true) d.toFuture
        fun g hg => List.contains_iff_mem.2 hg
      rw [after, Future.follow, hpoll, Future.poll_open, wait_eq_force]
      rfl
    exact h _ _ _ hafter

theorem rejectsWith_settled (e : Error) : (pending (.settled (.error e)) : Deferred Id α).RejectsWith e := by
  apply rejectsWith_of_never_else
  intro opened events r hr
  rw [after, toFuture, Future.settled_follow] at hr
  exact (Option.some.inj hr).symm

theorem rejectsWith_gate (id : Nat) (e : Error) :
    (pending (.gate id (.error e)) : Deferred Id α).RejectsWith e := by
  apply rejectsWith_of_never_else
  intro opened events
  rw [after, toFuture]
  induction events generalizing opened with
  | nil =>
    intro r hr
    cases hr
  | cons event rest ih =>
    cases event with
    | opening gate => exact ih (gate :: opened)
    | polling =>
      intro r hr
      rw [Future.follow, Future.poll] at hr
      cases hid : opened.contains id with
      | false =>
        rw [hid] at hr
        exact ih opened r hr
      | true =>
        rw [hid, if_pos rfl, Id.run_pure, Future.settled_follow] at hr
        exact (Option.some.inj hr).symm

theorem RejectsWith.exists_pending (h : d.RejectsWith e) : ∃ source, d = pending source := by
  cases d with
  | ready a => cases h.waited
  | pending source => exact ⟨source, rfl⟩

/-- A function attached to a future that fails is no reason for another error. -/
theorem rejectsWith_pending_andThen {source : Future Id α}
    (h : (pending source : Deferred Id α).RejectsWith e) (g : α → Id (Except Error α)) :
    (pending (.andThen source g) : Deferred Id α).RejectsWith e := by
  apply rejectsWith_of_never_else
  intro opened events r hr
  have hgoing := (Future.Going.waiting (g := g) source).follow events opened
  have hsource := h.never_else opened events
  rw [after, toFuture] at hr hsource
  rw [Future.outcome?_eq_some hr] at hgoing
  generalize source.follow events opened = now at hgoing hsource
  cases hgoing with
  | done a => cases hsource _ rfl
  | failed d => exact hsource _ rfl

theorem RejectsWith.map (h : d.RejectsWith e) (f : α → α) : (d.map f).RejectsWith e := by
  obtain ⟨source, rfl⟩ := h.exists_pending
  exact rejectsWith_pending_andThen h _

theorem RejectsWith.andThen (h : d.RejectsWith e) (f : α → Except Error α) :
    ∃ d', Deferred.andThen (m := Id) f d = .ok d' ∧ d'.RejectsWith e := by
  obtain ⟨source, rfl⟩ := h.exists_pending
  exact ⟨_, rfl, rejectsWith_pending_andThen h f⟩

/-- What items are joined to fails with the error of one of them, if no other fails with another. -/
theorem rejectsWith_all {items : List (Deferred Id α)} (hrejects : ∃ d ∈ items, d.RejectsWith e)
    (hitems : ∀ d ∈ items, d.RejectsWith e ∨ ∃ v, d.toFuture.Promises v) (combine : List α → α) :
    (all combine items).RejectsWith e := by
  apply rejectsWith_of_never_else
  intro opened events r hr
  cases r with
  | ok v =>
    obtain ⟨d, hd, hrejects⟩ := hrejects
    obtain ⟨a, ha⟩ := exists_value_of_all hr hd
    cases hrejects.never_else opened events _ ha
  | error e' =>
    obtain ⟨d, hd, hfailed⟩ := exists_failed_of_all hr
    rcases hitems d hd with hrejects | ⟨v, hv⟩
    · exact hrejects.never_else opened events _ hfailed
    · cases (settlesTo_of_promises hv).never_else opened events _ hfailed

end Deferred

end GenExpr
