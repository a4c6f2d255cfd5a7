import GenExpr.Proofs.Deferred.Promise

/-!
# Courses of events

What happens to something that is pending: gates open one after another, and in between, as often as
one likes, it is polled. A future that promises a value never settles to anything else in any course of
events, and settles to it at the first poll after its last gate has opened.
-/

namespace GenExpr

inductive Event where
  | opening (gate : Nat)
  | polling
  deriving DecidableEq

/-- What a course of events makes of a future, from a list of open gates on. -/
def Future.follow {α : Type} : List Event → List Nat → Future Id α → Future Id α
  | [], _, f => f
  | .opening g :: rest, opened, f => follow rest (g :: opened) f
  | .polling :: rest, opened, f => follow rest opened (f.poll opened.contains).run

/-- What a deferred value has settled to in a course of events. -/
def Deferred.after {α : Type} (d : Deferred Id α) (opened : List Nat) (events : List Event) :
    Option (Except Error α) :=
  (d.toFuture.follow events opened).outcome?

/-- A deferred value settles to a value: in no course of events to anything else, and to that value when
it is polled after all its gates have opened or is waited for. -/
structure Deferred.SettlesTo {α : Type} (d : Deferred Id α) (v : α) : Prop where
  never_else : ∀ opened events r, d.after opened events = some r → r = .ok v
  at_last : ∀ opened events, (∀ g ∈ d.toFuture.gates, g ∈ opened ∨ .opening g ∈ events) →
    d.after opened (events ++ [.polling]) = some (.ok v)
  waited : d.wait.run = .ok v

namespace Future

variable {α : Type}

theorem outcome?_eq_some {f : Future Id α} {r : Except Error α} (h : f.outcome? = some r) :
    f = settled r := by
  cases f <;> simp_all [outcome?]

theorem promises_follow {f : Future Id α} {v : α} (h : f.Promises v) (events : List Event)
    (opened : List Nat) : (f.follow events opened).Promises v := by
  induction events generalizing f opened with
  | nil => exact h
  | cons event rest ih =>
    cases event with
    | opening gate => exact ih h _
    | polling => exact ih ((promises_poll _ f v).2 h) opened

/-- A future settles at the first poll after all its gates have opened. -/
theorem exists_settled_of_opened (f : Future Id α) {events : List Event} {opened : List Nat}
    (hopen : ∀ g ∈ f.gates, g ∈ opened ∨ .opening g ∈ events) :
    ∃ r, f.follow (events ++ [.polling]) opened = settled r := by
  induction events generalizing f opened with
  | nil =>
    apply settled_of_gates_open
    intro g hg
    simpa using hopen g hg
  | cons event rest ih =>
    cases event with
    | opening gate =>
      apply ih f
      intro g hg
      rcases hopen g hg with ho | he
      · exact .inl (List.mem_cons_of_mem _ ho)
      · rcases List.mem_cons.1 he with heq | he
        · obtain rfl : g = gate := by simpa using heq
          exact .inl List.mem_cons_self
        · exact .inr he
    | polling =>
      apply ih
      intro g hg
      have := hopen g (gates_poll_subset _ f hg)
      simpa using this

theorem Promises.follow_settled {f : Future Id α} {v : α} (h : f.Promises v) {events : List Event}
    {opened : List Nat} (hopen : ∀ g ∈ f.gates, g ∈ opened ∨ .opening g ∈ events) :
    f.follow (events ++ [.polling]) opened = settled (.ok v) := by
  obtain ⟨r, hr⟩ := exists_settled_of_opened f hopen
  have hv := promises_follow h (events ++ [.polling]) opened
  rw [hr, promises_settled] at hv
  rw [hr, hv]

end Future

theorem Deferred.settlesTo_of_promises {α : Type} {d : Deferred Id α} {v : α}
    (h : d.toFuture.Promises v) : d.SettlesTo v where
  never_else opened events r hr := by
    have hv := Future.promises_follow h events opened
    rw [Future.outcome?_eq_some hr] at hv
    exact hv
  at_last opened events hopen := by
    rw [Deferred.after, h.follow_settled hopen]
    rfl
  waited := by
    cases d with
    | ready a => exact h
    | pending f => exact h

end GenExpr
