import GenExpr.Proofs.Deferred.Course
import GenExpr.Proofs.Deferred.Poll

/-!
# Futures among functions that act

A future whose functions only compute goes through the same states wherever it is polled. It can so stand
among functions that act when they are called, and polling it calls none of them.
-/

namespace GenExpr.Future

variable {m : Type → Type} [Monad m] {α : Type}

mutual

/-- A future whose functions only compute, among functions that act in a monad. -/
def lift : Future Id α → Future m α
  | settled r => settled r
  | gate id r => gate id r
  | andThen source f => andThen (lift source) fun a => pure (f a).run
  | join items combine => join (liftItems items) combine

def liftItems : List (Future Id α) → List (Future m α)
  | [] => []
  | item :: rest => lift item :: liftItems rest

end

/-- As `follow`, for a future whose functions act when they are called. -/
def pursue : List Event → List Nat → Future m α → m (Future m α)
  | [], _, f => pure f
  | .opening g :: rest, opened, f => pursue rest (g :: opened) f
  | .polling :: rest, opened, f => do pursue rest opened (← f.poll opened.contains)

theorem length_liftItems (items : List (Future Id α)) :
    (liftItems items : List (Future m α)).length = items.length := by
  induction items with
  | nil => rfl
  | cons item rest ih => rw [liftItems, List.length_cons, ih, List.length_cons]

theorem values?_liftItems (items : List (Future Id α)) :
    values? (liftItems items : List (Future m α)) = values? items := by
  induction items with
  | nil => rfl
  | cons item rest ih =>
    rcases item with (e | a) | _ | _ | _
    case settled.ok => rw [liftItems, lift, values?, values?, ih]
    all_goals rfl

theorem outcome?_lift (f : Future Id α) : (lift f : Future m α).outcome? = f.outcome? := by
  cases f <;> rfl

theorem lift_joined (combine : List α → α) (polled : Except Error (List (Future Id α))) :
    (lift (joined combine polled) : Future m α) = joined combine (polled.map liftItems) := by
  cases polled with
  | error e => rfl
  | ok items =>
    simp only [joined, Except.map, values?_liftItems]
    cases values? items with
    | some as => rfl
    | none => rfl

section Poll

variable [LawfulMonad m] (opened : Nat → Bool)

mutual

theorem poll_lift : ∀ f : Future Id α,
    (lift f : Future m α).poll opened = pure (lift (f.poll opened).run)
  | settled r => by rw [lift, poll, poll]; rfl
  | gate id r => by
    rw [lift, poll, poll]
    cases opened id with
    | false => rfl
    | true => rfl
  | andThen source f => by
    rw [lift, poll, poll_lift source, pure_bind, poll_andThen]
    rcases (source.poll opened).run with (e | a) | _ | _ | _
    · rfl
    · simp only [lift, pure_bind]
    all_goals rfl
  | join items combine => by
    rw [lift, poll, pollItems_lift _ _ items, pure_bind, poll_join, lift_joined, length_liftItems]

theorem pollItems_lift (short clear : Bool) : ∀ items : List (Future Id α),
    pollItems opened short clear (liftItems items : List (Future m α)) =
      pure ((pollItems opened short clear items).run.map liftItems)
  | [] => by rw [liftItems, pollItems, pollItems]; rfl
  | item :: rest => by
    have hrest := fun clear => pollItems_lift short clear rest
    rw [liftItems, pollItems, poll_lift item, pure_bind, pollItems_cons]
    rcases (item.poll opened).run with (e | a) | _ | _ | _
    case settled.error =>
      simp only [lift, hrest, pure_bind]
      cases short || clear with
      | true => rfl
      | false => cases (pollItems opened short false rest).run <;> rfl
    all_goals
      simp only [lift, hrest, pure_bind, hasValue]
      generalize (pollItems opened short (clear && _) rest).run = more
      cases more <;> rfl

end

end Poll

section Force

variable [LawfulMonad m]

mutual

theorem force_lift : ∀ f : Future Id α, (lift f : Future m α).force = pure f.force.run
  | settled r => by rw [lift, force, force]; rfl
  | gate id r => by rw [lift, force, force]; rfl
  | andThen source f => by
    rw [lift, force, force_lift source, pure_bind, force_andThen]
    cases source.force.run <;> rfl
  | join items combine => by
    rw [lift, force, forceItems_lift items, pure_bind, force_join]
    cases (forceItems items).run <;> rfl

theorem forceItems_lift : ∀ items : List (Future Id α),
    forceItems (liftItems items : List (Future m α)) = pure (forceItems items).run
  | [] => by rw [liftItems, forceItems, forceItems]; rfl
  | item :: rest => by
    rw [liftItems, forceItems, force_lift item, pure_bind, forceItems_cons]
    cases item.force.run with
    | error e => rfl
    | ok a =>
      simp only [forceItems_lift rest, pure_bind]
      cases (forceItems rest).run <;> rfl

end

end Force

end GenExpr.Future
