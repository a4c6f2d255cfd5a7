import GenExpr.Error

/-!
# Futures

Computations that settle to a value or an error when their gates open. A gate stands for an event
outside: a future that waits for one settles once the gate is open, whatever else happens. Functions
attached to a future act in a monad, so that one can speak of when they are called. `poll` lets a future
go as far as the open gates allow; `force` is the outcome with every gate open.
-/

namespace GenExpr

/-- A computation that settles when its gates open. -/
inductive Future (m : Type → Type) (α : Type) where
  | settled (outcome : Except Error α)
  /-- Settles when its gate is open. -/
  | gate (id : Nat) (outcome : Except Error α)
  /-- Goes on with the value of another future. -/
  | andThen (source : Future m α) (f : α → m (Except Error α))
  /-- Waits for every item and combines the values in order. -/
  | join (items : List (Future m α)) (combine : List α → α)

namespace Future

variable {m : Type → Type} {α : Type}

def outcome? : Future m α → Option (Except Error α)
  | settled r => some r
  | _ => none

def hasValue : Future m α → Bool
  | settled (.ok _) => true
  | _ => false

/-- The values of a list of futures, if every one has settled to a value. -/
def values? : List (Future m α) → Option (List α)
  | [] => some []
  | settled (.ok a) :: rest =>
    match values? rest with
    | some as => some (a :: as)
    | none => none
  | _ :: _ => none

/-- How many items a join may have to be short. A short join fails with the first error that it meets;
a long one looks at its items strictly in order, and an error counts when all items before it have
values. -/
def shortJoin : Nat := 30

/-- A join whose items have been polled: settled if an error counts or every item has a value. -/
def joined (combine : List α → α) : Except Error (List (Future m α)) → Future m α
  | .error e => settled (.error e)
  | .ok items =>
    match values? items with
    | some as => settled (.ok (combine as))
    | none => join items combine

mutual

/-- Lets a future go as far as the open gates allow. -/
def poll [Monad m] (opened : Nat → Bool) : Future m α → m (Future m α)
  | settled r => pure (settled r)
  | gate id r => pure (if opened id then settled r else gate id r)
  | andThen source f => do
    match ← poll opened source with
    | settled (.ok a) => return settled (← f a)
    | settled (.error e) => return settled (.error e)
    | source => return andThen source f
  | join items combine => do
    return joined combine (← pollItems opened (items.length ≤ shortJoin) true items)

/-- Polls items from left to right, up to the first error that counts: any one in a short list, and in
a long list one that only values come before. -/
def pollItems [Monad m] (opened : Nat → Bool) (short clear : Bool) :
    List (Future m α) → m (Except Error (List (Future m α)))
  | [] => pure (.ok [])
  | item :: rest => do
    match ← poll opened item with
    | settled (.error e) =>
      if short || clear then return .error e
      else
        match ← pollItems opened short false rest with
        | .error e => return .error e
        | .ok rest => return .ok (settled (.error e) :: rest)
    | item =>
      match ← pollItems opened short (clear && item.hasValue) rest with
      | .error e => return .error e
      | .ok rest => return .ok (item :: rest)

end

mutual

/-- The outcome of a future when every gate is open. -/
def force [Monad m] : Future m α → m (Except Error α)
  | settled r => pure r
  | gate _ r => pure r
  | andThen source f => do
    match ← force source with
    | .ok a => f a
    | .error e => return .error e
  | join items combine => do
    match ← forceItems items with
    | .ok as => return .ok (combine as)
    | .error e => return .error e

/-- The values of items from left to right, or the first error. -/
def forceItems [Monad m] : List (Future m α) → m (Except Error (List α))
  | [] => pure (.ok [])
  | item :: rest => do
    match ← force item with
    | .error e => return .error e
    | .ok a =>
      match ← forceItems rest with
      | .error e => return .error e
      | .ok as => return .ok (a :: as)

end

mutual

def gates : Future m α → List Nat
  | settled _ => []
  | gate id _ => [id]
  | andThen source _ => gates source
  | join items _ => gatesOfItems items

def gatesOfItems : List (Future m α) → List Nat
  | [] => []
  | item :: rest => gates item ++ gatesOfItems rest

end

end Future

end GenExpr
