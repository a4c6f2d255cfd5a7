import GenExpr.Deferred.Basic

/-!
# Rows in flight

The rows of an iteration whose draws are pending. A row is woken when it is issued and whenever a gate
opens that it waits for. Woken rows are looked at in the order in which they were woken; a row that has
settled is handed to the callback at once. The first error, of a row or of the callback, ends the run.
The results are kept at the places of their rows.
-/

namespace GenExpr

structure Flight (β : Type) where
  /-- The results at the places of their rows. -/
  slots : List (Option β)
  /-- The rows that have not settled, by number. -/
  waiting : List (Nat × Future Id Value)
  /-- The numbers of the rows to look at next. -/
  woken : List Nat
  /-- How the run ended. -/
  ended : Option (Except Error (List β))

namespace Flight

variable {m : Type → Type} {β : Type}

/-- A flight of rows that have all just been issued. -/
def ofRows (slots : List (Option β)) (waiting : List (Nat × Future Id Value)) : Flight β :=
  ⟨slots, waiting, waiting.map Prod.fst, none⟩

def remove (i : Nat) (rows : List (Nat × Future Id Value)) : List (Nat × Future Id Value) :=
  rows.filter fun row => row.1 ≠ i

/-- The rows with another future for one of them. -/
def replace (i : Nat) (f : Future Id Value) (rows : List (Nat × Future Id Value)) :
    List (Nat × Future Id Value) :=
  rows.map fun row => if row.1 = i then (i, f) else row

/-- Looks at rows in order, and ends the run when none is left waiting. -/
def visit [Monad m] (opened : Nat → Bool) (call : Value → m (Except Raised β)) :
    List Nat → Flight β → m (Flight β)
  | [], f =>
    pure (if f.waiting.isEmpty then { f with ended := some (.ok (f.slots.filterMap id)) } else f)
  | i :: rest, f =>
    match f.waiting.lookup i with
    | none => visit opened call rest f
    | some row =>
      match Id.run (row.poll opened) with
      | .settled (.error e) => pure { f with ended := some (.error e) }
      | .settled (.ok v) => do
        match ← call v with
        | .error raised => return { f with ended := some (.error (.custom raised)) }
        | .ok b =>
          visit opened call rest
            { f with slots := f.slots.set i (some b), waiting := remove i f.waiting }
      | row => visit opened call rest { f with waiting := replace i row f.waiting }

/-- Looks at all woken rows, unless the run has ended. -/
def poll [Monad m] (opened : Nat → Bool) (call : Value → m (Except Raised β)) (f : Flight β) :
    m (Flight β) :=
  match f.ended with
  | some _ => pure f
  | none => visit opened call f.woken { f with woken := [] }

def wake (gate : Nat) (f : Flight β) : Flight β :=
  let rows := f.waiting.filterMap fun row =>
    if row.2.gates.contains gate && !f.woken.contains row.1 then some row.1 else none
  { f with woken := f.woken ++ rows }

/-- Opens every gate and looks at all rows: the woken ones and then the others. -/
def finish [Monad m] (call : Value → m (Except Raised β)) (f : Flight β) : m (Flight β) :=
  let others := (f.waiting.map Prod.fst).filter fun i => !f.woken.contains i
  poll (fun _ => true) call { f with woken := f.woken ++ others }

end Flight

end GenExpr
