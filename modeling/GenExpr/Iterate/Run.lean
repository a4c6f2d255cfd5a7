import GenExpr.Iterate.Flight
import GenExpr.Node.Build
import GenExpr.Source.Draw

/-!
# Iterating

Draws rows from the nodes of several expressions and hands each to a callback. If no node is
asynchronous, rows and callbacks alternate and the first error ends the run. Otherwise all rows are
issued before any callback, and the callbacks run as the rows settle; a draw that fails then stands for
a row that has settled to its error, and no row is issued after it. A row that is pending although no
node is asynchronous makes the run wait with it and with every row after it.

Room for the results of all rows is asked for before the first row is drawn. More of it than any
allocation can span makes the program panic.
-/

namespace GenExpr

namespace Iterate

/-- Checks what is given and builds the nodes in order. -/
def prepare (r : Registry) (o : Options) (expressions : List String) : BuildM (List Node) :=
  if expressions = [] then throw .nothingToIterate
  else if o.iterations = 0 then throw .noIterations
  else expressions.mapM (Node.build r o)

/-- One row: the draw of a single node, or an array of the draws of several in order. -/
def row (nodes : List Node) : DrawM Draw :=
  match nodes with
  | [n] => n.source.draw
  | ns => do return .all .array (← DrawM.sequence (ns.map fun n => n.source.draw))

/-- The rows that have been issued: their results so far and those that wait. -/
structure Launch (β : Type) where
  slots : List (Option β)
  waiting : List (Nat × Future Id Value)
  /-- The row whose draw failed. -/
  refused : Option Nat

def Launch.wait {β : Type} (l : Launch β) (f : Future Id Value) : Launch β :=
  { l with slots := l.slots ++ [none], waiting := l.waiting ++ [(l.slots.length, f)] }

def Launch.keep {β : Type} (l : Launch β) (b : β) : Launch β :=
  { l with slots := l.slots ++ [some b] }

def launch {m : Type → Type} [Monad m] {β : Type} (asynchronous : Bool)
    (draw : m (Except Error Draw)) (call : Value → m (Except Raised β)) :
    Nat → Launch β → m (Except Error (Launch β))
  | 0, l => pure (.ok l)
  | n + 1, l => do
    match ← draw with
    | .error e =>
      if asynchronous then
        return .ok { l.wait (.settled (.error e)) with refused := some l.slots.length }
      else return .error e
    | .ok (.pending f) => launch asynchronous draw call n (l.wait f)
    | .ok (.ready v) =>
      if !asynchronous && l.waiting.isEmpty then
        match ← call v with
        | .error raised => return .error (.custom raised)
        | .ok b => launch asynchronous draw call n (l.keep b)
      else launch asynchronous draw call n (l.wait (.settled (.ok v)))

inductive Run (β : Type) where
  | ready (results : List β)
  | pending (flight : Flight β)

def Launch.run {β : Type} (l : Launch β) : Run β :=
  if l.waiting.isEmpty then .ready (l.slots.filterMap id) else .pending (.ofRows l.slots l.waiting)

/-- What is noted down once rows have been issued. -/
def Launch.records {β : Type} (l : Launch β) : List Record :=
  let refusals :=
    match l.refused with
    | some i => [.refused i]
    | none => []
  if l.waiting.isEmpty then refusals else refusals ++ [.pending l.waiting.length]

/-- The most bytes that one allocation may span: the greatest signed size. -/
def roomLimit : Nat := (1 <<< 63) - 1

/-- Why an iteration comes to no results. -/
inductive Halt where
  | failed (e : Error)
  /-- There are more results than room can be asked for: a panic. -/
  | overflow

/-- Asks for room for the results, of which each takes up so many bytes, and then issues the rows. -/
def start {m : Type → Type} [Monad m] {β : Type} (slot : Nat) (nodes : List Node) (iterations : Nat)
    (perform : DrawM Draw → m (Except Error Draw)) (call : Value → m (Except Raised β)) :
    m (Except Halt (Launch β)) :=
  if iterations * slot ≤ roomLimit then do
    let launched ← launch (nodes.any Node.isAsync) (perform (row nodes)) call iterations ⟨[], [], none⟩
    return launched.mapError .failed
  else return .error .overflow

end Iterate

end GenExpr
