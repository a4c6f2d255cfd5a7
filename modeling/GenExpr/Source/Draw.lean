import GenExpr.Decimal.Precision
import GenExpr.Source.Basic

/-!
# Drawing

One draw of a source. A draw takes random words, counts the draws of leaves and issues gates. What it
took, counted and issued before it fails stays so, and the next draw goes on from there. Draws of a
combining source are made from left to right and combined whether they are ready or not.
-/

namespace GenExpr

structure DrawState where
  entropy : Entropy
  /-- How many gates have been issued. -/
  issued : Nat
  /-- How often each leaf has been drawn. -/
  tally : Nat → Nat

abbrev DrawM := ExceptT Error (StateM DrawState)

namespace DrawM

def sample {α : Type} (s : StateM Entropy α) : DrawM α := do
  let state ← get
  let (a, entropy) := s state.entropy
  set { state with entropy := entropy }
  return a

/-- The number of earlier draws of a leaf, to which one is added. -/
def count (id : Nat) : DrawM Nat := do
  let state ← get
  let n := state.tally id
  set { state with tally := fun i => if i = id then n + 1 else state.tally i }
  return n

def issue : DrawM Nat := do
  let state ← get
  set { state with issued := state.issued + 1 }
  return state.issued

/-- Performs actions from left to right, up to the first that fails. -/
def sequence {α : Type} : List (DrawM α) → DrawM (List α)
  | [] => pure []
  | action :: rest => do
    let a ← action
    return a :: (← sequence rest)

/-- Performs an action a number of times, up to the first time that it fails. -/
def repeated {α : Type} (action : DrawM α) : Nat → DrawM (List α)
  | 0 => pure []
  | n + 1 => do
    let a ← action
    return a :: (← repeated action n)

end DrawM

def Leaf.drawAs (l : Leaf) (id : Nat) : DrawM Draw := do
  match l.draw (← DrawM.count id) with
  | .ready v => return .ready v
  | .fail e => throw e
  | .settled outcome => return .pending (.settled outcome)
  | .gated outcome => return .pending (.gate (← DrawM.issue) outcome)

def Collection.random : Collection → StateM Entropy Value
  | items vs h => Sampling.pick vs h
  | chars cs h => do return .str (String.ofList [← Sampling.pick cs h])

def Value.concat (vs : List Value) : Value := .str (String.join (vs.map Value.text))

namespace Source

open DrawM (sample)

mutual

def draw : Source → DrawM Draw
  | letters length l => do
    let n ← sample length.randomInt
    return .ready (.str (String.ofList (← sample (l.randomChars n.toNat))))
  | text inner => do
    return (← draw inner).map fun v => .str v.text
  | number range precision => do
    let x ← sample range.random
    match precision with
    | none => return .ready (.float x)
    | some p => return .ready (.float (Decimal.roundTo p x))
  | int range => do return .ready (.int (← sample range.randomInt))
  | char range => do return .ready (.str (String.ofList [← sample range.random]))
  | boolean bias => do return .ready (.bool (← sample (Sampling.belowBias bias)))
  | oneOf first others => do
    let actions := draw first :: draws others
    let i ← sample (Sampling.index actions.length (Nat.succ_pos _))
    actions[i]
  | array items => do return .all .array (← DrawM.sequence (draws items))
  | times count inner => do return .all Value.concat (← DrawM.repeated (draw inner) count)
  | literal v => pure (.ready v)
  | entry collection => do return .ready (← sample collection.random)
  | leaf id l => l.drawAs id
  | adapted inner f => do
    match (← draw inner).andThen f with
    | .ok d => return d
    | .error e => throw e

/-- The draws of several sources, none of them performed yet. -/
def draws : List Source → List (DrawM Draw)
  | [] => []
  | s :: rest => draw s :: draws rest

end

end Source

end GenExpr
