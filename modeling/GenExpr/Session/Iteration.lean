import GenExpr.Session.Basic

/-!
# Iterations in a session

Runs an iteration with a callback that writes down every row it is handed, and follows a run that is
pending to its end by opening gates one after another.
-/

namespace GenExpr.Session

/-- What the callback does: it names the rows, and fails at one call if it is told to. -/
structure Callback where
  failAt : Option Nat
  message : String
  /-- An expression whose error is raised in place of the message, if it has one. -/
  failWith : Option String

/-- A session and the rows that the callback has been handed. -/
structure Calling where
  session : Session
  calls : List Value

def within {α : Type} (action : StateM Session α) : StateM Calling α := do
  let c ← get
  let (a, s) := action c.session
  set { c with session := s }
  return a

/-- What the callback raises when it is told to fail. -/
def Callback.raise (cb : Callback) : StateM Session Raised := do
  match cb.failWith with
  | none => return .words cb.message
  | some expression =>
    match ← parse expression with
    | .error e => return .error e
    | .ok _ => return .words cb.message

def Callback.call (cb : Callback) (row : Value) : StateM Calling (Except Raised String) := do
  let n := (← get).calls.length
  modify fun c => { c with calls := c.calls ++ [row] }
  if cb.failAt = some n then return .error (← within cb.raise)
  else return .ok (toString n ++ ":" ++ row.text)

/-- One look at a run that is pending: how many calls there have been, and whether it has ended. -/
structure Glance where
  calls : Nat
  ended : Bool

/-- The bytes that one result of the callback takes up, which is a text or is not there yet. -/
def slotBytes : Nat := 24

structure Course where
  gates : Nat
  callsBefore : Nat
  trace : List Glance
  outcome : Option (Except Error (List String))

inductive Ending where
  | halted (halt : Iterate.Halt)
  | ready (results : List String)
  | waited (course : Course)
  | followed (course : Course)

def look (cb : Callback) (f : Flight String) : StateM Calling (Flight String × Glance) := do
  let opened := (← get).session.isOpen
  let f ← f.poll opened cb.call
  return (f, ⟨(← get).calls.length, f.ended.isSome⟩)

/-- Opens gates one after another, and looks at the rows in flight after each, until the run ends. -/
def follow (cb : Callback) : List Nat → Flight String → StateM Calling (Flight String × List Glance)
  | [], f => pure (f, [])
  | gate :: rest, f => do
    if f.ended.isSome then return (f, [])
    else if ← within (openGate gate) then
      let (f, first) ← look cb (f.wake gate)
      let (f, more) ← follow cb rest f
      return (f, first :: more)
    else follow cb rest f

/-- Follows the rows in flight: one look, then the gates of the run in the given order, then the others
in ascending order. Gates are numbered from the first gate of the run. -/
def followAll (cb : Callback) (firstGate gates : Nat) (order : List Nat) (f : Flight String) :
    StateM Calling (Flight String × List Glance) := do
  let (f, first) ← look cb f
  let (f, more) ← follow cb ((order ++ List.range gates).map (firstGate + ·)) f
  return (f, first :: more)

/-- Issues the rows of an iteration and writes down what there is to note. -/
def issueRows (cb : Callback) (o : Options) (expressions : List String) :
    StateM Calling (Except Iterate.Halt (Iterate.Launch String)) := do
  match ← within (building (Iterate.prepare (← get).session.registry o expressions)) with
  | .error e => return .error (.failed e)
  | .ok nodes =>
    within (note [.iterating nodes.length o.iterations (nodes.any Node.isAsync)])
    match ← Iterate.start slotBytes nodes o.iterations (fun action => within (drawing action))
        cb.call with
    | .error halt => return .error halt
    | .ok l =>
      within (note l.records)
      return .ok l

/-- Runs an iteration. A run that is pending is waited for with every gate open, or followed while
gates are opened in the given order. -/
def iterate (cb : Callback) (o : Options) (expressions : List String) (wait : Bool)
    (order : List Nat) : StateM Calling Ending := do
  let firstGate := (← get).session.draws.issued
  match ← issueRows cb o expressions with
  | .error halt => return .halted halt
  | .ok l =>
    match l.run with
    | .ready results => return .ready results
    | .pending f =>
      let gates := (← get).session.draws.issued - firstGate
      let callsBefore := (← get).calls.length
      if wait then
        within openAll
        let f ← f.finish cb.call
        return .waited ⟨gates, callsBefore, [], f.ended⟩
      else
        let (f, trace) ← followAll cb firstGate gates order f
        return .followed ⟨gates, callsBefore, trace, f.ended⟩

end GenExpr.Session
