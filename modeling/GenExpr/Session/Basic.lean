import GenExpr.Iterate.Run

/-!
# Sessions

A registry, the nodes built so far, the draws that are kept while they are pending, and the gates that
have been opened. A session is what a user works in step by step; a step that fails leaves everything
that it did before in place.
-/

namespace GenExpr

structure Session where
  registry : Registry
  nodes : List (String × Node)
  kept : List (String × Future Id Value)
  draws : DrawState
  opened : List Nat
  leaves : Nat
  journal : List Record

/-- What a draw comes to: a value, an error, a value or an error that was waited for, or a future that
is kept, with the number of gates issued so far. -/
inductive Drawn where
  | ready (v : Value)
  | failed (e : Error)
  | waited (outcome : Except Error Value)
  | kept (gates : Nat)

namespace Session

def fresh (entropy : Entropy) : Session where
  registry := .standard
  nodes := []
  kept := []
  draws := ⟨entropy, 0, fun _ => 0⟩
  opened := []
  leaves := 0
  journal := []

def note (rs : List Record) : StateM Session Unit :=
  modify fun s => { s with journal := s.journal ++ rs }

def register (name : String) (k : Kind) : StateM Session Unit := do
  note [.registering name]
  modify fun s => { s with registry := s.registry.register name k }

/-- Registers a kind under the name that it calls itself. -/
def registerNamed (k : Kind) : StateM Session Unit := register k.name k

def registerAll (kinds : List (String × Kind)) : StateM Session Unit :=
  kinds.forM fun entry => register entry.1 entry.2

def building {α : Type} (action : BuildM α) : StateM Session (Except Error α) := do
  let s ← get
  let (result, b) := action.run.run ⟨s.journal, s.leaves⟩
  set { s with journal := b.journal, leaves := b.leaves }
  return result

def drawing {α : Type} (action : DrawM α) : StateM Session (Except Error α) := do
  let s ← get
  let (result, draws) := action.run.run s.draws
  set { s with draws := draws }
  return result

def sampling {α : Type} (sample : StateM Entropy α) : StateM Session α := do
  let s ← get
  let (a, entropy) := sample s.draws.entropy
  set { s with draws := { s.draws with entropy := entropy } }
  return a

/-- Reads an expression, and notes a repetition that is written out. -/
def parse (expression : String) : StateM Session (Except Error Invocation) := do
  if Expression.isRepetition expression then note [.expanding expression]
  return Expression.parse expression

def build (o : Options) (expression : String) : StateM Session (Except Error Node) := do
  building (Node.build (← get).registry o expression)

def buildAs (name : String) (o : Options) (expression : String) :
    StateM Session (Except Error Node) := do
  let result ← build o expression
  match result with
  | .ok n => modify fun s => { s with nodes := Entries.insert name n s.nodes }
  | .error _ => pure ()
  return result

def node? (name : String) : StateM Session (Option Node) := do
  return Entries.find? name (← get).nodes

/-- Draws from a node a number of times, each time handing what is drawn to a function. -/
def resolve (n : Node) (f : Option (Value → Except Error Value)) :
    Nat → StateM Session (List (Except Error Draw))
  | 0 => pure []
  | k + 1 => do
    let source :=
      match f with
      | some f => Source.adapted n.source f
      | none => n.source
    let first ← drawing source.draw
    return first :: (← resolve n f k)

def isOpen (s : Session) (gate : Nat) : Bool := s.opened.contains gate

def openAll : StateM Session Unit := modify fun s => { s with opened := List.range s.draws.issued }

/-- Opens a gate. It is refused if there is no such gate or it is open. -/
def openGate (gate : Nat) : StateM Session Bool := do
  let s ← get
  if gate < s.draws.issued && !s.isOpen gate then
    set { s with opened := gate :: s.opened }
    return true
  else return false

/-- What becomes of a draw: one that is pending is waited for, or kept under a name. -/
def settle (name : String) (wait : Bool) : Except Error Draw → StateM Session Drawn
  | .error e => pure (.failed e)
  | .ok (.ready v) => pure (.ready v)
  | .ok (.pending f) => do
    if wait then
      openAll
      return .waited f.force.run
    else
      modify fun s => { s with kept := Entries.insert name f s.kept }
      return .kept (← get).draws.issued

def settleAll (name : String) (wait : Bool) (draws : List (Except Error Draw)) :
    StateM Session (List Drawn) :=
  draws.mapM (settle name wait)

structure Polled where
  outcome : Option (Except Error Value)

/-- Lets a kept draw go as far as the open gates allow, if one is kept under a name. -/
def poll (name : String) : StateM Session (Option Polled) := do
  let s ← get
  match Entries.find? name s.kept with
  | none => return none
  | some f =>
    let f := (f.poll s.isOpen).run
    set { s with kept := Entries.insert name f s.kept }
    return some ⟨f.outcome?⟩

end Session

end GenExpr
