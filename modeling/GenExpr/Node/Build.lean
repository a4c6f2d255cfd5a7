import GenExpr.Expression.Parse
import GenExpr.Journal
import GenExpr.Json.Reader
import GenExpr.Kind.Registry

/-!
# Building nodes

A node is built from an expression: the expression is read, its kind looked up, and the kind builds a
source from the arguments, which may build further nodes. The first failure ends the building, with its
error as it is. Leaves are numbered in the order in which they are built.
-/

namespace GenExpr

/-- A generator: the kind and arguments of its expression and what it draws from. -/
structure Node where
  kind : String
  arguments : List String
  source : Source

def Node.isAsync (n : Node) : Bool := n.source.isAsync

def Node.debug (n : Node) : String :=
  "GeneratorNode \x7b kind: " ++ Text.quoted n.kind ++ ", arguments: [" ++
    String.intercalate ", " (n.arguments.map Text.quoted) ++ "], asynchronous: " ++
    Record.flag n.isAsync ++ ", .. \x7d"

structure BuildState where
  journal : List Record
  /-- How many leaves have been built. -/
  leaves : Nat

abbrev BuildM := ExceptT Error (StateM BuildState)

namespace BuildM

def note (r : Record) : BuildM Unit := modify fun s => { s with journal := s.journal ++ [r] }

def nextLeaf : BuildM Nat := do
  let s ← get
  set { s with leaves := s.leaves + 1 }
  return s.leaves

end BuildM

/-- The collection of an option: the items of an array, the values of a map or the characters of a
string. -/
def Collection.ofOption (option : String) (o : Options) : Except Error Collection :=
  let ofItems (vs : List Value) : Except Error Collection :=
    if h : vs ≠ [] then .ok (.items vs h)
    else .error (.invalidArgument Builtin.entry.name (.emptyCollection option))
  match o.get? option with
  | none => .error (.missingCollection option)
  | some v =>
    if v.truthy then
      match v with
      | .array vs => ofItems vs
      | .map members => ofItems (members.map Prod.snd)
      | .str s =>
        if h : s.toList ≠ [] then .ok (.chars s.toList h)
        else .error (.invalidArgument Builtin.entry.name (.emptyCollection option))
      | _ => .error (.invalidArgument Builtin.entry.name (.notACollection option))
    else .error (.missingCollection option)

namespace Builtin

def finiteArgument (b : Builtin) (text : String) : Except Error Binary64 :=
  match Decimal.finite? text.toList with
  | some x => .ok x
  | none => .error (.invalidArgument b.name (.notANumber text))

/-- Reads the precision of a number, if it is given: a number above zero. -/
def precision : List String → Except Error (Option Binary64)
  | _ :: p :: _ =>
    if p = "" then .ok none
    else
      match finiteArgument number p with
      | .error e => .error e
      | .ok x =>
        if x.le (.zero false) then .error (.invalidArgument number.name .precisionNotPositive)
        else .ok (some x)
  | _ => .ok none

/-- Builds the nodes of several expressions from left to right. -/
def nestAll (nest : String → BuildM Node) : List String → BuildM (List Source)
  | [] => pure []
  | a :: rest => do
    let n ← nest a
    return n.source :: (← nestAll nest rest)

theorem nestAll_congr {nest nest' : String → BuildM Node} {args : List String}
    (h : ∀ a ∈ args, nest a = nest' a) : nestAll nest args = nestAll nest' args := by
  induction args with
  | nil => rfl
  | cons a rest ih =>
    rw [List.forall_mem_cons] at h
    rw [nestAll, nestAll, h.1, ih h.2]

/-- Builds the source of a builtin kind, by how nested expressions are built. -/
def build (nest : String → BuildM Node) (o : Options) (arguments : List String) (b : Builtin) :
    BuildM Source :=
  let first := b.firstArgument arguments
  match b with
  | string =>
    if Expression.isNumberRange first.toList then do
      return .letters (← NumberRange.parse first) o.letters
    else do return .text (← nest first).source
  | number => do
    let p ← precision arguments
    return .number (← NumberRange.parse first) p
  | int => do return .int (← NumberRange.parse first)
  | char => do return .char (← CharRange.parse first)
  | boolean => do return .boolean (← finiteArgument boolean first)
  | oneOf => do
    match arguments with
    | [] => throw (.invalidArgument oneOf.name .noExpressions)
    | a :: rest =>
      let n ← nest a
      return .oneOf n.source (← nestAll nest rest)
  | array => do return .array (← nestAll nest arguments)
  | repetition => do
    match Decimal.count? first.toList with
    | none => throw (.invalidArgument repetition.name (.notACount first))
    | some n =>
      match arguments with
      | _ :: inner :: _ => return .times n (← nest inner).source
      | _ => throw (.invalidArgument repetition.name .nothingToRepeat)
  | literal =>
    match Json.read first with
    | .ok v => return .literal v
    | .error fault => throw (.json fault)
  | entry => do return .entry (← Collection.ofOption first o)

end Builtin

/-- Carries a recipe out, by how nested expressions are built. -/
def Recipe.build (nest : String → BuildM Node) : Recipe → BuildM Source
  | leaf l => do return .leaf (← BuildM.nextLeaf) l
  | refuse e => throw e
  | refuseAfter expression reason => do
    match ← ExceptT.lift (nest expression).run with
    | .ok _ => throw (reason none)
    | .error e => throw (reason (some e))
  | through expression f => do return .adapted (← nest expression).source f

/-- Builds the source of a kind, by how nested expressions are built. -/
def Kind.build (nest : String → BuildM Node) (o : Options) (arguments : List String) :
    Kind → BuildM Source
  | builtin b => b.build nest o arguments
  | custom k => (k.recipe o arguments).build nest

namespace Node

/-- Builds a node, unless expressions nest deeper than a given number. -/
def buildWithin (r : Registry) (o : Options) : Nat → String → BuildM Node
  | 0, expression => throw (.endless expression)
  | depth + 1, expression => do
    if Expression.isRepetition expression then BuildM.note (.expanding expression)
    let invocation ← Expression.parse expression
    match r.lookup? invocation.kind with
    | none => throw (.unknownKind invocation.kind)
    | some k =>
      let source ← k.build (buildWithin r o depth) o invocation.arguments
      BuildM.note (.built invocation.kind expression source.isAsync)
      return ⟨invocation.kind, invocation.arguments, source⟩

/-- How deep expressions can nest: a nested expression is shorter than the one around it, unless a
custom kind brings it along. -/
def depthLimit (r : Registry) (expression : String) : Nat := expression.length + r.reach + 1

theorem length_lt_depthLimit (r : Registry) (expression : String) :
    expression.length < depthLimit r expression := by
  rw [depthLimit]
  omega

def build (r : Registry) (o : Options) (expression : String) : BuildM Node :=
  buildWithin r o (depthLimit r expression) expression

end Node

end GenExpr
