import GenExpr.Kind.Registry

/-!
# Ready-made custom kinds

Custom kinds for trying generators out: leaves that follow a script, kinds that show what they were
built with, kinds that wrap another expression, and kinds that refuse to be built. Also the functions
on values that can be named where a draw is handed to a function.
-/

namespace GenExpr

inductive Step where
  | ready (v : Value)
  /-- The number of the draw, from one. -/
  | count
  /-- The number of the draw, in a future that has settled. -/
  | settledCount
  | fail (e : Error)
  | settled (outcome : Except Error Value)
  | gated (outcome : Except Error Value)

/-- The draw of a step, given the number of earlier draws. -/
def Step.draw (n : Nat) : Step → LeafDraw
  | ready v => .ready v
  | count => .ready (.int (n + 1))
  | settledCount => .settled (.ok (.int (n + 1)))
  | fail e => .fail e
  | settled outcome => .settled outcome
  | gated outcome => .gated outcome

/-- A leaf that goes through a script over and over. -/
def Leaf.scripted (asynchronous : Bool) (steps : List Step) : Leaf where
  asynchronous := asynchronous
  draw n :=
    match steps[n % steps.length]? with
    | some step => step.draw n
    | none => .ready .null

namespace Value

/-- Twice an integer, in 64 bits, and zero for any other value. -/
def doubled (v : Value) : Value := .int (Int.bmod (2 * v.int?.getD 0) (1 <<< 64))

def function? (name : String) : Option (Value → Value) :=
  if name = "text" then some fun v => .str v.text
  else if name = "double" then some doubled
  else if name = "wrap" then some fun v => .array [v]
  else none

/-- Applies the function of a name; without one the name is the error. -/
def apply (name : String) (v : Value) : Except Error Value :=
  match function? name with
  | some f => .ok (f v)
  | none => .error (.custom (.words name))

/-- Applies the function of a name; without one the result is null. -/
def applyOrNull (name : String) (v : Value) : Value :=
  match function? name with
  | some f => f v
  | none => .null

end Value

namespace Kind

/-- A kind whose every source goes through a script. -/
def scripted (name : String) (asynchronous : Bool) (steps : List Step) : Kind :=
  .custom ⟨name, 0, fun _ _ => .leaf (.scripted asynchronous steps)⟩

/-- A kind whose sources always draw what they were built with: the iterations, the arguments, and the
option that the first argument names. -/
def echoing (name : String) : Kind :=
  .custom ⟨name, 0, fun o arguments =>
    let option := (arguments.head?.bind o.get?).getD .null
    let v := .array [.int o.iterations, .array (arguments.map .str), option]
    .leaf ⟨false, fun _ => .ready v⟩⟩

/-- A kind that draws its first argument as an expression and wraps the value. -/
def wrapping (name : String) : Kind :=
  .custom ⟨name, 0, fun _ arguments =>
    .through (arguments.head?.getD "") fun v => .ok (.array [v])⟩

def refusing (name : String) (e : Error) : Kind := .custom ⟨name, 0, fun _ _ => .refuse e⟩

/-- A kind that refuses to be built with the error of building an expression. -/
def refusingAs (name expression : String) : Kind :=
  .custom ⟨name, expression.length + 1, fun _ _ =>
    .refuseAfter expression fun
      | some e => .custom (.error e)
      | none => .custom (.words "it builds")⟩

end Kind

end GenExpr
