import GenExpr.Entries
import GenExpr.Kind.Builtin
import GenExpr.Options.Basic
import GenExpr.Source.Basic

/-!
# Kinds and the registry

A registry gives names to kinds. A custom kind says, for its options and arguments, what is to be built;
it builds nothing itself, so that building stays in one place.
-/

namespace GenExpr

/-- What a custom kind wants to be built for its options and arguments. -/
inductive Recipe where
  | leaf (l : Leaf)
  | refuse (e : Error)
  /-- A refusal that depends on the error of building an expression, if there is one. -/
  | refuseAfter (expression : String) (reason : Option Error → Error)
  /-- The draws of an expression, handed to a function. -/
  | through (expression : String) (f : Value → Except Error Value)

/-- A custom kind: the name it calls itself, the length that its recipes add to what is being built, and
its recipes. -/
structure CustomKind where
  name : String
  reach : Nat
  recipe : Options → List String → Recipe

inductive Kind where
  | builtin (b : Builtin)
  | custom (k : CustomKind)

namespace Kind

def name : Kind → String
  | builtin b => b.name
  | custom k => k.name

def reach : Kind → Nat
  | builtin _ => 0
  | custom k => k.reach

end Kind

/-- Kinds by the names they are registered under. -/
abbrev Registry := List (String × Kind)

namespace Registry

/-- Registers a kind under a name, in place of any kind of that name. -/
def register (r : Registry) (name : String) (k : Kind) : Registry := Entries.insert name k r

/-- Registers a kind under the name that it calls itself. -/
def registerNamed (r : Registry) (k : Kind) : Registry := register r k.name k

def lookup? (r : Registry) (name : String) : Option Kind := Entries.find? name r

theorem lookup?_register (r : Registry) (name name' : String) (k : Kind) :
    (r.register name k).lookup? name' = if name' = name then some k else r.lookup? name' :=
  Entries.find?_insert name name' k r

def names (r : Registry) : List String := Entries.keys r

def standard : Registry := Builtin.all.foldl (fun r b => register r b.name (.builtin b)) []

/-- How much length the recipes of all kinds can add, one after another. -/
def reach (r : Registry) : Nat := r.foldr (fun entry n => entry.2.reach + n) 0

end Registry

end GenExpr
