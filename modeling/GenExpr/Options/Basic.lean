import GenExpr.Entries
import GenExpr.Letters
import GenExpr.Value.Basic

/-!
# Options

What every generator of a run is built with: how often to iterate, the letters of random strings, and
custom options by name.
-/

namespace GenExpr

structure Options where
  iterations : Nat
  letters : Letters
  custom : List (String × Value)

namespace Options

/-- A hundred iterations, the upper case letters, and no custom options. -/
def standard : Options := ⟨100, .standard, []⟩

def set (o : Options) (key : String) (v : Value) : Options :=
  { o with custom := Entries.insert key v o.custom }

def get? (o : Options) (key : String) : Option Value := Entries.find? key o.custom

end Options

end GenExpr
