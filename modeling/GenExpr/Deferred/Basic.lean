import GenExpr.Deferred.Future
import GenExpr.Value.Text

/-!
# Deferred values

A value that is there at once, or that a future will settle to. Functions attached to a value that is
there run at once; attached to a future they wait for it. So what combines deferred values need not
know which sort it holds.
-/

namespace GenExpr

inductive Deferred (m : Type → Type) (α : Type) where
  | ready (a : α)
  | pending (f : Future m α)

namespace Deferred

variable {m : Type → Type} {α : Type}

def isReady : Deferred m α → Bool
  | ready _ => true
  | pending _ => false

def ready? : Deferred m α → Option α
  | ready a => some a
  | pending _ => none

def toFuture : Deferred m α → Future m α
  | ready a => .settled (.ok a)
  | pending f => f

/-- Applies a function that cannot fail, now or when the future settles. -/
def map [Monad m] (f : α → α) : Deferred m α → Deferred m α
  | ready a => ready (f a)
  | pending source => pending (.andThen source fun a => pure (.ok (f a)))

/-- Goes on with a function that can fail. At a value that is there its error is the result at once, and
otherwise it is what the future settles to. -/
def andThen [Monad m] (f : α → m (Except Error α)) :
    Deferred m α → m (Except Error (Deferred m α))
  | ready a => do
    match ← f a with
    | .ok b => return .ok (ready b)
    | .error e => return .error e
  | pending source => pure (.ok (pending (.andThen source f)))

/-- The values of a list of deferred values, if every one is there. -/
def values? : List (Deferred m α) → Option (List α)
  | [] => some []
  | ready a :: rest =>
    match values? rest with
    | some as => some (a :: as)
    | none => none
  | pending _ :: _ => none

theorem values?_eq_none_iff {items : List (Deferred m α)} :
    values? items = none ↔ ∃ d ∈ items, d.isReady = false := by
  induction items with
  | nil => simp [values?]
  | cons d rest ih =>
    cases d with
    | pending f => simp [values?, isReady]
    | ready a => cases hr : values? rest <;> simp_all [values?, isReady]

/-- Combines the values of all items in order. It stays ready if every item is. -/
def all (combine : List α → α) (items : List (Deferred m α)) : Deferred m α :=
  match values? items with
  | some as => ready (combine as)
  | none => pending (.join (items.map toFuture) combine)

theorem isReady_all_iff {combine : List α → α} {items : List (Deferred m α)} :
    (all combine items).isReady = true ↔ ∀ d ∈ items, d.isReady = true := by
  unfold all
  cases hv : values? items with
  | none =>
    obtain ⟨d, hd, hp⟩ := values?_eq_none_iff.1 hv
    constructor
    · intro h
      simp [isReady] at h
    · intro h
      simp [h d hd] at hp
  | some as =>
    constructor
    · intro _ d hd
      cases hp : d.isReady with
      | true => rfl
      | false => simp [values?_eq_none_iff.2 ⟨d, hd, hp⟩] at hv
    · exact fun _ => rfl

def wait [Monad m] : Deferred m α → m (Except Error α)
  | ready a => pure (.ok a)
  | pending f => f.force

end Deferred

abbrev Draw := Deferred Id Value

/-- The debug text of every draw that is pending. -/
def Draw.pendingText : String := "Pending(..)"

def Draw.debug : Draw → String
  | .ready v => "Ready(" ++ v.debug ++ ")"
  | .pending _ => pendingText

end GenExpr
