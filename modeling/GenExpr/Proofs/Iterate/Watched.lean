import GenExpr.Iterate.Run
import GenExpr.Proofs.Deferred.Course

/-!
# Watched iterations

An iteration in a world of its own, in which rows are drawn and a callback is called in any way
whatever, with a record of every draw and every call. What follows the launch of the rows is a course of
events: gates open and the rows in flight are polled, and in the end one may wait for them.
-/

namespace GenExpr.Iterate

variable {σ β : Type}

/-- A call of a callback: the row that it was handed, and what it came to. -/
structure Call (β : Type) where
  row : Value
  answer : Except Raised β

/-- A move of an iteration: a row is drawn, or the callback is called. -/
inductive Move (β : Type) where
  | drew (outcome : Except Error Draw)
  | called (c : Call β)

def Move.drawn? : Move β → Option (Except Error Draw)
  | .drew d => some d
  | .called _ => none

def Move.call? : Move β → Option (Call β)
  | .drew _ => none
  | .called c => some c

/-- A world, with the moves that have been made in it in their order. -/
structure Watched (σ β : Type) where
  world : σ
  moves : List (Move β)

namespace Watched

variable (w : Watched σ β)

def drawn : List (Except Error Draw) := w.moves.filterMap Move.drawn?

def calls : List (Call β) := w.moves.filterMap Move.call?

def draw (d : Except Error Draw) (world : σ) : Watched σ β := ⟨world, w.moves ++ [.drew d]⟩

def call (c : Call β) (world : σ) : Watched σ β := ⟨world, w.moves ++ [.called c]⟩

@[simp] theorem drawn_draw (d : Except Error Draw) (world : σ) :
    (w.draw d world).drawn = w.drawn ++ [d] := List.filterMap_append

@[simp] theorem calls_draw (d : Except Error Draw) (world : σ) :
    (w.draw d world).calls = w.calls := by
  simp [draw, calls, Move.call?]

@[simp] theorem drawn_call (c : Call β) (world : σ) : (w.call c world).drawn = w.drawn := by
  simp [call, drawn, Move.drawn?]

@[simp] theorem calls_call (c : Call β) (world : σ) :
    (w.call c world).calls = w.calls ++ [c] := List.filterMap_append

/-- Where rows have only been drawn, they are all that can be read off. -/
theorem drawn_mk_map_drew (world : σ) (ds : List (Except Error Draw)) :
    (⟨world, ds.map .drew⟩ : Watched σ β).drawn = ds := by
  simp [drawn, List.filterMap_map, Function.comp_def, Move.drawn?]

theorem calls_mk_map_drew (world : σ) (ds : List (Except Error Draw)) :
    (⟨world, ds.map .drew⟩ : Watched σ β).calls = [] := by
  simp [calls, List.filterMap_map, Function.comp_def, Move.call?]

end Watched

def watchDraw (draw : StateM σ (Except Error Draw)) : StateM (Watched σ β) (Except Error Draw) :=
  fun w => ((draw w.world).1, w.draw (draw w.world).1 (draw w.world).2)

def watchCall (call : Value → StateM σ (Except Raised β)) (v : Value) :
    StateM (Watched σ β) (Except Raised β) :=
  fun w => ((call v w.world).1, w.call ⟨v, (call v w.world).1⟩ (call v w.world).2)

theorem run_bind {γ δ : Type} (x : StateM σ γ) (next : γ → StateM σ δ) (s : σ) :
    (x >>= next).run s = (next (x.run s).1).run (x.run s).2 := rfl

theorem run_watchDraw_bind {γ : Type} (draw : StateM σ (Except Error Draw))
    (next : Except Error Draw → StateM (Watched σ β) γ) (w : Watched σ β) :
    (watchDraw draw >>= next).run w =
      (next (draw w.world).1).run (w.draw (draw w.world).1 (draw w.world).2) := rfl

theorem run_watchCall_bind {γ : Type} (call : Value → StateM σ (Except Raised β)) (v : Value)
    (next : Except Raised β → StateM (Watched σ β) γ) (w : Watched σ β) :
    (watchCall call v >>= next).run w =
      (next (call v w.world).1).run (w.call ⟨v, (call v w.world).1⟩ (call v w.world).2) := rfl

variable {m : Type → Type} [Monad m]

/-- What a course of events makes of the rows in flight, from a list of open gates on. -/
def follow (call : Value → m (Except Raised β)) : List Event → List Nat → Flight β → m (Flight β)
  | [], _, f => pure f
  | .opening gate :: rest, opened, f => follow call rest (gate :: opened) (f.wake gate)
  | .polling :: rest, opened, f => do follow call rest opened (← f.poll opened.contains call)

/-- What an iteration over nodes has come to after a course of events, if it has ended. -/
def courseOf (slot : Nat) (nodes : List Node) (iterations : Nat)
    (perform : DrawM Draw → m (Except Error Draw)) (call : Value → m (Except Raised β))
    (events : List Event) (opened : List Nat) (wait : Bool) : m (Option (Except Halt (List β))) := do
  match ← start slot nodes iterations perform call with
  | .error halt => return some (.error halt)
  | .ok l =>
    match l.run with
    | .ready results => return some (.ok results)
    | .pending f =>
      let f ← follow call events opened f
      let f ← if wait then f.finish call else pure f
      return f.ended.map (Except.mapError .failed)

/-- What an iteration over expressions has come to after a course of events, if it has ended. -/
def outcome (slot : Nat) (r : Registry) (o : Options) (expressions : List String) (b : BuildState)
    (perform : DrawM Draw → m (Except Error Draw)) (call : Value → m (Except Raised β))
    (events : List Event) (opened : List Nat) (wait : Bool) : m (Option (Except Halt (List β))) :=
  match ((prepare r o expressions).run.run b).1 with
  | .error e => pure (some (.error (.failed e)))
  | .ok nodes => courseOf slot nodes o.iterations perform call events opened wait

section Room

variable {slot iterations : Nat} {nodes : List Node} {perform : DrawM Draw → m (Except Error Draw)}
  {call : Value → m (Except Raised β)} {events : List Event} {opened : List Nat} {wait : Bool}

theorem start_of_overflow (h : roomLimit < iterations * slot) :
    start slot nodes iterations perform call = pure (.error .overflow) :=
  if_neg (Nat.not_le.2 h)

theorem start_of_fits (h : iterations * slot ≤ roomLimit) :
    start slot nodes iterations perform call = (do
      return (← launch (nodes.any Node.isAsync) (perform (row nodes)) call iterations
        ⟨[], [], none⟩).mapError .failed) :=
  if_pos h

theorem courseOf_of_overflow [LawfulMonad m] (h : roomLimit < iterations * slot) :
    courseOf slot nodes iterations perform call events opened wait =
      pure (some (.error .overflow)) := by
  rw [courseOf, start_of_overflow h, pure_bind]

end Room

end GenExpr.Iterate
