import GenExpr.Proofs.Action
import GenExpr.Proofs.Iterate.Watched
import GenExpr.Session.Iteration

/-!
# What is checked before an iteration

An iteration draws nothing and calls nothing before its checks have been passed: expressions are given,
there is to be an iteration at all, and each expression builds. The first check that fails gives the
error.
-/

namespace GenExpr

namespace Iterate

/-- What an iteration over expressions has come to once its rows have been issued. -/
def iterate {m : Type → Type} [Monad m] {β : Type} (slot : Nat) (r : Registry) (o : Options)
    (expressions : List String) (b : BuildState) (perform : DrawM Draw → m (Except Error Draw))
    (call : Value → m (Except Raised β)) : m (Except Halt (Run β)) :=
  match ((prepare r o expressions).run.run b).1 with
  | .error e => pure (.error (.failed e))
  | .ok nodes => do return (← start slot nodes o.iterations perform call).map Launch.run

variable {r : Registry} {o : Options} {expressions : List String} {b : BuildState}

/-- The first check of an iteration fails with an error. -/
inductive Refused (r : Registry) (o : Options) (expressions : List String) (b : BuildState) :
    Error → Prop
  | nothing (given : expressions = []) : Refused r o expressions b .nothingToIterate
  | noIterations (given : expressions ≠ []) (iterations : o.iterations = 0) :
      Refused r o expressions b .noIterations
  | expression {before after : List String} {expression : String} {nodes : List Node}
      {b₁ b₂ : BuildState} {e : Error} (iterations : o.iterations ≠ 0)
      (given : expressions = before ++ expression :: after)
      (built : Returns (before.mapM (Node.build r o)) b nodes b₁)
      (failed : Raises (Node.build r o expression) b₁ e b₂) :
      Refused r o expressions b e

theorem prepare_eq_mapM (given : expressions ≠ []) (iterations : o.iterations ≠ 0) :
    prepare r o expressions = expressions.mapM (Node.build r o) := by
  rw [prepare, if_neg given, if_neg iterations]

theorem Refused.raises {e : Error} (h : Refused r o expressions b e) :
    ∃ b', Raises (prepare r o expressions) b e b' := by
  cases h with
  | nothing given =>
    rw [prepare, if_pos given]
    exact ⟨b, raises_throw.2 ⟨rfl, rfl⟩⟩
  | noIterations given iterations =>
    rw [prepare, if_neg given, if_pos iterations]
    exact ⟨b, raises_throw.2 ⟨rfl, rfl⟩⟩
  | @expression before after expression nodes b₁ b₂ _ iterations given built failed =>
    have hgiven : expressions ≠ [] := by simp [given]
    rw [prepare_eq_mapM hgiven iterations]
    exact ⟨b₂, raises_mapM_iff.2 ⟨before, expression, after, nodes, b₁, given, built, failed⟩⟩

theorem refused_or_built (r : Registry) (o : Options) (expressions : List String) (b : BuildState) :
    (∃ e, Refused r o expressions b e) ∨ expressions ≠ [] ∧ o.iterations ≠ 0 ∧
      ∃ nodes b', Returns (expressions.mapM (Node.build r o)) b nodes b' := by
  rcases eq_or_ne expressions [] with given | given
  · exact .inl ⟨_, .nothing given⟩
  · rcases eq_or_ne o.iterations 0 with iterations | iterations
    · exact .inl ⟨_, .noIterations given iterations⟩
    · rcases returns_or_raises (expressions.mapM (Node.build r o)) b with
        ⟨nodes, b', built⟩ | ⟨e, b', failed⟩
      · exact .inr ⟨given, iterations, nodes, b', built⟩
      · obtain ⟨before, expression, after, nodes, b₁, hgiven, built, failed⟩ :=
          raises_mapM_iff.1 failed
        exact .inl ⟨e, .expression iterations hgiven built failed⟩

section Iterate

variable {m : Type → Type} [Monad m] {β : Type} {slot : Nat}
  {perform : DrawM Draw → m (Except Error Draw)} {call : Value → m (Except Raised β)}

theorem iterate_of_refused {e : Error} (h : Refused r o expressions b e) :
    iterate slot r o expressions b perform call = pure (.error (.failed e)) := by
  obtain ⟨b', hraises⟩ := h.raises
  have hprepared : ((prepare r o expressions).run.run b).1 = .error e := congrArg Prod.fst hraises
  rw [iterate, hprepared]

theorem iterate_of_built (given : expressions ≠ []) (iterations : o.iterations ≠ 0)
    {nodes : List Node} {b' : BuildState}
    (built : Returns (expressions.mapM (Node.build r o)) b nodes b') :
    iterate slot r o expressions b perform call =
      (do return (← start slot nodes o.iterations perform call).map Launch.run) := by
  rw [← prepare_eq_mapM given iterations] at built
  have hprepared : ((prepare r o expressions).run.run b).1 = .ok nodes := congrArg Prod.fst built
  rw [iterate, hprepared]

theorem iterate_of_overflow [LawfulMonad m] (given : expressions ≠ []) (iterations : o.iterations ≠ 0)
    {nodes : List Node} {b' : BuildState}
    (built : Returns (expressions.mapM (Node.build r o)) b nodes b')
    (hroom : roomLimit < o.iterations * slot) :
    iterate slot r o expressions b perform call = pure (.error .overflow) := by
  rw [iterate_of_built given iterations built, start_of_overflow hroom, pure_bind]
  rfl

end Iterate

end Iterate

namespace Session

open Iterate (prepare start Launch)

variable {α : Type} (cb : Callback) (o : Options) (expressions : List String) (c : Calling)

def Calling.built (c : Calling) (b : BuildState) : Calling :=
  { c with session := { c.session with journal := b.journal, leaves := b.leaves } }

def Calling.noted (c : Calling) (rs : List Record) : Calling :=
  { c with session := { c.session with journal := c.session.journal ++ rs } }

def Calling.buildState (c : Calling) : BuildState := ⟨c.session.journal, c.session.leaves⟩

theorem run_within_building (action : BuildM α) :
    (within (building action)).run c =
      ((action.run.run c.buildState).1, c.built (action.run.run c.buildState).2) := rfl

theorem run_within_note (rs : List Record) : (within (note rs)).run c = ((), c.noted rs) := rfl

/-- A session issues the rows of an iteration as the iteration has it, and in between it writes to its
journal. -/
theorem issueRows_eq_iterate :
    ∃ c₁ : Calling, c₁.calls = c.calls ∧ c₁.session.draws = c.session.draws ∧
      ((issueRows cb o expressions).run c).1.map Launch.run =
        ((Iterate.iterate slotBytes c.session.registry o expressions c.buildState
          (fun action => within (drawing action)) cb.call).run c₁).1 := by
  have hget : (get : StateM Calling Calling).run c = (c, c) := rfl
  rw [issueRows, Iterate.run_bind, hget, Iterate.run_bind, run_within_building, Iterate.iterate]
  rcases (prepare c.session.registry o expressions).run.run c.buildState with ⟨e | nodes, b⟩
  · exact ⟨c, rfl, rfl, rfl⟩
  · refine ⟨(c.built b).noted [.iterating nodes.length o.iterations (nodes.any Node.isAsync)],
      rfl, rfl, ?_⟩
    simp only [Iterate.run_bind, run_within_note]
    rcases (start slotBytes nodes o.iterations (fun action => within (drawing action)) cb.call).run
      ((c.built b).noted _) with ⟨halt | l, c₂⟩ <;> rfl

end Session

end GenExpr
