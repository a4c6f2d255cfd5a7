import GenExpr.Proofs.Iterate.Turns
import GenExpr.Proofs.Node.Reach

/-!
# Synchronous iterations

Whether nodes are synchronous and draw at once follows from the leaves that their expressions reach. An
iteration over such nodes takes turns, whatever the callback does, and never comes to a future.
-/

namespace GenExpr

namespace Node

variable {r : Registry} {o : Options} {expressions : List String} {nodes : List Node}
  {b b' : BuildState}

theorem any_isAsync_eq_false_iff :
    nodes.any isAsync = false ↔ ∀ n ∈ nodes, n.isAsync = false := by
  simp only [List.any_eq_false, Bool.not_eq_true]

theorem prompt_of_built (hr : r.Honest) (built : Returns (expressions.mapM (build r o)) b nodes b')
    (hsync : ∀ n ∈ nodes, n.isAsync = false) : ∀ n ∈ nodes, n.source.Prompt := by
  intro n hn
  obtain ⟨e, -, b₁, b₂, hbuilt⟩ := exists_of_returns_mapM built hn
  exact prompt_of_not_isAsync hr hbuilt (hsync n hn)

end Node

namespace Iterate

variable {σ β : Type}

/-- Either a check fails, and the iteration fails with its error before anything is drawn or called. Or
every expression builds. If the nodes are synchronous and draw at once, rows and calls then take turns, up
to the first that fails, and what the callback came to is there at once; but where room for so many
results cannot be asked for, the iteration overflows before anything is drawn or called. -/
theorem synchronous_rows_take_turns (slot : Nat) (r : Registry) (o : Options)
    (expressions : List String) (b : BuildState) (get : σ → DrawState) (put : DrawState → σ → σ)
    (call : Value → StateM σ (Except Raised β)) (w : σ) :
    let run := (iterate slot r o expressions b (fun action => watchDraw (drawIn get put action))
      (watchCall call)).run ⟨w, []⟩
    ((∃ e, Refused r o expressions b e) ∨ expressions ≠ [] ∧ o.iterations ≠ 0 ∧
      ∃ nodes b', Returns (expressions.mapM (Node.build r o)) b nodes b') ∧
    (∀ e, Refused r o expressions b e → run = (.error (.failed e), ⟨w, []⟩)) ∧
    ∀ nodes b', expressions ≠ [] → o.iterations ≠ 0 →
      Returns (expressions.mapM (Node.build r o)) b nodes b' →
      (∀ n ∈ nodes, n.isAsync = false ∧ n.source.Prompt) →
      (roomLimit < o.iterations * slot → run = (.error .overflow, ⟨w, []⟩)) ∧
      (o.iterations * slot ≤ roomLimit → ∃ moves result w',
        run = ((result.map .ready).mapError .failed, ⟨w', moves⟩) ∧
        InTurn o.iterations moves result ∧
        Turns (drawIn get put (row nodes)) call o.iterations w moves result w') := by
  intro run
  refine ⟨refused_or_built r o expressions b, ?_, ?_⟩
  · intro e h
    simp only [run, iterate_of_refused h]
    rfl
  · intro nodes b' given iterations built hnodes
    refine ⟨fun hroom => ?_, fun hroom => ?_⟩
    · simp only [run, iterate_of_overflow given iterations built hroom]
      rfl
    have hsync : nodes.any Node.isAsync = false :=
      Node.any_isAsync_eq_false_iff.2 fun n hn => (hnodes n hn).1
    have hready : ∀ (w : Watched σ β) (d : Draw) (w' : Watched σ β),
        (watchDraw (drawIn get put (row nodes))).run w = (.ok d, w') → d.isReady = true :=
      fun _ _ _ h => isReady_of_drawIn (fun n hn => (hnodes n hn).2) (run_watchDraw h).1
    obtain ⟨moves, result, ⟨w', log⟩, hturns, hrun⟩ :=
      run_iterate_turns (watchCall call) (fun action => watchDraw (drawIn get put action)) hsync
        hready ⟨w, []⟩ given iterations built hroom
    obtain ⟨hturns, hlog⟩ := hturns.of_watched
    obtain rfl : moves = log := hlog.symm
    exact ⟨moves, result, w', hrun, hturns.inTurn, hturns⟩

theorem callback_fails_at_third_row :
    let r := Registry.standard.register "calm" (.scripted "calm" false [.ready (.int 4), .count])
    let o : Options := ⟨5, .standard, []⟩
    let expressions := ["calm", "2*(oneOf:calm:calm)"]
    let draw : DrawM Draw → StateM (DrawState × Nat) (Except Error Draw) :=
      drawIn Prod.fst fun s w => (s, w.2)
    let call : Value → StateM (DrawState × Nat) (Except Raised String) := fun v w =>
      (if w.2 = 2 then .error (.error .noIterations) else .ok v.text, w.1, w.2 + 1)
    let w : DrawState × Nat := (⟨⟨fun _ => 7, 0⟩, 0, fun _ => 0⟩, 0)
    let run := (iterate 24 r o expressions ⟨[], 0⟩ (fun action => watchDraw (draw action))
      (watchCall call)).run ⟨w, []⟩
    run.2.moves.length = 6 ∧ ∃ nodes b',
      Returns (expressions.mapM (Node.build r o)) ⟨[], 0⟩ nodes b' ∧
      ∃ moves result w', run = ((result.map .ready).mapError .failed, ⟨w', moves⟩) ∧
        InTurn 5 moves result ∧ Turns (draw (row nodes)) call 5 w moves result w' := by
  intro r o expressions draw call w run
  have hmoves : run.2.moves.length = 6 := by decide +kernel
  have hnodes : ((expressions.mapM (Node.build r o)).run.run ⟨[], 0⟩).run.1.toOption.map
      (fun nodes => nodes.any Node.isAsync) = some false := by decide +kernel
  have hr : r.Honest := Registry.standard_honest.register fun _ _ l hl _ => by
    obtain rfl := Recipe.leaf.inj hl
    apply Leaf.prompt_scripted
    simp [Step.draw]
  obtain ⟨nodes, b', built, hflags⟩ := exists_returns_of_toOption hnodes
  have hsync : ∀ n ∈ nodes, n.isAsync = false := Node.any_isAsync_eq_false_iff.1 hflags
  have hprompt := Node.prompt_of_built hr built hsync
  have hturns := ((synchronous_rows_take_turns 24 r o expressions ⟨[], 0⟩ Prod.fst
    (fun s w => (s, w.2)) call w).2.2 nodes b' (by decide) (by decide) built
    fun n hn => ⟨hsync n hn, hprompt n hn⟩).2 (by decide)
  with_reducible exact ⟨hmoves, nodes, b', built, hturns⟩

theorem greatest_number_of_synchronous_rows_overflows :
    let o : Options := ⟨(1 <<< 64) - 1, .standard, []⟩
    let call : Value → StateM DrawState (Except Raised String) := fun _ =>
      return .error (.words "callback failed")
    ∃ nodes b', Returns (["int:4-4"].mapM (Node.build .standard o)) ⟨[], 0⟩ nodes b' ∧
      (∀ n ∈ nodes, n.isAsync = false ∧ n.source.Prompt) ∧ o.iterations ≠ 0 ∧
      ∀ w : DrawState, (iterate 24 .standard o ["int:4-4"] ⟨[], 0⟩
        (fun action => watchDraw (drawIn id (fun s _ => s) action)) (watchCall call)).run ⟨w, []⟩ =
          (.error .overflow, ⟨w, []⟩) := by
  intro o call
  have hnodes : ((["int:4-4"].mapM (Node.build .standard o)).run.run ⟨[], 0⟩).run.1.toOption.map
      (fun nodes => nodes.any Node.isAsync) = some false := by decide +kernel
  obtain ⟨nodes, b', built, hflags⟩ := exists_returns_of_toOption hnodes
  have hsync : ∀ n ∈ nodes, n.isAsync = false := Node.any_isAsync_eq_false_iff.1 hflags
  have hprompt := Node.prompt_of_built Registry.standard_honest built hsync
  refine ⟨nodes, b', built, fun n hn => ⟨hsync n hn, hprompt n hn⟩, by decide, fun w => ?_⟩
  rw [iterate_of_overflow (by decide) (by decide) built (by decide)]
  rfl

end Iterate

end GenExpr
