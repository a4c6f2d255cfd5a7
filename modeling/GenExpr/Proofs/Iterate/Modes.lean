import GenExpr.Proofs.Draw.Settlement
import GenExpr.Proofs.Iterate.Issue
import GenExpr.Proofs.Iterate.Order
import GenExpr.Proofs.Iterate.Turns
import GenExpr.Proofs.Node.Congruence

/-!
# The two modes of an iteration

A synchronous iteration draws and calls in turns and stops at the first error. An asynchronous one draws
all rows before the first call. Where each row of the second has settled at once to what the first draws,
both come to the same, as long as calls have no influence on draws.
-/

namespace GenExpr

open List (Forall₂)

theorem Source.settles_congruent : Source.Congruent Source.Settles where
  plain := Source.IsPlain.settles
  text := Source.settles_text
  oneOf := Source.settles_oneOf
  array := Source.settles_array
  times := Source.settles_times

namespace Iterate

variable {β γ : Type}

/-- A draw in a world of which a part belongs to the callback. -/
def drawApart (action : DrawM Draw) : StateM (DrawState × γ) (Except Error Draw) :=
  fun w => ((action.run w.1).1, (action.run w.1).2, w.2)

/-- A call in a world of which a part belongs to the draws. -/
def callApart (call : Value → StateM γ (Except Raised β)) (v : Value) :
    StateM (DrawState × γ) (Except Raised β) :=
  fun w => ((call v w.2).1, w.1, (call v w.2).2)

/-- Two worlds in which the same has been called. -/
structure SameCalls (w w' : Watched (DrawState × γ) β) : Prop where
  calls : w.calls = w'.calls
  world : w.world.2 = w'.world.2

def rowOutcome (d : Except Error Draw) : Except Error Value := (rowFuture d).force.run

/-- What the rows come to that are drawn one after another. -/
def outcomes (draw : DrawM Draw) (n : Nat) (s : DrawState) : List (Except Error Value) :=
  ((issue draw.run n).run s).1.map rowOutcome

/-- Two lists of outcomes that are the same up to the first error. -/
inductive SameToError : List (Except Error Value) → List (Except Error Value) → Prop
  | nil : SameToError [] []
  | error (e : Error) (rs rs' : List (Except Error Value)) :
      SameToError (.error e :: rs) (.error e :: rs')
  | ok (v : Value) {rs rs' : List (Except Error Value)} (h : SameToError rs rs') :
      SameToError (.ok v :: rs) (.ok v :: rs')

section Calls

variable (call : Value → StateM γ (Except Raised β))

theorem SameToError.handle_eq {m : Type → Type} [Monad m] {call : Value → m (Except Raised β)}
    {rs rs' : List (Except Error Value)} (h : SameToError rs rs') : handle call rs = handle call rs' := by
  induction h with
  | nil => rfl
  | error e => rfl
  | ok v _ ih => rw [handle, handle, ih]

theorem run_watchCall_callApart (v : Value) (w : Watched (DrawState × γ) β) :
    (watchCall (callApart call) v).run w = ((call v w.world.2).1,
      w.call ⟨v, (call v w.world.2).1⟩ (w.world.1, (call v w.world.2).2)) := rfl

theorem SameCalls.add_call {w w' : Watched (DrawState × γ) β} (h : SameCalls w w') (c : Call β)
    (s s' : DrawState) (world : γ) : SameCalls (w.call c (s, world)) (w'.call c (s', world)) where
  calls := by rw [Watched.calls_call, Watched.calls_call, h.calls]
  world := rfl

theorem SameCalls.add_draw {w w' : Watched (DrawState × γ) β} (h : SameCalls w w')
    (d : Except Error Draw) (s : DrawState) : SameCalls (w.draw d (s, w.world.2)) w' where
  calls := by rw [Watched.calls_draw, h.calls]
  world := h.world

/-- What is handled does not depend on what has been drawn. -/
theorem SameCalls.handle {w w' : Watched (DrawState × γ) β} (h : SameCalls w w')
    (rs : List (Except Error Value)) :
    let handled := (Iterate.handle (watchCall (callApart call)) rs).run w
    let handled' := (Iterate.handle (watchCall (callApart call)) rs).run w'
    handled.1 = handled'.1 ∧ SameCalls handled.2 handled'.2 := by
  induction rs generalizing w w' with
  | nil => exact ⟨rfl, h⟩
  | cons r rest ih =>
    cases r with
    | error e => exact ⟨rfl, h⟩
    | ok v =>
      rw [run_handle_ok, run_handle_ok, run_watchCall_callApart, run_watchCall_callApart, h.world]
      rcases call v w'.world.2 with ⟨raised | b, world⟩
      · exact ⟨rfl, h.add_call _ _ _ _⟩
      · obtain ⟨hhandled, hsame⟩ := ih (h.add_call ⟨v, .ok b⟩ w.world.1 w'.world.1 world)
        exact ⟨congrArg (Except.map (b :: ·)) hhandled, hsame⟩

end Calls

section Draws

variable {draw draw' : DrawM Draw} {n : Nat} {s s' : DrawState}

theorem run_of_returns {d : Draw} (h : Returns draw s d s') : draw.run s = (.ok d, s') := h

theorem run_of_raises {e : Error} (h : Raises draw s e s') : draw.run s = (.error e, s') := h

theorem drawApart_of_returns {d : Draw} (h : Returns draw s d s') (world : γ) :
    drawApart draw (s, world) = (.ok d, s', world) := by
  simp only [drawApart, run_of_returns h]

theorem drawApart_of_raises {e : Error} (h : Raises draw s e s') (world : γ) :
    drawApart draw (s, world) = (.error e, s', world) := by
  simp only [drawApart, run_of_raises h]

theorem run_issue_drawApart (draw : DrawM Draw) (n : Nat) (s : DrawState) (world : γ) :
    (issue (drawApart draw) n).run (s, world) =
      (((issue draw.run n).run s).1, ((issue draw.run n).run s).2, world) := by
  induction n generalizing s with
  | zero => rfl
  | succ n ih =>
    rw [run_issue_succ, run_issue_succ]
    rcases returns_or_raises draw s with ⟨d, s', h⟩ | ⟨e, s', h⟩
    · rw [drawApart_of_returns h, run_of_returns h]
      simp only [ih]
    · rw [drawApart_of_raises h, run_of_raises h]

theorem outcomes_of_returns {d : Draw} (h : Returns draw s d s') :
    outcomes draw (n + 1) s = d.toFuture.force.run :: outcomes draw n s' := by
  rw [outcomes, run_issue_succ, run_of_returns h]
  rfl

theorem outcomes_of_ready {v : Value} (h : Returns draw s (.ready v) s') :
    outcomes draw (n + 1) s = .ok v :: outcomes draw n s' := outcomes_of_returns h

theorem outcomes_of_raises {e : Error} (h : Raises draw s e s') :
    outcomes draw (n + 1) s = [.error e] := by
  rw [outcomes, run_issue_succ, run_of_raises h]
  rfl

/-- Where the draws of the second absorb the failures of the first, the first failure shows at its
place. -/
theorem sameToError_outcomes
    (h : Absorbs DrawState.Alike Draw.Suspends Draw.Rejects draw draw') (n : Nat)
    (hs : s.Alike s') : SameToError (outcomes draw n s) (outcomes draw' n s') := by
  induction n generalizing s s' with
  | zero => exact .nil
  | succ n ih =>
    rcases returns_or_raises draw s with ⟨d, s₁, hd⟩ | ⟨e, s₁, he⟩
    · obtain ⟨d', s₁', hd', ⟨v, rfl, hv⟩, hs₁⟩ := h.follows s s' d s₁ hs hd
      rw [outcomes_of_returns hd, outcomes_of_returns hd', hv]
      exact .ok v (ih hs₁)
    · obtain ⟨d', s₁', hd', he'⟩ := h.absorbs s s' e s₁ hs he
      rw [outcomes_of_raises he, outcomes_of_returns hd', he']
      exact .error e _ _

end Draws

section Synchronous

variable (call : Value → StateM γ (Except Raised β))

theorem exists_of_watchDraw_drawApart {draw : DrawM Draw} {d : Except Error Draw}
    {w w₁ : Watched (DrawState × γ) β} (h : (watchDraw (drawApart draw)).run w = (d, w₁)) :
    ∃ s, draw.run w.world.1 = (d, s) ∧ w₁ = w.draw d (s, w.world.2) := by
  obtain ⟨rfl, rfl⟩ := Prod.mk.inj h
  exact ⟨_, rfl, rfl⟩

theorem exists_of_watchCall_callApart {v : Value} {answer : Except Raised β}
    {w w₁ : Watched (DrawState × γ) β} (h : (watchCall (callApart call) v).run w = (answer, w₁)) :
    ∃ world, call v w.world.2 = (answer, world) ∧ w₁ = w.call ⟨v, answer⟩ (w.world.1, world) := by
  obtain ⟨rfl, rfl⟩ := Prod.mk.inj h
  exact ⟨_, rfl, rfl⟩

/-- Turns come to the handling of the rows that they draw. -/
theorem Turns.sameCalls_handle {draw : DrawM Draw} {n : Nat} {w w₁ w' : Watched (DrawState × γ) β}
    {moves : List (Move β)} {result : Except Error (List β)}
    (hturns : Turns (watchDraw (drawApart draw)) (watchCall (callApart call)) n w moves result w₁)
    (h : SameCalls w w') :
    let handled := (handle (watchCall (callApart call)) (outcomes draw n w.world.1)).run w'
    handled.1 = result ∧ SameCalls w₁ handled.2 := by
  induction hturns generalizing w' with
  | done w => exact ⟨rfl, h⟩
  | drawFails drawn =>
    obtain ⟨s, hd, rfl⟩ := exists_of_watchDraw_drawApart drawn
    rw [outcomes_of_raises hd]
    exact ⟨rfl, h.add_draw _ s⟩
  | @callFails _ w _ _ v _ drawn called =>
    obtain ⟨s, hd, rfl⟩ := exists_of_watchDraw_drawApart drawn
    obtain ⟨world, hcall, rfl⟩ := exists_of_watchCall_callApart call called
    have hcall : call v w'.world.2 = _ := h.world ▸ hcall
    rw [outcomes_of_ready hd, run_handle_ok, run_watchCall_callApart, hcall]
    exact ⟨rfl, (h.add_draw _ s).add_call _ _ _ _⟩
  | @turn _ w _ _ _ v b _ _ drawn called _ ih =>
    obtain ⟨s, hd, rfl⟩ := exists_of_watchDraw_drawApart drawn
    obtain ⟨world, hcall, rfl⟩ := exists_of_watchCall_callApart call called
    have hcall : call v w'.world.2 = _ := h.world ▸ hcall
    rw [outcomes_of_ready hd, run_handle_ok, run_watchCall_callApart, hcall]
    obtain ⟨hhandled, hsame⟩ :=
      ih ((h.add_draw (.ok (.ready v)) s).add_call ⟨v, .ok b⟩ s w'.world.1 world)
    exact ⟨congrArg (Except.map (b :: ·)) hhandled, hsame⟩

end Synchronous

section Waited

theorem fill_replicate (done bs : List β) :
    fill (done.map some ++ List.replicate bs.length none)
      (List.range' done.length bs.length) bs = (done ++ bs).map some := by
  induction bs generalizing done with
  | nil => simp [fill]
  | cons b bs ih =>
    have hset : (done.map some ++ List.replicate (bs.length + 1) none).set done.length (some b) =
        (done ++ [b]).map some ++ List.replicate bs.length none := by
      rw [List.replicate_succ, List.set_append_right _ _ (by simp)]
      simp
    have hnext := ih (done ++ [b])
    rw [List.length_append, List.length_singleton, List.append_assoc, List.singleton_append] at hnext
    rw [List.length_cons, List.range'_succ, ← hnext, ← hset]
    rfl

theorem settling_open (rows : List (Nat × Future Id Value)) :
    settling (fun _ => true) rows = rows.map fun row => (row.1, row.2.force.run) := by
  rw [settling, ← List.filterMap_eq_map]
  apply List.filterMap_congr
  intro row _
  rw [Future.poll_open]
  rfl

theorem left_open (rows : List (Nat × Future Id Value)) : left (fun _ => true) rows = [] := by
  apply List.eq_nil_of_length_eq_zero
  have hlength := length_settling_add (fun _ => true) rows
  rw [settling_open, List.length_map] at hlength
  omega

theorem map_snd_numbered (first : Nat) (rows : List (Future Id Value)) :
    (numbered first rows).map Prod.snd = rows := by
  induction rows generalizing first with
  | nil => rfl
  | cons f rows ih => rw [numbered_cons, List.map_cons, ih]

theorem leftAfter_all_open (rows : List (Nat × Future Id Value)) :
    leftAfter (fun _ => true) (rows.map Prod.fst) rows = [] := by
  rw [← left_open rows]
  apply List.filterMap_congr
  intro row hrow
  rw [if_pos (List.mem_map_of_mem hrow)]

theorem settlements_numbered_open (rows : List (Future Id Value)) :
    (settlements (fun _ => true) (numbered 0 rows) ((numbered 0 rows).map Prod.fst)).map Prod.snd =
      rows.map fun f => f.force.run := by
  have hvalues : (fun row : Nat × Future Id Value => row.2.force.run) =
      (fun f : Future Id Value => f.force.run) ∘ Prod.snd := rfl
  rw [settlements_all (nodup_numbered 0 rows), settling_open, List.map_map]
  change (numbered 0 rows).map (fun row => row.2.force.run) = _
  rw [hvalues, ← List.map_map, map_snd_numbered]

theorem numbers_numbered_open (rows : List (Future Id Value)) :
    (settlements (fun _ => true) (numbered 0 rows) ((numbered 0 rows).map Prod.fst)).map Prod.fst =
      List.range' 0 rows.length := by
  rw [settlements_all (nodup_numbered 0 rows), settling_open, List.map_map]
  exact map_fst_numbered 0 rows

variable {σ : Type} (call : Value → StateM σ (Except Raised β))

theorem finish_ofRows (slots : List (Option β)) (rows : List (Nat × Future Id Value)) :
    (Flight.ofRows slots rows).finish call =
      Flight.visit (fun _ => true) call (rows.map Prod.fst) ⟨slots, rows, [], none⟩ := by
  have hwoken : (roused (Flight.ofRows slots rows)).woken = rows.map Prod.fst :=
    roused_of_all_woken rfl
  rw [← hwoken]
  rfl

/-- Rows that are waited for as soon as they have been issued are handled in their order. -/
theorem run_finish_numbered (rows : List (Future Id Value)) (w : σ) :
    let finished := ((Flight.ofRows (List.replicate rows.length none)
      (numbered 0 rows)).finish call).run w
    let handled := (handle call (rows.map fun f => f.force.run)).run w
    finished.2 = handled.2 ∧ finished.1.ended = some handled.1 := by
  have hnodup := nodup_numbered 0 rows
  obtain ⟨hworld, hreaches⟩ := run_visit (fun _ => true) call hnodup
    (f := ⟨List.replicate rows.length none, numbered 0 rows, [], none⟩) hnodup w
  rw [settlements_numbered_open] at hworld hreaches
  rw [finish_ofRows]
  refine ⟨hworld, ?_⟩
  cases hhandled : ((handle call (rows.map fun f => f.force.run)).run w).1 with
  | error e =>
    rw [hhandled] at hreaches
    exact hreaches
  | ok bs =>
    obtain ⟨vs, hvs, hlength⟩ := exists_of_handle_eq_ok call w hhandled
    have hrows := congrArg List.length hvs
    rw [List.length_map, List.length_map, hlength] at hrows
    have hfill := fill_replicate [] bs
    rw [hhandled] at hreaches
    simp only [Except.map, Reaches] at hreaches
    rw [hreaches, afterLook, ended_close_of_nil (leftAfter_all_open _), numbers_numbered_open, hrows]
    simp only [List.length_nil, List.map_nil, List.nil_append] at hfill
    rw [hfill]
    simp

end Waited

theorem settles_rowSource {nodes nodes' : List Node}
    (h : Forall₂ (fun n n' : Node => n.source.Settles n'.source) nodes nodes') :
    (rowSource nodes).Settles (rowSource nodes') := by
  have hmap : Forall₂ Source.Settles (nodes.map Node.source) (nodes'.map Node.source) := by
    rw [List.forall₂_map_left_iff, List.forall₂_map_right_iff]
    exact h
  cases h with
  | nil => exact Source.settles_array hmap
  | cons hn hrest =>
    cases hrest with
    | nil => exact hn
    | cons _ _ => exact Source.settles_array hmap

section Modes

variable (call : Value → StateM γ (Except Raised β)) {slot : Nat} (nodes : List Node) (n : Nat)
  (s : DrawState) (world : γ)

/-- An iteration that is synchronous in fact comes to the handling of its rows. -/
theorem run_courseOf_synchronous (hroom : n * slot ≤ roomLimit)
    (hsync : nodes.any Node.isAsync = false)
    (hready : ∀ s d s', Returns (row nodes) s d s' → ∃ v, d = .ready v) (events : List Event)
    (opened : List Nat) (wait : Bool) :
    let run := (courseOf slot nodes n (fun action => watchDraw (drawApart action))
      (watchCall (callApart call)) events opened wait).run ⟨(s, world), []⟩
    let handled := (handle (watchCall (callApart call)) (outcomes (row nodes) n s)).run
      ⟨(s, world), []⟩
    run.1 = some (handled.1.mapError .failed) ∧ SameCalls run.2 handled.2 := by
  have hprompt : ∀ (w : Watched (DrawState × γ) β) (d : Draw) (w₁ : Watched (DrawState × γ) β),
      (watchDraw (drawApart (row nodes))).run w = (.ok d, w₁) → d.isReady = true := by
    intro w d w₁ hdrawn
    obtain ⟨s₁, hd, -⟩ := exists_of_watchDraw_drawApart hdrawn
    obtain ⟨v, rfl⟩ := hready _ d s₁ hd
    rfl
  have hstarted : SameCalls (⟨(s, world), []⟩ : Watched (DrawState × γ) β) ⟨(s, world), []⟩ := ⟨rfl, rfl⟩
  obtain ⟨moves, result, launched, w, hturns, hstart, hlaunched⟩ :=
    run_start_turns (watchCall (callApart call)) (fun action => watchDraw (drawApart action)) hsync
      hprompt ⟨(s, world), []⟩ hroom
  obtain ⟨hhandled, hsame⟩ := hturns.sameCalls_handle call hstarted
  intro run handled
  have hhandled : handled.1 = result := hhandled
  rw [hhandled]
  simp only [run, courseOf, run_bind, hstart]
  cases result with
  | error e =>
    obtain rfl : launched = .error (.failed e) := Except.map_eq_error_iff.1 hlaunched
    exact ⟨rfl, hsame⟩
  | ok bs =>
    obtain ⟨l, rfl, hrun⟩ := Except.map_eq_ok_iff.1 hlaunched
    simp only [hrun]
    exact ⟨rfl, hsame⟩

/-- An asynchronous iteration that is waited for comes to the handling of its rows. -/
theorem run_courseOf_asynchronous (hroom : n * slot ≤ roomLimit)
    (hasync : nodes.any Node.isAsync = true) (hn : n ≠ 0) :
    let run := (courseOf slot nodes n (fun action => watchDraw (drawApart action))
      (watchCall (callApart call)) [] [] true).run ⟨(s, world), []⟩
    let handled := (handle (watchCall (callApart call)) (outcomes (row nodes) n s)).run
      ⟨(s, world), []⟩
    run.1 = some (handled.1.mapError .failed) ∧ SameCalls run.2 handled.2 := by
  obtain ⟨l, hstart, hrun⟩ := run_start_asynchronous hroom hasync hn drawApart
    (watchCall (callApart call)) (s, world)
  rw [run_issue_drawApart] at hstart hrun
  have hlength : (((issue (row nodes).run n).run s).1.map rowFuture).length =
      ((issue (row nodes).run n).run s).1.length := List.length_map _
  have houtcomes : (((issue (row nodes).run n).run s).1.map rowFuture).map (fun f => f.force.run) =
      outcomes (row nodes) n s := List.map_map
  have hfinish := run_finish_numbered (watchCall (callApart call))
    (((issue (row nodes).run n).run s).1.map rowFuture)
    ⟨(((issue (row nodes).run n).run s).2, world), ((issue (row nodes).run n).run s).1.map .drew⟩
  rw [hlength, houtcomes] at hfinish
  obtain ⟨hworld, hended⟩ := hfinish
  have hside : SameCalls (⟨(((issue (row nodes).run n).run s).2, world),
      ((issue (row nodes).run n).run s).1.map .drew⟩ : Watched (DrawState × γ) β)
      ⟨(s, world), []⟩ := ⟨Watched.calls_mk_map_drew _ _, rfl⟩
  obtain ⟨hhandled, hsame⟩ := SameCalls.handle call hside (outcomes (row nodes) n s)
  rw [courseOf, run_bind, hstart]
  rw [← hworld] at hsame
  simp only [hrun, follow, if_true, run_bind]
  refine ⟨?_, hsame⟩
  rw [← hhandled]
  exact congrArg (Option.map _) hended

theorem run_courseOf_waited (hroom : n * slot ≤ roomLimit) (hn : n ≠ 0)
    (hready : nodes.any Node.isAsync = false →
      ∀ s d s', Returns (row nodes) s d s' → ∃ v, d = .ready v) :
    let run := (courseOf slot nodes n (fun action => watchDraw (drawApart action))
      (watchCall (callApart call)) [] [] true).run ⟨(s, world), []⟩
    let handled := (handle (watchCall (callApart call)) (outcomes (row nodes) n s)).run
      ⟨(s, world), []⟩
    run.1 = some (handled.1.mapError .failed) ∧ SameCalls run.2 handled.2 := by
  cases hasync : nodes.any Node.isAsync with
  | false =>
    exact run_courseOf_synchronous call nodes n s world hroom hasync (hready hasync) [] [] true
  | true => exact run_courseOf_asynchronous call nodes n s world hroom hasync hn

end Modes

section Prepared

variable {m : Type → Type} [Monad m] {slot : Nat} {r : Registry} {o : Options}
  {expressions : List String} {b b' : BuildState} {perform : DrawM Draw → m (Except Error Draw)}
  {call : Value → m (Except Raised β)} {events : List Event} {opened : List Nat} {wait : Bool}

theorem outcome_of_returns {nodes : List Node}
    (h : Returns (prepare r o expressions) b nodes b') :
    outcome slot r o expressions b perform call events opened wait =
      courseOf slot nodes o.iterations perform call events opened wait := by
  have hprepared : ((prepare r o expressions).run.run b).1 = .ok nodes := congrArg Prod.fst h
  rw [outcome, hprepared]

theorem outcome_of_raises {e : Error} (h : Raises (prepare r o expressions) b e b') :
    outcome slot r o expressions b perform call events opened wait =
      pure (some (.error (.failed e))) := by
  have hprepared : ((prepare r o expressions).run.run b).1 = .error e := congrArg Prod.fst h
  rw [outcome, hprepared]

end Prepared

section Settled

variable {r r' : Registry} (hr : r.Relates Leaf.Settles r') (o : Options) (expressions : List String)

include hr in
theorem agrees_prepare :
    Agrees BuildState.Alike (Forall₂ fun n n' : Node => n.source.Settles n'.source)
      (prepare r o expressions) (prepare r' o expressions) := by
  rw [prepare, prepare]
  split
  next => exact .throw _
  next =>
    split
    next => exact .throw _
    next =>
      exact .mapM (fun e => Node.agrees_build Source.settles_congruent Source.settles_leaf hr o e)
        expressions

variable {nodes nodes' : List Node}
  (h : Forall₂ (fun n n' : Node => n.source.Settles n'.source) nodes nodes')
include h

theorem absorbs_row :
    Absorbs DrawState.Alike Draw.Suspends Draw.Rejects (row nodes) (row nodes') := by
  rw [row_eq_draw, row_eq_draw]
  exact (settles_rowSource h).absorbs

theorem not_async_of_settles : nodes.any Node.isAsync = false := by
  rw [← isAsync_rowSource]
  exact (settles_rowSource h).synchronous

theorem ready_of_settles {s s' : DrawState} {d : Draw} (hd : Returns (row nodes) s d s') :
    ∃ v, d = .ready v := by
  obtain ⟨-, -, -, ⟨v, hv, -⟩, -⟩ := (absorbs_row h).follows s s d s' ⟨rfl, rfl⟩ hd
  exact ⟨v, hv⟩

theorem ready_of_settles_of_not_async (hasync : nodes'.any Node.isAsync = false) {s s' : DrawState}
    {d : Draw} (hd : Returns (row nodes') s d s') : ∃ v, d = .ready v := by
  rw [← isAsync_rowSource] at hasync
  rw [row_eq_draw] at hd
  obtain ⟨d', t, hd', v, hv, -⟩ := (settles_rowSource h).quiet hasync s
  obtain ⟨rfl, -⟩ := hd.unique hd'
  exact ⟨v, hv⟩

end Settled

/-- Let the leaves of the first registry be synchronous, and let those of the second be asynchronous and
settle at once to what those of the first draw. If draws and calls have no influence on one another, an
iteration under the first comes to the same as one under the second that is waited for, and the callback
is called with the same rows in the same order, up to a call that fails. -/
theorem modes_agree {r r' : Registry} (hr : r.Relates Leaf.Settles r') (slot : Nat) (o : Options)
    (expressions : List String) (b : BuildState) (call : Value → StateM γ (Except Raised β))
    (s : DrawState) (world : γ) :
    let immediate := (outcome slot r o expressions b (fun action => watchDraw (drawApart action))
      (watchCall (callApart call)) [] [] false).run ⟨(s, world), []⟩
    let waited := (outcome slot r' o expressions b (fun action => watchDraw (drawApart action))
      (watchCall (callApart call)) [] [] true).run ⟨(s, world), []⟩
    ∃ ended, immediate.1 = some ended ∧ waited.1 = some ended ∧
      immediate.2.calls = waited.2.calls ∧ immediate.2.world.2 = waited.2.world.2 := by
  intro immediate waited
  rcases agrees_prepare hr o expressions b b rfl with
    ⟨nodes, b₁, nodes', b₁', built, built', h, -⟩ | ⟨e, b₁, b₁', failed, failed'⟩
  · have hn : o.iterations ≠ 0 := iterations_ne_zero_of_prepare built
    simp only [immediate, waited, outcome_of_returns built, outcome_of_returns built']
    rcases Nat.lt_or_ge roomLimit (o.iterations * slot) with hroom | hroom
    · rw [courseOf_of_overflow hroom, courseOf_of_overflow hroom]
      exact ⟨_, rfl, rfl, rfl, rfl⟩
    have hrows := (sameToError_outcomes (absorbs_row h) o.iterations ⟨rfl, rfl⟩ :
      SameToError (outcomes _ _ s) (outcomes _ _ s))
    obtain ⟨hended, hsame⟩ := run_courseOf_synchronous call nodes o.iterations s world hroom
      (not_async_of_settles h) (fun _ _ _ => ready_of_settles h) [] [] false
    obtain ⟨hended', hsame'⟩ := run_courseOf_waited call nodes' o.iterations s world hroom hn
      fun hasync _ _ _ => ready_of_settles_of_not_async h hasync
    rw [hrows.handle_eq] at hended hsame
    exact ⟨_, hended, hended', hsame.calls.trans hsame'.calls.symm,
      hsame.world.trans hsame'.world.symm⟩
  · have hsame : immediate = waited := by
      simp only [immediate, waited, outcome_of_raises failed, outcome_of_raises failed']
    have hended : waited.1 = some (.error (.failed e)) := by
      simp only [waited, outcome_of_raises failed']
      rfl
    rw [hsame]
    exact ⟨_, hended, hended, rfl, rfl⟩

theorem failure_at_third_row_in_both_modes :
    let r := Registry.standard.register "late" (.scripted "late" false
      [.ready (.int 4), .ready (.str "x"), .fail (.custom (.words "no"))])
    let r' := Registry.standard.register "late" (.scripted "late" true
      [.settled (.ok (.int 4)), .settled (.ok (.str "x")), .settled (.error (.custom (.words "no")))])
    let o : Options := ⟨5, .standard, []⟩
    let expressions := ["oneOf:late:int", "array:late:(string:late)"]
    let call : Value → StateM Nat (Except Raised Nat) := fun _ n => (.ok n, n + 1)
    let s : DrawState := ⟨⟨fun _ => 7, 0⟩, 0, fun _ => 0⟩
    let immediate := (outcome 24 r o expressions ⟨[], 0⟩ (fun action => watchDraw (drawApart action))
      (watchCall (callApart call)) [] [] false).run ⟨(s, 0), []⟩
    let waited := (outcome 24 r' o expressions ⟨[], 0⟩ (fun action => watchDraw (drawApart action))
      (watchCall (callApart call)) [] [] true).run ⟨(s, 0), []⟩
    immediate.2.drawn.length = 3 ∧ waited.2.drawn.length = 5 ∧
      immediate.1.map Except.isOk = some false ∧
      immediate.2.calls.map (fun c => c.row.text) = ["4,4,4", "x,x,x"] ∧
      ∃ ended, immediate.1 = some ended ∧ waited.1 = some ended ∧
        immediate.2.calls = waited.2.calls := by
  intro r r' o expressions call s immediate waited
  have hleaf : (Leaf.scripted false
        [.ready (.int 4), .ready (.str "x"), .fail (.custom (.words "no"))]).Settles
      (.scripted true [.settled (.ok (.int 4)), .settled (.ok (.str "x")),
        .settled (.error (.custom (.words "no")))]) := by
    refine ⟨rfl, rfl, Leaf.related_scripted (.cons ?_ (.cons ?_ (.cons ?_ .nil))) nofun false true⟩
    · exact fun _ => .ready _
    · exact fun _ => .ready _
    · exact fun _ => .fail _
  have hr : r.Relates Leaf.Settles r' :=
    (Registry.standard_relates _).register (.custom fun _ _ => .leaf hleaf) rfl
  have hdrawn : immediate.2.drawn.length = 3 := by decide +kernel
  have hdrawn' : waited.2.drawn.length = 5 := by decide +kernel
  have hfailed : immediate.1.map Except.isOk = some false := by decide +kernel
  have hcalls : immediate.2.calls.map (fun c => c.row.text) = ["4,4,4", "x,x,x"] := by
    decide +kernel
  obtain ⟨ended, himmediate, hwaited, hsame, -⟩ := modes_agree hr 24 o expressions ⟨[], 0⟩ call s 0
  -- Both runs are the same terms: they are not to be evaluated in order to be compared.
  with_reducible exact ⟨hdrawn, hdrawn', hfailed, hcalls, ended, himmediate, hwaited, hsame⟩

end Iterate

end GenExpr
