import GenExpr.Proofs.Draw.Prompt
import GenExpr.Proofs.Iterate.Checks

/-!
# Taking turns

Where no node is asynchronous and no draw is pending, the draw of a row and the call of the callback take
turns, and the first of them that fails is the last. `Turns` says so of the worlds that draws and calls
lead through, whatever they do there, and `InTurn` of the moves alone.
-/

namespace GenExpr.Iterate

variable {σ β : Type}

section Turns

variable (draw : StateM σ (Except Error Draw)) (call : Value → StateM σ (Except Raised β))

/-- At most so many turns from a world on: the moves, what they come to, and the world that they leave
behind. In each turn the callback is called with the row that has been drawn. -/
inductive Turns : Nat → σ → List (Move β) → Except Error (List β) → σ → Prop
  | done (w : σ) : Turns 0 w [] (.ok []) w
  | drawFails {n : Nat} {w w' : σ} {e : Error} (drawn : draw.run w = (.error e, w')) :
      Turns (n + 1) w [.drew (.error e)] (.error e) w'
  | callFails {n : Nat} {w w₁ w' : σ} {v : Value} {raised : Raised}
      (drawn : draw.run w = (.ok (.ready v), w₁)) (called : (call v).run w₁ = (.error raised, w')) :
      Turns (n + 1) w [.drew (.ok (.ready v)), .called ⟨v, .error raised⟩]
        (.error (.custom raised)) w'
  | turn {n : Nat} {w w₁ w₂ w' : σ} {v : Value} {b : β} {moves : List (Move β)}
      {result : Except Error (List β)} (drawn : draw.run w = (.ok (.ready v), w₁))
      (called : (call v).run w₁ = (.ok b, w₂)) (rest : Turns n w₂ moves result w') :
      Turns (n + 1) w (.drew (.ok (.ready v)) :: .called ⟨v, .ok b⟩ :: moves)
        (result.map (b :: ·)) w'

end Turns

def turn (t : Value × β) : List (Move β) := [.drew (.ok (.ready t.1)), .called ⟨t.1, .ok t.2⟩]

/-- Turns that go well, all of them or up to a move that fails, and what they come to. What the callback
raises becomes an error, unless it is one. -/
inductive InTurn (n : Nat) : List (Move β) → Except Error (List β) → Prop
  | all (turns : List (Value × β)) (length_eq : turns.length = n) :
      InTurn n (turns.flatMap turn) (.ok (turns.map Prod.snd))
  | drawFails (turns : List (Value × β)) (e : Error) (length_lt : turns.length < n) :
      InTurn n (turns.flatMap turn ++ [.drew (.error e)]) (.error e)
  | callFails (turns : List (Value × β)) (v : Value) (e : Error) (length_lt : turns.length < n) :
      InTurn n (turns.flatMap turn ++ [.drew (.ok (.ready v)), .called ⟨v, .error (.error e)⟩])
        (.error e)
  | callRaises (turns : List (Value × β)) (v : Value) (message : String)
      (length_lt : turns.length < n) :
      InTurn n (turns.flatMap turn ++
          [.drew (.ok (.ready v)), .called ⟨v, .error (.words message)⟩])
        (.error (.raised message))

theorem InTurn.cons {n : Nat} {moves : List (Move β)} {result : Except Error (List β)}
    (h : InTurn n moves result) (t : Value × β) :
    InTurn (n + 1) (turn t ++ moves) (result.map (t.2 :: ·)) := by
  cases h with
  | all turns length_eq => exact .all (t :: turns) (congrArg (· + 1) length_eq)
  | drawFails turns e length_lt =>
    rw [← List.append_assoc]
    exact .drawFails (t :: turns) e (Nat.succ_lt_succ length_lt)
  | callFails turns v e length_lt =>
    rw [← List.append_assoc]
    exact .callFails (t :: turns) v e (Nat.succ_lt_succ length_lt)
  | callRaises turns v message length_lt =>
    rw [← List.append_assoc]
    exact .callRaises (t :: turns) v message (Nat.succ_lt_succ length_lt)

theorem Turns.inTurn {draw : StateM σ (Except Error Draw)} {call : Value → StateM σ (Except Raised β)}
    {n : Nat} {w w' : σ} {moves : List (Move β)} {result : Except Error (List β)}
    (h : Turns draw call n w moves result w') : InTurn n moves result := by
  induction h with
  | done w => exact .all [] rfl
  | @drawFails n _ _ e _ => exact .drawFails [] e (Nat.succ_pos n)
  | @callFails n _ _ _ v raised _ _ =>
    cases raised with
    | words message => exact .callRaises [] v message (Nat.succ_pos n)
    | error e => exact .callFails [] v e (Nat.succ_pos n)
  | @turn _ _ _ _ _ v b _ _ _ _ _ ih => exact ih.cons (v, b)

section Watched

variable {draw : StateM σ (Except Error Draw)} {call : Value → StateM σ (Except Raised β)}
  {w w' : Watched σ β}

theorem run_watchDraw {d : Except Error Draw} (h : (watchDraw draw).run w = (d, w')) :
    draw.run w.world = (d, w'.world) ∧ w'.moves = w.moves ++ [.drew d] := by
  obtain ⟨rfl, rfl⟩ := Prod.mk.inj h
  exact ⟨rfl, rfl⟩

theorem run_watchCall {v : Value} {answer : Except Raised β}
    (h : (watchCall call v).run w = (answer, w')) :
    (call v).run w.world = (answer, w'.world) ∧
      w'.moves = w.moves ++ [.called ⟨v, answer⟩] := by
  obtain ⟨rfl, rfl⟩ := Prod.mk.inj h
  exact ⟨rfl, rfl⟩

theorem Turns.of_watched {n : Nat} {moves : List (Move β)} {result : Except Error (List β)}
    (h : Turns (watchDraw draw) (watchCall call) n w moves result w') :
    Turns draw call n w.world moves result w'.world ∧ w'.moves = w.moves ++ moves := by
  induction h with
  | done w => exact ⟨.done w.world, (List.append_nil _).symm⟩
  | drawFails drawn =>
    obtain ⟨hdrawn, hmoves⟩ := run_watchDraw drawn
    exact ⟨.drawFails hdrawn, hmoves⟩
  | callFails drawn called =>
    obtain ⟨hdrawn, hmoves⟩ := run_watchDraw drawn
    obtain ⟨hcalled, hmoves'⟩ := run_watchCall called
    rw [hmoves, List.append_assoc] at hmoves'
    exact ⟨.callFails hdrawn hcalled, hmoves'⟩
  | turn drawn called _ ih =>
    obtain ⟨hdrawn, hmoves⟩ := run_watchDraw drawn
    obtain ⟨hcalled, hmoves'⟩ := run_watchCall called
    obtain ⟨hturns, hmoves''⟩ := ih
    rw [hmoves', hmoves, List.append_assoc, List.append_assoc] at hmoves''
    exact ⟨.turn hdrawn hcalled hturns, hmoves''⟩

end Watched

section Launch

/-- What a launch comes to when its rows are handled with an outcome. -/
def Launches (l : Launch β) (handled : Except Error (List β)) (launched : Except Error (Launch β)) :
    Prop :=
  match handled with
  | .error e => launched = .error e
  | .ok bs => ∃ l', launched = .ok l' ∧ l'.slots = l.slots ++ bs.map some ∧ l'.waiting = []

theorem run_of_slots {l : Launch β} {bs : List β} (hslots : l.slots = bs.map some)
    (hwaiting : l.waiting = []) : l.run = .ready bs := by
  rw [Launch.run, hwaiting, hslots]
  simp

theorem Launches.of_keep {l : Launch β} {b : β} {handled : Except Error (List β)}
    {launched : Except Error (Launch β)} (h : Launches (l.keep b) handled launched) :
    Launches l (handled.map (b :: ·)) launched := by
  cases handled with
  | error e => exact h
  | ok bs =>
    obtain ⟨l', hl', hslots, hwaiting⟩ := h
    refine ⟨l', hl', ?_, hwaiting⟩
    rw [hslots, Launch.keep, List.append_assoc]
    rfl

theorem takes_turn {l : Launch β} (hl : l.waiting = []) : (!false && l.waiting.isEmpty) = true := by
  rw [hl]
  rfl

theorem map_run_of_launches {result : Except Error (List β)}
    {launched : Except Error (Launch β)} (h : Launches ⟨[], [], none⟩ result launched) :
    launched.map Launch.run = result.map .ready := by
  cases result with
  | error e =>
    obtain rfl := h
    rfl
  | ok bs =>
    obtain ⟨l, rfl, hslots, hwaiting⟩ := h
    exact congrArg Except.ok (run_of_slots hslots hwaiting)

variable {draw : StateM σ (Except Error Draw)} (call : Value → StateM σ (Except Raised β))

/-- A synchronous launch of draws that are there at once takes turns, and keeps what they come to. -/
theorem run_launch_turns (hready : ∀ w d w', draw.run w = (.ok d, w') → d.isReady = true) (n : Nat)
    {l : Launch β} (hl : l.waiting = []) (w : σ) :
    ∃ moves result launched w', Turns draw call n w moves result w' ∧
      (launch false draw call n l).run w = (launched, w') ∧ Launches l result launched := by
  induction n generalizing l w with
  | zero => exact ⟨[], .ok [], .ok l, w, .done w, rfl, l, rfl, by simp, hl⟩
  | succ n ih =>
    rw [launch, run_bind]
    rcases hd : draw.run w with ⟨e | d, w₁⟩
    · exact ⟨_, _, _, _, .drawFails hd, rfl, rfl⟩
    · cases d with
      | pending f => exact absurd (hready w _ w₁ hd) Bool.false_ne_true
      | ready v =>
        -- No row waits so far, so that this one is handed over before the next is drawn.
        simp only [takes_turn hl, if_true]
        rw [run_bind]
        rcases hc : (call v).run w₁ with ⟨raised | b, w₂⟩
        · exact ⟨_, _, _, _, .callFails hd hc, rfl, rfl⟩
        · obtain ⟨moves, result, launched, w', hturns, hrun, hlaunches⟩ := ih (l := l.keep b) hl w₂
          exact ⟨_, _, launched, w', .turn hd hc hturns, hrun, hlaunches.of_keep⟩

section Start

variable (perform : DrawM Draw → StateM σ (Except Error Draw)) {slot : Nat} {nodes : List Node}
  (hsync : nodes.any Node.isAsync = false)
  (hready : ∀ w d w', (perform (row nodes)).run w = (.ok d, w') → d.isReady = true) (w : σ)
include hsync hready

theorem run_start_turns {n : Nat} (hroom : n * slot ≤ roomLimit) :
    ∃ moves result launched w', Turns (perform (row nodes)) call n w moves result w' ∧
      (start slot nodes n perform call).run w = (launched, w') ∧
      launched.map Launch.run = (result.map .ready).mapError .failed := by
  obtain ⟨moves, result, launched, w', hturns, hrun, hlaunches⟩ :=
    run_launch_turns call hready n (l := ⟨[], [], none⟩) rfl w
  refine ⟨moves, result, launched.mapError .failed, w', hturns, ?_, ?_⟩
  · rw [start_of_fits hroom, hsync, run_bind, hrun]
    rfl
  · rw [← map_run_of_launches hlaunches]
    cases launched <;> rfl

theorem run_iterate_turns {r : Registry} {o : Options} {expressions : List String} {b b' : BuildState}
    (given : expressions ≠ []) (iterations : o.iterations ≠ 0)
    (built : Returns (expressions.mapM (Node.build r o)) b nodes b')
    (hroom : o.iterations * slot ≤ roomLimit) :
    ∃ moves result w', Turns (perform (row nodes)) call o.iterations w moves result w' ∧
      (iterate slot r o expressions b perform call).run w =
        ((result.map .ready).mapError .failed, w') := by
  obtain ⟨moves, result, launched, w', hturns, hstart, hlaunched⟩ :=
    run_start_turns call perform hsync hready w hroom
  refine ⟨moves, result, w', hturns, ?_⟩
  rw [iterate_of_built given iterations built, run_bind, hstart, ← hlaunched]
  rfl

end Start

end Launch

section Rows

/-- The source that a row is drawn from. -/
def rowSource : List Node → Source
  | [n] => n.source
  | ns => .array (ns.map Node.source)

theorem row_eq_draw (nodes : List Node) : row nodes = (rowSource nodes).draw := by
  have hdraws : ∀ ns : List Node, (do return .all .array (← DrawM.sequence
      (ns.map fun n => n.source.draw)) : DrawM Draw) = (Source.array (ns.map Node.source)).draw := by
    intro ns
    rw [Source.draw, Source.draws_eq_map, List.map_map]
    rfl
  rcases nodes with _ | ⟨n, _ | ⟨n', rest⟩⟩
  · exact hdraws []
  · rfl
  · exact hdraws (n :: n' :: rest)

theorem isAsync_rowSource (nodes : List Node) :
    (rowSource nodes).isAsync = nodes.any Node.isAsync := by
  have hany : ∀ ns : List Node, (Source.array (ns.map Node.source)).isAsync = ns.any Node.isAsync := by
    intro ns
    rw [Source.isAsync]
    induction ns with
    | nil => rfl
    | cons n rest ih =>
      rw [List.map_cons, Source.anyAsync, ih, List.any_cons]
      rfl
  rcases nodes with _ | ⟨n, _ | ⟨n', rest⟩⟩
  · exact hany []
  · simp [rowSource, Node.isAsync]
  · exact hany (n :: n' :: rest)

end Rows

section Draws

/-- A draw in a world that has a state for draws somewhere in it. -/
def drawIn (get : σ → DrawState) (put : DrawState → σ → σ) (action : DrawM Draw) :
    StateM σ (Except Error Draw) :=
  fun w =>
    let (d, s) := action.run (get w)
    (d, put s w)

theorem ensures_row {nodes : List Node} (h : ∀ n ∈ nodes, n.source.Prompt) :
    Ensures (row nodes) fun d => d.isReady = true := by
  have hall : (Source.array (nodes.map Node.source)).Prompt :=
    Source.prompt_array (List.forall_mem_map.2 h)
  rw [row_eq_draw]
  rcases nodes with _ | ⟨n, _ | ⟨n', rest⟩⟩
  · exact hall
  · exact h n List.mem_cons_self
  · exact hall

theorem isReady_of_drawIn {get : σ → DrawState} {put : DrawState → σ → σ} {nodes : List Node}
    (h : ∀ n ∈ nodes, n.source.Prompt) {w w' : σ} {d : Draw}
    (hd : (drawIn get put (row nodes)).run w = (.ok d, w')) : d.isReady = true := by
  obtain ⟨hdraw, -⟩ := Prod.mk.inj hd
  exact ensures_row h (get w) d _ (Prod.ext hdraw rfl)

end Draws

end GenExpr.Iterate
