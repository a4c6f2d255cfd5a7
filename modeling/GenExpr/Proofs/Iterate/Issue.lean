import GenExpr.Proofs.Action
import GenExpr.Proofs.Iterate.Handling

/-!
# Issuing rows

Where a node is asynchronous, a launch only draws: row after row, up to the first draw that fails, which
is then a row that has settled to its error. Where none is and every row is there at once, drawing and
handling take turns.
-/

namespace GenExpr.Iterate

variable {σ β : Type}

/-- Draws rows one after another, up to the first draw that fails. -/
def issue {m : Type → Type} [Monad m] (draw : m (Except Error Draw)) :
    Nat → m (List (Except Error Draw))
  | 0 => pure []
  | n + 1 => do
    match ← draw with
    | .error e => return [.error e]
    | .ok d => return .ok d :: (← issue draw n)

/-- What has been issued: at most so many rows, and fewer only after a draw that failed, which is the
last. -/
structure Drawn (n : Nat) (drawn : List (Except Error Draw)) : Prop where
  length_le : drawn.length ≤ n
  last_of_error : ∀ i e, drawn[i]? = some (.error e) → i + 1 = drawn.length
  error_of_lt : drawn.length < n → ∃ e, drawn.getLast? = some (.error e)

def rowFuture : Except Error Draw → Future Id Value
  | .ok d => d.toFuture
  | .error e => .settled (.error e)

/-- Rows with their numbers, from a first number on. -/
def numbered (first : Nat) (rows : List (Future Id Value)) : List (Nat × Future Id Value) :=
  (rows.zipIdx first).map Prod.swap

@[simp] theorem numbered_cons (first : Nat) (f : Future Id Value) (rows : List (Future Id Value)) :
    numbered first (f :: rows) = (first, f) :: numbered (first + 1) rows := rfl

theorem map_fst_numbered (first : Nat) (rows : List (Future Id Value)) :
    (numbered first rows).map Prod.fst = List.range' first rows.length := by
  induction rows generalizing first with
  | nil => rfl
  | cons f rows ih => rw [numbered_cons, List.map_cons, ih, List.length_cons, List.range'_succ]

theorem nodup_numbered (first : Nat) (rows : List (Future Id Value)) :
    ((numbered first rows).map Prod.fst).Nodup := by
  rw [map_fst_numbered]
  exact List.nodup_range'

theorem iterations_ne_zero_of_prepare {r : Registry} {o : Options} {expressions : List String}
    {b b' : BuildState} {nodes : List Node} (h : Returns (prepare r o expressions) b nodes b') :
    o.iterations ≠ 0 := by
  rw [prepare] at h
  split at h
  next => exact absurd h not_returns_throw
  next =>
    split at h
    next => exact absurd h not_returns_throw
    next hiterations => exact hiterations

section Issue

variable (draw : StateM σ (Except Error Draw)) (n : Nat) (world : σ)

theorem run_issue_zero : (issue draw 0).run world = ([], world) := rfl

theorem run_issue_succ :
    (issue draw (n + 1)).run world = match draw world with
      | (.error e, world') => ([.error e], world')
      | (.ok d, world') => (.ok d :: ((issue draw n).run world').1, ((issue draw n).run world').2) := by
  have hdraw : draw.run world = draw world := rfl
  rw [issue, run_bind, hdraw]
  rcases draw world with ⟨e | d, world'⟩ <;> rfl

theorem drawn_issue : Drawn n ((issue draw n).run world).1 := by
  induction n generalizing world with
  | zero =>
    rw [run_issue_zero]
    exact ⟨Nat.le_refl 0, by simp, by simp⟩
  | succ n ih =>
    rw [run_issue_succ]
    rcases draw world with ⟨e | d, world'⟩
    · refine ⟨by simp, ?_, by simp⟩
      intro i e' hi
      have hlt := (List.getElem?_eq_some_iff.1 hi).1
      simpa using hlt
    · obtain ⟨hle, hlast, hfailed⟩ := ih world'
      refine ⟨by simpa using hle, ?_, ?_⟩
      · intro i e hi
        cases i with
        | zero => simp at hi
        | succ i => simpa using hlast i e (by simpa using hi)
      · intro hlt
        obtain ⟨e, he⟩ := hfailed (by simpa using hlt)
        refine ⟨e, ?_⟩
        rw [List.getLast?_cons, he]
        rfl

variable {draw n world}

theorem length_issue_pos (hn : n ≠ 0) : 0 < ((issue draw n).run world).1.length := by
  cases n with
  | zero => exact absurd rfl hn
  | succ n =>
    rw [run_issue_succ]
    rcases draw world with ⟨e | d, world'⟩ <;> simp

end Issue

section Asynchronous

variable (draw : StateM σ (Except Error Draw)) {m : Type → Type}

/-- The rows of an asynchronous launch all wait, and no callback has been called. -/
theorem run_launch_asynchronous (call : Value → StateM (Watched σ β) (Except Raised β)) (n : Nat)
    (l : Launch β) (w : Watched σ β) :
    let issued := (issue draw n).run w.world
    ∃ l', (launch true (watchDraw draw) call n l).run w =
        (.ok l', ⟨issued.2, w.moves ++ issued.1.map .drew⟩) ∧
      l'.slots = l.slots ++ List.replicate issued.1.length none ∧
      l'.waiting = l.waiting ++ numbered l.slots.length (issued.1.map rowFuture) := by
  induction n generalizing l w with
  | zero =>
    rw [run_issue_zero]
    refine ⟨l, ?_, by simp, by simp [numbered]⟩
    rw [List.map_nil, List.append_nil]
    rfl
  | succ n ih =>
    -- The rows after this one are launched behind it.
    have hnext : ∀ (d : Draw) (world : σ), let issued := (issue draw n).run world
        ∃ l', (launch true (watchDraw draw) call n (l.wait d.toFuture)).run
            (w.draw (.ok d) world) =
              (.ok l', ⟨issued.2, w.moves ++ .drew (.ok d) :: issued.1.map .drew⟩) ∧
          l'.slots = l.slots ++ List.replicate (issued.1.length + 1) none ∧
          l'.waiting = l.waiting ++
            numbered l.slots.length ((.ok d :: issued.1).map rowFuture) := by
      intro d world issued
      obtain ⟨l', hrun, hslots, hwaiting⟩ := ih (l.wait d.toFuture) (w.draw (.ok d) world)
      refine ⟨l', ?_, ?_, ?_⟩
      · rw [hrun, List.append_cons]
        rfl
      · rw [hslots, List.replicate_succ, Launch.wait, List.append_assoc]
        rfl
      · rw [hwaiting, Launch.wait, List.append_assoc, List.length_append]
        rfl
    rw [launch, run_watchDraw_bind, run_issue_succ]
    rcases draw w.world with ⟨e | v | f, world⟩
    · exact ⟨_, rfl, rfl, rfl⟩
    · exact hnext (.ready v) world
    · exact hnext (.pending f) world

/-- An asynchronous iteration is in flight with all its rows as soon as they have been issued. -/
theorem run_start_asynchronous {slot iterations : Nat} {nodes : List Node}
    (hroom : iterations * slot ≤ roomLimit) (hasync : nodes.any Node.isAsync = true)
    (hiterations : iterations ≠ 0) (perform : DrawM Draw → StateM σ (Except Error Draw))
    (call : Value → StateM (Watched σ β) (Except Raised β)) (world : σ) :
    let issued := (issue (perform (row nodes)) iterations).run world
    ∃ l, (start slot nodes iterations (fun action => watchDraw (perform action)) call).run
        ⟨world, []⟩ = (.ok l, ⟨issued.2, issued.1.map .drew⟩) ∧
      l.run = .pending (.ofRows (List.replicate issued.1.length none)
        (numbered 0 (issued.1.map rowFuture))) := by
  intro issued
  obtain ⟨l, hlaunch, hslots, hwaiting⟩ := run_launch_asynchronous (perform (row nodes)) call iterations
    ⟨[], [], none⟩ ⟨world, []⟩
  have hslots : l.slots = List.replicate issued.1.length none := by simpa using hslots
  have hwaiting : l.waiting = numbered 0 (issued.1.map rowFuture) := by simpa using hwaiting
  have hpos : 0 < issued.1.length := length_issue_pos hiterations
  have hopen : l.waiting.isEmpty = false := by
    rw [hwaiting, List.isEmpty_eq_false_iff, ← List.length_pos_iff]
    simpa [numbered] using hpos
  refine ⟨l, ?_, ?_⟩
  · rw [start_of_fits hroom, hasync, run_bind, hlaunch]
    rfl
  · rw [Launch.run, hopen, hslots, hwaiting]
    rfl

end Asynchronous

end GenExpr.Iterate
