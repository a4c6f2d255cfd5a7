import GenExpr.Kind.Custom
import GenExpr.Proofs.Iterate.Issue
import GenExpr.Proofs.Iterate.Order

/-!
# Asynchronous iterations

An iteration with an asynchronous node issues its rows first and is then pending. Whatever becomes of its
rows, they are handled in the order in which they settle, and the first error ends the run.
-/

namespace GenExpr.Iterate

open List (Forall₂)

variable {σ β : Type}

theorem Standing.ofRows {opened : Nat → Bool} {slots : List (Option β)}
    {rows : List (Future Id Value)} (hrows : rows ≠ []) :
    Standing opened (Flight.ofRows slots (numbered 0 rows)) := by
  refine of_all_woken rfl ?_ (nodup_numbered 0 rows) (nodup_numbered 0 rows) fun _ => Iff.rfl
  cases rows with
  | nil => exact absurd rfl hrows
  | cons f rows => exact List.cons_ne_nil _ _

/-- Where at most one row settles at a poll, only the order of polls matters. -/
theorem eq_of_forall₂_perm {α : Type} {orders rounds : List (List α)}
    (hperm : Forall₂ List.Perm orders rounds) (h : ∀ round ∈ rounds, round.length ≤ 1) :
    orders = rounds := by
  induction hperm with
  | nil => rfl
  | @cons order round _ _ hfirst _ ih =>
    rw [ih fun later hlater => h later (List.mem_cons_of_mem _ hlater)]
    have hlength := h round List.mem_cons_self
    match round, hlength with
    | [], _ => rw [hfirst.eq_nil]
    | [a], _ => rw [List.perm_singleton.1 hfirst]

theorem eq_of_forall₂_perm_of_head? {α : Type} {orders rounds : List (List α)}
    (hperm : Forall₂ List.Perm orders rounds) (hfirst : orders.head? = rounds.head?)
    (h : ∀ round ∈ rounds.tail, round.length ≤ 1) : orders = rounds := by
  cases hperm with
  | nil => rfl
  | cons _ hlater =>
    obtain rfl := Option.some.inj hfirst
    rw [eq_of_forall₂_perm hlater h]

/-- A row that has settled is in the first round. -/
theorem mem_of_head?_rounds {wait : Bool} {events : List Event} {opened : List Nat} {i : Nat}
    {r : Except Error Value} {rows : List (Nat × Future Id Value)} (h : (i, .settled r) ∈ rows)
    {first : List (Nat × Except Error Value)}
    (hfirst : (rounds wait events opened rows).head? = some first) : (i, r) ∈ first := by
  have hmem : ∀ opened, (i, r) ∈ settling opened rows := by
    intro opened
    refine List.mem_filterMap.2 ⟨_, h, ?_⟩
    rw [Future.poll_settled]
    rfl
  induction events generalizing opened with
  | nil =>
    cases wait with
    | false => cases hfirst
    | true =>
      obtain rfl := Option.some.inj hfirst
      exact hmem _
  | cons event rest ih =>
    cases event with
    | opening gate => exact ih hfirst
    | polling =>
      obtain rfl := Option.some.inj hfirst
      exact hmem _

theorem mem_numbered {rows : List (Future Id Value)} {f : Future Id Value} (h : f ∈ rows)
    (first : Nat) : ∃ i, (i, f) ∈ numbered first rows := by
  induction rows generalizing first with
  | nil => cases h
  | cons g rows ih =>
    rcases List.mem_cons.1 h with rfl | h
    · exact ⟨first, List.mem_cons_self⟩
    · obtain ⟨i, hi⟩ := ih h (first + 1)
      exact ⟨i, List.mem_cons_of_mem _ hi⟩

/-- While a row has settled to an error, a run does not end well. -/
theorem not_ended_of_error_row {call : Value → StateM σ (Except Raised β)} {wait : Bool}
    {events : List Event} {opened : List Nat} {f : Flight β} {w : σ}
    {rows : List (Nat × Future Id Value)} {orders : List (List (Nat × Except Error Value))}
    (hhandles : Handles call wait events opened f w rows.length orders)
    (hfirst : orders.head? = (rounds wait events opened rows).head?) {i : Nat} {e : Error}
    (hrow : (i, .settled (.error e)) ∈ rows) (results : List β) :
    ((course call events opened wait f).run w).1.ended ≠ some (.ok results) := by
  intro hended
  obtain ⟨-, hends⟩ := hhandles
  rw [hended] at hends
  cases hhandled : ((handle call (orders.flatten.map Prod.snd)).run w).1 with
  | error e' =>
    rw [hhandled] at hends
    cases hends
  | ok bs =>
    obtain ⟨vs, hvs, -⟩ := exists_of_handle_eq_ok call w hhandled
    cases orders with
    | nil =>
      have hnone : 0 ≠ rows.length := Nat.ne_of_lt (List.length_pos_of_mem hrow)
      rw [hhandled] at hends
      simp [Ends, hnone] at hends
    | cons first later =>
      have hmem : (i, .error e) ∈ first := mem_of_head?_rounds hrow hfirst.symm
      have herror : Except.error e ∈ vs.map Except.ok := by
        rw [← hvs]
        refine List.mem_map.2 ⟨(i, .error e), ?_, rfl⟩
        exact List.mem_flatten.2 ⟨first, List.mem_cons_self, hmem⟩
      simp at herror

/-- An asynchronous iteration is pending once its rows are issued, and no callback has been called. Where
room for so many results cannot be asked for, it overflows instead, and nothing has been drawn.

In every course of events the rows that settle are handled poll after poll: those of the first poll in
the order of rows, and those of later polls in the order in which they settle, if they settle one at a
time. The first error of a row or of the callback ends the run, which ends well only when all rows have
been handled, and never if a draw has failed. -/
theorem asynchronous_rows_handled_in_order (slot : Nat) {r : Registry} {o : Options}
    {expressions : List String} {b b' : BuildState} {nodes : List Node}
    (built : (prepare r o expressions).run.run b = (.ok nodes, b'))
    (asynchronous : nodes.any Node.isAsync = true)
    (perform : DrawM Draw → StateM σ (Except Error Draw))
    (call : Value → StateM σ (Except Raised β)) (world : σ) :
    let started := (start slot nodes o.iterations (fun action => watchDraw (perform action))
      (watchCall call)).run ⟨world, []⟩
    let issued := (issue (perform (row nodes)) o.iterations).run world
    let launched : Watched σ β := ⟨issued.2, issued.1.map .drew⟩
    let rows := numbered 0 (issued.1.map rowFuture)
    (roomLimit < o.iterations * slot → started = (.error .overflow, ⟨world, []⟩)) ∧
    (o.iterations * slot ≤ roomLimit → Drawn o.iterations issued.1 ∧
    ∃ l f, started = (.ok l, launched) ∧ l.run = .pending f ∧
      ∀ events opened wait,
        let run := (course (watchCall call) events opened wait f).run launched
        let settling := rounds wait events opened rows
        ∃ orders, Forall₂ List.Perm orders settling ∧
          orders.head? = settling.head? ∧
          ((∀ round ∈ settling.tail, round.length ≤ 1) → orders = settling) ∧
          let handled := (handle (watchCall call) (orders.flatten.map Prod.snd)).run launched
          run.2 = handled.2 ∧
          (∀ e, handled.1 = .error e → run.1.ended = some (.error e)) ∧
          (∀ bs, handled.1 = .ok bs →
            if orders.flatten.length = rows.length then ∃ results, run.1.ended = some (.ok results)
            else run.1.ended = none) ∧
          ((∃ e, .error e ∈ issued.1) → ∀ results, run.1.ended ≠ some (.ok results))) := by
  intro started issued launched rows
  refine ⟨?_, fun hroom => ?_⟩
  · intro hroom
    simp only [started, start_of_overflow hroom]
    rfl
  have hiterations := iterations_ne_zero_of_prepare built
  have hissued : issued.1.map rowFuture ≠ [] := by
    apply List.ne_nil_of_length_pos
    rw [List.length_map]
    exact length_issue_pos hiterations
  obtain ⟨l, hstart, hrun⟩ :=
    run_start_asynchronous hroom asynchronous hiterations perform (watchCall call) world
  refine ⟨drawn_issue _ _ _, l, _, hstart, hrun, ?_⟩
  intro events opened wait run settling
  obtain ⟨orders, hperm, hfirst, hhandles⟩ :=
    exists_handles (watchCall call) wait events opened (.ofRows hissued) launched
  have hfirst := hfirst rfl
  refine ⟨orders, hperm, hfirst, ?_, hhandles.1, ?_, ?_, ?_⟩
  · exact eq_of_forall₂_perm_of_head? hperm hfirst
  · intro e he
    have hends := hhandles.2
    rwa [he] at hends
  · intro bs hbs
    have hends := hhandles.2
    rwa [hbs] at hends
  · rintro ⟨e, he⟩ results
    have hrow : .settled (.error e) ∈ issued.1.map rowFuture := List.mem_map_of_mem he
    obtain ⟨i, hi⟩ := mem_numbered hrow 0
    exact not_ended_of_error_row hhandles hfirst hi results

theorem failed_draw_never_ends_well :
    let r := Registry.standard.register "late" (.scripted "late" true
      [.gated (.ok (.int 1)), .settledCount, .fail (.custom (.words "no"))])
    let o : Options := ⟨5, .standard, []⟩
    let perform : DrawM Draw → StateM DrawState (Except Error Draw) := fun action => action.run.run
    let call : Value → StateM DrawState (Except Raised String) := fun v => return .ok v.text
    let world : DrawState := ⟨⟨fun _ => 0, 0⟩, 0, fun _ => 0⟩
    ∃ nodes b' l f w, (prepare r o ["late", "int:3-9"]).run.run ⟨[], 0⟩ = (.ok nodes, b') ∧
      nodes.any Node.isAsync = true ∧
      (start 24 nodes o.iterations (fun action => watchDraw (perform action)) (watchCall call)).run
        ⟨world, []⟩ = (.ok l, w) ∧
      w.drawn.length = 3 ∧ w.calls = [] ∧ l.run = .pending f ∧
      ∀ events opened wait results,
        ((course (watchCall call) events opened wait f).run w).1.ended ≠ some (.ok results) := by
  intro r o perform call world
  have hcheck : (match ((prepare r o ["late", "int:3-9"]).run.run ⟨[], 0⟩).1 with
      | .ok nodes =>
        let drawn := ((issue (perform (row nodes)) o.iterations).run world).1
        nodes.any Node.isAsync && drawn.length == 3 && drawn.any fun d => !d.isOk
      | .error _ => false) = true := by
    decide +kernel
  rcases built : (prepare r o ["late", "int:3-9"]).run.run ⟨[], 0⟩ with ⟨e | nodes, b'⟩ <;>
    simp only [built] at hcheck
  · cases hcheck
  · simp only [Bool.and_eq_true, beq_iff_eq, List.any_eq_true] at hcheck
    obtain ⟨⟨hasync, hlength⟩, d, hd, hfailed⟩ := hcheck
    obtain ⟨-, l, f, hstart, hpending, hcourse⟩ := (asynchronous_rows_handled_in_order 24 built
      (List.any_eq_true.2 hasync) perform call world).2 (by decide)
    refine ⟨nodes, b', l, f, _, rfl, List.any_eq_true.2 hasync, hstart, ?_, ?_, hpending, ?_⟩
    · rwa [Watched.drawn_mk_map_drew]
    · exact Watched.calls_mk_map_drew _ _
    · intro events opened wait results
      obtain ⟨-, -, -, -, -, -, -, hnever⟩ := hcourse events opened wait
      cases d with
      | ok d => cases hfailed
      | error e => exact hnever ⟨e, hd⟩ results

theorem greatest_number_of_asynchronous_rows_overflows :
    let r := Registry.standard.register "late" (.scripted "late" true
      [.fail (.custom (.words "no"))])
    let o : Options := ⟨(1 <<< 64) - 1, .standard, []⟩
    let call : Value → StateM DrawState (Except Raised String) := fun v => return .ok v.text
    ∃ nodes b', (prepare r o ["late"]).run.run ⟨[], 0⟩ = (.ok nodes, b') ∧
      nodes.any Node.isAsync = true ∧ o.iterations ≠ 0 ∧
      ∀ world : DrawState, (start 24 nodes o.iterations (fun action => watchDraw action.run.run)
        (watchCall call)).run ⟨world, []⟩ = (.error .overflow, ⟨world, []⟩) := by
  intro r o call
  have hnodes : ((prepare r o ["late"]).run.run ⟨[], 0⟩).1.toOption.map
      (fun nodes => nodes.any Node.isAsync) = some true := by decide +kernel
  obtain ⟨nodes, b', built, asynchronous⟩ := exists_returns_of_toOption hnodes
  refine ⟨nodes, b', built, asynchronous, by decide, fun world => ?_⟩
  rw [start_of_overflow (by decide)]
  rfl

end GenExpr.Iterate
