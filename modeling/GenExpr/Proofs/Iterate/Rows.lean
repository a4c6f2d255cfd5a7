import GenExpr.Kind.Custom
import GenExpr.Proofs.Iterate.Account
import Mathlib.Data.List.Nodup

/-!
# No row is lost

Rows are issued one after another, and settle in any order while gates open and the flight is polled.
The account of rows is kept by each of these steps, so that it holds after every course of events: a row
is handed to the callback at most once, and when the iteration ends well every row has been, with its
result at its own place.
-/

namespace GenExpr.Iterate

variable {σ β : Type} {n : Nat} {slots : List (Option β)} {waiting : List (Nat × Future Id Value)}
  {w : Watched σ β} {handled : List (Nat × Call β)}

/-- An account in which all rows have been issued, or one waits that never comes to a value. -/
structure Issued (n : Nat) (slots : List (Option β)) (waiting : List (Nat × Future Id Value))
    (w : Watched σ β) (handled : List (Nat × Call β)) : Prop
    extends Account slots waiting w handled where
  issued : slots.length = n ∨ ∃ row ∈ waiting, ∀ v, ¬row.2.Promises v

theorem Account.row_unique (h : Account slots waiting w handled) {i : Nat} {row : Future Id Value}
    (hrow : (i, row) ∈ waiting) {other : Nat × Future Id Value} (hother : other ∈ waiting)
    (hi : other.1 = i) : other = (i, row) :=
  List.inj_on_of_nodup_map h.waiting_nodup hother hrow hi

theorem Issued.settle (h : Issued n slots waiting w handled) {i : Nat} {row : Future Id Value}
    (hrow : (i, row) ∈ waiting) {v : Value} (hv : row.Promises v) (b : β) (world : σ) :
    Issued n (slots.set i (some b)) (Flight.remove i waiting) (w.call ⟨v, .ok b⟩ world)
      (handled ++ [(i, ⟨v, .ok b⟩)]) where
  toAccount := h.toAccount.settle hrow hv b world
  issued := by
    rw [List.length_set]
    rcases h.issued with hn | ⟨other, hother, hnone⟩
    · exact .inl hn
    · refine .inr ⟨other, List.mem_filter.2 ⟨hother, ?_⟩, hnone⟩
      rw [decide_eq_true_iff]
      intro hi
      obtain rfl := h.row_unique hrow hother hi
      exact hnone v hv

theorem Issued.replace (h : Issued n slots waiting w handled) {i : Nat} {row row' : Future Id Value}
    (hrow : (i, row) ∈ waiting) (hsame : ∀ v, row'.Promises v → row.Promises v) :
    Issued n slots (Flight.replace i row' waiting) w handled where
  toAccount := h.toAccount.replace hrow hsame
  issued := by
    rcases h.issued with hn | ⟨other, hother, hnone⟩
    · exact .inl hn
    · right
      by_cases hi : other.1 = i
      · obtain rfl := h.row_unique hrow hother hi
        refine ⟨(i, row'), List.mem_map.2 ⟨(i, row), hother, if_pos rfl⟩, ?_⟩
        intro v hv
        exact hnone v (hsame v hv)
      · exact ⟨other, List.mem_map.2 ⟨other, hother, if_neg hi⟩, hnone⟩

theorem Issued.complete (h : Issued n slots [] w handled) :
    Complete n (slots.filterMap id) handled := by
  have hn : slots.length = n := by
    rcases h.issued with hn | ⟨row, hrow, -⟩
    · exact hn
    · exact absurd hrow List.not_mem_nil
  rw [← hn]
  exact h.toAccount.complete

/-- What holds of a flight in every course of events. -/
structure Sound (n : Nat) (f : Flight β) (w : Watched σ β) (handled : List (Nat × Call β)) : Prop
    extends Orderly w handled where
  flying : f.ended = none → Issued n f.slots f.waiting w handled
  landed : ∀ results, f.ended = some (.ok results) → Complete n results handled

theorem Issued.sound {f : Flight β} (h : Issued n f.slots f.waiting w handled)
    (hended : f.ended = none) : Sound n f w handled where
  toOrderly := h.toOrderly
  flying _ := h
  landed results hresults := by simp [hended] at hresults

theorem Orderly.sound_of_error {f : Flight β} {e : Error} (h : Orderly w handled)
    (hended : f.ended = some (.error e)) : Sound n f w handled where
  toOrderly := h
  flying hnone := by simp [hended] at hnone
  landed results hresults := by simp [hended] at hresults

section Flying

variable (call : Value → StateM σ (Except Raised β))

theorem sound_visit (opened : Nat → Bool) (rows : List Nat) {f : Flight β}
    (h : Issued n f.slots f.waiting w handled) (hended : f.ended = none) :
    ∃ handled, Sound n ((f.visit opened (watchCall call) rows).run w).1
      ((f.visit opened (watchCall call) rows).run w).2 handled := by
  induction rows generalizing f w handled with
  | nil =>
    refine ⟨handled, ?_⟩
    rw [Flight.visit]
    split
    next hempty =>
      have hcomplete : Complete n (f.slots.filterMap id) handled := by
        rw [List.isEmpty_iff.1 hempty] at h
        exact h.complete
      refine ⟨h.toOrderly, ?_, ?_⟩
      · intro hnone
        cases hnone
      · rintro results ⟨rfl⟩
        exact hcomplete
    next => exact h.sound hended
  | cons i rest ih =>
    rw [Flight.visit]
    split
    next => exact ih h hended
    next row hlookup =>
      obtain ⟨before, after, hwaiting, -⟩ := List.lookup_eq_some_iff.1 hlookup
      have hrow : (i, row) ∈ f.waiting := by
        rw [hwaiting]
        exact List.mem_append_cons_self
      have hpolled := Future.promises_poll opened row
      rcases hv : Id.run (row.poll opened) with (e | v) | _ | _ | _ <;> simp only [hv] at hpolled ⊢
      · exact ⟨handled, h.toOrderly.sound_of_error rfl⟩
      · have hpromise : row.Promises v := (hpolled v).1 rfl
        rw [run_watchCall_bind]
        rcases call v w.world with ⟨raised | b, world⟩
        · have hnext := h.toOrderly.call (h.fresh _ hrow) (h.drawn _ hrow v hpromise)
            (.error raised) world
          exact ⟨_, hnext.sound_of_error rfl⟩
        · exact ih (h.settle hrow hpromise b world) hended
      all_goals exact ih (h.replace hrow fun v => (hpolled v).1) hended

theorem sound_poll (opened : Nat → Bool) {f : Flight β} (h : Sound n f w handled) :
    ∃ handled, Sound n ((f.poll opened (watchCall call)).run w).1
      ((f.poll opened (watchCall call)).run w).2 handled := by
  rw [Flight.poll]
  split
  next => exact ⟨handled, h⟩
  next hended =>
    exact sound_visit call opened f.woken (f := { f with woken := [] }) (h.flying hended) hended

/-- Which rows are looked at next does not matter. -/
theorem Sound.rouse {f : Flight β} (h : Sound n f w handled) (rows : List Nat) :
    Sound n { f with woken := rows } w handled where
  toOrderly := h.toOrderly
  flying := h.flying
  landed := h.landed

theorem sound_finish {f : Flight β} (h : Sound n f w handled) :
    ∃ handled, Sound n ((f.finish (watchCall call)).run w).1
      ((f.finish (watchCall call)).run w).2 handled :=
  sound_poll call _ (h.rouse _)

theorem sound_follow (events : List Event) (opened : List Nat) {f : Flight β}
    (h : Sound n f w handled) :
    ∃ handled, Sound n ((follow (watchCall call) events opened f).run w).1
      ((follow (watchCall call) events opened f).run w).2 handled := by
  induction events generalizing opened f w handled with
  | nil => exact ⟨handled, h⟩
  | cons event rest ih =>
    cases event with
    | opening gate => exact ih (gate :: opened) (h.rouse _)
    | polling =>
      obtain ⟨next, hnext⟩ := sound_poll call opened.contains h
      exact ih opened hnext

end Flying

section Launching

/-- Rows are numbered as they are drawn, so that a row just drawn belongs to the next slot. -/
structure Numbered (l : Launch β) (w : Watched σ β) (handled : List (Nat × Call β)) : Prop
    extends Account l.slots l.waiting w handled where
  next : w.drawn.length = l.slots.length

theorem Numbered.drew_next {l : Launch β} (h : Numbered l w handled) {d : Draw} {v : Value}
    (hd : d.toFuture.Promises v) (world : σ) : Drew (w.draw (.ok d) world) l.slots.length v := by
  rw [← h.next]
  exact drew_last hd world

theorem Numbered.wait {l : Launch β} (h : Numbered l w handled) (d : Draw) (world : σ) :
    Numbered (l.wait d.toFuture) (w.draw (.ok d) world) handled where
  toAccount := (h.toAccount.draw (.ok d) world).wait fun _ hd => h.drew_next hd world
  next := by simp [Launch.wait, h.next]

theorem Numbered.keep {l : Launch β} (h : Numbered l w handled) (v : Value) (b : β)
    (drawn called : σ) :
    Numbered (l.keep b) ((w.draw (.ok (.ready v)) drawn).call ⟨v, .ok b⟩ called)
      (handled ++ [(l.slots.length, ⟨v, .ok b⟩)]) where
  toAccount := (h.toAccount.draw (.ok (.ready v)) drawn).keep
    (h.drew_next (d := .ready v) rfl drawn) called
  next := by simp [Launch.keep, h.next]

/-- A launch either fails, with its calls accounted for, or issues what it is asked to. -/
def Launched (n : Nat) (ended : Except Error (Launch β)) (w : Watched σ β)
    (handled : List (Nat × Call β)) : Prop :=
  match ended with
  | .error _ => Orderly w handled
  | .ok l => Issued n l.slots l.waiting w handled

theorem Launch.length_wait (l : Launch β) (f : Future Id Value) :
    (l.wait f).slots.length = l.slots.length + 1 := List.length_append

theorem Launch.length_keep (l : Launch β) (b : β) :
    (l.keep b).slots.length = l.slots.length + 1 := List.length_append

theorem launched (draw : StateM σ (Except Error Draw)) (call : Value → StateM σ (Except Raised β))
    (asynchronous : Bool) (count : Nat) {l : Launch β} (h : Numbered l w handled)
    (hn : l.slots.length + count = n) :
    ∃ handled, Launched n
      ((launch asynchronous (watchDraw draw) (watchCall call) count l).run w).1
      ((launch asynchronous (watchDraw draw) (watchCall call) count l).run w).2 handled := by
  induction count generalizing l w handled with
  | zero => exact ⟨handled, h.toAccount, .inl hn⟩
  | succ count ih =>
    rw [launch, run_watchDraw_bind]
    rcases draw w.world with ⟨e | v | f, world⟩
    · cases asynchronous with
      | false => exact ⟨handled, h.toOrderly.draw (.error e) world⟩
      | true =>
        refine ⟨handled, ?_, .inr ⟨_, List.mem_append_right _ (List.mem_singleton_self _), ?_⟩⟩
        · apply (h.toAccount.draw (.error e) world).wait
          intro v hv
          cases hv
        · intro v hv
          cases hv
    · simp only []
      split
      next =>
        rw [run_watchCall_bind]
        have hworld : (w.draw (.ok (.ready v)) world).world = world := rfl
        rw [hworld]
        rcases call v world with ⟨raised | b, called⟩
        · have hlt := fun hi => Nat.lt_irrefl _ (h.handled_lt hi)
          have hnext := (h.toOrderly.draw (.ok (.ready v)) world).call hlt
            (h.drew_next (d := .ready v) rfl world) (.error raised) called
          exact ⟨_, hnext⟩
        · apply ih (h.keep v b world called)
          rw [Launch.length_keep]
          omega
      next =>
        apply ih (h.wait (.ready v) world)
        rw [Launch.length_wait]
        omega
    · apply ih (h.wait (.pending f) world)
      rw [Launch.length_wait]
      omega

theorem Issued.complete_of_run {l : Launch β} (h : Issued n l.slots l.waiting w handled)
    {results : List β} (hrun : l.run = .ready results) : Complete n results handled := by
  rw [Launch.run] at hrun
  split at hrun
  next hempty =>
    obtain rfl := Run.ready.inj hrun
    rw [List.isEmpty_iff.1 hempty] at h
    exact h.complete
  next => cases hrun

theorem Issued.sound_of_run {l : Launch β} (h : Issued n l.slots l.waiting w handled)
    {f : Flight β} (hrun : l.run = .pending f) : Sound n f w handled := by
  rw [Launch.run] at hrun
  split at hrun
  next => cases hrun
  next =>
    obtain rfl := Run.pending.inj hrun
    exact Issued.sound h rfl

end Launching

section Course

variable (slot : Nat) (nodes : List Node) (iterations : Nat)
  (perform : DrawM Draw → StateM σ (Except Error Draw))
  (call : Value → StateM σ (Except Raised β))
  (events : List Event) (opened : List Nat) (wait : Bool) (world : σ)

/-- What holds of an iteration in every course of events. -/
structure Accounted (n : Nat) (ended : Option (Except Halt (List β))) (w : Watched σ β)
    (handled : List (Nat × Call β)) : Prop extends Orderly w handled where
  complete : ∀ results, ended = some (.ok results) → Complete n results handled

theorem Sound.accounted {f : Flight β} (h : Sound n f w handled) :
    Accounted n (f.ended.map (Except.mapError .failed)) w handled where
  toOrderly := h.toOrderly
  complete results hresults := by
    apply h.landed
    rcases hended : f.ended with _ | _ | _ <;> simp_all [Except.mapError]

theorem Orderly.accounted (h : Orderly w handled) (halt : Halt) :
    Accounted n (some (.error halt)) w handled where
  toOrderly := h
  complete results hresults := by cases hresults

theorem courseOf_accounted :
    ∃ handled, Accounted iterations
      ((courseOf slot nodes iterations (fun action => watchDraw (perform action)) (watchCall call)
        events opened wait).run ⟨world, []⟩).1
      ((courseOf slot nodes iterations (fun action => watchDraw (perform action)) (watchCall call)
        events opened wait).run ⟨world, []⟩).2 handled := by
  have hnil : Numbered (⟨[], [], none⟩ : Launch β) (⟨world, []⟩ : Watched σ β) [] :=
    ⟨.nil world, rfl⟩
  rcases Nat.lt_or_ge roomLimit (iterations * slot) with hroom | hroom
  · rw [courseOf_of_overflow hroom]
    exact ⟨[], hnil.toOrderly.accounted .overflow⟩
  obtain ⟨handled, hlaunched⟩ := launched (perform (row nodes)) call
    (nodes.any Node.isAsync) iterations hnil (Nat.zero_add iterations)
  rw [courseOf, start_of_fits hroom, bind_assoc, run_bind]
  revert hlaunched
  generalize (launch _ _ _ _ _ : StateM (Watched σ β) _).run _ = issued
  obtain ⟨e | l, w⟩ := issued
  · intro herror
    exact ⟨handled, Orderly.accounted herror (.failed e)⟩
  · intro hissued
    cases hrun : l.run with
    | ready results =>
      simp only [pure_bind, Except.mapError, hrun]
      refine ⟨handled, hissued.toOrderly, ?_⟩
      rintro _ ⟨rfl⟩
      exact hissued.complete_of_run hrun
    | pending f =>
      obtain ⟨followed, hfollowed⟩ := sound_follow call events opened (hissued.sound_of_run hrun)
      simp only [pure_bind, Except.mapError, hrun, run_bind]
      cases wait with
      | false => exact ⟨followed, hfollowed.accounted⟩
      | true =>
        obtain ⟨finished, hfinished⟩ := sound_finish call hfollowed
        exact ⟨finished, hfinished.accounted⟩

theorem outcome_accounted (r : Registry) (o : Options) (expressions : List String)
    (b : BuildState) :
    ∃ handled, Accounted o.iterations
      ((outcome slot r o expressions b (fun action => watchDraw (perform action)) (watchCall call)
        events opened wait).run ⟨world, []⟩).1
      ((outcome slot r o expressions b (fun action => watchDraw (perform action)) (watchCall call)
        events opened wait).run ⟨world, []⟩).2 handled := by
  rw [outcome]
  split
  next e _ => exact ⟨[], (Account.nil world).toOrderly.accounted (.failed e)⟩
  next nodes _ =>
    exact courseOf_accounted slot nodes o.iterations perform call events opened wait world

/-- In every course of events, whether it ends well, ends in an error or has not ended, an iteration
hands each row to the callback at most once, with the value that the row's draw settles to. If it ends
well, every row has been handed over, and the results stand at the places of their rows. -/
theorem every_row_handled_once (r : Registry) (o : Options) (expressions : List String)
    (b : BuildState) :
    let run := (outcome slot r o expressions b (fun action => watchDraw (perform action))
      (watchCall call) events opened wait).run ⟨world, []⟩
    ∃ handled : List (Nat × Call β),
      handled.map Prod.snd = run.2.calls ∧
      (handled.map Prod.fst).Nodup ∧
      (∀ p ∈ handled, ∃ d, run.2.drawn[p.1]? = some (.ok d) ∧ d.SettlesTo p.2.row) ∧
      ∀ results, run.1 = some (.ok results) →
        results.length = o.iterations ∧
        (handled.map Prod.fst).Perm (List.range o.iterations) ∧
        ∀ p ∈ handled, ∃ b, results[p.1]? = some b ∧ p.2.answer = .ok b := by
  obtain ⟨handled, h⟩ := outcome_accounted slot perform call events opened wait world r o expressions b
  refine ⟨handled, h.calls_eq, h.nodup, ?_, ?_⟩
  · intro p hp
    obtain ⟨d, hd, hv⟩ := h.drew p hp
    exact ⟨d, hd, Deferred.settlesTo_of_promises hv⟩
  · intro results hresults
    have hcomplete := h.complete results hresults
    exact ⟨hcomplete.length_eq, hcomplete.rows_perm, hcomplete.answered⟩

-- The last row settles before the second, although the leaf does not call itself asynchronous.
example :
    let leaf := [.ready (.int 0), .gated (.ok (.int 1)), .gated (.ok (.int 2))]
    let r := Registry.standard.register "late" (.scripted "late" false leaf)
    let run := (outcome 24 r ⟨3, .standard, []⟩ ["late"] ⟨[], 0⟩
      (fun action => watchDraw (action.run.run : StateM DrawState _))
      (watchCall fun v => return Except.ok v.text)
      [.polling, .opening 1, .polling, .opening 0, .polling] [] false).run
        ⟨⟨⟨fun _ => 0, 0⟩, 0, fun _ => 0⟩, []⟩
    run.1.bind Except.toOption = some ["0", "1", "2"] ∧
      run.2.calls.map (fun c => c.row.text) = ["0", "2", "1"] := by
  intro leaf r run
  decide +kernel

end Course

end GenExpr.Iterate
