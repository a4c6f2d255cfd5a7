import GenExpr.Proofs.Iterate.Standing

/-!
# The order of handling

A course of events handles its rows poll after poll. The rows of the first poll are handled in their
order, and those of a later poll in the order in which they were woken.
-/

namespace GenExpr.Iterate

open List (Forall₂)

variable {σ β : Type}

/-- The rows that settle at each poll in a course of events, in the order of rows, if at each poll all
rows are looked at. Waiting is a last poll with every gate open. -/
def rounds (wait : Bool) : List Event → List Nat → List (Nat × Future Id Value) →
    List (List (Nat × Except Error Value))
  | [], _, rows => if wait then [settling (fun _ => true) rows] else []
  | .opening gate :: rest, opened, rows => rounds wait rest (gate :: opened) rows
  | .polling :: rest, opened, rows =>
    settling opened.contains rows :: rounds wait rest opened (left opened.contains rows)

/-- What a course of events makes of a flight, which may be waited for in the end. -/
def course {m : Type → Type} [Monad m] (call : Value → m (Except Raised β)) (events : List Event)
    (opened : List Nat) (wait : Bool) (f : Flight β) : m (Flight β) := do
  let f ← follow call events opened f
  if wait then f.finish call else return f

section Course

variable (call : Value → StateM σ (Except Raised β))

/-- How a run stands when some of its rows have settled and were handled with an outcome. -/
def Ends (rows settled : Nat) (handled : Except Error (List β))
    (ended : Option (Except Error (List β))) : Prop :=
  match handled with
  | .error e => ended = some (.error e)
  | .ok _ => if settled = rows then ∃ results, ended = some (.ok results) else ended = none

theorem ends_of_done {rows settled : Nat} {ended : Option (Except Error (List β))} (bs : List β)
    (h : settled = rows) {results : List β} (hended : ended = some (.ok results)) :
    Ends rows settled (.ok bs) ended := by
  simp only [Ends, if_pos h]
  exact ⟨results, hended⟩

theorem ends_of_flying {rows settled : Nat} {ended : Option (Except Error (List β))} (bs : List β)
    (h : settled ≠ rows) (hended : ended = none) : Ends rows settled (.ok bs) ended := by
  simp only [Ends, if_neg h]
  exact hended

theorem run_follow_ended (events : List Event) (opened : List Nat) {f : Flight β}
    {r : Except Error (List β)} (h : f.ended = some r) (w : σ) :
    ((follow call events opened f).run w).1.ended = some r ∧
      ((follow call events opened f).run w).2 = w := by
  induction events generalizing opened f with
  | nil => exact ⟨h, rfl⟩
  | cons event rest ih =>
    cases event with
    | opening gate => exact ih (gate :: opened) h
    | polling =>
      have hpoll : f.poll opened.contains call = pure f := by rw [Flight.poll, h]
      rw [follow, hpoll]
      exact ih opened h

/-- Nothing happens in a run that has ended. -/
theorem run_course_ended (events : List Event) (opened : List Nat) (wait : Bool) {f : Flight β}
    {r : Except Error (List β)} (h : f.ended = some r) (w : σ) :
    ((course call events opened wait f).run w).1.ended = some r ∧
      ((course call events opened wait f).run w).2 = w := by
  have hfollow := run_follow_ended call events opened h w
  rw [course, run_bind]
  revert hfollow
  generalize (follow call events opened f).run w = followed
  obtain ⟨g, w'⟩ := followed
  rintro ⟨hended, rfl⟩
  have hended : g.ended = some r := hended
  cases wait with
  | false => exact ⟨hended, rfl⟩
  | true =>
    have hfinish : g.finish call = pure { g with
        woken := g.woken ++ (g.waiting.map Prod.fst).filter fun i => !g.woken.contains i } := by
      rw [Flight.finish, Flight.poll, hended]
    simp only [hfinish]
    exact ⟨hended, rfl⟩

theorem rounds_nil (wait : Bool) (events : List Event) (opened : List Nat) :
    (rounds wait events opened []).flatten = [] := by
  induction events generalizing opened with
  | nil => cases wait <;> rfl
  | cons event rest ih =>
    cases event with
    | opening gate => exact ih (gate :: opened)
    | polling => exact ih opened

theorem run_course_polling (events : List Event) (opened : List Nat) (wait : Bool) (f : Flight β)
    (w : σ) :
    (course call (.polling :: events) opened wait f).run w =
      (course call events opened wait ((f.poll opened.contains call).run w).1).run
        ((f.poll opened.contains call).run w).2 := rfl

/-- A run in which the rows of a first poll are handled before those of later polls. -/
theorem Ends.append {rows left first rest : Nat} {bs : List β} {handled : Except Error (List β)}
    {ended : Option (Except Error (List β))} (hleft : first + left = rows)
    (h : Ends left rest handled ended) :
    Ends rows (first + rest) (handled.map (bs ++ ·)) ended := by
  cases handled with
  | error e => exact h
  | ok cs =>
    have hiff : first + rest = rows ↔ rest = left := by omega
    simpa only [Ends, Except.map, hiff] using h

/-- A course of events with a number of rows comes to the handling of those that settle, poll after
poll. -/
def Handles (wait : Bool) (events : List Event) (opened : List Nat) (f : Flight β) (w : σ) (rows : Nat)
    (orders : List (List (Nat × Except Error Value))) : Prop :=
  let handled := (handle call (orders.flatten.map Prod.snd)).run w
  let run := (course call events opened wait f).run w
  run.2 = handled.2 ∧ Ends rows orders.flatten.length handled.1 run.1.ended

section Handles

variable {call} {wait : Bool} {events : List Event} {opened : List Nat} {f : Flight β} {w : σ}
  {first : List (Nat × Except Error Value)} {later : List (List (Nat × Except Error Value))}

theorem run_handle_flatten_cons :
    (handle call ((first :: later).flatten.map Prod.snd)).run w =
      match (handle call (first.map Prod.snd)).run w with
      | (.error e, w') => (.error e, w')
      | (.ok bs, w') => (((handle call (later.flatten.map Prod.snd)).run w').1.map (bs ++ ·),
          ((handle call (later.flatten.map Prod.snd)).run w').2) := by
  rw [List.flatten_cons, List.map_append]
  exact run_handle_append call w _ _

/-- After an error no later row is handled. -/
theorem handles_of_error {e : Error}
    (hfirst : ((handle call (first.map Prod.snd)).run w).1 = .error e)
    (hended : ((f.poll opened.contains call).run w).1.ended = some (.error e))
    (hworld : ((f.poll opened.contains call).run w).2 =
      ((handle call (first.map Prod.snd)).run w).2) (rows : Nat) :
    Handles call wait (.polling :: events) opened f w rows (first :: later) := by
  obtain ⟨hcourse, hsame⟩ := run_course_ended call events opened wait hended
    ((f.poll opened.contains call).run w).2
  unfold Handles
  rw [run_course_polling, run_handle_flatten_cons]
  rcases hrun : (handle call (first.map Prod.snd)).run w with ⟨r, w'⟩
  simp only [hrun] at hfirst hworld
  subst hfirst
  exact ⟨hsame.trans hworld, hcourse⟩

theorem handles_of_ok {bs : List β}
    (hfirst : ((handle call (first.map Prod.snd)).run w).1 = .ok bs)
    (hworld : ((f.poll opened.contains call).run w).2 =
      ((handle call (first.map Prod.snd)).run w).2) {rows left : Nat}
    (hrest : Handles call wait events opened ((f.poll opened.contains call).run w).1
      ((f.poll opened.contains call).run w).2 left later)
    (hlength : first.length + left = rows) :
    Handles call wait (.polling :: events) opened f w rows (first :: later) := by
  unfold Handles at hrest ⊢
  rw [run_course_polling, run_handle_flatten_cons, List.flatten_cons, List.length_append]
  rcases hrun : (handle call (first.map Prod.snd)).run w with ⟨r, w'⟩
  simp only [hrun] at hfirst hworld
  subst hfirst
  rw [hworld] at hrest ⊢
  exact ⟨hrest.1, hrest.2.append hlength⟩

/-- In a run that has ended well there is nothing left to handle. -/
theorem handles_of_ended {results : List β} (hended : f.ended = some (.ok results))
    (hlater : later.flatten = []) : Handles call wait events opened f w 0 later := by
  obtain ⟨hcourse, hsame⟩ := run_course_ended call events opened wait hended w
  unfold Handles
  rw [hlater]
  exact ⟨hsame, results, hcourse⟩

end Handles

/-- The flight in which all rows are awake, those that were woken before first. -/
def roused (f : Flight β) : Flight β :=
  { f with woken := f.woken ++ (f.waiting.map Prod.fst).filter fun i => !f.woken.contains i }

theorem Standing.roused {opened : Nat → Bool} {f : Flight β} (h : Standing opened f) :
    Standing (fun _ => true) (roused f) := by
  refine of_all_woken h.flying h.waits h.nodup ?_ ?_
  · refine List.nodup_append.2 ⟨h.woken_nodup, h.nodup.filter _, ?_⟩
    rintro i hi _ hj rfl
    have hnot := (List.mem_filter.1 hj).2
    simp [hi] at hnot
  · intro i
    constructor
    · intro hi
      rcases List.mem_append.1 hi with hi | hi
      · exact h.woken_subset hi
      · exact (List.mem_filter.1 hi).1
    · intro hi
      by_cases hwoken : i ∈ f.woken
      · exact List.mem_append_left _ hwoken
      · exact List.mem_append_right _ (List.mem_filter.2 ⟨hi, by simpa using hwoken⟩)

theorem roused_of_all_woken {f : Flight β} (hall : f.woken = f.waiting.map Prod.fst) :
    (roused f).woken = f.waiting.map Prod.fst := by
  have hnone : ((f.waiting.map Prod.fst).filter fun i => !f.woken.contains i) = [] := by
    apply List.filter_eq_nil_iff.2
    intro i hi
    rw [hall]
    simp only [List.contains_iff_mem.2 hi, Bool.not_true]
    exact Bool.false_ne_true
  rw [roused, hnone, List.append_nil, hall]

theorem exists_handles_finish (opened : List Nat) {f : Flight β} (h : Standing opened.contains f)
    (w : σ) :
    ∃ first : List (Nat × Except Error Value), first.Perm (settling (fun _ => true) f.waiting) ∧
      (f.woken = f.waiting.map Prod.fst → first = settling (fun _ => true) f.waiting) ∧
      Handles call true [] opened f w f.waiting.length [first] := by
  have hperm := h.roused.settlements_perm
  refine ⟨_, hperm, ?_, ?_⟩
  · intro hall
    rw [roused_of_all_woken hall]
    exact settlements_all h.nodup
  · have hlength : (settling (fun _ => true) (roused f).waiting).length +
        (left (fun _ => true) (roused f).waiting).length = f.waiting.length :=
      length_settling_add _ f.waiting
    obtain ⟨hworld, hcases⟩ := h.roused.run_poll call w
    unfold Handles
    rw [List.flatten_singleton]
    refine ⟨hworld, ?_⟩
    rw [hperm.length_eq]
    rcases hcases with ⟨e, he, hended⟩ | ⟨bs, results, hbs, hleft, hended⟩ |
      ⟨bs, hbs, hnext, hwaiting⟩
    · rw [he]
      exact hended
    · rw [hleft] at hlength
      rw [hbs]
      exact ends_of_done bs hlength hended
    · have hleft : left (fun _ => true) (roused f).waiting ≠ [] := hwaiting ▸ hnext.waits
      have hpos := List.length_pos_iff.2 hleft
      rw [hbs]
      exact ends_of_flying bs (by omega) hnext.flying

theorem exists_handles (wait : Bool) (events : List Event) (opened : List Nat) {f : Flight β}
    (h : Standing opened.contains f) (w : σ) :
    ∃ orders, Forall₂ List.Perm orders (rounds wait events opened f.waiting) ∧
      (f.woken = f.waiting.map Prod.fst →
        orders.head? = (rounds wait events opened f.waiting).head?) ∧
      Handles call wait events opened f w f.waiting.length orders := by
  induction events generalizing opened f w with
  | nil =>
    cases wait with
    | false =>
      have hwaits : 0 ≠ f.waiting.length := Nat.ne_of_lt (List.length_pos_iff.2 h.waits)
      exact ⟨[], .nil, fun _ => rfl, rfl, ends_of_flying [] hwaits h.flying⟩
    | true =>
      obtain ⟨first, hperm, hall, hhandles⟩ := exists_handles_finish call opened h w
      exact ⟨[first], .cons hperm .nil, fun hwoken => congrArg some (hall hwoken), hhandles⟩
  | cons event rest ih =>
    cases event with
    | opening gate =>
      obtain ⟨orders, hperm, hfirst, hhandles⟩ := ih (gate :: opened) (h.wake gate) w
      exact ⟨orders, hperm, fun hall => hfirst (Standing.wake_of_all_woken hall gate), hhandles⟩
    | polling =>
      have hperm := h.settlements_perm
      have hall : f.woken = f.waiting.map Prod.fst →
          settlements opened.contains f.waiting f.woken = settling opened.contains f.waiting := by
        intro hall
        rw [hall, settlements_all h.nodup]
      have hlength := length_settling_add opened.contains f.waiting
      rw [← hperm.length_eq] at hlength
      obtain ⟨hworld, hcases⟩ := h.run_poll call w
      rcases hcases with ⟨e, he, hended⟩ | ⟨bs, results, hbs, hleft, hended⟩ |
        ⟨bs, hbs, hnext, hwaiting⟩
      · exact ⟨_, .cons hperm (List.forall₂_same.2 fun _ _ => .refl _),
          fun hwoken => congrArg some (hall hwoken), handles_of_error he hended hworld _⟩
      · rw [hleft] at hlength
        refine ⟨_, .cons hperm (List.forall₂_same.2 fun _ _ => .refl _),
          fun hwoken => congrArg some (hall hwoken),
          handles_of_ok hbs hworld (handles_of_ended hended ?_) hlength⟩
        rw [hleft]
        exact rounds_nil wait rest opened
      · obtain ⟨orders, horders, -, hhandles⟩ :=
          ih opened hnext ((f.poll opened.contains call).run w).2
        rw [hwaiting] at horders hhandles
        exact ⟨_, .cons hperm horders, fun hwoken => congrArg some (hall hwoken),
          handles_of_ok hbs hworld hhandles hlength⟩

end Course

end GenExpr.Iterate
