import GenExpr.Proofs.Iterate.Handling

/-!
# Flights that stand

A row that has not been woken has stalled: it would not get any further if it were polled. So a poll of
a flight handles exactly the rows that would settle if all were polled, though it looks at the woken
ones only.
-/

namespace GenExpr.Iterate

variable {σ β : Type}

/-- A flight in which every row that has not been woken has stalled. -/
structure Standing (opened : Nat → Bool) (f : Flight β) : Prop where
  flying : f.ended = none
  waits : f.waiting ≠ []
  nodup : (f.waiting.map Prod.fst).Nodup
  woken_nodup : f.woken.Nodup
  woken_subset : f.woken ⊆ f.waiting.map Prod.fst
  stalled : ∀ row ∈ f.waiting, row.1 ∉ f.woken →
    (row.2.poll opened).run = row.2 ∧ row.2.outcome? = none

namespace Standing

variable {opened : Nat → Bool} {f : Flight β}

theorem leftAfter_woken (h : Standing opened f) :
    leftAfter opened f.woken f.waiting = left opened f.waiting := by
  apply List.filterMap_congr
  intro row hrow
  by_cases hwoken : row.1 ∈ f.woken
  · simp [hwoken]
  · obtain ⟨hpoll, hout⟩ := h.stalled row hrow hwoken
    simp [hwoken, unsettled, hpoll, hout]

/-- The woken rows that settle are all that would settle. -/
theorem settlements_perm (h : Standing opened f) :
    (settlements opened f.waiting f.woken).Perm (settling opened f.waiting) := by
  have hperm : f.woken.Perm ((f.waiting.map Prod.fst).filter fun i => i ∈ f.woken) := by
    apply (List.perm_ext_iff_of_nodup h.woken_nodup (h.nodup.filter _)).2
    intro i
    rw [List.mem_filter, decide_eq_true_iff]
    exact ⟨fun hi => ⟨h.woken_subset hi, hi⟩, fun hi => hi.2⟩
  have hothers : ((f.waiting.map Prod.fst).filter fun i => i ∈ f.woken).filterMap
      (settlement opened f.waiting) = settlements opened f.waiting (f.waiting.map Prod.fst) := by
    rw [List.filterMap_filter]
    apply List.filterMap_congr
    intro i hi
    by_cases hwoken : i ∈ f.woken
    · simp [hwoken]
    · obtain ⟨row, hrow, rfl⟩ := List.mem_map.1 hi
      obtain ⟨hpoll, hout⟩ := h.stalled row hrow hwoken
      have hnone : settlement opened f.waiting row.1 = none := by
        rw [settlement_of_lookup (lookup_of_mem h.nodup hrow), hpoll, hout]
        rfl
      simp [hwoken, hnone]
  rw [← settlements_all h.nodup, ← hothers]
  exact hperm.filterMap _

/-- What a poll leaves has stalled. -/
theorem of_left {rows : List (Nat × Future Id Value)} (hrows : (rows.map Prod.fst).Nodup)
    (hflying : f.ended = none) (hwaiting : f.waiting = left opened rows) (hwaits : f.waiting ≠ [])
    (hwoken : f.woken = []) : Standing opened f where
  flying := hflying
  waits := hwaits
  nodup := by
    rw [hwaiting]
    exact hrows.sublist (numbers_left_sublist opened rows)
  woken_nodup := by
    rw [hwoken]
    exact List.nodup_nil
  woken_subset := by
    rw [hwoken]
    exact List.nil_subset _
  stalled row hrow _ := by
    rw [hwaiting] at hrow
    obtain ⟨g, -, hpoll, hout⟩ := mem_left.1 hrow
    rw [← hpoll, Future.poll_poll, hpoll]
    exact ⟨rfl, hout⟩

theorem of_all_woken (hflying : f.ended = none) (hwaits : f.waiting ≠ [])
    (hnodup : (f.waiting.map Prod.fst).Nodup) (hwoken : f.woken.Nodup)
    (hall : ∀ i, i ∈ f.woken ↔ i ∈ f.waiting.map Prod.fst) : Standing opened f where
  flying := hflying
  waits := hwaits
  nodup := hnodup
  woken_nodup := hwoken
  woken_subset i hi := (hall i).1 hi
  stalled row hrow hnot := absurd ((hall row.1).2 (List.mem_map_of_mem hrow)) hnot

/-- The rows that a gate wakes. -/
def wakened (gate : Nat) (f : Flight β) : List Nat :=
  f.waiting.filterMap fun row =>
    if row.2.gates.contains gate && !f.woken.contains row.1 then some row.1 else none

theorem mem_wakened {gate i : Nat} :
    i ∈ wakened gate f ↔ ∃ row ∈ f.waiting, (gate ∈ row.2.gates ∧ row.1 ∉ f.woken) ∧ row.1 = i := by
  simp [wakened]

theorem wakened_sublist (gate : Nat) (f : Flight β) :
    (wakened gate f).Sublist (f.waiting.map Prod.fst) := by
  apply filterMap_sublist_map
  intro row i hi
  split at hi <;> simp_all

theorem wake {opened : List Nat} (h : Standing opened.contains f) (gate : Nat) :
    Standing (gate :: opened).contains (f.wake gate) where
  flying := h.flying
  waits := h.waits
  nodup := h.nodup
  woken_nodup := by
    refine List.nodup_append.2 ⟨h.woken_nodup, h.nodup.sublist (wakened_sublist gate f), ?_⟩
    rintro i hi _ hj rfl
    obtain ⟨row, -, ⟨-, hnot⟩, rfl⟩ := mem_wakened.1 hj
    exact hnot hi
  woken_subset := List.append_subset.2 ⟨h.woken_subset, (wakened_sublist gate f).subset⟩
  stalled row hrow hnot := by
    obtain ⟨hasleep, hclosed⟩ := not_or.1 (mt List.mem_append.2 hnot)
    have hgate : gate ∉ row.2.gates :=
      fun hg => hclosed (mem_wakened.2 ⟨row, hrow, ⟨hg, hasleep⟩, rfl⟩)
    have hsame : (row.2.poll (gate :: opened).contains).run = (row.2.poll opened.contains).run := by
      apply Future.poll_congr
      intro g hg
      have hne : g ≠ gate := fun heq => hgate (heq ▸ hg)
      simp [hne]
    rw [hsame]
    exact h.stalled row hrow hasleep

/-- A gate wakes no row while all rows are awake. -/
theorem wake_of_all_woken (hall : f.woken = f.waiting.map Prod.fst) (gate : Nat) :
    (f.wake gate).woken = (f.wake gate).waiting.map Prod.fst := by
  have hnone : wakened gate f = [] := by
    apply List.eq_nil_iff_forall_not_mem.2
    intro i hi
    obtain ⟨row, hrow, ⟨-, hnot⟩, -⟩ := mem_wakened.1 hi
    rw [hall] at hnot
    exact hnot (List.mem_map_of_mem hrow)
  change f.woken ++ wakened gate f = _
  rw [hnone, List.append_nil]
  exact hall

section Poll

variable (call : Value → StateM σ (Except Raised β))

/-- A poll handles the rows that settle. After an error, and when no row is left, the run has ended;
otherwise it stands again. -/
theorem run_poll (h : Standing opened f) (w : σ) :
    let handled :=
      (handle call ((settlements opened f.waiting f.woken).map Prod.snd)).run w
    let next := (f.poll opened call).run w
    next.2 = handled.2 ∧
      ((∃ e, handled.1 = .error e ∧ next.1.ended = some (.error e)) ∨
        (∃ bs results, handled.1 = .ok bs ∧ left opened f.waiting = [] ∧
          next.1.ended = some (.ok results)) ∨
        ∃ bs, handled.1 = .ok bs ∧ Standing opened next.1 ∧
          next.1.waiting = left opened f.waiting) := by
  intro handled next
  obtain ⟨hworld, hreaches⟩ := run_visit opened call h.woken_nodup (f := { f with woken := [] })
    h.nodup w
  have hnext : next = (Flight.visit opened call f.woken { f with woken := [] }).run w := by
    simp only [next, Flight.poll, h.flying]
  rw [← hnext] at hworld hreaches
  refine ⟨hworld, ?_⟩
  cases hhandled : handled.1 with
  | error e =>
    refine .inl ⟨e, rfl, ?_⟩
    simp only [handled] at hhandled
    simpa [hhandled, Except.map, Reaches] using hreaches
  | ok bs =>
    right
    simp only [handled] at hhandled
    simp only [hhandled, Except.map, Reaches, afterLook, h.leftAfter_woken] at hreaches
    by_cases hleft : left opened f.waiting = []
    · exact .inl ⟨bs, _, rfl, hleft, hreaches ▸ ended_close_of_nil hleft⟩
    · rw [close_of_ne_nil hleft] at hreaches
      rw [hreaches]
      exact .inr ⟨bs, rfl, of_left h.nodup h.flying rfl hleft rfl, rfl⟩

end Poll

end Standing

end GenExpr.Iterate
