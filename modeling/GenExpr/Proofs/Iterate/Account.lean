import GenExpr.Proofs.Iterate.Watched

/-!
# Accounting for rows

Every call of the callback belongs to a row. While rows are issued and settle, each issued row is either
still waiting or has been handed to the callback once, and then its slot holds what the callback made of
it. Each step of an iteration keeps this account.
-/

namespace GenExpr.Iterate

variable {σ β : Type}

/-- A row was drawn, and what was drawn promises a value. -/
def Drew (w : Watched σ β) (i : Nat) (v : Value) : Prop :=
  ∃ d, w.drawn[i]? = some (.ok d) ∧ d.toFuture.Promises v

/-- The calls so far, each with the row that it was made for. No row has two. -/
structure Orderly (w : Watched σ β) (handled : List (Nat × Call β)) : Prop where
  calls_eq : handled.map Prod.snd = w.calls
  nodup : (handled.map Prod.fst).Nodup
  drew : ∀ p ∈ handled, Drew w p.1 p.2.row

/-- Each row with a slot waits or was handled, and slots of handled rows hold the answers. -/
structure Account (slots : List (Option β)) (waiting : List (Nat × Future Id Value))
    (w : Watched σ β) (handled : List (Nat × Call β)) : Prop extends Orderly w handled where
  kept : ∀ p ∈ handled, ∃ b, slots[p.1]? = some (some b) ∧ p.2.answer = .ok b
  waiting_nodup : (waiting.map Prod.fst).Nodup
  fresh : ∀ row ∈ waiting, row.1 ∉ handled.map Prod.fst
  below : ∀ row ∈ waiting, row.1 < slots.length
  drawn : ∀ row ∈ waiting, ∀ v, row.2.Promises v → Drew w row.1 v
  covered : ∀ i < slots.length, i ∈ handled.map Prod.fst ∨ i ∈ waiting.map Prod.fst

/-- The results of all rows, each at the place of its row. -/
structure Complete (n : Nat) (results : List β) (handled : List (Nat × Call β)) : Prop where
  length_eq : results.length = n
  rows_perm : (handled.map Prod.fst).Perm (List.range n)
  answered : ∀ p ∈ handled, ∃ b, results[p.1]? = some b ∧ p.2.answer = .ok b

variable {w : Watched σ β} {handled : List (Nat × Call β)} {slots : List (Option β)}
  {waiting : List (Nat × Future Id Value)}

theorem Drew.draw {i : Nat} {v : Value} (h : Drew w i v) (d : Except Error Draw) (world : σ) :
    Drew (w.draw d world) i v := by
  obtain ⟨first, hfirst, hv⟩ := h
  have hlt := (List.getElem?_eq_some_iff.1 hfirst).1
  refine ⟨first, ?_, hv⟩
  rw [Watched.drawn_draw, List.getElem?_append_left hlt, hfirst]

theorem Drew.call {i : Nat} {v : Value} (h : Drew w i v) (c : Call β) (world : σ) :
    Drew (w.call c world) i v := by
  rwa [Drew, Watched.drawn_call]

theorem drew_last {d : Draw} {v : Value} (h : d.toFuture.Promises v) (world : σ) :
    Drew (w.draw (.ok d) world) w.drawn.length v := by
  refine ⟨d, ?_, h⟩
  simp

theorem Orderly.draw (h : Orderly w handled) (d : Except Error Draw) (world : σ) :
    Orderly (w.draw d world) handled where
  calls_eq := h.calls_eq.trans (w.calls_draw d world).symm
  nodup := h.nodup
  drew p hp := (h.drew p hp).draw d world

theorem Orderly.call (h : Orderly w handled) {i : Nat} {v : Value}
    (hi : i ∉ handled.map Prod.fst) (hv : Drew w i v) (answer : Except Raised β) (world : σ) :
    Orderly (w.call ⟨v, answer⟩ world) (handled ++ [(i, ⟨v, answer⟩)]) := by
  refine ⟨?_, ?_, ?_⟩
  · rw [List.map_append, h.calls_eq, Watched.calls_call]
    rfl
  · rw [List.map_append]
    refine List.nodup_append.2 ⟨h.nodup, by simp, ?_⟩
    intro a ha b hb hab
    obtain rfl : b = i := by simpa using hb
    exact hi (hab ▸ ha)
  · intro p hp
    rcases List.mem_append.1 hp with hp | hp
    · exact (h.drew p hp).call _ _
    · obtain rfl := List.mem_singleton.1 hp
      exact hv.call _ _

theorem Account.nil (world : σ) : Account [] [] (⟨world, []⟩ : Watched σ β) [] where
  calls_eq := rfl
  nodup := List.nodup_nil
  drew := by simp
  kept := by simp
  waiting_nodup := List.nodup_nil
  fresh := by simp
  below := by simp
  drawn := by simp
  covered := by simp

theorem Account.handled_lt (h : Account slots waiting w handled) {i : Nat}
    (hi : i ∈ handled.map Prod.fst) : i < slots.length := by
  obtain ⟨p, hp, rfl⟩ := List.mem_map.1 hi
  obtain ⟨b, hb, -⟩ := h.kept p hp
  exact (List.getElem?_eq_some_iff.1 hb).1

theorem Account.draw (h : Account slots waiting w handled) (d : Except Error Draw) (world : σ) :
    Account slots waiting (w.draw d world) handled where
  toOrderly := h.toOrderly.draw d world
  kept := h.kept
  waiting_nodup := h.waiting_nodup
  fresh := h.fresh
  below := h.below
  drawn row hrow v hv := (h.drawn row hrow v hv).draw d world
  covered := h.covered

theorem Account.wait (h : Account slots waiting w handled) {f : Future Id Value}
    (hf : ∀ v, f.Promises v → Drew w slots.length v) :
    Account (slots ++ [none]) (waiting ++ [(slots.length, f)]) w handled where
  toOrderly := h.toOrderly
  kept p hp := by
    obtain ⟨b, hb, ha⟩ := h.kept p hp
    have hlt := (List.getElem?_eq_some_iff.1 hb).1
    exact ⟨b, by rw [List.getElem?_append_left hlt, hb], ha⟩
  waiting_nodup := by
    rw [List.map_append]
    refine List.nodup_append.2 ⟨h.waiting_nodup, by simp, ?_⟩
    intro a ha b hb hab
    obtain ⟨row, hrow, rfl⟩ := List.mem_map.1 ha
    have hlt := h.below row hrow
    have hlast : b = slots.length := by simpa using hb
    omega
  fresh row hrow hi := by
    rcases List.mem_append.1 hrow with hrow | hrow
    · exact h.fresh row hrow hi
    · obtain rfl := List.mem_singleton.1 hrow
      exact absurd (h.handled_lt hi) (Nat.lt_irrefl _)
  below row hrow := by
    rw [List.length_append, List.length_singleton]
    rcases List.mem_append.1 hrow with hrow | hrow
    · exact Nat.lt_succ_of_lt (h.below row hrow)
    · obtain rfl := List.mem_singleton.1 hrow
      exact Nat.lt_succ_self _
  drawn row hrow v hv := by
    rcases List.mem_append.1 hrow with hrow | hrow
    · exact h.drawn row hrow v hv
    · obtain rfl := List.mem_singleton.1 hrow
      exact hf v hv
  covered i hi := by
    rw [List.length_append, List.length_singleton] at hi
    rw [List.map_append, List.mem_append]
    rcases Nat.lt_succ_iff_lt_or_eq.1 hi with hi | rfl
    · rcases h.covered i hi with hc | hc
      · exact .inl hc
      · exact .inr (.inl hc)
    · exact .inr (.inr (by simp))

theorem Account.keep (h : Account slots waiting w handled) {v : Value} {b : β}
    (hv : Drew w slots.length v) (world : σ) :
    Account (slots ++ [some b]) waiting (w.call ⟨v, .ok b⟩ world)
      (handled ++ [(slots.length, ⟨v, .ok b⟩)]) where
  toOrderly := h.toOrderly.call (fun hi => Nat.lt_irrefl _ (h.handled_lt hi)) hv (.ok b) world
  kept p hp := by
    rcases List.mem_append.1 hp with hp | hp
    · obtain ⟨c, hc, ha⟩ := h.kept p hp
      have hlt := (List.getElem?_eq_some_iff.1 hc).1
      exact ⟨c, by rw [List.getElem?_append_left hlt, hc], ha⟩
    · obtain rfl := List.mem_singleton.1 hp
      exact ⟨b, by simp, rfl⟩
  waiting_nodup := h.waiting_nodup
  fresh row hrow hi := by
    rw [List.map_append, List.mem_append] at hi
    rcases hi with hi | hi
    · exact h.fresh row hrow hi
    · have hlt := h.below row hrow
      have hlast : row.1 = slots.length := by simpa using hi
      omega
  below row hrow := by
    rw [List.length_append, List.length_singleton]
    exact Nat.lt_succ_of_lt (h.below row hrow)
  drawn row hrow v hv := (h.drawn row hrow v hv).call _ _
  covered i hi := by
    rw [List.length_append, List.length_singleton] at hi
    rw [List.map_append, List.mem_append]
    rcases Nat.lt_succ_iff_lt_or_eq.1 hi with hi | rfl
    · rcases h.covered i hi with hc | hc
      · exact .inl (.inl hc)
      · exact .inr hc
    · exact .inl (.inr (by simp))

theorem Account.settle (h : Account slots waiting w handled) {i : Nat} {row : Future Id Value}
    (hrow : (i, row) ∈ waiting) {v : Value} (hv : row.Promises v) (b : β) (world : σ) :
    Account (slots.set i (some b)) (Flight.remove i waiting) (w.call ⟨v, .ok b⟩ world)
      (handled ++ [(i, ⟨v, .ok b⟩)]) where
  toOrderly := h.toOrderly.call (h.fresh _ hrow) (h.drawn _ hrow v hv) (.ok b) world
  kept p hp := by
    rcases List.mem_append.1 hp with hp | hp
    · obtain ⟨c, hc, ha⟩ := h.kept p hp
      refine ⟨c, ?_, ha⟩
      have hne : i ≠ p.1 := fun heq => h.fresh _ hrow (heq ▸ List.mem_map_of_mem hp)
      rw [List.getElem?_set_ne hne, hc]
    · obtain rfl := List.mem_singleton.1 hp
      exact ⟨b, List.getElem?_set_self (h.below _ hrow), rfl⟩
  waiting_nodup := h.waiting_nodup.sublist (List.filter_sublist.map _)
  fresh other hother hi := by
    obtain ⟨hmem, hne⟩ := List.mem_filter.1 hother
    rw [List.map_append, List.mem_append] at hi
    rcases hi with hi | hi
    · exact h.fresh other hmem hi
    · have heq : other.1 = i := by simpa using hi
      simp [heq] at hne
  below other hother := by
    rw [List.length_set]
    exact h.below other (List.mem_filter.1 hother).1
  drawn other hother v hv := (h.drawn other (List.mem_filter.1 hother).1 v hv).call _ _
  covered j hj := by
    rw [List.length_set] at hj
    rw [List.map_append, List.mem_append]
    by_cases hji : j = i
    · exact .inl (.inr (by simp [hji]))
    · rcases h.covered j hj with hc | hc
      · exact .inl (.inl hc)
      · obtain ⟨other, hother, rfl⟩ := List.mem_map.1 hc
        exact .inr (List.mem_map_of_mem (List.mem_filter.2 ⟨hother, by simpa using hji⟩))

theorem map_fst_replace (i : Nat) (f : Future Id Value) (rows : List (Nat × Future Id Value)) :
    (Flight.replace i f rows).map Prod.fst = rows.map Prod.fst := by
  rw [Flight.replace, List.map_map]
  apply List.map_congr_left
  intro row _
  by_cases h : row.1 = i <;> simp [h]

theorem mem_replace {i : Nat} {f : Future Id Value} {rows : List (Nat × Future Id Value)}
    {row : Nat × Future Id Value} (h : row ∈ Flight.replace i f rows) :
    row ∈ rows ∨ row = (i, f) := by
  obtain ⟨other, hother, rfl⟩ := List.mem_map.1 h
  by_cases hi : other.1 = i
  · exact .inr (if_pos hi)
  · rw [if_neg hi]
    exact .inl hother

theorem Account.replace (h : Account slots waiting w handled) {i : Nat} {row row' : Future Id Value}
    (hrow : (i, row) ∈ waiting) (hsame : ∀ v, row'.Promises v → row.Promises v) :
    Account slots (Flight.replace i row' waiting) w handled where
  toOrderly := h.toOrderly
  kept := h.kept
  waiting_nodup := by
    rw [map_fst_replace]
    exact h.waiting_nodup
  fresh other hother := by
    rcases mem_replace hother with hother | rfl
    · exact h.fresh other hother
    · exact h.fresh (i, row) hrow
  below other hother := by
    rcases mem_replace hother with hother | rfl
    · exact h.below other hother
    · exact h.below (i, row) hrow
  drawn other hother v hv := by
    rcases mem_replace hother with hother | rfl
    · exact h.drawn other hother v hv
    · exact h.drawn (i, row) hrow v (hsame v hv)
  covered := by
    rw [map_fst_replace]
    exact h.covered

theorem exists_eq_map_some {xs : List (Option β)} (h : ∀ x ∈ xs, ∃ b, x = some b) :
    ∃ bs : List β, xs = bs.map some := by
  induction xs with
  | nil => exact ⟨[], rfl⟩
  | cons x xs ih =>
    obtain ⟨b, rfl⟩ := h x List.mem_cons_self
    obtain ⟨bs, rfl⟩ := ih fun y hy => h y (List.mem_cons_of_mem _ hy)
    exact ⟨b :: bs, rfl⟩

/-- When no row waits any more, every slot is filled. -/
theorem Account.complete (h : Account slots [] w handled) :
    Complete slots.length (slots.filterMap id) handled := by
  have hhandled : ∀ i < slots.length, i ∈ handled.map Prod.fst := by
    intro i hi
    simpa using h.covered i hi
  have hfilled : ∀ x ∈ slots, ∃ b, x = some b := by
    intro x hx
    obtain ⟨i, hi, rfl⟩ := List.mem_iff_getElem.1 hx
    obtain ⟨p, hp, rfl⟩ := List.mem_map.1 (hhandled i hi)
    obtain ⟨b, hb, -⟩ := h.kept p hp
    exact ⟨b, (List.getElem?_eq_some_iff.1 hb).2⟩
  obtain ⟨results, rfl⟩ := exists_eq_map_some hfilled
  have hresults : (results.map some).filterMap id = results := by simp
  rw [hresults]
  refine ⟨(List.length_map some).symm, ?_, ?_⟩
  · apply (List.perm_ext_iff_of_nodup h.nodup List.nodup_range).2
    intro i
    rw [List.mem_range]
    exact ⟨h.handled_lt, hhandled i⟩
  · intro p hp
    obtain ⟨b, hb, ha⟩ := h.kept p hp
    exact ⟨b, by simpa using hb, ha⟩

end GenExpr.Iterate
