import GenExpr.Kind.Custom
import GenExpr.Proofs.Node.Numbering
import Mathlib.Data.List.Nodup

/-!
# The order in which leaves are drawn

Without choices a draw draws the leaves of its source from left to right, and those of a repetition so
often, one repetition after another. How often each leaf is drawn is the product of the counts of the
repetitions around it. Where there are choices, each draws one index and the source of that index, and
leaves the others alone.
-/

namespace GenExpr

namespace Source

mutual

/-- Whether a source or something that it is made of is of a kind. -/
def anyPart (kind : Source → Bool) : Source → Bool
  | text inner => kind (text inner) || anyPart kind inner
  | oneOf first others => kind (oneOf first others) || (anyPart kind first || anyPartOfAll kind others)
  | array items => kind (array items) || anyPartOfAll kind items
  | times count inner => kind (times count inner) || anyPart kind inner
  | adapted inner f => kind (adapted inner f) || anyPart kind inner
  | src => kind src

def anyPartOfAll (kind : Source → Bool) : List Source → Bool
  | [] => false
  | src :: rest => anyPart kind src || anyPartOfAll kind rest

end

theorem anyPartOfAll_eq_false_iff {kind : Source → Bool} {items : List Source} :
    anyPartOfAll kind items = false ↔ ∀ src ∈ items, src.anyPart kind = false := by
  induction items with
  | nil => simp [anyPartOfAll]
  | cons src rest ih => rw [anyPartOfAll, Bool.or_eq_false_iff, ih, List.forall_mem_cons]

theorem anyPartOfAll_replicate {kind : Source → Bool} {count : Nat} {inner : Source}
    (h : (times count inner).anyPart kind = false) :
    anyPartOfAll kind (List.replicate count inner) = false := by
  rw [anyPart, Bool.or_eq_false_iff] at h
  rw [anyPartOfAll_eq_false_iff]
  intro src hsrc
  rw [List.eq_of_mem_replicate hsrc]
  exact h.2

def isChoice : Source → Bool
  | oneOf _ _ => true
  | _ => false

def isAdapted : Source → Bool
  | adapted _ _ => true
  | _ => false

/-- Whether there is a choice among the parts of a source. -/
def chooses (src : Source) : Bool := src.anyPart isChoice

/-- Whether a function is handed draws somewhere among the parts of a source. -/
def adapts (src : Source) : Bool := src.anyPart isAdapted

mutual

/-- The leaves that a draw of a source without choices draws, in order. -/
def order : Source → List Nat
  | text inner => order inner
  | array items => orderOfAll items
  | times count inner => (List.replicate count (order inner)).flatten
  | leaf id _ => [id]
  | adapted inner _ => order inner
  | _ => []

def orderOfAll : List Source → List Nat
  | [] => []
  | s :: rest => order s ++ orderOfAll rest

end

mutual

/-- Each leaf of a source with the counts of the repetitions around it, from the outermost on. -/
def paths : Source → List (Nat × List Nat)
  | text inner => paths inner
  | oneOf first others => paths first ++ pathsOfAll others
  | array items => pathsOfAll items
  | times count inner => (paths inner).map fun p => (p.1, count :: p.2)
  | leaf id _ => [(id, [])]
  | adapted inner _ => paths inner
  | _ => []

def pathsOfAll : List Source → List (Nat × List Nat)
  | [] => []
  | s :: rest => paths s ++ pathsOfAll rest

end

mutual

theorem map_fst_paths : ∀ src : Source, src.paths.map Prod.fst = src.ids
  | text inner => map_fst_paths inner
  | oneOf first others => by
    rw [paths, ids, List.map_append, map_fst_paths first, map_fst_pathsOfAll others]
  | array items => map_fst_pathsOfAll items
  | times count inner => by
    rw [paths, ids, List.map_map, ← map_fst_paths inner]
    rfl
  | leaf _ _ => rfl
  | adapted inner _ => map_fst_paths inner
  | letters _ _ | number _ _ | int _ | char _ | boolean _ | literal _ | entry _ => rfl

theorem map_fst_pathsOfAll : ∀ items : List Source, (pathsOfAll items).map Prod.fst = idsOfAll items
  | [] => rfl
  | src :: rest => by
    rw [pathsOfAll, idsOfAll, List.map_append, map_fst_paths src, map_fst_pathsOfAll rest]

end

theorem mem_ids_of_mem_paths {src : Source} {id : Nat} {path : List Nat} (h : (id, path) ∈ src.paths) :
    id ∈ src.ids := by
  rw [← map_fst_paths]
  exact List.mem_map_of_mem h

theorem mem_idsOfAll_of_mem_pathsOfAll {items : List Source} {id : Nat} {path : List Nat}
    (h : (id, path) ∈ pathsOfAll items) : id ∈ idsOfAll items := by
  rw [← map_fst_pathsOfAll]
  exact List.mem_map_of_mem h

theorem orderOfAll_replicate (count : Nat) (inner : Source) :
    orderOfAll (List.replicate count inner) = (List.replicate count inner.order).flatten := by
  induction count with
  | zero => rfl
  | succ count ih => rw [List.replicate_succ, orderOfAll, ih, List.replicate_succ, List.flatten_cons]

mutual

/-- A draw without choices that succeeds draws every leaf in its order. -/
theorem Performs.drawn_eq {src : Source} {s s' : DrawState} {acts : List Act} {r : Except Error Draw} :
    Performs src s acts r s' → r.isOk = true → src.chooses = false → Act.drawn acts = src.order
  | .basic simple _, _, _ => by
    cases src with
    | text | oneOf | array | times | leaf | adapted => cases simple
    | _ => rfl
  | .leaf _, _, _ => rfl
  | .text performed, hok, hno => performed.drawn_eq (by rwa [Except.isOk_map] at hok) hno
  | .oneOf _ _, _, hno => by cases hno
  | .array performed, hok, hno => performed.drawn_eq (by rwa [Except.isOk_map] at hok) hno
  | .times performed, hok, hno => by
    rw [Except.isOk_map] at hok
    rw [performed.drawn_eq hok (anyPartOfAll_replicate hno), orderOfAll_replicate, order]
  | .adapted performed, hok, hno => performed.drawn_eq (Except.isOk_of_isOk_bind hok) hno

theorem PerformsAll.drawn_eq {items : List Source} {s s' : DrawState} {acts : List Act}
    {r : Except Error (List Draw)} : PerformsAll items s acts r s' → r.isOk = true →
      anyPartOfAll isChoice items = false → Act.drawn acts = orderOfAll items
  | .nil _, _, _ => rfl
  | .stop _, hok, _ => by cases hok
  | .cons performed more, hok, hno => by
    rw [anyPartOfAll, Bool.or_eq_false_iff] at hno
    rw [Except.isOk_map] at hok
    rw [Act.drawn_append, performed.drawn_eq rfl hno.1, more.drawn_eq hok hno.2, orderOfAll]

end

mutual

theorem order_subset_ids : ∀ src : Source, src.order ⊆ src.ids
  | text inner => order_subset_ids inner
  | oneOf _ _ => List.nil_subset _
  | array items => orderOfAll_subset_idsOfAll items
  | times count inner => by
    intro id hid
    obtain ⟨ids, hids, hid⟩ := List.mem_flatten.1 hid
    rw [List.eq_of_mem_replicate hids] at hid
    exact order_subset_ids inner hid
  | leaf _ _ => List.Subset.refl _
  | adapted inner _ => order_subset_ids inner
  | letters _ _ | number _ _ | int _ | char _ | boolean _ | literal _ | entry _ => List.nil_subset _

theorem orderOfAll_subset_idsOfAll : ∀ items : List Source, orderOfAll items ⊆ idsOfAll items
  | [] => List.Subset.refl _
  | src :: rest => List.append_subset.2
    ⟨List.subset_append_of_subset_left _ (order_subset_ids src),
      List.subset_append_of_subset_right _ (orderOfAll_subset_idsOfAll rest)⟩

end

theorem count_flatten_replicate (count id : Nat) (l : List Nat) :
    (List.replicate count l).flatten.count id = count * l.count id := by
  rw [List.count_flatten, List.map_replicate, List.sum_replicate_nat]

mutual

/-- In the order of a source without choices each leaf stands so often as the product of the counts around
it says. -/
theorem count_order : ∀ src : Source, src.chooses = false → src.ids.Nodup →
    ∀ id path, (id, path) ∈ src.paths → src.order.count id = path.prod
  | text inner, hno, hids, id, path, h => count_order inner hno hids id path h
  | oneOf _ _, hno, _, _, _, _ => by cases hno
  | array items, hno, hids, id, path, h => count_orderOfAll items hno hids id path h
  | times count inner, hno, hids, id, path, h => by
    obtain ⟨p, hmem, heq⟩ := List.mem_map.1 h
    obtain ⟨rfl, rfl⟩ := Prod.mk.inj heq
    rw [order, count_flatten_replicate, count_order inner hno hids p.1 p.2 hmem, List.prod_cons]
  | leaf _ _, _, _, id, path, h => by
    cases List.mem_singleton.1 h
    exact List.count_singleton_self
  | adapted inner _, hno, hids, id, path, h => count_order inner hno hids id path h
  | letters _ _, _, _, _, _, h | number _ _, _, _, _, _, h | int _, _, _, _, _, h | char _, _, _, _, _, h
  | boolean _, _, _, _, _, h | literal _, _, _, _, _, h | entry _, _, _, _, _, h => by cases h

theorem count_orderOfAll : ∀ items : List Source, anyPartOfAll isChoice items = false → (idsOfAll items).Nodup →
    ∀ id path, (id, path) ∈ pathsOfAll items → (orderOfAll items).count id = path.prod
  | [], _, _, _, _, h => by cases h
  | src :: rest, hno, hids, id, path, h => by
    rw [anyPartOfAll, Bool.or_eq_false_iff] at hno
    obtain ⟨hsrc, hrest, hdisjoint⟩ := List.nodup_append'.1 hids
    rw [orderOfAll, List.count_append]
    rcases List.mem_append.1 h with h | h
    · have hother : id ∉ orderOfAll rest := fun hid =>
        hdisjoint (mem_ids_of_mem_paths h) (orderOfAll_subset_idsOfAll rest hid)
      rw [count_order src hno.1 hsrc id path h, List.count_eq_zero_of_not_mem hother, Nat.add_zero]
    · have hother : id ∉ src.order := fun hid =>
        hdisjoint (order_subset_ids src hid) (mem_idsOfAll_of_mem_pathsOfAll h)
      rw [count_orderOfAll rest hno.2 hrest id path h, List.count_eq_zero_of_not_mem hother, Nat.zero_add]

end

/-- A source is among the parts of another, or the other itself. -/
inductive Has : Source → Source → Prop
  | self (src : Source) : Has src src
  | text {inner src : Source} (part : Has inner src) : Has (.text inner) src
  | oneOf {first src child : Source} {others : List Source} (mem : child ∈ first :: others)
      (part : Has child src) : Has (.oneOf first others) src
  | array {src item : Source} {items : List Source} (mem : item ∈ items) (part : Has item src) :
      Has (.array items) src
  | times {inner src : Source} (count : Nat) (part : Has inner src) : Has (.times count inner) src
  | adapted {inner src : Source} (f : Value → Except Error Value) (part : Has inner src) :
      Has (.adapted inner f) src

theorem idsOfAll_eq_flatMap (items : List Source) : idsOfAll items = items.flatMap ids := by
  induction items with
  | nil => rfl
  | cons src rest ih => rw [idsOfAll, ih, List.flatMap_cons]

theorem idsOfAll_append (items others : List Source) :
    idsOfAll (items ++ others) = idsOfAll items ++ idsOfAll others := by
  rw [idsOfAll_eq_flatMap, idsOfAll_eq_flatMap, idsOfAll_eq_flatMap, List.flatMap_append]

theorem Has.nodup {src part : Source} (h : src.Has part) (hids : src.ids.Nodup) : part.ids.Nodup := by
  induction h with
  | self => exact hids
  | text _ ih => exact ih hids
  | @oneOf first _ _ others mem _ ih =>
    have hall : (idsOfAll (first :: others)).Nodup := hids
    rw [idsOfAll_eq_flatMap, List.nodup_flatMap] at hall
    exact ih (hall.1 _ mem)
  | array mem _ ih =>
    rw [ids, idsOfAll_eq_flatMap, List.nodup_flatMap] at hids
    exact ih (hids.1 _ mem)
  | times _ _ ih => exact ih hids
  | adapted _ _ ih => exact ih hids

theorem not_mem_ids_of_ne {items : List Source} (hids : (idsOfAll items).Nodup) {i j : Fin items.length}
    (hij : i ≠ j) {id : Nat} (hid : id ∈ (items.get i).ids) : id ∉ (items.get j).ids := by
  rw [idsOfAll_eq_flatMap, List.nodup_flatMap, List.pairwise_iff_get] at hids
  intro hid'
  rcases Nat.lt_or_gt_of_ne (Fin.val_ne_of_ne hij) with hlt | hgt
  · exact hids.2 i j hlt hid hid'
  · exact hids.2 j i hgt hid' hid

/-- A draw of a choice takes one index and makes one draw of the source of that index. -/
theorem exists_choice (first : Source) (others : List Source) (s : DrawState) :
    ∃ (i : Fin (others.length + 1)) (t : DrawState) (acts : List Act) (r : Except Error Draw)
      (s' : DrawState),
      Returns (DrawM.sample (Sampling.index (others.length + 1) (Nat.succ_pos _))) s i t ∧
      t.tally = s.tally ∧ ((first :: others).get i).Performs t acts r s' ∧
      (oneOf first others).Performs s (.chose i :: acts) r s' := by
  have hindex := returns_sample (Sampling.index (others.length + 1) (Nat.succ_pos _)) s
  obtain ⟨acts, r, s', hperforms⟩ := exists_performs ((first :: others).get _) _
  exact ⟨_, _, acts, r, s', hindex, rfl, hperforms, .oneOf hindex hperforms⟩

end Source

namespace Node

variable {r : Registry} {o : Options} {e : String} {b b' : BuildState} {n : Node}

/-- Every draw of a node is told by its acts, which account for what it changes. Without choices, a draw
that succeeds draws each leaf so often as the counts of the repetitions around it multiply to, from left to
right and one repetition after another, whatever is there or pending. A choice, wherever it stands and in
whatever state it is drawn, takes one index and draws the source of that index once, and the leaves of the
others stay as they are. -/
theorem leaves_drawn_in_order (built : (build r o e).run.run b = (.ok n, b')) :
    n.source.ids.Nodup ∧ n.source.paths.map Prod.fst = n.source.ids ∧
    (∀ s r s', Ends n.source.draw s r s' ↔ ∃ acts, n.source.Performs s acts r s') ∧
    (∀ s acts r s', n.source.Performs s acts r s' → Act.Account acts s s' ∧
      ∀ acts' r' t', n.source.Performs s acts' r' t' → acts = acts') ∧
    (n.source.chooses = false → ∀ s acts d s', n.source.Performs s acts (.ok d) s' →
      Act.drawn acts = n.source.order ∧
      (∀ id path, (id, path) ∈ n.source.paths → s'.tally id = s.tally id + path.prod) ∧
      ∀ id ∉ n.source.ids, s'.tally id = s.tally id) ∧
    ∀ first others, n.source.Has (.oneOf first others) → ∀ s,
      ∃ (i : Fin (others.length + 1)) (t : DrawState) (acts : List Act) (r : Except Error Draw)
        (s' : DrawState),
        Returns (DrawM.sample (Sampling.index (others.length + 1) (Nat.succ_pos _))) s i t ∧
        ((first :: others).get i).Performs t acts r s' ∧
        (Source.oneOf first others).Performs s (.chose i :: acts) r s' ∧
        ∀ j ≠ i, ∀ id ∈ ((first :: others).get j).ids, s'.tally id = s.tally id := by
  have hids : n.source.ids.Nodup := (numbers_build r o e b n b' built).nodup
  refine ⟨hids, Source.map_fst_paths _, fun _ _ _ => Source.ends_draw_iff,
    fun _ _ _ _ h => ⟨h.account, fun _ _ _ h' => h.acts_unique h'⟩, ?_, ?_⟩
  · intro hno s acts d s' h
    have hdrawn : Act.drawn acts = n.source.order := h.drawn_eq rfl hno
    refine ⟨hdrawn, ?_, fun id hid => h.tally_eq hid⟩
    intro id path hpath
    rw [h.account.tally, hdrawn, Source.count_order n.source hno hids id path hpath]
  · intro first others hhas s
    obtain ⟨i, t, acts, r, s', hindex, htally, hperforms, hchoice⟩ :=
      Source.exists_choice first others s
    refine ⟨i, t, acts, r, s', hindex, hperforms, hchoice, ?_⟩
    intro j hj id hid
    have hall : (Source.idsOfAll (first :: others)).Nodup := hhas.nodup hids
    rw [hperforms.tally_eq (Source.not_mem_ids_of_ne hall hj hid), htally]

theorem nested_repetitions_draw_in_order :
    let r := Registry.standard.register "tick"
      (.scripted "tick" true [.count, .gated (.ok .null), .settled (.error (.raised "late"))])
    let e := "array:tick:(2*(array:(string:tick):(3*(tick)))):(0*(tick))"
    let s : DrawState := ⟨⟨fun _ => 7, 0⟩, 0, fun _ => 4⟩
    ∃ n b', (build r .standard e).run.run ⟨[], 0⟩ = (.ok n, b') ∧ n.source.chooses = false ∧
      n.source.paths = [(0, []), (1, [2]), (2, [2, 3]), (3, [0])] ∧
      ∃ acts d s', n.source.Performs s acts (.ok d) s' ∧
        Act.drawn acts = [0, 1, 2, 2, 2, 1, 2, 2, 2] ∧
        s'.tally 0 = 5 ∧ s'.tally 1 = 6 ∧ s'.tally 2 = 10 ∧ s'.tally 3 = 4 := by
  intro r e s
  have hnode : ((build r .standard e).run.run ⟨[], 0⟩).run.1.toOption.map (fun n : Node =>
      (n.source.chooses, n.source.order, n.source.paths, (n.source.draw.run.run s).run.1.isOk)) =
        some (false, [0, 1, 2, 2, 2, 1, 2, 2, 2], [(0, []), (1, [2]), (2, [2, 3]), (3, [0])], true) := by
    decide +kernel
  obtain ⟨n, b', built, hn⟩ := exists_returns_of_toOption hnode
  simp only [Prod.mk.injEq] at hn
  obtain ⟨hno, horder, hpaths, hdraw⟩ := hn
  obtain ⟨d, s', hreturns⟩ := exists_eq_ok_of_isOk hdraw
  obtain ⟨-, -, hends, -, hcounts, -⟩ := leaves_drawn_in_order built
  obtain ⟨acts, hacts⟩ := (hends s (.ok d) s').1 hreturns
  obtain ⟨hdrawn, htally, -⟩ := hcounts hno s acts d s' hacts
  rw [hpaths] at htally
  refine ⟨n, b', built, hno, hpaths, acts, d, s', hacts, by rw [hdrawn, horder], ?_, ?_, ?_, ?_⟩
  · exact htally 0 [] (by decide)
  · exact htally 1 [2] (by decide)
  · exact htally 2 [2, 3] (by decide)
  · exact htally 3 [0] (by decide)

end Node

end GenExpr
