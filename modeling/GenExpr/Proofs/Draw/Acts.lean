import GenExpr.Proofs.Draw.Index
import GenExpr.Proofs.Draw.Suspension

/-!
# What a draw does

A draw does its work act by act: sources that draw by themselves are sampled, indices are chosen and leaves
are drawn. `Performs` tells the acts of a draw in order, along with what the draw comes to, for draws that
succeed and for draws that fail. It follows how sources are put together, and covers every draw; the
states before and after a draw differ by what its acts account for.
-/

namespace GenExpr

inductive Act where
  /-- A source that draws by itself is sampled. -/
  | sampled
  /-- One source is chosen out of several, by its index. -/
  | chose (index : Nat)
  /-- A leaf is drawn. -/
  | drew (id : Nat) (what : LeafDraw)

def Act.leaf? : Act → Option Nat
  | drew id _ => some id
  | _ => none

/-- The leaves that are drawn, in order. -/
def Act.drawn (acts : List Act) : List Nat := acts.filterMap leaf?

theorem Act.drawn_append (acts others : List Act) :
    drawn (acts ++ others) = drawn acts ++ drawn others := List.filterMap_append

section Ends

variable {σ α β : Type} {s s' : σ}

theorem ends_bind_of_returns {x : ExceptT Error (StateM σ) α} {f : α → ExceptT Error (StateM σ) β} {a : α}
    {t : σ} (h : Returns x s a t) {r : Except Error β} :
    Ends (x >>= f) s r s' ↔ Ends (f a) t r s' := by
  rw [Ends, run_run_bind, h]
  rfl

theorem ends_bind_of_raises {x : ExceptT Error (StateM σ) α} (f : α → ExceptT Error (StateM σ) β)
    {e : Error} (h : Raises x s e s') : Ends (x >>= f) s (.error e) s' :=
  ends_bind.2 (.inl ⟨e, h, rfl⟩)

/-- Where the value of an action is handed to a function that can fail, its error is the result. -/
theorem ends_bind_lift {x : ExceptT Error (StateM σ) α} {r : Except Error α} (h : Ends x s r s')
    (f : α → Except Error β) :
    Ends (x >>= fun a => (liftM (f a) : ExceptT Error (StateM σ) β)) s (r.bind f) s' := by
  cases r with
  | error e => exact ends_bind_of_raises _ h
  | ok a =>
    exact (ends_bind_of_returns h).2 (ends_lift.2 ⟨rfl, rfl⟩)

end Ends

namespace DrawM

theorem ends_sequence_nil {α : Type} (s : DrawState) : Ends (sequence ([] : List (DrawM α))) s (.ok []) s :=
  rfl

variable {α : Type} {action : DrawM α} {rest : List (DrawM α)} {s t s' : DrawState}

theorem ends_sequence_stop {e : Error} (h : Raises action s e s') :
    Ends (sequence (action :: rest)) s (.error e) s' :=
  ends_bind_of_raises _ h

theorem ends_sequence_cons {a : α} {r : Except Error (List α)} (h : Returns action s a t)
    (hrest : Ends (sequence rest) t r s') :
    Ends (sequence (action :: rest)) s (r.map (a :: ·)) s' :=
  (ends_bind_of_returns h).2 (ends_map.2 ⟨r, hrest, rfl⟩)

/-- Repeating an action is performing a list of nothing else. -/
theorem repeated_eq_sequence (action : DrawM α) (n : Nat) :
    repeated action n = sequence (List.replicate n action) := by
  induction n with
  | zero => rfl
  | succ n ih => rw [repeated, ih, List.replicate_succ, sequence]

end DrawM

namespace Source

/-- A source that draws by itself, without nested sources and leaves. -/
def isBasic : Source → Bool
  | letters _ _ | number _ _ | int _ | char _ | boolean _ | literal _ | entry _ => true
  | _ => false

mutual

/-- A draw performs acts in order, comes to a draw or an error, and leaves a state behind. -/
inductive Performs : Source → DrawState → List Act → Except Error Draw → DrawState → Prop
  | basic {src : Source} {s s' : DrawState} {r : Except Error Draw} (simple : src.isBasic = true)
      (sampled : Ends src.draw s r s') : Performs src s [.sampled] r s'
  | leaf {id : Nat} {l : Leaf} {s s' : DrawState} {r : Except Error Draw}
      (drawn : Ends (l.drawAs id) s r s') :
      Performs (.leaf id l) s [.drew id (l.draw (s.tally id))] r s'
  | text {inner : Source} {s s' : DrawState} {acts : List Act} {r : Except Error Draw}
      (performed : Performs inner s acts r s') :
      Performs (.text inner) s acts (r.map fun d => d.map fun v => .str v.text) s'
  | oneOf {first : Source} {others : List Source} {s t s' : DrawState} {i : Fin (others.length + 1)}
      {acts : List Act} {r : Except Error Draw}
      (chosen : Returns (DrawM.sample (Sampling.index (others.length + 1) (Nat.succ_pos _))) s i t)
      (performed : Performs ((first :: others).get i) t acts r s') :
      Performs (.oneOf first others) s (.chose i :: acts) r s'
  | array {items : List Source} {s s' : DrawState} {acts : List Act} {r : Except Error (List Draw)}
      (performed : PerformsAll items s acts r s') :
      Performs (.array items) s acts (r.map (.all .array)) s'
  | times {count : Nat} {inner : Source} {s s' : DrawState} {acts : List Act}
      {r : Except Error (List Draw)} (performed : PerformsAll (List.replicate count inner) s acts r s') :
      Performs (.times count inner) s acts (r.map (.all Value.concat)) s'
  | adapted {inner : Source} {f : Value → Except Error Value} {s s' : DrawState} {acts : List Act}
      {r : Except Error Draw} (performed : Performs inner s acts r s') :
      Performs (.adapted inner f) s acts (r.bind fun d => Deferred.andThen (m := Id) f d) s'

/-- Draws are made one after another, up to the first that fails. -/
inductive PerformsAll :
    List Source → DrawState → List Act → Except Error (List Draw) → DrawState → Prop
  | nil (s : DrawState) : PerformsAll [] s [] (.ok []) s
  | stop {src : Source} {rest : List Source} {s s' : DrawState} {acts : List Act} {e : Error}
      (failed : Performs src s acts (.error e) s') : PerformsAll (src :: rest) s acts (.error e) s'
  | cons {src : Source} {rest : List Source} {s t s' : DrawState} {acts others : List Act} {d : Draw}
      {r : Except Error (List Draw)} (performed : Performs src s acts (.ok d) t)
      (more : PerformsAll rest t others r s') :
      PerformsAll (src :: rest) s (acts ++ others) (r.map (d :: ·)) s'

end

theorem draw_adapted (inner : Source) (f : Value → Except Error Value) : (adapted inner f).draw =
    (do
      let d ← inner.draw
      liftM (Deferred.andThen (m := Id) f d : Except Error Draw)) := by
  rw [draw]
  congr 1
  funext d
  cases Deferred.andThen (m := Id) f d <;> rfl

theorem draw_times (count : Nat) (inner : Source) : (times count inner).draw =
    (do return .all Value.concat (← DrawM.sequence (draws (List.replicate count inner)))) := by
  rw [draw, DrawM.repeated_eq_sequence, draws_eq_map, List.map_replicate]

mutual

theorem Performs.ends {src : Source} {s s' : DrawState} {acts : List Act} {r : Except Error Draw} :
    Performs src s acts r s' → Ends src.draw s r s'
  | .basic _ sampled => sampled
  | .leaf drawn => by
    rw [draw]
    exact drawn
  | .text performed => by
    rw [draw]
    exact ends_map.2 ⟨_, performed.ends, rfl⟩
  | .oneOf chosen performed => by
    rw [draw_oneOf]
    exact (ends_bind_of_returns chosen).2 performed.ends
  | .array performed => by
    rw [draw]
    exact ends_map.2 ⟨_, performed.ends, rfl⟩
  | .times performed => by
    rw [draw_times]
    exact ends_map.2 ⟨_, performed.ends, rfl⟩
  | .adapted performed => by
    rw [draw_adapted]
    exact ends_bind_lift performed.ends _

theorem PerformsAll.ends {items : List Source} {s s' : DrawState} {acts : List Act}
    {r : Except Error (List Draw)} :
    PerformsAll items s acts r s' → Ends (DrawM.sequence (draws items)) s r s'
  | .nil s => DrawM.ends_sequence_nil s
  | .stop failed => DrawM.ends_sequence_stop failed.ends
  | .cons performed more => DrawM.ends_sequence_cons performed.ends more.ends

end

theorem exists_performsAll {items : List Source}
    (h : ∀ src ∈ items, ∀ s, ∃ acts r s', Performs src s acts r s') (s : DrawState) :
    ∃ acts r s', PerformsAll items s acts r s' := by
  induction items generalizing s with
  | nil => exact ⟨[], .ok [], s, .nil s⟩
  | cons src rest ih =>
    obtain ⟨hsrc, hrest⟩ := List.forall_mem_cons.1 h
    obtain ⟨acts, e | d, t, hacts⟩ := hsrc s
    · exact ⟨acts, .error e, t, .stop hacts⟩
    · obtain ⟨others, r, s', hothers⟩ := ih hrest t
      exact ⟨_, _, s', .cons hacts hothers⟩

mutual

theorem exists_performs : ∀ (src : Source) (s : DrawState), ∃ acts r s', Performs src s acts r s'
  | .leaf id l, s => ⟨_, _, _, .leaf rfl⟩
  | .text inner, s => by
    obtain ⟨acts, r, s', h⟩ := exists_performs inner s
    exact ⟨acts, _, s', .text h⟩
  | .oneOf first others, s => by
    have hindex := returns_sample (Sampling.index (others.length + 1) (Nat.succ_pos _)) s
    have hall := List.forall_mem_cons.2 ⟨exists_performs first, exists_performs_of_mem others⟩
    obtain ⟨acts, r, s', h⟩ := hall _ (List.get_mem (first :: others) _) _
    exact ⟨_, r, s', .oneOf hindex h⟩
  | .array items, s => by
    obtain ⟨acts, r, s', h⟩ := exists_performsAll (exists_performs_of_mem items) s
    exact ⟨acts, _, s', .array h⟩
  | .times count inner, s => by
    have hinner := exists_performs inner
    have hall : ∀ src ∈ List.replicate count inner, ∀ s, ∃ acts r s', Performs src s acts r s' := by
      intro src hsrc
      rwa [List.eq_of_mem_replicate hsrc]
    obtain ⟨acts, r, s', h⟩ := exists_performsAll hall s
    exact ⟨acts, _, s', .times h⟩
  | .adapted inner f, s => by
    obtain ⟨acts, r, s', h⟩ := exists_performs inner s
    exact ⟨acts, _, s', .adapted h⟩
  | .letters _ _, _ | .number _ _, _ | .int _, _ | .char _, _ | .boolean _, _ | .literal _, _
  | .entry _, _ => ⟨_, _, _, .basic rfl rfl⟩

theorem exists_performs_of_mem : ∀ (items : List Source), ∀ src ∈ items,
    ∀ s, ∃ acts r s', Performs src s acts r s'
  | [] => List.forall_mem_nil _
  | src :: rest => List.forall_mem_cons.2 ⟨exists_performs src, exists_performs_of_mem rest⟩

end

/-- What a draw comes to is what it performs acts to come to. -/
theorem ends_draw_iff {src : Source} {s s' : DrawState} {r : Except Error Draw} :
    Ends src.draw s r s' ↔ ∃ acts, Performs src s acts r s' := by
  constructor
  · intro h
    obtain ⟨acts, q, t, hacts⟩ := exists_performs src s
    obtain ⟨rfl, rfl⟩ := h.unique hacts.ends
    exact ⟨acts, hacts⟩
  · intro h
    obtain ⟨acts, hacts⟩ := h
    exact hacts.ends

mutual

/-- The leaves of a source by their numbers, from left to right. -/
def ids : Source → List Nat
  | text inner => ids inner
  | oneOf first others => ids first ++ idsOfAll others
  | array items => idsOfAll items
  | times _ inner => ids inner
  | leaf id _ => [id]
  | adapted inner _ => ids inner
  | _ => []

def idsOfAll : List Source → List Nat
  | [] => []
  | s :: rest => ids s ++ idsOfAll rest

end

theorem mem_idsOfAll {id : Nat} {items : List Source} : id ∈ idsOfAll items ↔ ∃ src ∈ items, id ∈ src.ids := by
  induction items with
  | nil => simp [idsOfAll]
  | cons src rest ih => rw [idsOfAll, List.mem_append, ih, List.exists_mem_cons_iff]

mutual

theorem Performs.acts_unique {src : Source} {s s' t' : DrawState} {acts acts' : List Act}
    {r q : Except Error Draw} : Performs src s acts r s' → Performs src s acts' q t' → acts = acts'
  | .basic simple _, h => by
    cases h with
    | basic => rfl
    | _ => cases simple
  | .leaf _, h => by
    cases h with
    | basic simple => cases simple
    | leaf => rfl
  | .text performed, h => by
    cases h with
    | basic simple => cases simple
    | text performed' => exact performed.acts_unique performed'
  | .oneOf chosen performed, h => by
    cases h with
    | basic simple => cases simple
    | oneOf chosen' performed' =>
      obtain ⟨rfl, rfl⟩ := chosen.unique chosen'
      rw [performed.acts_unique performed']
  | .array performed, h => by
    cases h with
    | basic simple => cases simple
    | array performed' => exact performed.acts_unique performed'
  | .times performed, h => by
    cases h with
    | basic simple => cases simple
    | times performed' => exact performed.acts_unique performed'
  | .adapted performed, h => by
    cases h with
    | basic simple => cases simple
    | adapted performed' => exact performed.acts_unique performed'

theorem PerformsAll.acts_unique {items : List Source} {s s' t' : DrawState} {acts acts' : List Act}
    {r q : Except Error (List Draw)} :
    PerformsAll items s acts r s' → PerformsAll items s acts' q t' → acts = acts'
  | .nil s, h => by
    cases h
    rfl
  | .stop failed, h => by
    cases h with
    | stop failed' => exact failed.acts_unique failed'
    | cons performed' => cases (failed.ends.unique performed'.ends).1
  | .cons performed more, h => by
    cases h with
    | stop failed' => cases (performed.ends.unique failed'.ends).1
    | cons performed' more' =>
      obtain ⟨-, rfl⟩ := performed.ends.unique performed'.ends
      rw [performed.acts_unique performed', more.acts_unique more']

end

end Source

/-- The states before and after a draw differ by its acts: each leaf has been drawn once more for each time
that it is among them, and words have been taken only if a source was sampled or an index chosen. -/
structure Act.Account (acts : List Act) (s s' : DrawState) : Prop where
  tally : ∀ id, s'.tally id = s.tally id + (drawn acts).count id
  entropy : (∀ a ∈ acts, a.leaf?.isSome = true) → s'.entropy = s.entropy

namespace Act.Account

variable {acts others : List Act} {s t s' : DrawState}

theorem nil (s : DrawState) : Account [] s s := ⟨fun _ => rfl, fun _ => rfl⟩

theorem append (h : Account acts s t) (h' : Account others t s') : Account (acts ++ others) s s' where
  tally id := by
    rw [h'.tally, h.tally, drawn_append, List.count_append, Nat.add_assoc]
  entropy hleaves := by
    rw [List.forall_mem_append] at hleaves
    rw [h'.entropy hleaves.2, h.entropy hleaves.1]

/-- An act other than the draw of a leaf takes words at most. -/
theorem of_words {a : Act} (ha : a.leaf? = none) (entropy : Entropy) :
    Account [a] s { s with entropy := entropy } where
  tally id := by rw [drawn, List.filterMap_cons_none ha, List.filterMap_nil, List.count_nil, Nat.add_zero]
  entropy h := by
    have hleaf := h a List.mem_cons_self
    rw [ha] at hleaf
    cases hleaf

end Act.Account

/-- What the draw of a leaf comes to. A future that waits does so for a gate of its own. -/
inductive LeafDraw.Gives : LeafDraw → Except Error Draw → Prop
  | ready (v : Value) : Gives (.ready v) (.ok (.ready v))
  | fail (e : Error) : Gives (.fail e) (.error e)
  | settled (outcome : Except Error Value) : Gives (.settled outcome) (.ok (.pending (.settled outcome)))
  | gated (outcome : Except Error Value) (gate : Nat) :
      Gives (.gated outcome) (.ok (.pending (.gate gate outcome)))

section Leaf

variable {id : Nat} {l : Leaf} {s s' : DrawState} {r : Except Error Draw}

theorem ends_drawAs (h : Ends (l.drawAs id) s r s') :
    (l.draw (s.tally id)).Gives r ∧ s'.entropy = s.entropy ∧
      ∀ i, s'.tally i = if i = id then s.tally id + 1 else s.tally i := by
  rw [Leaf.drawAs, ends_bind_of_returns (returns_count id s)] at h
  cases hwhat : l.draw (s.tally id) with
  | ready v =>
    simp only [hwhat] at h
    obtain ⟨rfl, rfl⟩ := ends_pure.1 h
    exact ⟨.ready v, rfl, fun _ => rfl⟩
  | fail e =>
    simp only [hwhat] at h
    cases h
    exact ⟨.fail e, rfl, fun _ => rfl⟩
  | settled outcome =>
    simp only [hwhat] at h
    obtain ⟨rfl, rfl⟩ := ends_pure.1 h
    exact ⟨.settled outcome, rfl, fun _ => rfl⟩
  | gated outcome =>
    simp only [hwhat] at h
    cases h
    exact ⟨.gated outcome s.issued, rfl, fun _ => rfl⟩

theorem draw_eq_fail {e : Error} (h : Ends (l.drawAs id) s (.error e) s') :
    l.draw (s.tally id) = .fail e := by
  have hgives := (ends_drawAs h).1
  generalize l.draw (s.tally id) = what at hgives ⊢
  cases hgives
  rfl

theorem Act.Account.of_drawAs (h : Ends (l.drawAs id) s r s') (what : LeafDraw) :
    Account [.drew id what] s s' where
  tally i := by
    have hdrawn : drawn [.drew id what] = [id] := rfl
    rw [(ends_drawAs h).2.2 i, hdrawn, List.count_singleton]
    by_cases hi : i = id
    · subst hi
      simp
    · rw [if_neg hi, if_neg (by simpa using Ne.symm hi), Nat.add_zero]
  entropy _ := (ends_drawAs h).2.1

end Leaf

namespace Source

theorem isPlain_of_isBasic {src : Source} (h : src.isBasic = true) : src.IsPlain := by
  cases src with
  | letters length l => exact isPlain_letters length l
  | number range precision => exact isPlain_number range precision
  | int range => exact isPlain_int range
  | char range => exact isPlain_char range
  | boolean bias => exact isPlain_boolean bias
  | literal v => exact isPlain_literal v
  | entry collection => exact isPlain_entry collection
  | _ => cases h

theorem exists_of_basic {src : Source} (h : src.isBasic = true) {s s' : DrawState}
    {r : Except Error Draw} (hends : Ends src.draw s r s') :
    ∃ v entropy, r = .ok (.ready v) ∧ s' = { s with entropy := entropy } := by
  obtain ⟨x, hx⟩ := isPlain_of_isBasic h
  rw [hx] at hends
  obtain ⟨q, hq, rfl⟩ := ends_map.1 hends
  obtain ⟨rfl, rfl⟩ := hq.unique (returns_sample x s)
  exact ⟨_, _, rfl, rfl⟩

mutual

theorem Performs.account {src : Source} {s s' : DrawState} {acts : List Act} {r : Except Error Draw} :
    Performs src s acts r s' → Act.Account acts s s'
  | .basic simple sampled => by
    obtain ⟨v, entropy, -, rfl⟩ := exists_of_basic simple sampled
    exact .of_words rfl entropy
  | .leaf drawn => .of_drawAs drawn _
  | .text performed => performed.account
  | .oneOf chosen performed => by
    have hperformed := performed.account
    obtain ⟨-, rfl⟩ := chosen.unique (returns_sample _ _)
    exact (Act.Account.of_words rfl _).append hperformed
  | .array performed => performed.account
  | .times performed => performed.account
  | .adapted performed => performed.account

theorem PerformsAll.account {items : List Source} {s s' : DrawState} {acts : List Act}
    {r : Except Error (List Draw)} : PerformsAll items s acts r s' → Act.Account acts s s'
  | .nil s => .nil s
  | .stop failed => failed.account
  | .cons performed more => performed.account.append more.account

end

theorem mem_ids_of_replicate {count id : Nat} {inner : Source}
    (h : id ∈ idsOfAll (List.replicate count inner)) : id ∈ inner.ids := by
  obtain ⟨src, hsrc, hid⟩ := mem_idsOfAll.1 h
  rwa [List.eq_of_mem_replicate hsrc] at hid

mutual

/-- A draw draws no leaves but those of its source. -/
theorem Performs.drawn_subset {src : Source} {s s' : DrawState} {acts : List Act} {r : Except Error Draw} :
    Performs src s acts r s' → Act.drawn acts ⊆ src.ids
  | .basic _ _ => List.nil_subset _
  | .leaf _ => List.Subset.refl _
  | .text performed => performed.drawn_subset
  | .oneOf _ performed => by
    intro id hid
    exact mem_idsOfAll.2 ⟨_, List.get_mem _ _, performed.drawn_subset hid⟩
  | .array performed => performed.drawn_subset
  | .times performed => by
    intro id hid
    rw [ids]
    exact mem_ids_of_replicate (performed.drawn_subset hid)
  | .adapted performed => performed.drawn_subset

theorem PerformsAll.drawn_subset {items : List Source} {s s' : DrawState} {acts : List Act}
    {r : Except Error (List Draw)} : PerformsAll items s acts r s' → Act.drawn acts ⊆ idsOfAll items
  | .nil _ => List.Subset.refl _
  | .stop failed => List.subset_append_of_subset_left _ failed.drawn_subset
  | .cons performed more => by
    rw [Act.drawn_append]
    exact List.append_subset.2 ⟨List.subset_append_of_subset_left _ performed.drawn_subset,
      List.subset_append_of_subset_right _ more.drawn_subset⟩

end

/-- A draw leaves the leaves of other sources alone. -/
theorem Performs.tally_eq {src : Source} {s s' : DrawState} {acts : List Act} {r : Except Error Draw}
    (h : Performs src s acts r s') {id : Nat} (hid : id ∉ src.ids) : s'.tally id = s.tally id := by
  rw [h.account.tally, List.count_eq_zero_of_not_mem fun hmem => hid (h.drawn_subset hmem), Nat.add_zero]

theorem PerformsAll.tally_eq {items : List Source} {s s' : DrawState} {acts : List Act}
    {r : Except Error (List Draw)} (h : PerformsAll items s acts r s') {id : Nat}
    (hid : id ∉ idsOfAll items) : s'.tally id = s.tally id := by
  rw [h.account.tally, List.count_eq_zero_of_not_mem fun hmem => hid (h.drawn_subset hmem), Nat.add_zero]

end Source

end GenExpr
