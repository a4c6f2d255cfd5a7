import GenExpr.Proofs.Deferred.Combine
import GenExpr.Proofs.Draw.Source
import GenExpr.Proofs.Comparison

/-!
# Suspended draws

Two sources that draw the same values from the same words, the first always at once and the second in
futures now and then. Every source that combines others keeps this relation, so that it goes from leaves
to the sources built from them.
-/

namespace GenExpr

open List (Forall₂)

/-- The first draw of a leaf is a value, and the second the same value, at once or in a future. -/
inductive LeafDraw.Suspends : LeafDraw → LeafDraw → Prop
  | ready (v : Value) : Suspends (.ready v) (.ready v)
  | settled (v : Value) : Suspends (.ready v) (.settled (.ok v))
  | gated (v : Value) : Suspends (.ready v) (.gated (.ok v))

/-- Draw by draw, the second leaf has the values of the first. -/
def Leaf.Suspends (l l' : Leaf) : Prop := ∀ n, (l.draw n).Suspends (l'.draw n)

/-- The same words lie ahead, and each leaf has been drawn equally often. -/
structure DrawState.Alike (s s' : DrawState) : Prop where
  entropy : s.entropy = s'.entropy
  tally : s.tally = s'.tally

/-- The first draw is there at once, and the second promises its value. -/
def Draw.Suspends (d d' : Draw) : Prop := ∃ v, d = .ready v ∧ d'.toFuture.Promises v

/-- From like states two sources draw the same values with the same words, the first at once. -/
def Source.Suspends (s s' : Source) : Prop :=
  KeepStep DrawState.Alike Draw.Suspends s.draw s'.draw

theorem exists_values_of_suspends {ds ds' : List Draw} (h : Forall₂ Draw.Suspends ds ds') :
    ∃ vs : List Value, ds = vs.map .ready ∧ Forall₂ (fun d' v => d'.toFuture.Promises v) ds' vs := by
  have hready : Forall₂ (fun d' d => ∃ v, d = .ready v ∧ d'.toFuture.Promises v) ds' ds := h.flip
  exact Deferred.exists_ready_of_forall₂ hready

theorem keepStep_sample {α : Type} (x : StateM Entropy α) :
    KeepStep DrawState.Alike (· = ·) (DrawM.sample x) (DrawM.sample x) := by
  intro s s' h
  refine ⟨_, _, _, _, returns_sample x s, returns_sample x s', ?_, ?_⟩
  · rw [h.entropy]
  · exact ⟨by rw [h.entropy], h.tally⟩

theorem keepStep_count (id : Nat) :
    KeepStep DrawState.Alike (· = ·) (DrawM.count id) (DrawM.count id) := by
  intro s s' h
  refine ⟨_, _, _, _, returns_count id s, returns_count id s', ?_, ?_⟩
  · rw [h.tally]
  · exact ⟨h.entropy, by rw [h.tally]⟩

theorem keepStep_index {n n' : Nat} (h : n = n') (hn : 0 < n) (hn' : 0 < n') :
    KeepStep DrawState.Alike (fun i i' => i.val = i'.val) (DrawM.sample (Sampling.index n hn))
      (DrawM.sample (Sampling.index n' hn')) := by
  subst h
  exact (keepStep_sample _).mono fun i i' hi => by rw [hi]

/-- Picking from equally many actions picks corresponding ones. -/
theorem keepStep_choice {α β : Type} {R : α → β → Prop} {xs : List (DrawM α)} {ys : List (DrawM β)}
    (h : Forall₂ (KeepStep DrawState.Alike R) xs ys) (hx : 0 < xs.length) (hy : 0 < ys.length) :
    KeepStep DrawState.Alike R
      (do let i ← DrawM.sample (Sampling.index xs.length hx); xs[i])
      (do let i ← DrawM.sample (Sampling.index ys.length hy); ys[i]) := by
  apply (keepStep_index h.length_eq hx hy).bind
  intro i i' hi
  have hget := (List.forall₂_iff_get.1 h).2 i i.isLt (by omega)
  simpa [hi] using hget

namespace Source

/-- A source whose draws are samples that are there at once. -/
def IsPlain (s : Source) : Prop :=
  ∃ x : StateM Entropy Value, s.draw = Deferred.ready <$> DrawM.sample x

theorem IsPlain.suspends {s : Source} (h : s.IsPlain) : s.Suspends s := by
  obtain ⟨x, hx⟩ := h
  unfold Suspends
  rw [hx]
  apply (keepStep_sample x).map
  intro v v' heq
  obtain rfl := heq
  exact ⟨v, rfl, rfl⟩

theorem isPlain_of_sample {α : Type} {s : Source} {x : StateM Entropy α} (f : α → Value)
    (h : s.draw = do return .ready (f (← DrawM.sample x))) : s.IsPlain := by
  refine ⟨f <$> x, ?_⟩
  rw [h]
  rfl

theorem isPlain_letters (length : NumberRange) (l : Letters) : (letters length l).IsPlain :=
  ⟨do
    let n ← length.randomInt
    return .str (String.ofList (← l.randomChars n.toNat)), rfl⟩

theorem isPlain_number (range : NumberRange) (precision : Option Binary64) :
    (number range precision).IsPlain := by
  cases precision with
  | none => exact isPlain_of_sample Value.float (by rw [draw])
  | some p => exact isPlain_of_sample (fun x => .float (Decimal.roundTo p x)) (by rw [draw])

theorem isPlain_int (range : NumberRange) : (int range).IsPlain :=
  isPlain_of_sample Value.int (by rw [draw])

theorem isPlain_char (range : CharRange) : (char range).IsPlain :=
  isPlain_of_sample (fun c => .str (String.ofList [c])) (by rw [draw])

theorem isPlain_boolean (bias : Binary64) : (boolean bias).IsPlain :=
  isPlain_of_sample Value.bool (by rw [draw])

theorem isPlain_literal (v : Value) : (literal v).IsPlain := ⟨pure v, rfl⟩

theorem isPlain_entry (collection : Collection) : (entry collection).IsPlain :=
  isPlain_of_sample id (by rw [draw]; rfl)

theorem suspends_text {s s' : Source} (h : s.Suspends s') : (text s).Suspends (text s') := by
  unfold Suspends
  rw [draw, draw]
  apply KeepStep.map h
  intro d d' hd
  obtain ⟨v, rfl, hv⟩ := hd
  exact ⟨_, rfl, Deferred.promises_map hv _⟩

theorem suspends_draws {items items' : List Source} (h : Forall₂ Suspends items items') :
    Forall₂ (KeepStep DrawState.Alike Draw.Suspends) (draws items) (draws items') := by
  rw [draws_eq_map, draws_eq_map, List.forall₂_map_left_iff, List.forall₂_map_right_iff]
  exact h

theorem suspends_oneOf {first first' : Source} {others others' : List Source}
    (h : Forall₂ Suspends (first :: others) (first' :: others')) :
    (oneOf first others).Suspends (oneOf first' others') := by
  unfold Suspends
  rw [draw, draw]
  exact keepStep_choice (suspends_draws h) _ _

/-- Draws that are combined in order are combined alike. -/
theorem suspends_all {ds ds' : List Draw} (h : Forall₂ Draw.Suspends ds ds')
    (combine : List Value → Value) :
    Draw.Suspends (.all combine ds) (.all combine ds') := by
  obtain ⟨vs, rfl, hvs⟩ := exists_values_of_suspends h
  exact ⟨combine vs, Deferred.all_map_ready combine vs, Deferred.promises_all hvs combine⟩

theorem suspends_array {items items' : List Source} (h : Forall₂ Suspends items items') :
    (array items).Suspends (array items') := by
  unfold Suspends
  rw [draw, draw]
  exact (KeepStep.sequence (suspends_draws h)).map fun ds ds' hds => suspends_all hds _

theorem suspends_times {s s' : Source} (h : s.Suspends s') (count : Nat) :
    (times count s).Suspends (times count s') := by
  unfold Suspends
  rw [draw, draw]
  exact (KeepStep.repeated h count).map fun ds ds' hds => suspends_all hds.2 _

theorem suspends_leaf {l l' : Leaf} (h : l.Suspends l') (id : Nat) :
    (leaf id l).Suspends (leaf id l') := by
  unfold Suspends
  rw [draw, draw]
  apply (keepStep_count id).bind
  intro n n' heq
  obtain rfl := heq
  have hn := h n
  revert hn
  generalize l.draw n = d, l'.draw n = d'
  intro hn
  cases hn with
  | ready v => exact .pure ⟨v, rfl, rfl⟩
  | settled v => exact .pure ⟨v, rfl, rfl⟩
  | gated v =>
    intro s s' hs
    refine ⟨_, s, _, _, returns_pure.2 ⟨rfl, rfl⟩,
      returns_bind.2 ⟨_, _, returns_issue s', returns_pure.2 ⟨rfl, rfl⟩⟩, ⟨v, rfl, rfl⟩, ?_⟩
    exact ⟨hs.entropy, hs.tally⟩

end Source

end GenExpr
