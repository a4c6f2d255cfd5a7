import GenExpr.Proofs.Draw.Suspension

/-!
# Draws that have settled

Two sources that draw the same outcomes from the same words: the first value by value at once, or failing
at once, and the second always in futures that have settled already. What the first refuses to draw, the
second draws as a future that rejects.
-/

namespace GenExpr

open List (Forall₂)

/-- The first draw of a leaf is there or fails at once, and the second is a future that has settled to
the same value or error. -/
inductive LeafDraw.Settles : LeafDraw → LeafDraw → Prop
  | ready (v : Value) : Settles (.ready v) (.settled (.ok v))
  | fail (e : Error) : Settles (.fail e) (.settled (.error e))

/-- A synchronous leaf, and an asynchronous one that settles at once to the same outcomes. -/
structure Leaf.Settles (l l' : Leaf) : Prop where
  synchronous : l.asynchronous = false
  asynchronous : l'.asynchronous = true
  draws : ∀ n, (l.draw n).Settles (l'.draw n)

namespace Future

variable {α : Type}

/-- A future comes to an error once every gate is open. -/
def Rejects (f : Future Id α) (e : Error) : Prop := f.force.run = .error e

theorem forceItems_of_broken {items : List (Future Id α)} {e : Error}
    (h : Broken (fun f => ∃ v, f.Promises v) (fun f => f.Rejects e) items) :
    (forceItems items).run = .error e := by
  induction h with
  | here hf rest => rw [forceItems_cons, hf]
  | later hf _ ih =>
    obtain ⟨v, hv⟩ := hf
    rw [forceItems_cons, hv, ih]
    rfl

end Future

namespace Deferred

variable {α : Type}

theorem rejects_map {d : Deferred Id α} {e : Error} (h : d.toFuture.Rejects e) (f : α → α) :
    (d.map f).toFuture.Rejects e := by
  unfold Future.Rejects at h ⊢
  rw [force_map, h]
  rfl

end Deferred

def Draw.Rejects (e : Error) (d : Draw) : Prop := d.toFuture.Rejects e

/-- From like states the second source draws what the first does, once it has settled, or it rejects with
the error of the first. If the second is not asynchronous, then its draws are there at once. -/
structure Source.Settles (s s' : Source) : Prop where
  absorbs : Absorbs DrawState.Alike Draw.Suspends Draw.Rejects s.draw s'.draw
  synchronous : s.isAsync = false
  quiet : s'.isAsync = false → s'.Draws fun _ => True

namespace Source

theorem always_of_draws {s : Source} {P : Value → Prop} (h : s.Draws P) :
    Always s.draw fun _ => True := by
  intro state
  obtain ⟨d, state', hd, -⟩ := h state
  exact ⟨d, state', hd, trivial⟩

theorem IsPlain.draws {s : Source} (h : s.IsPlain) : s.Draws fun _ => True := by
  obtain ⟨x, hx⟩ := h
  unfold Draws
  rw [hx]
  exact (Always.sample (.any x)).map fun v _ => ⟨v, rfl, trivial⟩

theorem IsPlain.settles {s : Source} (h : s.IsPlain) (hasync : s.isAsync = false) : s.Settles s where
  absorbs := .of_keepStep h.suspends (always_of_draws h.draws)
  synchronous := hasync
  quiet _ := h.draws

theorem settles_text {s s' : Source} (h : s.Settles s') : (text s).Settles (text s') where
  absorbs := by
    rw [draw, draw]
    apply h.absorbs.map
    · intro d d' hd
      obtain ⟨v, rfl, hv⟩ := hd
      exact ⟨_, rfl, Deferred.promises_map hv _⟩
    · intro e d' hd
      exact Deferred.rejects_map hd _
  synchronous := h.synchronous
  quiet hasync := (draws_text (h.quiet hasync)).mono fun _ _ => trivial

theorem absorbs_draws {items items' : List Source} (h : Forall₂ Settles items items') :
    Forall₂ (Absorbs DrawState.Alike Draw.Suspends Draw.Rejects) (draws items) (draws items') := by
  rw [draws_eq_map, draws_eq_map, List.forall₂_map_left_iff, List.forall₂_map_right_iff]
  exact h.imp fun _ _ hs => hs.absorbs

/-- Draws that are combined in order have the first error in that order. -/
theorem rejects_all {e : Error} {ds : List Draw} (h : BrokenBy Draw.Suspends Draw.Rejects e ds)
    (combine : List Value → Value) : Draw.Rejects e (.all combine ds) := by
  have hitems : (Future.forceItems (ds.map Deferred.toFuture)).run = .error e := by
    apply Future.forceItems_of_broken
    apply h.map
    · rintro d ⟨_, v, -, hv⟩
      exact ⟨v, hv⟩
    · exact fun _ he => he
  unfold Draw.Rejects Future.Rejects
  rw [Deferred.force_all, hitems]
  rfl

theorem absorbs_choice {α β : Type} {R : α → β → Prop} {F : Error → β → Prop} {xs : List (DrawM α)}
    {ys : List (DrawM β)} (h : Forall₂ (Absorbs DrawState.Alike R F) xs ys) (hx : 0 < xs.length)
    (hy : 0 < ys.length) :
    Absorbs DrawState.Alike R F
      (DrawM.sample (Sampling.index xs.length hx) >>= xs.get)
      (DrawM.sample (Sampling.index ys.length hy) >>= ys.get) := by
  obtain ⟨hlength, hget⟩ := List.forall₂_iff_get.1 h
  apply Absorbs.bind_of_keepStep (keepStep_index hlength hx hy) (.sample (.any _))
  · intro i i' hi
    simpa [hi] using hget i i.isLt (by omega)
  · intro i'
    exact (hget i' (by omega) i'.isLt).total

section Items

variable {items items' : List Source}

theorem synchronous_of_settles (h : Forall₂ Settles items items') : anyAsync items = false := by
  induction h with
  | nil => rfl
  | cons hs _ ih => rw [anyAsync, hs.synchronous, ih, Bool.or_false]

theorem quiet_of_settles (h : Forall₂ Settles items items') (hasync : anyAsync items' = false) :
    ∀ s ∈ items', s.Draws fun _ => True := by
  induction h with
  | nil => simp
  | cons hs _ ih =>
    rw [anyAsync, Bool.or_eq_false_iff] at hasync
    exact List.forall_mem_cons.2 ⟨hs.quiet hasync.1, ih hasync.2⟩

theorem settles_oneOf {first first' : Source} {others others' : List Source}
    (h : Forall₂ Settles (first :: others) (first' :: others')) :
    (oneOf first others).Settles (oneOf first' others') where
  absorbs := by
    rw [draw, draw]
    exact absorbs_choice (absorbs_draws h) _ _
  synchronous := synchronous_of_settles h
  quiet hasync := draws_oneOf (quiet_of_settles h hasync)

theorem settles_array (h : Forall₂ Settles items items') : (array items).Settles (array items') where
  absorbs := by
    rw [draw, draw]
    apply (Absorbs.sequence (absorbs_draws h)).map
    · exact fun ds ds' hds => suspends_all hds _
    · exact fun e ds' hds => rejects_all hds _
  synchronous := synchronous_of_settles h
  quiet hasync := by
    have hquiet : Forall₂ (fun (_ s : Source) => s.Draws fun _ => True) items' items' :=
      List.forall₂_same.2 (quiet_of_settles h hasync)
    exact (draws_array hquiet).mono fun _ _ => trivial

end Items

theorem settles_times {s s' : Source} (h : s.Settles s') (count : Nat) :
    (times count s).Settles (times count s') where
  absorbs := by
    rw [draw, draw]
    apply (Absorbs.repeated h.absorbs count).map
    · exact fun ds ds' hds => suspends_all hds _
    · exact fun e ds' hds => rejects_all hds _
  synchronous := h.synchronous
  quiet hasync := (draws_times (h.quiet hasync) count).mono fun _ _ => trivial

theorem settles_leaf {l l' : Leaf} (h : l.Settles l') (id : Nat) :
    (leaf id l).Settles (leaf id l') where
  absorbs := by
    rw [draw, draw]
    have hcount : Always (DrawM.count id) fun _ => True :=
      fun s => ⟨_, _, returns_count id s, trivial⟩
    apply Absorbs.bind_of_keepStep (keepStep_count id) hcount
    · intro n n' heq
      obtain rfl := heq
      have hn := h.draws n
      revert hn
      generalize l.draw n = d, l'.draw n = d'
      intro hn
      cases hn with
      | ready v => exact .of_keepStep (.pure ⟨v, rfl, rfl⟩) (.pure trivial)
      | fail e => exact .throw_pure rfl
    · intro n
      have hn := h.draws n
      revert hn
      generalize l.draw n = d, l'.draw n = d'
      intro hn
      cases hn with
      | ready v => exact .pure trivial
      | fail e => exact .pure trivial
  synchronous := h.synchronous
  quiet hasync := by
    have htrue : (leaf id l').isAsync = true := h.asynchronous
    rw [htrue] at hasync
    cases hasync

end Source

end GenExpr
