import GenExpr.Proofs.Draw.Sampling
import GenExpr.Source.Draw
import Mathlib.Data.List.Forall2

/-!
# What actions come to

Actions keep a state and can fail. `Ends` says what one run of an action comes to; `Returns` and `Raises`
say it of runs that succeed and of runs that fail. `Always` says what every run comes to: it succeeds, with
a value of a kind. `Ensures` leaves open whether a run succeeds. All go through sequences of actions step by
step, so that a property of an action follows from properties of its parts.
-/

namespace Except

variable {ε α β : Type} {r : Except ε α}

theorem isOk_map (f : α → β) (r : Except ε α) : (r.map f).isOk = r.isOk := by
  cases r <;> rfl

theorem isOk_of_isOk_bind {f : α → Except ε β} (h : (r.bind f).isOk = true) : r.isOk = true := by
  cases r with
  | error e => cases h
  | ok a => rfl

theorem map_eq_error_iff {f : α → β} {e : ε} : r.map f = .error e ↔ r = .error e := by
  cases r <;> simp [Except.map]

theorem map_eq_ok_iff {f : α → β} {b : β} : r.map f = .ok b ↔ ∃ a, r = .ok a ∧ f a = b := by
  cases r <;> simp [Except.map]

theorem bind_eq_ok_iff {f : α → Except ε β} {b : β} : r >>= f = .ok b ↔ ∃ a, r = .ok a ∧ f a = .ok b := by
  cases r <;> simp [bind, Except.bind]

theorem discard_eq_error_iff {e : ε} : discard r = .error e ↔ r = .error e := by
  cases r <;> simp [discard, Functor.discard, Functor.mapConst, Except.map]

end Except

namespace GenExpr

open List (Forall₂)

variable {σ α β : Type}

theorem exists_eq_ok_of_isOk {p : Except Error α × σ} (h : p.1.isOk = true) :
    ∃ a s, p = (.ok a, s) := by
  obtain ⟨_ | a, s⟩ := p
  · cases h
  · exact ⟨a, s, rfl⟩

theorem exists_eq_error_of_isOk {p : Except Error α × σ} (h : p.1.isOk = false) :
    ∃ e s, p = (.error e, s) := by
  obtain ⟨e | _, s⟩ := p
  · exact ⟨e, s, rfl⟩
  · cases h

/-- An action comes to a result and leaves a state behind. -/
def Ends (x : ExceptT Error (StateM σ) α) (s : σ) (r : Except Error α) (s' : σ) : Prop :=
  (x.run.run s).run = (r, s')

section Ends

variable {s s' : σ}

theorem Ends.unique {x : ExceptT Error (StateM σ) α} {q r : Except Error α} {t : σ}
    (h : Ends x s r s') (h' : Ends x s q t) : r = q ∧ s' = t := by
  rw [Ends, h] at h'
  cases h'
  exact ⟨rfl, rfl⟩

theorem ends_pure {a : α} {r : Except Error α} :
    Ends (pure a : ExceptT Error (StateM σ) α) s r s' ↔ .ok a = r ∧ s = s' := by
  have hrun : ((pure a : ExceptT Error (StateM σ) α).run.run s).run = (.ok a, s) := rfl
  rw [Ends, hrun, Prod.mk.injEq]

theorem ends_throw {e : Error} {r : Except Error α} :
    Ends (throw e : ExceptT Error (StateM σ) α) s r s' ↔ .error e = r ∧ s = s' := by
  have hrun : ((throw e : ExceptT Error (StateM σ) α).run.run s).run = (.error e, s) := rfl
  rw [Ends, hrun, Prod.mk.injEq]

theorem ends_lift {x r : Except Error α} :
    Ends (liftM x : ExceptT Error (StateM σ) α) s r s' ↔ x = r ∧ s = s' := by
  cases x with
  | error e => exact ends_throw
  | ok a => exact ends_pure

theorem run_run_bind (x : ExceptT Error (StateM σ) α) (f : α → ExceptT Error (StateM σ) β) (s : σ) :
    ((x >>= f).run.run s).run = match (x.run.run s).run with
      | (.ok a, t) => ((f a).run.run t).run
      | (.error e, t) => (.error e, t) := by
  rw [ExceptT.run_bind, StateT.run_bind, Id.run_bind]
  rcases (x.run.run s).run with ⟨e | a, t⟩ <;> rfl

theorem ends_bind {x : ExceptT Error (StateM σ) α} {f : α → ExceptT Error (StateM σ) β}
    {r : Except Error β} : Ends (x >>= f) s r s' ↔
      (∃ e, Ends x s (.error e) s' ∧ .error e = r) ∨ ∃ a t, Ends x s (.ok a) t ∧ Ends (f a) t r s' := by
  unfold Ends
  rw [run_run_bind]
  rcases (x.run.run s).run with ⟨e | a, t⟩
  · simp [and_comm]
  · simp

theorem ends_map {x : ExceptT Error (StateM σ) α} {f : α → β} {r : Except Error β} :
    Ends (f <$> x) s r s' ↔ ∃ q, Ends x s q s' ∧ q.map f = r := by
  rw [map_eq_pure_bind, ends_bind]
  simp only [ends_pure]
  constructor
  · rintro (⟨e, h, rfl⟩ | ⟨a, t, h, rfl, rfl⟩)
    · exact ⟨.error e, h, rfl⟩
    · exact ⟨.ok a, h, rfl⟩
  · rintro ⟨e | a, h, rfl⟩
    · exact .inl ⟨e, h, rfl⟩
    · exact .inr ⟨a, s', h, rfl, rfl⟩

end Ends

/-- An action succeeds with a value and leaves a state behind. -/
def Returns (x : ExceptT Error (StateM σ) α) (s : σ) (a : α) (s' : σ) : Prop := Ends x s (.ok a) s'

/-- An action fails with an error and leaves a state behind. -/
def Raises (x : ExceptT Error (StateM σ) α) (s : σ) (e : Error) (s' : σ) : Prop :=
  Ends x s (.error e) s'

section Returns

variable {s s' : σ} {b : β}

theorem exists_returns_of_toOption {x : ExceptT Error (StateM σ) α} {f : α → β}
    (h : (x.run.run s).run.1.toOption.map f = some b) : ∃ a s', Returns x s a s' ∧ f a = b := by
  rcases hx : (x.run.run s).run with ⟨e | a, s'⟩
  · rw [hx] at h
    cases h
  · rw [hx] at h
    exact ⟨a, s', hx, Option.some.inj h⟩

theorem Returns.unique {x : ExceptT Error (StateM σ) β} {c : β} {t : σ} (h : Returns x s b s')
    (h' : Returns x s c t) : b = c ∧ s' = t := by
  obtain ⟨hb, hs⟩ := Ends.unique h h'
  exact ⟨Except.ok.inj hb, hs⟩

@[simp] theorem returns_pure {a : β} :
    Returns (pure a : ExceptT Error (StateM σ) β) s b s' ↔ a = b ∧ s = s' :=
  ends_pure.trans (by simp)

@[simp] theorem not_returns_throw {e : Error} :
    ¬Returns (throw e : ExceptT Error (StateM σ) β) s b s' :=
  fun h => nomatch (ends_throw.1 h).1

theorem returns_bind {x : ExceptT Error (StateM σ) α} {f : α → ExceptT Error (StateM σ) β} :
    Returns (x >>= f) s b s' ↔ ∃ a t, Returns x s a t ∧ Returns (f a) t b s' :=
  ends_bind.trans (by simp [Returns])

theorem returns_map {x : ExceptT Error (StateM σ) α} {f : α → β} :
    Returns (f <$> x) s b s' ↔ ∃ a, Returns x s a s' ∧ f a = b :=
  ends_map.trans (by simp [Returns, Except.map_eq_ok_iff])

theorem returns_lift {x : Except Error β} :
    Returns (liftM x : ExceptT Error (StateM σ) β) s b s' ↔ x = .ok b ∧ s = s' := ends_lift

theorem exists_of_returns_lift_bind {x : Except Error α} {f : α → ExceptT Error (StateM σ) β}
    (h : Returns (liftM x >>= f) s b s') : ∃ a, x = .ok a ∧ Returns (f a) s b s' := by
  obtain ⟨a, t, ha, h⟩ := returns_bind.1 h
  obtain ⟨hx, rfl⟩ := returns_lift.1 ha
  exact ⟨a, hx, h⟩

theorem exists_returns_of_ite {c : Prop} [Decidable c] {x : ExceptT Error (StateM σ) Unit}
    {f : Unit → ExceptT Error (StateM σ) β}
    (h : Returns (if c then x >>= f else f ()) s b s') : ∃ t, Returns (f ()) t b s' := by
  split at h
  next =>
    obtain ⟨_, t, -, h⟩ := returns_bind.1 h
    exact ⟨t, h⟩
  next => exact ⟨s, h⟩

theorem returns_mapM_cons {f : α → ExceptT Error (StateM σ) β} {a : α} {as : List α}
    {bs : List β} : Returns ((a :: as).mapM f) s bs s' ↔
      ∃ b t bs', Returns (f a) s b t ∧ Returns (as.mapM f) t bs' s' ∧ b :: bs' = bs := by
  simp only [List.mapM_cons, returns_bind, returns_pure]
  constructor
  · rintro ⟨b, t, hb, bs', _, hbs, rfl, rfl⟩
    exact ⟨b, t, bs', hb, hbs, rfl⟩
  · rintro ⟨b, t, bs', hb, hbs, rfl⟩
    exact ⟨b, t, hb, bs', s', hbs, rfl, rfl⟩

theorem exists_of_returns_mapM {f : α → ExceptT Error (StateM σ) β} {as : List α} {bs : List β}
    (h : Returns (as.mapM f) s bs s') {b : β} (hb : b ∈ bs) :
    ∃ a ∈ as, ∃ t t', Returns (f a) t b t' := by
  induction as generalizing s bs with
  | nil =>
    obtain ⟨rfl, -⟩ := returns_pure.1 h
    exact absurd hb List.not_mem_nil
  | cons a rest ih =>
    obtain ⟨c, t, cs, hc, hcs, rfl⟩ := returns_mapM_cons.1 h
    rcases List.mem_cons.1 hb with rfl | hb
    · exact ⟨a, List.mem_cons_self, s, t, hc⟩
    · obtain ⟨a', ha', hreturns⟩ := ih hcs hb
      exact ⟨a', List.mem_cons_of_mem a ha', hreturns⟩

end Returns

section Raises

variable {s s' : σ} {e : Error}

theorem returns_or_raises (x : ExceptT Error (StateM σ) α) (s : σ) :
    (∃ a s', Returns x s a s') ∨ ∃ e s', Raises x s e s' := by
  rcases h : (x.run.run s).run with ⟨e | a, s'⟩
  · exact .inr ⟨e, s', h⟩
  · exact .inl ⟨a, s', h⟩

theorem Raises.not_returns {x : ExceptT Error (StateM σ) α} (h : Raises x s e s') {a : α} {t : σ} :
    ¬Returns x s a t :=
  fun h' => nomatch (Ends.unique h h').1

theorem raises_throw {d : Error} :
    Raises (throw d : ExceptT Error (StateM σ) α) s e s' ↔ d = e ∧ s = s' :=
  ends_throw.trans (by simp)

theorem not_raises_pure {a : α} : ¬Raises (pure a : ExceptT Error (StateM σ) α) s e s' :=
  fun h => nomatch (ends_pure.1 h).1

theorem raises_bind {x : ExceptT Error (StateM σ) α} {f : α → ExceptT Error (StateM σ) β} :
    Raises (x >>= f) s e s' ↔
      Raises x s e s' ∨ ∃ a t, Returns x s a t ∧ Raises (f a) t e s' :=
  ends_bind.trans (by simp [Raises, Returns])

theorem raises_map {x : ExceptT Error (StateM σ) α} {f : α → β} :
    Raises (f <$> x) s e s' ↔ Raises x s e s' :=
  ends_map.trans (by simp [Raises, Except.map_eq_error_iff])

theorem raises_mapM_cons {f : α → ExceptT Error (StateM σ) β} {a : α} {as : List α} :
    Raises ((a :: as).mapM f) s e s' ↔
      Raises (f a) s e s' ∨ ∃ b t, Returns (f a) s b t ∧ Raises (as.mapM f) t e s' := by
  simp only [List.mapM_cons, raises_bind, not_raises_pure, and_false, exists_false, or_false]

/-- Actions that follow one another fail with the first that fails. -/
theorem raises_mapM_iff {f : α → ExceptT Error (StateM σ) β} {as : List α} :
    Raises (as.mapM f) s e s' ↔ ∃ before a after bs t, as = before ++ a :: after ∧
      Returns (before.mapM f) s bs t ∧ Raises (f a) t e s' := by
  induction as generalizing s with
  | nil => simp [not_raises_pure]
  | cons x rest ih =>
    rw [raises_mapM_cons]
    constructor
    · rintro (hx | ⟨b, t, hb, hrest⟩)
      · exact ⟨[], x, rest, [], s, rfl, returns_pure.2 ⟨rfl, rfl⟩, hx⟩
      · obtain ⟨before, a, after, bs, u, rfl, hbefore, ha⟩ := ih.1 hrest
        exact ⟨x :: before, a, after, b :: bs, u, rfl,
          returns_mapM_cons.2 ⟨b, t, bs, hb, hbefore, rfl⟩, ha⟩
    · rintro ⟨before, a, after, bs, u, heq, hbefore, ha⟩
      cases before with
      | nil =>
        obtain ⟨rfl, rfl⟩ := List.cons.inj heq
        obtain ⟨-, rfl⟩ := returns_pure.1 hbefore
        exact .inl ha
      | cons y before =>
        obtain ⟨rfl, rfl⟩ := List.cons.inj heq
        obtain ⟨b, t, bs', hb, hbs, -⟩ := returns_mapM_cons.1 hbefore
        exact .inr ⟨b, t, hb, ih.2 ⟨before, a, after, bs', u, rfl, hbs, ha⟩⟩

end Raises

theorem returns_sample (x : StateM Entropy α) (s : DrawState) :
    Returns (DrawM.sample x) s (x.run s.entropy).1 { s with entropy := (x.run s.entropy).2 } := rfl

theorem returns_count (id : Nat) (s : DrawState) :
    Returns (DrawM.count id) s (s.tally id)
      { s with tally := fun i => if i = id then s.tally id + 1 else s.tally i } := rfl

theorem returns_issue (s : DrawState) :
    Returns DrawM.issue s s.issued { s with issued := s.issued + 1 } := rfl

/-- From every state an action succeeds, with a value of a kind. -/
def Always (x : ExceptT Error (StateM σ) α) (P : α → Prop) : Prop :=
  ∀ s, ∃ a s', Returns x s a s' ∧ P a

namespace Always

variable {P : α → Prop} {Q : β → Prop}

theorem pure {a : α} (h : P a) : Always (Pure.pure a : ExceptT Error (StateM σ) α) P :=
  fun s => ⟨a, s, returns_pure.2 ⟨rfl, rfl⟩, h⟩

theorem bind {x : ExceptT Error (StateM σ) α} {f : α → ExceptT Error (StateM σ) β}
    (hx : Always x P) (hf : ∀ a, P a → Always (f a) Q) : Always (x >>= f) Q := by
  intro s
  obtain ⟨a, t, hat, ha⟩ := hx s
  obtain ⟨b, u, hbu, hb⟩ := hf a ha t
  exact ⟨b, u, returns_bind.2 ⟨a, t, hat, hbu⟩, hb⟩

theorem map {x : ExceptT Error (StateM σ) α} {f : α → β} (hx : Always x P)
    (hf : ∀ a, P a → Q (f a)) : Always (f <$> x) Q := by
  intro s
  obtain ⟨a, t, hat, ha⟩ := hx s
  exact ⟨f a, t, returns_map.2 ⟨a, hat, rfl⟩, hf a ha⟩

theorem sample {x : StateM Entropy α} (h : Sampling.Yields x P) : Always (DrawM.sample x) P :=
  fun s => ⟨_, _, returns_sample x s, h s.entropy⟩

/-- Each of several actions yields a value of its own kind. -/
theorem sequence {γ : Type} {R : γ → α → Prop} {cs : List γ} {xs : List (DrawM α)}
    (h : Forall₂ (fun c x => Always x (R c)) cs xs) :
    Always (DrawM.sequence xs) fun as => Forall₂ R cs as := by
  induction h with
  | nil => exact Always.pure .nil
  | cons hx _ ih =>
    rw [DrawM.sequence]
    apply hx.bind
    intro a ha
    exact ih.map fun as has => .cons ha has

theorem repeated {x : DrawM α} (hx : Always x P) (n : Nat) :
    Always (DrawM.repeated x n) fun as => as.length = n ∧ ∀ a ∈ as, P a := by
  induction n with
  | zero => exact Always.pure ⟨rfl, by simp⟩
  | succ n ih =>
    rw [DrawM.repeated]
    apply hx.bind
    intro a ha
    apply ih.map
    intro as has
    obtain ⟨hlength, hall⟩ := has
    refine ⟨by rw [List.length_cons, hlength], ?_⟩
    intro b hb
    rcases List.mem_cons.1 hb with rfl | hb
    · exact ha
    · exact hall b hb

end Always

/-- Whenever an action succeeds, its value is of a kind. -/
def Ensures (x : ExceptT Error (StateM σ) α) (P : α → Prop) : Prop :=
  ∀ s a s', Returns x s a s' → P a

namespace Ensures

variable {P : α → Prop} {Q : β → Prop}

theorem pure {a : α} (h : P a) : Ensures (Pure.pure a : ExceptT Error (StateM σ) α) P := by
  intro s b s' hb
  obtain ⟨rfl, -⟩ := returns_pure.1 hb
  exact h

theorem throw (e : Error) : Ensures (MonadExcept.throw e : ExceptT Error (StateM σ) α) P :=
  fun _ _ _ h => absurd h not_returns_throw

theorem any (x : ExceptT Error (StateM σ) α) : Ensures x fun _ => True := fun _ _ _ _ => trivial

theorem bind {x : ExceptT Error (StateM σ) α} {f : α → ExceptT Error (StateM σ) β}
    (hx : Ensures x P) (hf : ∀ a, P a → Ensures (f a) Q) : Ensures (x >>= f) Q := by
  intro s b s' h
  obtain ⟨a, t, ha, hb⟩ := returns_bind.1 h
  exact hf a (hx s a t ha) t b s' hb

theorem map {x : ExceptT Error (StateM σ) α} {f : α → β} (hx : Ensures x P)
    (hf : ∀ a, P a → Q (f a)) : Ensures (f <$> x) Q := by
  intro s b s' h
  obtain ⟨a, ha, rfl⟩ := returns_map.1 h
  exact hf a (hx s a s' ha)

theorem sequence {xs : List (DrawM α)} (h : ∀ x ∈ xs, Ensures x P) :
    Ensures (DrawM.sequence xs) fun as => ∀ a ∈ as, P a := by
  induction xs with
  | nil => exact Ensures.pure (List.forall_mem_nil P)
  | cons x rest ih =>
    obtain ⟨hx, hrest⟩ := List.forall_mem_cons.1 h
    rw [DrawM.sequence]
    refine hx.bind fun a ha => ?_
    exact (ih hrest).map fun as has => List.forall_mem_cons.2 ⟨ha, has⟩

theorem repeated {x : DrawM α} (hx : Ensures x P) (n : Nat) :
    Ensures (DrawM.repeated x n) fun as => ∀ a ∈ as, P a := by
  induction n with
  | zero => exact Ensures.pure (List.forall_mem_nil P)
  | succ n ih =>
    rw [DrawM.repeated]
    refine hx.bind fun a ha => ?_
    exact ih.map fun as has => List.forall_mem_cons.2 ⟨ha, has⟩

end Ensures

end GenExpr
