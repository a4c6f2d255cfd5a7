import GenExpr.Proofs.Action

/-!
# Actions side by side

Two actions are run from related states. Where the second follows the first, whatever the first comes to
is matched by the second; where they agree, failures are matched too; where they keep step, both succeed.
And where the second absorbs the failures of the first, it succeeds with a value that stands for them.
Each of these passes through sequences of actions, so that two programs of the same shape are compared
part by part.
-/

namespace GenExpr

open List (Forall₂)

variable {σ τ α β γ δ : Type} {S : σ → τ → Prop} {R : α → β → Prop} {Q : γ → δ → Prop}
  {x : ExceptT Error (StateM σ) α} {y : ExceptT Error (StateM τ) β}

/-- Whenever the first action succeeds the second does, with a related value and state. -/
def Follows (S : σ → τ → Prop) (R : α → β → Prop) (x : ExceptT Error (StateM σ) α)
    (y : ExceptT Error (StateM τ) β) : Prop :=
  ∀ s t a s', S s t → Returns x s a s' → ∃ b t', Returns y t b t' ∧ R a b ∧ S s' t'

/-- Both actions succeed, with related values and states. -/
def KeepStep (S : σ → τ → Prop) (R : α → β → Prop) (x : ExceptT Error (StateM σ) α)
    (y : ExceptT Error (StateM τ) β) : Prop :=
  ∀ s t, S s t → ∃ a s' b t', Returns x s a s' ∧ Returns y t b t' ∧ R a b ∧ S s' t'

/-- Both actions succeed, with related values and states, or both fail with the same error. -/
def Agrees (S : σ → τ → Prop) (R : α → β → Prop) (x : ExceptT Error (StateM σ) α)
    (y : ExceptT Error (StateM τ) β) : Prop :=
  ∀ s t, S s t → (∃ a s' b t', Returns x s a s' ∧ Returns y t b t' ∧ R a b ∧ S s' t') ∨
    ∃ e s' t', Raises x s e s' ∧ Raises y t e t'

/-- The second action always succeeds. It follows the first where that succeeds, and where the first
fails, its value stands for the error. -/
structure Absorbs (S : σ → τ → Prop) (R : α → β → Prop) (F : Error → β → Prop)
    (x : ExceptT Error (StateM σ) α) (y : ExceptT Error (StateM τ) β) : Prop where
  total : Always y fun _ => True
  follows : Follows S R x y
  absorbs : ∀ s t e s', S s t → Raises x s e s' → ∃ b t', Returns y t b t' ∧ F e b

namespace Agrees

theorem follows (hxy : Agrees S R x y) : Follows S R x y := by
  intro s t a s' hst hx
  rcases hxy s t hst with ⟨b, s₁, c, t', hb, hc, hbc, hst'⟩ | ⟨e, s₁, t', he, -⟩
  · obtain ⟨rfl, rfl⟩ := hx.unique hb
    exact ⟨c, t', hc, hbc, hst'⟩
  · exact absurd hx he.not_returns

theorem pure {a : α} {b : β} (h : R a b) :
    Agrees S R (Pure.pure a : ExceptT Error (StateM σ) α)
      (Pure.pure b : ExceptT Error (StateM τ) β) :=
  fun s t hst => .inl ⟨a, s, b, t, returns_pure.2 ⟨rfl, rfl⟩, returns_pure.2 ⟨rfl, rfl⟩, h, hst⟩

theorem throw (e : Error) :
    Agrees S R (MonadExcept.throw e : ExceptT Error (StateM σ) α)
      (MonadExcept.throw e : ExceptT Error (StateM τ) β) :=
  fun s t _ => .inr ⟨e, s, t, raises_throw.2 ⟨rfl, rfl⟩, raises_throw.2 ⟨rfl, rfl⟩⟩

theorem bind {f : α → ExceptT Error (StateM σ) γ} {g : β → ExceptT Error (StateM τ) δ}
    (hxy : Agrees S R x y) (hfg : ∀ a b, R a b → Agrees S Q (f a) (g b)) :
    Agrees S Q (x >>= f) (y >>= g) := by
  intro s t hst
  rcases hxy s t hst with ⟨a, s₁, b, t₁, ha, hb, hab, hst₁⟩ | ⟨e, s', t', hx, hy⟩
  · rcases hfg a b hab s₁ t₁ hst₁ with ⟨c, s', d, t', hc, hd, hcd, hst'⟩ | ⟨e, s', t', hf, hg⟩
    · exact .inl ⟨c, s', d, t', returns_bind.2 ⟨a, s₁, ha, hc⟩, returns_bind.2 ⟨b, t₁, hb, hd⟩,
        hcd, hst'⟩
    · exact .inr ⟨e, s', t', raises_bind.2 (.inr ⟨a, s₁, ha, hf⟩),
        raises_bind.2 (.inr ⟨b, t₁, hb, hg⟩)⟩
  · exact .inr ⟨e, s', t', raises_bind.2 (.inl hx), raises_bind.2 (.inl hy)⟩

/-- Reading the same input on both sides leaves the same value to go on with, or the same error. -/
theorem lift_bind {ε : Type} (z : Except Error ε) {f : ε → ExceptT Error (StateM σ) γ}
    {g : ε → ExceptT Error (StateM τ) δ} (hfg : ∀ a, Agrees S Q (f a) (g a)) :
    Agrees S Q (liftM z >>= f) (liftM z >>= g) := by
  cases z with
  | error e => exact throw e
  | ok a => exact hfg a

theorem map {f : α → γ} {g : β → δ} (hxy : Agrees S R x y) (hfg : ∀ a b, R a b → Q (f a) (g b)) :
    Agrees S Q (f <$> x) (g <$> y) := by
  rw [map_eq_pure_bind, map_eq_pure_bind]
  exact hxy.bind fun a b hab => .pure (hfg a b hab)

theorem ite_bind {c : Prop} [Decidable c] {x : ExceptT Error (StateM σ) Unit}
    {y : ExceptT Error (StateM τ) Unit} {f : Unit → ExceptT Error (StateM σ) γ}
    {g : Unit → ExceptT Error (StateM τ) δ} (hxy : Agrees S (fun _ _ => True) x y)
    (hfg : Agrees S Q (f ()) (g ())) :
    Agrees S Q (if c then x >>= f else f ()) (if c then y >>= g else g ()) := by
  split
  next => exact hxy.bind fun _ _ _ => hfg
  next => exact hfg

theorem mapM {ι : Type} {f : ι → ExceptT Error (StateM σ) α} {g : ι → ExceptT Error (StateM τ) β}
    (h : ∀ i, Agrees S R (f i) (g i)) (is : List ι) :
    Agrees S (Forall₂ R) (is.mapM f) (is.mapM g) := by
  induction is with
  | nil =>
    rw [List.mapM_nil, List.mapM_nil]
    exact .pure .nil
  | cons i rest ih =>
    rw [List.mapM_cons, List.mapM_cons]
    apply (h i).bind
    intro a b hab
    apply ih.bind
    intro as bs habs
    exact .pure (.cons hab habs)

end Agrees

namespace KeepStep

theorem agrees (hxy : KeepStep S R x y) : Agrees S R x y :=
  fun s t hst => .inl (hxy s t hst)

theorem mono {R' : α → β → Prop} (hxy : KeepStep S R x y) (hR : ∀ a b, R a b → R' a b) :
    KeepStep S R' x y := by
  intro s t hst
  obtain ⟨a, s', b, t', ha, hb, hab, hst'⟩ := hxy s t hst
  exact ⟨a, s', b, t', ha, hb, hR a b hab, hst'⟩

theorem pure {a : α} {b : β} (h : R a b) :
    KeepStep S R (Pure.pure a : ExceptT Error (StateM σ) α)
      (Pure.pure b : ExceptT Error (StateM τ) β) :=
  fun s t hst => ⟨a, s, b, t, returns_pure.2 ⟨rfl, rfl⟩, returns_pure.2 ⟨rfl, rfl⟩, h, hst⟩

theorem bind {f : α → ExceptT Error (StateM σ) γ} {g : β → ExceptT Error (StateM τ) δ}
    (hxy : KeepStep S R x y) (hfg : ∀ a b, R a b → KeepStep S Q (f a) (g b)) :
    KeepStep S Q (x >>= f) (y >>= g) := by
  intro s t hst
  obtain ⟨a, s₁, b, t₁, ha, hb, hab, hst₁⟩ := hxy s t hst
  obtain ⟨c, s', d, t', hc, hd, hcd, hst'⟩ := hfg a b hab s₁ t₁ hst₁
  exact ⟨c, s', d, t', returns_bind.2 ⟨a, s₁, ha, hc⟩, returns_bind.2 ⟨b, t₁, hb, hd⟩, hcd, hst'⟩

theorem map {f : α → γ} {g : β → δ} (hxy : KeepStep S R x y)
    (hfg : ∀ a b, R a b → Q (f a) (g b)) : KeepStep S Q (f <$> x) (g <$> y) := by
  rw [map_eq_pure_bind, map_eq_pure_bind]
  exact hxy.bind fun a b hab => .pure (hfg a b hab)

end KeepStep

namespace Absorbs

variable {F : Error → β → Prop} {G : Error → δ → Prop}

theorem of_keepStep (hxy : KeepStep S R x y) (hy : Always y fun _ => True) : Absorbs S R F x y where
  total := hy
  follows := hxy.agrees.follows
  absorbs s t e s' hst hx := by
    obtain ⟨a, s₁, -, -, ha, -⟩ := hxy s t hst
    exact absurd ha hx.not_returns

theorem throw_pure {e : Error} {b : β} (h : F e b) :
    Absorbs S R F (throw e : ExceptT Error (StateM σ) α)
      (Pure.pure b : ExceptT Error (StateM τ) β) where
  total := .pure trivial
  follows s t a s' _ hx := absurd hx not_returns_throw
  absorbs s t d s' _ hx := by
    obtain ⟨rfl, -⟩ := raises_throw.1 hx
    exact ⟨b, t, returns_pure.2 ⟨rfl, rfl⟩, h⟩

theorem bind_of_keepStep {f : α → ExceptT Error (StateM σ) γ} {g : β → ExceptT Error (StateM τ) δ}
    (hxy : KeepStep S R x y) (hy : Always y fun _ => True)
    (hfg : ∀ a b, R a b → Absorbs S Q G (f a) (g b)) (hg : ∀ b, Always (g b) fun _ => True) :
    Absorbs S Q G (x >>= f) (y >>= g) where
  total := hy.bind fun b _ => hg b
  follows s t c s' hst hx := by
    obtain ⟨a, s₁, b, t₁, ha, hb, hab, hst₁⟩ := hxy s t hst
    obtain ⟨a', s₂, ha', hc⟩ := returns_bind.1 hx
    obtain ⟨rfl, rfl⟩ := ha.unique ha'
    obtain ⟨d, t', hd, hcd, hst'⟩ := (hfg a b hab).follows s₁ t₁ c s' hst₁ hc
    exact ⟨d, t', returns_bind.2 ⟨b, t₁, hb, hd⟩, hcd, hst'⟩
  absorbs s t e s' hst hx := by
    obtain ⟨a, s₁, b, t₁, ha, hb, hab, hst₁⟩ := hxy s t hst
    rcases raises_bind.1 hx with hx | ⟨a', s₂, ha', he⟩
    · exact absurd ha hx.not_returns
    · obtain ⟨rfl, rfl⟩ := ha.unique ha'
      obtain ⟨d, t', hd, hed⟩ := (hfg a b hab).absorbs s₁ t₁ e s' hst₁ he
      exact ⟨d, t', returns_bind.2 ⟨b, t₁, hb, hd⟩, hed⟩

theorem map {f : α → γ} {g : β → δ} (hxy : Absorbs S R F x y) (hfg : ∀ a b, R a b → Q (f a) (g b))
    (hg : ∀ e b, F e b → G e (g b)) : Absorbs S Q G (f <$> x) (g <$> y) where
  total := hxy.total.map fun _ _ => trivial
  follows s t c s' hst hx := by
    obtain ⟨a, ha, rfl⟩ := returns_map.1 hx
    obtain ⟨b, t', hb, hab, hst'⟩ := hxy.follows s t a s' hst ha
    exact ⟨g b, t', returns_map.2 ⟨b, hb, rfl⟩, hfg a b hab, hst'⟩
  absorbs s t e s' hst hx := by
    obtain ⟨b, t', hb, heb⟩ := hxy.absorbs s t e s' hst (raises_map.1 hx)
    exact ⟨g b, t', returns_map.2 ⟨b, hb, rfl⟩, hg e b heb⟩

end Absorbs

/-- The first item that is not of one kind is of another. -/
inductive Broken (P F : β → Prop) : List β → Prop
  | here {b : β} (h : F b) (bs : List β) : Broken P F (b :: bs)
  | later {b : β} {bs : List β} (h : P b) (hs : Broken P F bs) : Broken P F (b :: bs)

theorem Broken.map {P F : β → Prop} {P' F' : δ → Prop} {bs : List β} (h : Broken P F bs) {f : β → δ}
    (hP : ∀ b, P b → P' (f b)) (hF : ∀ b, F b → F' (f b)) : Broken P' F' (bs.map f) := by
  induction h with
  | here hb bs => exact .here (hF _ hb) _
  | later hb _ ih => exact .later (hP _ hb) ih

section Draws

variable {S : DrawState → DrawState → Prop}

theorem KeepStep.sequence {xs : List (DrawM α)} {ys : List (DrawM β)}
    (h : Forall₂ (KeepStep S R) xs ys) :
    KeepStep S (Forall₂ R) (DrawM.sequence xs) (DrawM.sequence ys) := by
  induction h with
  | nil => exact .pure .nil
  | cons hxy _ ih =>
    rw [DrawM.sequence, DrawM.sequence]
    apply hxy.bind
    intro a b hab
    exact ih.map fun as bs habs => .cons hab habs

theorem KeepStep.repeated {x : DrawM α} {y : DrawM β} (h : KeepStep S R x y) (n : Nat) :
    KeepStep S (fun as bs => as.length = n ∧ Forall₂ R as bs) (DrawM.repeated x n)
      (DrawM.repeated y n) := by
  induction n with
  | zero => exact .pure ⟨rfl, .nil⟩
  | succ n ih =>
    rw [DrawM.repeated, DrawM.repeated]
    apply h.bind
    intro a b hab
    apply ih.map
    intro as bs habs
    obtain ⟨hlength, habs⟩ := habs
    exact ⟨by rw [List.length_cons, hlength], .cons hab habs⟩

variable {F : Error → β → Prop}

/-- Items of which the first that has no related value stands for an error. -/
abbrev BrokenBy (R : α → β → Prop) (F : Error → β → Prop) (e : Error) (bs : List β) : Prop :=
  Broken (fun b => ∃ a, R a b) (F e) bs

theorem Absorbs.cons {x : DrawM α} {y : DrawM β} {xs : DrawM (List α)} {ys : DrawM (List β)}
    (hxy : Absorbs S R F x y) (hrest : Absorbs S (Forall₂ R) (BrokenBy R F) xs ys) :
    Absorbs S (Forall₂ R) (BrokenBy R F) (do let a ← x; return a :: (← xs))
      (do let b ← y; return b :: (← ys)) where
  total := hxy.total.bind fun b _ => hrest.total.map fun _ _ => trivial
  follows s t as s' hst hx := by
    obtain ⟨a, s₁, ha, hx⟩ := returns_bind.1 hx
    obtain ⟨as, has, rfl⟩ := returns_map.1 hx
    obtain ⟨b, t₁, hb, hab, hst₁⟩ := hxy.follows s t a s₁ hst ha
    obtain ⟨bs, t', hbs, habs, hst'⟩ := hrest.follows s₁ t₁ as s' hst₁ has
    exact ⟨b :: bs, t', returns_bind.2 ⟨b, t₁, hb, returns_map.2 ⟨bs, hbs, rfl⟩⟩,
      .cons hab habs, hst'⟩
  absorbs s t e s' hst hx := by
    rcases raises_bind.1 hx with hx | ⟨a, s₁, ha, hx⟩
    · -- The items after the broken one are drawn too, but do not count.
      obtain ⟨b, t₁, hb, heb⟩ := hxy.absorbs s t e s' hst hx
      obtain ⟨bs, t', hbs, -⟩ := hrest.total t₁
      exact ⟨b :: bs, t', returns_bind.2 ⟨b, t₁, hb, returns_map.2 ⟨bs, hbs, rfl⟩⟩, .here heb bs⟩
    · obtain ⟨b, t₁, hb, hab, hst₁⟩ := hxy.follows s t a s₁ hst ha
      obtain ⟨bs, t', hbs, hebs⟩ := hrest.absorbs s₁ t₁ e s' hst₁ (raises_map.1 hx)
      exact ⟨b :: bs, t', returns_bind.2 ⟨b, t₁, hb, returns_map.2 ⟨bs, hbs, rfl⟩⟩,
        .later ⟨a, hab⟩ hebs⟩

theorem Absorbs.sequence {xs : List (DrawM α)} {ys : List (DrawM β)}
    (h : Forall₂ (Absorbs S R F) xs ys) :
    Absorbs S (Forall₂ R) (BrokenBy R F) (DrawM.sequence xs) (DrawM.sequence ys) := by
  induction h with
  | nil => exact .of_keepStep (.pure .nil) (.pure trivial)
  | cons hxy _ ih =>
    rw [DrawM.sequence, DrawM.sequence]
    exact hxy.cons ih

theorem Absorbs.repeated {x : DrawM α} {y : DrawM β} (h : Absorbs S R F x y) (n : Nat) :
    Absorbs S (Forall₂ R) (BrokenBy R F) (DrawM.repeated x n) (DrawM.repeated y n) := by
  induction n with
  | zero => exact .of_keepStep (.pure .nil) (.pure trivial)
  | succ n ih =>
    rw [DrawM.repeated, DrawM.repeated]
    exact h.cons ih

end Draws

end GenExpr
