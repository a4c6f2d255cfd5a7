import GenExpr.Proofs.Node.Builtin
import Mathlib.Data.List.Range

/-!
# The numbers of leaves

Leaves are numbered as they are built, each with the next number. So the leaves of a node bear numbers in
a row, from left to right, and no two leaves share one.
-/

namespace GenExpr

/-- Leaves that were built one after another bear the numbers between two states of building. -/
structure Numbered (b : BuildState) (ids : List Nat) (b' : BuildState) : Prop where
  inRow : ids = List.range' b.leaves ids.length
  counted : b'.leaves = b.leaves + ids.length

theorem Numbered.nil {b b' : BuildState} (h : b'.leaves = b.leaves) : Numbered b [] b' := ⟨rfl, h⟩

theorem Numbered.append {b b₁ b' : BuildState} {ids others : List Nat} (h : Numbered b ids b₁)
    (h' : Numbered b₁ others b') : Numbered b (ids ++ others) b' where
  inRow := by
    have hothers := h'.inRow
    rw [h.counted] at hothers
    rw [List.length_append, ← List.range'_append_1, ← h.inRow, ← hothers]
  counted := by rw [h'.counted, h.counted, List.length_append, Nat.add_assoc]

theorem Numbered.nodup {b b' : BuildState} {ids : List Nat} (h : Numbered b ids b') : ids.Nodup := by
  rw [h.inRow]
  exact List.nodup_range'

/-- Whatever building something comes to, its leaves were numbered meanwhile. -/
def Numbers {α : Type} (x : BuildM α) (ids : α → List Nat) : Prop :=
  ∀ b a b', Returns x b a b' → Numbered b (ids a) b'

namespace Numbers

variable {α β γ : Type} {ids : β → List Nat}

theorem pure {a : β} (h : ids a = []) : Numbers (Pure.pure a) ids := by
  intro b c b' hc
  obtain ⟨rfl, rfl⟩ := returns_pure.1 hc
  rw [h]
  exact .nil rfl

theorem throw (e : Error) : Numbers (MonadExcept.throw e : BuildM β) ids :=
  fun _ _ _ h => absurd h not_returns_throw

theorem lift_bind (x : Except Error α) {f : α → BuildM β} (h : ∀ a, Numbers (f a) ids) :
    Numbers (liftM x >>= f) ids := by
  intro b c b' hc
  obtain ⟨a, -, hc⟩ := exists_of_returns_lift_bind hc
  exact h a b c b' hc

theorem map {x : BuildM α} {f : α → β} {given : α → List Nat} (hx : Numbers x given)
    (h : ∀ a, ids (f a) = given a) : Numbers (f <$> x) ids := by
  intro b c b' hc
  obtain ⟨a, ha, rfl⟩ := returns_map.1 hc
  rw [h]
  exact hx b a b' ha

/-- What is built of two things has the leaves of the first and then those of the second. -/
theorem bind_map {x : BuildM α} {y : α → BuildM γ} {f : α → γ → β} {given : α → List Nat}
    {more : γ → List Nat} (hx : Numbers x given) (hy : ∀ a, Numbers (y a) more)
    (h : ∀ a c, ids (f a c) = given a ++ more c) : Numbers (x >>= fun a => f a <$> y a) ids := by
  intro b c b' hc
  obtain ⟨a, b₁, ha, hc⟩ := returns_bind.1 hc
  obtain ⟨d, hd, rfl⟩ := returns_map.1 hc
  rw [h]
  exact (hx b a b₁ ha).append (hy a b₁ d b' hd)

theorem ite_note_bind {c : Prop} [Decidable c] {record : Record} {f : Unit → BuildM β}
    (hf : Numbers (f ()) ids) :
    Numbers (if c then BuildM.note record >>= f else f ()) ids := by
  split
  next =>
    intro b a b' h
    obtain ⟨_, b₁, hnote, h⟩ := returns_bind.1 h
    cases hnote
    have hnumbered := hf _ a b' h
    exact ⟨hnumbered.inRow, hnumbered.counted⟩
  next => exact hf

theorem bind_note {x : BuildM α} {record : α → Record} {f : α → β} {given : α → List Nat}
    (hx : Numbers x given) (h : ∀ a, ids (f a) = given a) :
    Numbers (x >>= fun a => BuildM.note (record a) >>= fun _ => Pure.pure (f a)) ids := by
  intro b c b' hc
  obtain ⟨a, b₁, ha, hc⟩ := returns_bind.1 hc
  obtain ⟨_, b₂, hnote, hc⟩ := returns_bind.1 hc
  cases hnote
  obtain ⟨rfl, rfl⟩ := returns_pure.1 hc
  have hnumbered := hx b a b₁ ha
  rw [h]
  exact ⟨hnumbered.inRow, hnumbered.counted⟩

end Numbers

theorem Source.ids_of_isBasic {s : Source} (h : s.isBasic = true) : s.ids = [] := by
  cases s with
  | text | oneOf | array | times | leaf | adapted => cases h
  | _ => rfl

theorem Assembly.Makes.ids_eq {a : Assembly} {ss : List Source} {s : Source} (h : a.Makes ss s) :
    s.ids = Source.idsOfAll ss := by
  cases h with
  | alone simple => exact Source.ids_of_isBasic simple
  | text s => exact (List.append_nil s.ids).symm
  | oneOf => rfl
  | array => rfl
  | times count s => exact (List.append_nil s.ids).symm

section Build

variable {nest : String → BuildM Node} {o : Options}
  (hnest : ∀ e, Numbers (nest e) fun n => n.source.ids)
include hnest

theorem numbers_nestAll (args : List String) : Numbers (Builtin.nestAll nest args) Source.idsOfAll := by
  induction args with
  | nil => exact .pure rfl
  | cons a rest ih => exact (hnest a).bind_map (fun _ => ih) fun _ _ => rfl

theorem numbers_builtin (builtin : Builtin) (args : List String) :
    Numbers (builtin.build nest o args) Source.ids := by
  intro b s b' h
  obtain ⟨a, ss, -, hss, makes⟩ := Builtin.exists_of_returns_build h
  rw [makes.ids_eq]
  exact numbers_nestAll hnest _ b ss b' hss

theorem numbers_recipe (recipe : Recipe) : Numbers (recipe.build nest) Source.ids := by
  cases recipe with
  | leaf l =>
    intro b s b' h
    obtain ⟨id, b₁, hid, h⟩ := returns_bind.1 h
    obtain ⟨rfl, rfl⟩ := returns_pure.1 h
    cases hid
    exact ⟨rfl, rfl⟩
  | refuse e => exact .throw e
  | refuseAfter e reason =>
    intro b s b' h
    obtain ⟨result, b₁, -, h⟩ := returns_bind.1 h
    cases result with
    | ok n => exact absurd h not_returns_throw
    | error e => exact absurd h not_returns_throw
  | through e f => exact (hnest e).map fun _ => rfl

theorem numbers_kind (k : Kind) (args : List String) : Numbers (k.build nest o args) Source.ids := by
  cases k with
  | builtin builtin => exact numbers_builtin hnest builtin args
  | custom k => exact numbers_recipe hnest _

end Build

namespace Node

variable (r : Registry) (o : Options)

theorem numbers_buildWithin (depth : Nat) (e : String) :
    Numbers (buildWithin r o depth e) fun n => n.source.ids := by
  induction depth generalizing e with
  | zero => exact .throw _
  | succ depth ih =>
    rw [buildWithin]
    apply Numbers.ite_note_bind
    apply Numbers.lift_bind
    intro invocation
    split
    next => exact .throw _
    next k _ => exact (numbers_kind ih k _).bind_note fun _ => rfl

/-- The leaves of a node bear the numbers that were next when it was built. -/
theorem numbers_build (e : String) : Numbers (build r o e) fun n => n.source.ids :=
  numbers_buildWithin r o _ e

/-- Of nodes that are built one after another no two share a leaf. -/
theorem numbers_mapM_build (es : List String) :
    Numbers (es.mapM (build r o)) fun ns => Source.idsOfAll (ns.map Node.source) := by
  induction es with
  | nil => exact .pure rfl
  | cons e rest ih =>
    rw [List.mapM_cons]
    exact (numbers_build r o e).bind_map (fun _ => ih) fun _ _ => rfl

end Node

end GenExpr
