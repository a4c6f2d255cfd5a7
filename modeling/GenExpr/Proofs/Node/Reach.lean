import GenExpr.Kind.Custom
import GenExpr.Proofs.Draw.Prompt
import GenExpr.Proofs.Node.Drawn

/-!
# The leaves that an expression reaches

What is built from an expression can draw from the leaves of the custom kinds that it names, itself or in
the expressions nested in it. They are told from the text alone. A node is asynchronous if such a leaf
is, and only then; and where those that call themselves synchronous are prompt, a node without an
asynchronous one is prompt.
-/

namespace GenExpr

inductive Reaches (r : Registry) (o : Options) : String → Leaf → Prop
  | leaf {e kind : String} {args : List String} {k : CustomKind} {l : Leaf}
      (parsed : Expression.parse e = .ok ⟨kind, args⟩)
      (registered : r.lookup? kind = some (.custom k)) (recipe : k.recipe o args = .leaf l) :
      Reaches r o e l
  | nested {e kind a : String} {args : List String} {k : Kind} {l : Leaf}
      (parsed : Expression.parse e = .ok ⟨kind, args⟩) (registered : r.lookup? kind = some k)
      (mem : a ∈ k.nested o args) (inner : Reaches r o a l) :
      Reaches r o e l

theorem reaches_iff {r : Registry} {o : Options} {e kind : String} {args : List String} {k : Kind}
    {l : Leaf} (parsed : Expression.parse e = .ok ⟨kind, args⟩)
    (registered : r.lookup? kind = some k) :
    Reaches r o e l ↔ (∃ c, k = .custom c ∧ c.recipe o args = .leaf l) ∨
      ∃ a ∈ k.nested o args, Reaches r o a l := by
  constructor
  · intro h
    cases h with
    | leaf parsed' registered' recipe =>
      obtain ⟨rfl, rfl⟩ := Invocation.mk.inj (Except.ok.inj (parsed.symm.trans parsed'))
      obtain rfl := Option.some.inj (registered.symm.trans registered')
      exact .inl ⟨_, rfl, recipe⟩
    | nested parsed' registered' mem inner =>
      obtain ⟨rfl, rfl⟩ := Invocation.mk.inj (Except.ok.inj (parsed.symm.trans parsed'))
      obtain rfl := Option.some.inj (registered.symm.trans registered')
      exact .inr ⟨_, mem, inner⟩
  · rintro (⟨c, rfl, recipe⟩ | ⟨a, mem, inner⟩)
    · exact .leaf parsed registered recipe
    · exact .nested parsed registered mem inner

theorem Source.leaves_of_isBasic {s : Source} (h : s.isBasic = true) : s.leaves = [] := by
  cases s with
  | text | oneOf | array | times | leaf | adapted => cases h
  | _ => rfl

theorem Assembly.Makes.leaves_eq {a : Assembly} {ss : List Source} {s : Source} (h : a.Makes ss s) :
    s.leaves = Source.leavesOfAll ss := by
  cases h with
  | alone simple => exact Source.leaves_of_isBasic simple
  | text s => exact (List.append_nil s.leaves).symm
  | oneOf => rfl
  | array => rfl
  | times count s => exact (List.append_nil s.leaves).symm

section Build

variable {r : Registry} {o : Options} {nest : String → BuildM Node} {args : List String} {s : Source}
  {b b' : BuildState}

/-- What builds nested expressions gives nodes with the leaves that those expressions reach. -/
def KeepsLeaves (r : Registry) (o : Options) (nest : String → BuildM Node) : Prop :=
  ∀ e b n b', Returns (nest e) b n b' → ∀ l, l ∈ n.source.leaves ↔ Reaches r o e l

variable (hnest : KeepsLeaves r o nest)
include hnest

theorem mem_leaves_nestAll {ss : List Source} (h : Returns (Builtin.nestAll nest args) b ss b')
    (l : Leaf) : l ∈ Source.leavesOfAll ss ↔ ∃ a ∈ args, Reaches r o a l := by
  induction args generalizing b ss with
  | nil =>
    obtain ⟨rfl, -⟩ := returns_pure.1 h
    simp [Source.leavesOfAll]
  | cons a rest ih =>
    obtain ⟨n, b₁, hn, h⟩ := returns_bind.1 h
    obtain ⟨ss, hss, rfl⟩ := returns_map.1 h
    rw [Source.leavesOfAll, List.mem_append, hnest _ _ _ _ hn, ih hss, List.exists_mem_cons_iff]

theorem mem_leaves_builtin (builtin : Builtin) (h : Returns (builtin.build nest o args) b s b')
    (l : Leaf) : l ∈ s.leaves ↔ ∃ a ∈ (Kind.builtin builtin).nested o args, Reaches r o a l := by
  obtain ⟨a, ss, -, hss, makes⟩ := Builtin.exists_of_returns_build h
  rw [makes.leaves_eq, mem_leaves_nestAll hnest hss]

theorem mem_leaves_custom (k : CustomKind) (h : Returns ((k.recipe o args).build nest) b s b')
    (l : Leaf) : l ∈ s.leaves ↔ k.recipe o args = .leaf l ∨
      ∃ a ∈ (Kind.custom k).nested o args, Reaches r o a l := by
  rw [Kind.nested]
  cases hrecipe : k.recipe o args with
  | leaf l' =>
    rw [hrecipe] at h
    obtain ⟨id, b₁, -, h⟩ := returns_bind.1 h
    obtain ⟨rfl, -⟩ := returns_pure.1 h
    simp [Source.leaves, eq_comm]
  | refuse e =>
    rw [hrecipe] at h
    exact absurd h not_returns_throw
  | refuseAfter inner reason =>
    rw [hrecipe] at h
    obtain ⟨result, b₁, -, h⟩ := returns_bind.1 h
    cases result with
    | ok n => exact absurd h not_returns_throw
    | error e => exact absurd h not_returns_throw
  | through inner f =>
    rw [hrecipe] at h
    obtain ⟨n, b₁, hn, h⟩ := returns_bind.1 h
    obtain ⟨rfl, -⟩ := returns_pure.1 h
    rw [Source.leaves, hnest _ _ _ _ hn]
    simp

theorem mem_leaves_kind (k : Kind) (h : Returns (k.build nest o args) b s b') (l : Leaf) :
    l ∈ s.leaves ↔ (∃ c, k = .custom c ∧ c.recipe o args = .leaf l) ∨
      ∃ a ∈ k.nested o args, Reaches r o a l := by
  cases k with
  | builtin builtin =>
    rw [mem_leaves_builtin hnest builtin h]
    simp
  | custom k =>
    rw [mem_leaves_custom hnest k h]
    simp

end Build

namespace Node

variable {r : Registry} {o : Options} {e : String} {b b' : BuildState} {n : Node}

theorem keepsLeaves_buildWithin (depth : Nat) : KeepsLeaves r o (buildWithin r o depth) := by
  induction depth with
  | zero =>
    intro e b n b' h
    exact absurd h not_returns_throw
  | succ depth ih =>
    intro e b n b' h l
    -- The text and the source are taken apart by the same kind, and the leaves beneath agree by `ih`.
    obtain ⟨k, b₁, b₂, parsed, hk, hsource⟩ := exists_of_buildWithin h
    rw [mem_leaves_kind ih k hsource, reaches_iff parsed hk]

theorem mem_leaves_iff (built : Returns (build r o e) b n b') (l : Leaf) :
    l ∈ n.source.leaves ↔ Reaches r o e l :=
  keepsLeaves_buildWithin _ e b n b' built l

end Node

/-- Each leaf of a custom kind that calls itself synchronous is prompt. -/
def Registry.Honest (r : Registry) : Prop :=
  ∀ name k, r.lookup? name = some (.custom k) →
    ∀ o args l, k.recipe o args = .leaf l → l.asynchronous = false → l.Prompt

theorem Registry.Honest.prompt_of_reaches {r : Registry} (hr : r.Honest) {o : Options} {e : String}
    {l : Leaf} (h : Reaches r o e l) (hsync : l.asynchronous = false) : l.Prompt := by
  induction h with
  | leaf _ registered recipe => exact hr _ _ registered _ _ _ recipe hsync
  | nested _ _ _ _ ih => exact ih hsync

theorem Node.prompt_of_not_isAsync {r : Registry} (hr : r.Honest) {o : Options} {e : String}
    {b b' : BuildState} {n : Node} (built : Returns (build r o e) b n b')
    (hsync : n.isAsync = false) : n.source.Prompt := by
  apply Source.prompt_of_leaves
  intro l hl
  rw [isAsync, Source.isAsync_eq_any_leaves, List.any_eq_false] at hsync
  exact hr.prompt_of_reaches ((mem_leaves_iff built l).1 hl) (by simpa using hsync l hl)

theorem Leaf.prompt_scripted {steps : List Step} (asynchronous : Bool)
    (h : ∀ step ∈ steps, ∀ n, (∃ v, step.draw n = .ready v) ∨ ∃ e, step.draw n = .fail e) :
    (scripted asynchronous steps).Prompt := by
  intro n
  rw [scripted]
  cases hstep : steps[n % steps.length]? with
  | none => exact .inl ⟨.null, by simp [hstep]⟩
  | some step => simpa [hstep] using h step (List.mem_of_getElem? hstep) n

theorem Registry.lookup?_builtin (b : Builtin) : standard.lookup? b.name = some (.builtin b) := by
  cases b <;> rfl

theorem Registry.lookup?_standard_iff {name : String} {k : Kind} :
    standard.lookup? name = some k ↔ ∃ b : Builtin, b.name = name ∧ k = .builtin b := by
  constructor
  · intro h
    obtain ⟨b, rfl, hname⟩ := builtin_of_lookup? h
    exact ⟨b, hname, rfl⟩
  · rintro ⟨b, rfl, rfl⟩
    exact lookup?_builtin b

theorem Registry.standard_honest : Registry.standard.Honest := by
  intro name k hk
  obtain ⟨b, hb, -⟩ := builtin_of_lookup? hk
  cases hb

theorem Registry.Honest.register {r : Registry} (hr : r.Honest) {name : String} {k : CustomKind}
    (hk : ∀ o args l, k.recipe o args = .leaf l → l.asynchronous = false → l.Prompt) :
    (r.register name (.custom k)).Honest := by
  intro name' k' hfind
  rw [lookup?_register] at hfind
  split at hfind
  next =>
    obtain rfl := Kind.custom.inj (Option.some.inj hfind)
    exact hk
  next => exact hr name' k' hfind

end GenExpr
