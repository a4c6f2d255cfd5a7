import GenExpr.Proofs.Expression.Extent
import GenExpr.Proofs.Node.Congruence
import GenExpr.Proofs.Node.Reach

/-!
# The stages of building

A node is built in three stages. It is entered: its expression is read, its kind is looked up, and the
kind checks the arguments that it reads itself. Then the expressions nested in it are built from left to
right. Then its source is made out of theirs, which cannot fail. This holds of the builtin kinds and of
kinds whose sources are leaves.
-/

namespace GenExpr

/-- What a kind checks before it builds anything: a custom kind may refuse. -/
def Kind.check (o : Options) (args : List String) : Kind → Except Error Unit
  | builtin b => b.check o args
  | custom k =>
    match k.recipe o args with
    | .refuse e => .error e
    | _ => .ok ()

/-- Whether a kind makes an asynchronous leaf of its own. -/
def Kind.ownAsync (o : Options) (args : List String) : Kind → Bool
  | builtin _ => false
  | custom k =>
    match k.recipe o args with
    | .leaf l => l.asynchronous
    | _ => false

/-- A kind whose sources are leaves, if it does not refuse. -/
def CustomKind.IsLeaf (k : CustomKind) : Prop :=
  ∀ o args, (∃ l, k.recipe o args = .leaf l) ∨ ∃ e, k.recipe o args = .refuse e

/-- The standard registry with kinds of leaves under other names. -/
structure Registry.AddsLeaves (r : Registry) : Prop where
  builtin (b : Builtin) : r.lookup? b.name = some (.builtin b)
  custom {name : String} {k : Kind} (h : r.lookup? name = some k) :
    (∃ b : Builtin, b.name = name ∧ k = .builtin b) ∨ ∃ c : CustomKind, k = .custom c ∧ c.IsLeaf

/-- A kind that builds nothing but what is nested in it. -/
def Kind.IsPlain (k : Kind) : Prop := ∀ c, k = .custom c → c.IsLeaf

/-- Builtin kinds and kinds of leaves, under any names. -/
def Registry.IsPlain (r : Registry) : Prop :=
  ∀ {name : String} {k : Kind}, r.lookup? name = some k → k.IsPlain

namespace Registry

theorem standard_addsLeaves : standard.AddsLeaves where
  builtin := lookup?_builtin
  custom h := .inl (lookup?_standard_iff.1 h)

theorem AddsLeaves.register {r : Registry} (hr : r.AddsLeaves) {name : String} {c : CustomKind}
    (hname : ∀ b : Builtin, b.name ≠ name) (hc : c.IsLeaf) :
    (r.register name (.custom c)).AddsLeaves where
  builtin b := by
    rw [lookup?_register, if_neg (hname b)]
    exact hr.builtin b
  custom h := by
    rw [lookup?_register] at h
    split at h
    next => exact .inr ⟨c, (Option.some.inj h).symm, hc⟩
    next => exact hr.custom h

theorem AddsLeaves.isPlain {r : Registry} (hr : r.AddsLeaves) : r.IsPlain := by
  rintro name k h c rfl
  rcases hr.custom h with ⟨b, -, hb⟩ | ⟨c', hc', hleaf⟩
  · cases hb
  · obtain rfl := Kind.custom.inj hc'
    exact hleaf

end Registry

section Build

variable {o : Options} {args : List String} {d : Error}

/-- What is left to do for a kind when the expressions nested in it are built: it makes a source, and
notes nothing. -/
structure Kind.Finishes (o : Options) (args : List String) (k : Kind)
    (f : List Source → BuildM Source) : Prop where
  build_eq (nest : String → BuildM Node) :
    k.build nest o args = Builtin.nestAll nest (k.nested o args) >>= f
  returns {ss : List Source} (h : ss.length = (k.nested o args).length) (b : BuildState) :
    ∃ s b', Returns (f ss) b s b' ∧ s.isAsync = (k.ownAsync o args || Source.anyAsync ss) ∧
      b'.journal = b.journal

namespace Kind

variable {k : Kind}

theorem build_of_check_error (h : k.check o args = .error d) (nest : String → BuildM Node) :
    k.build nest o args = throw d := by
  cases k with
  | builtin b => exact Builtin.build_of_check_error h nest
  | custom c =>
    rw [check] at h
    rw [build]
    split at h
    next hrecipe =>
      obtain rfl := Except.error.inj h
      rw [hrecipe]
      rfl
    next => cases h

theorem exists_finishes_of_check (hk : k.IsPlain) (h : k.check o args = .ok ()) :
    ∃ f, k.Finishes o args f := by
  cases k with
  | builtin b =>
    obtain ⟨a, reads⟩ := Builtin.check_eq_ok_iff.1 h
    refine ⟨fun ss => pure (a.make ss), ?_, ?_⟩
    · intro nest
      rw [build, reads.build_eq, map_eq_pure_bind]
    · intro ss hlength b
      exact ⟨a.make ss, b, returns_pure.2 ⟨rfl, rfl⟩, (reads.makes hlength).isAsync_eq, rfl⟩
  | custom c =>
    rw [check] at h
    rcases hk c rfl o args with ⟨l, hrecipe⟩ | ⟨e, hrecipe⟩
    · have hnested : (custom c).nested o args = [] := by rw [nested, hrecipe]
      refine ⟨fun _ => do return .leaf (← BuildM.nextLeaf) l, ?_, ?_⟩
      · intro nest
        rw [build, hnested, hrecipe]
        rfl
      · intro ss hlength b
        rw [hnested] at hlength
        obtain rfl := List.eq_nil_of_length_eq_zero hlength
        refine ⟨.leaf b.leaves l, { b with leaves := b.leaves + 1 }, ?_, ?_, rfl⟩
        · exact returns_bind.2 ⟨_, _, returns_nextLeaf b, returns_pure.2 ⟨rfl, rfl⟩⟩
        · rw [ownAsync, hrecipe, Source.anyAsync, Bool.or_false]
          rfl
    · rw [hrecipe] at h
      cases h

end Kind

end Build

namespace Node

variable {r : Registry} {o : Options} {e : String} {i : Invocation} {k : Kind} {d : Error}

/-- What a node does before anything nested in it is built: its expression is read, its kind looked up,
and the kind checks its arguments. -/
def enter (r : Registry) (o : Options) (e : String) : Except Error (Invocation × Kind) := do
  let i ← Expression.parse e
  match r.lookup? i.kind with
  | none => .error (.unknownKind i.kind)
  | some k => do
    k.check o i.arguments
    return (i, k)

theorem enter_eq_ok_iff : enter r o e = .ok (i, k) ↔
    Expression.parse e = .ok i ∧ r.lookup? i.kind = some k ∧ k.check o i.arguments = .ok () := by
  rw [enter, Except.bind_eq_ok_iff]
  constructor
  · rintro ⟨i', parsed, h⟩
    split at h
    next => cases h
    next k' hk =>
      obtain ⟨_, hcheck, h⟩ := Except.bind_eq_ok_iff.1 h
      obtain ⟨rfl, rfl⟩ := Prod.mk.inj (Except.ok.inj h)
      exact ⟨parsed, hk, hcheck⟩
  · rintro ⟨parsed, hk, hcheck⟩
    refine ⟨i, parsed, ?_⟩
    simp only [hk, hcheck]
    rfl

theorem check_of_enter_error (parsed : Expression.parse e = .ok i) (hk : r.lookup? i.kind = some k)
    (h : enter r o e = .error d) : k.check o i.arguments = .error d := by
  rw [enter, parsed] at h
  cases hcheck : k.check o i.arguments with
  | error d' =>
    simp only [bind, Except.bind, hk, hcheck] at h
    exact congrArg Except.error (Except.error.inj h)
  | ok u =>
    simp only [bind, Except.bind, hk, hcheck] at h
    cases h

/-- How a node is built from its expression, by how nested expressions are built. -/
def construct (nest : String → BuildM Node) (r : Registry) (o : Options) (e : String) :
    BuildM Node := do
  let invocation ← Expression.parse e
  match r.lookup? invocation.kind with
  | none => throw (.unknownKind invocation.kind)
  | some k =>
    let source ← k.build nest o invocation.arguments
    BuildM.note (.built invocation.kind e source.isAsync)
    return ⟨invocation.kind, invocation.arguments, source⟩

/-- As `construct`, after a repetition is noted. -/
def buildFrom (nest : String → BuildM Node) (r : Registry) (o : Options) (e : String) :
    BuildM Node := do
  if Expression.isRepetition e then BuildM.note (.expanding e)
  construct nest r o e

theorem buildWithin_succ (depth : Nat) :
    buildWithin r o (depth + 1) = buildFrom (buildWithin r o depth) r o := rfl

/-- What is noted of an expression before it is read. -/
def expansion (e : String) : List Record := if Expression.isRepetition e then [.expanding e] else []

theorem run_buildFrom (nest : String → BuildM Node) (b : BuildState) :
    (buildFrom nest r o e).run.run b =
      (construct nest r o e).run.run { b with journal := b.journal ++ expansion e } := by
  rw [buildFrom, expansion]
  split
  next => rfl
  next => rw [List.append_nil]

theorem construct_of_enter_error (h : enter r o e = .error d) (nest : String → BuildM Node) :
    construct nest r o e = throw d := by
  rw [enter] at h
  rw [construct]
  cases hparse : Expression.parse e with
  | error d' =>
    rw [hparse] at h
    obtain rfl := Except.error.inj h
    rfl
  | ok i =>
    rw [hparse] at h
    rw [lift_ok_bind]
    cases hk : r.lookup? i.kind with
    | none =>
      simp only [bind, Except.bind, hk] at h
      obtain rfl := Except.error.inj h
      rfl
    | some k =>
      simp only [bind, Except.bind, hk] at h
      cases hcheck : k.check o i.arguments with
      | error d' =>
        rw [hcheck] at h
        obtain rfl := Except.error.inj h
        simp only [Kind.build_of_check_error hcheck]
        rfl
      | ok u =>
        rw [hcheck] at h
        cases h

/-- What is left to do for a node when the expressions nested in it are built: it is made, and only that
is noted. -/
structure Completes (r : Registry) (o : Options) (e : String) (i : Invocation) (k : Kind)
    (f : List Source → BuildM Node) : Prop where
  construct_eq (nest : String → BuildM Node) :
    construct nest r o e = Builtin.nestAll nest (k.nested o i.arguments) >>= f
  returns {ss : List Source} (h : ss.length = (k.nested o i.arguments).length) (b : BuildState) :
    ∃ n b', Returns (f ss) b n b' ∧
      n.isAsync = (k.ownAsync o i.arguments || Source.anyAsync ss) ∧
      b'.journal = b.journal ++ [.built i.kind e n.isAsync]

theorem exists_completes_of_enter (hr : r.IsPlain) (h : enter r o e = .ok (i, k)) :
    ∃ f, Completes r o e i k f := by
  obtain ⟨parsed, hk, hcheck⟩ := enter_eq_ok_iff.1 h
  obtain ⟨f, hf⟩ := Kind.exists_finishes_of_check (hr hk) hcheck
  refine ⟨fun ss => do
    let source ← f ss
    BuildM.note (.built i.kind e source.isAsync)
    return ⟨i.kind, i.arguments, source⟩, ?_, ?_⟩
  · intro nest
    rw [construct, parsed, lift_ok_bind]
    simp only [hk, hf.build_eq, bind_assoc]
  · intro ss hlength b
    obtain ⟨s, b₁, hs, hasync, hjournal⟩ := hf.returns hlength b
    refine ⟨⟨i.kind, i.arguments, s⟩,
      { b₁ with journal := b₁.journal ++ [.built i.kind e s.isAsync] }, ?_, hasync, ?_⟩
    · apply returns_bind.2 ⟨s, b₁, hs, ?_⟩
      exact returns_bind.2 ⟨(), _, returns_note _ b₁, returns_pure.2 ⟨rfl, rfl⟩⟩
    · rw [← hjournal]
      rfl

end Node

end GenExpr
