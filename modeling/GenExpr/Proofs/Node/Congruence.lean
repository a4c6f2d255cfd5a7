import GenExpr.Kind.Custom
import GenExpr.Node.Build
import GenExpr.Proofs.Draw.Suspension
import GenExpr.Proofs.Node.Drawn

/-!
# Building side by side

Two registries with the same kinds, except for what their leaves draw. A relation of sources that every
source which combines others keeps goes from the leaves to whatever is built: both builds fail with the
same error, or come to related sources.
-/

namespace GenExpr

open List (Forall₂)

/-- A relation of sources that goes from sources to those that combine them. -/
structure Source.Congruent (R : Source → Source → Prop) : Prop where
  plain {s : Source} : s.IsPlain → s.isAsync = false → R s s
  text {s s' : Source} : R s s' → R (.text s) (.text s')
  oneOf {first first' : Source} {others others' : List Source} :
    Forall₂ R (first :: others) (first' :: others') → R (.oneOf first others) (.oneOf first' others')
  array {items items' : List Source} : Forall₂ R items items' → R (.array items) (.array items')
  times {s s' : Source} : R s s' → ∀ count, R (.times count s) (.times count s')

/-- Sources that are put together alike out of related sources are related. -/
theorem Source.Congruent.of_makes {R : Source → Source → Prop} (hR : Congruent R) {a : Assembly}
    {ss ss' : List Source} {s s' : Source} (h : a.Makes ss s) (h' : a.Makes ss' s')
    (hss : Forall₂ R ss ss') : R s s' := by
  cases h with
  | alone simple =>
    cases h'
    exact hR.plain (isPlain_of_isBasic simple) (isAsync_of_isBasic simple)
  | text =>
    cases h'
    exact hR.text (List.forall₂_cons.1 hss).1
  | oneOf =>
    cases h'
    exact hR.oneOf hss
  | array =>
    cases h'
    exact hR.array hss
  | times count =>
    cases h'
    exact hR.times (List.forall₂_cons.1 hss).1 count

/-- Leaves that are related, or the same refusal. -/
inductive Recipe.Relates (L : Leaf → Leaf → Prop) : Recipe → Recipe → Prop
  | leaf {l l' : Leaf} (h : L l l') : Relates L (.leaf l) (.leaf l')
  | refuse (e : Error) : Relates L (.refuse e) (.refuse e)

/-- The same builtin kind, or custom kinds of related leaves. -/
inductive Kind.Relates (L : Leaf → Leaf → Prop) : Kind → Kind → Prop
  | builtin (b : Builtin) : Relates L (.builtin b) (.builtin b)
  | custom {k k' : CustomKind} (h : ∀ o args, (k.recipe o args).Relates L (k'.recipe o args)) :
      Relates L (.custom k) (.custom k')

/-- Under every name both registries have kinds of related leaves. -/
structure Registry.Relates (L : Leaf → Leaf → Prop) (r r' : Registry) : Prop where
  reach_eq : r.reach = r'.reach
  kinds : ∀ name, Option.Rel (Kind.Relates L) (r.lookup? name) (r'.lookup? name)

/-- The next leaves have the same number. -/
def BuildState.Alike (b b' : BuildState) : Prop := b.leaves = b'.leaves

theorem returns_note (record : Record) (b : BuildState) :
    Returns (BuildM.note record) b () { b with journal := b.journal ++ [record] } := rfl

theorem returns_nextLeaf (b : BuildState) :
    Returns BuildM.nextLeaf b b.leaves { b with leaves := b.leaves + 1 } := rfl

theorem keepStep_note (record record' : Record) :
    KeepStep BuildState.Alike (fun _ _ => True) (BuildM.note record) (BuildM.note record') :=
  fun b b' h => ⟨_, _, _, _, returns_note record b, returns_note record' b', trivial, h⟩

theorem keepStep_nextLeaf : KeepStep BuildState.Alike (· = ·) BuildM.nextLeaf BuildM.nextLeaf :=
  fun b b' h => ⟨_, _, _, _, returns_nextLeaf b, returns_nextLeaf b', h, congrArg (· + 1) h⟩

section Build

variable {R : Source → Source → Prop} {L : Leaf → Leaf → Prop} (hR : Source.Congruent R)
  (hL : ∀ {l l'}, L l l' → ∀ id, R (.leaf id l) (.leaf id l'))
  {nest nest' : String → BuildM Node} {o : Options}

include hL in
theorem agrees_recipe {recipe recipe' : Recipe} (h : recipe.Relates L recipe') :
    Agrees BuildState.Alike R (recipe.build nest) (recipe'.build nest') := by
  cases h with
  | leaf hl =>
    apply keepStep_nextLeaf.agrees.bind
    intro id id' heq
    obtain rfl := heq
    exact .pure (hL hl id)
  | refuse e => exact .throw e

variable (hnest : ∀ e, Agrees BuildState.Alike (fun n n' => R n.source n'.source) (nest e) (nest' e))
include hnest

theorem agrees_nestAll (args : List String) :
    Agrees BuildState.Alike (fun ss ss' => ss.length = args.length ∧ Forall₂ R ss ss')
      (Builtin.nestAll nest args) (Builtin.nestAll nest' args) := by
  induction args with
  | nil => exact .pure ⟨rfl, .nil⟩
  | cons a rest ih =>
    apply (hnest a).bind
    intro n n' hn
    exact ih.map fun ss ss' hss => ⟨congrArg (· + 1) hss.1, .cons hn hss.2⟩

include hR

theorem agrees_builtin (b : Builtin) (args : List String) :
    Agrees BuildState.Alike R (b.build nest o args) (b.build nest' o args) := by
  rcases b.reads_or_refuses o args with ⟨a, reads⟩ | ⟨d, -, hbuild⟩
  · rw [reads.build_eq, reads.build_eq]
    apply (agrees_nestAll hnest _).map
    intro ss ss' hss
    obtain ⟨hlength, hss⟩ := hss
    exact hR.of_makes (reads.makes hlength) (reads.makes (hss.length_eq ▸ hlength)) hss
  · rw [hbuild, hbuild]
    exact .throw d

include hL

theorem agrees_kind {k k' : Kind} (h : k.Relates L k') (args : List String) :
    Agrees BuildState.Alike R (k.build nest o args) (k'.build nest' o args) := by
  cases h with
  | builtin b => exact agrees_builtin hR hnest b args
  | custom h => exact agrees_recipe hL (h o args)

end Build

section Node

variable {R : Source → Source → Prop} {L : Leaf → Leaf → Prop} (hR : Source.Congruent R)
  (hL : ∀ {l l'}, L l l' → ∀ id, R (.leaf id l) (.leaf id l')) {r r' : Registry}
  (hr : r.Relates L r') (o : Options)
include hR hL hr

theorem Node.agrees_buildWithin (depth : Nat) (e : String) :
    Agrees BuildState.Alike (fun n n' => R n.source n'.source) (buildWithin r o depth e)
      (buildWithin r' o depth e) := by
  induction depth generalizing e with
  | zero => exact .throw _
  | succ depth ih =>
    rw [buildWithin, buildWithin]
    apply Agrees.ite_bind (keepStep_note _ _).agrees
    apply Agrees.lift_bind
    intro invocation
    have hkind := hr.kinds invocation.kind
    revert hkind
    generalize r.lookup? invocation.kind = found, r'.lookup? invocation.kind = found'
    intro hkind
    cases hkind with
    | none => exact .throw _
    | some hkind =>
      apply (agrees_kind hR hL ih hkind invocation.arguments).bind
      intro s s' hs
      exact (keepStep_note _ _).agrees.bind fun _ _ _ => .pure hs

theorem Node.agrees_build (e : String) :
    Agrees BuildState.Alike (fun n n' => R n.source n'.source) (build r o e) (build r' o e) := by
  have hlimit : depthLimit r e = depthLimit r' e := by rw [depthLimit, depthLimit, hr.reach_eq]
  rw [build, build, ← hlimit]
  exact agrees_buildWithin hR hL hr o _ e

end Node

/-- Leaves with scripts of equal length are related draw by draw if the scripts are step by step. -/
theorem Leaf.related_scripted {R : LeafDraw → LeafDraw → Prop} {steps steps' : List Step}
    (h : Forall₂ (fun step step' => ∀ n, R (step.draw n) (step'.draw n)) steps steps')
    (hempty : steps = [] → R (.ready .null) (.ready .null)) (asynchronous asynchronous' : Bool)
    (n : Nat) :
    R ((Leaf.scripted asynchronous steps).draw n) ((Leaf.scripted asynchronous' steps').draw n) := by
  obtain ⟨hlength, hget⟩ := List.forall₂_iff_get.1 h
  simp only [Leaf.scripted, ← hlength]
  rcases Nat.eq_zero_or_pos steps.length with hnil | hpos
  · obtain rfl := List.eq_nil_of_length_eq_zero hnil
    obtain rfl := List.eq_nil_of_length_eq_zero hlength.symm
    exact hempty rfl
  · have hi : n % steps.length < steps.length := Nat.mod_lt n hpos
    have hi' : n % steps.length < steps'.length := hlength ▸ hi
    rw [List.getElem?_eq_getElem hi, List.getElem?_eq_getElem hi']
    exact hget _ hi hi' n

namespace Registry

variable {L : Leaf → Leaf → Prop}

theorem standard_relates (L : Leaf → Leaf → Prop) : standard.Relates L standard where
  reach_eq := rfl
  kinds name := by
    cases hk : standard.lookup? name with
    | none => exact .none
    | some k =>
      obtain ⟨b, rfl, -⟩ := builtin_of_lookup? hk
      exact .some (.builtin b)

theorem Relates.register {r r' : Registry} (h : r.Relates L r') {name : String} {k k' : Kind}
    (hk : k.Relates L k') (hreach : (r.register name k).reach = (r'.register name k').reach) :
    (r.register name k).Relates L (r'.register name k') where
  reach_eq := hreach
  kinds other := by
    rw [lookup?_register, lookup?_register]
    split
    next => exact .some hk
    next => exact h.kinds other

end Registry

end GenExpr
