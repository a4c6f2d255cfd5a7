import GenExpr.Proofs.Node.Stages

/-!
# Building descends

While an expression is being built, its kind hands others on to be built. They are among its arguments,
and shorter than it. Two things stand against this. A repetition is written out to a longer text; but what
that text has more is a name, colons and parentheses, which are part of no argument. And a range or a
quotation is its own argument; but the kinds of these hand nothing on. So building comes to an end, and the
depth that bounds it is never reached.
-/

namespace GenExpr

/-- A kind that makes its sources without building any expression. -/
def Kind.BuildsAlone (k : Kind) : Prop :=
  ∀ (nest nest' : String → BuildM Node) o args, k.build nest o args = k.build nest' o args

/-- Builtin kinds and kinds of leaves, under any names. The kinds of ranges and quotations, which are given
the whole expression as their argument, build nothing of it. -/
structure Registry.Descends (r : Registry) : Prop where
  plain {name : String} {k : Kind} (h : r.lookup? name = some k) : k.IsPlain
  shorthand {name : String} {k : Kind} (hname : name ∈ ["number", "char", "literal"])
    (h : r.lookup? name = some k) : k.BuildsAlone

theorem CustomKind.IsLeaf.buildsAlone {c : CustomKind} (hc : c.IsLeaf) :
    (Kind.custom c).BuildsAlone := by
  intro nest nest' o args
  rcases hc o args with ⟨l, hrecipe⟩ | ⟨d, hrecipe⟩
  · rw [Kind.build, Kind.build, hrecipe]
    rfl
  · rw [Kind.build, Kind.build, hrecipe]
    rfl

theorem Builtin.buildsAlone {b : Builtin} (h : b ∉ [string, oneOf, array, repetition]) :
    (Kind.builtin b).BuildsAlone := by
  intro nest nest' o args
  have hnested : (Kind.builtin b).nested o args = [] := by
    cases b with
    | string | oneOf | array | repetition => exact absurd (by decide) h
    | _ => rfl
  apply b.build_congr_nest
  rw [hnested]
  exact List.forall_mem_nil _

/-- What is nested in an invocation is one of its arguments as they stand: the default of an empty argument
is not built as an expression. -/
theorem Kind.mem_of_mem_nested {k : Kind} (hk : k.IsPlain) {o : Options} {args : List String} {a : String}
    (ha : a ∈ k.nested o args) : a ∈ args := by
  cases k with
  | builtin b =>
    cases b with
    | string =>
      rw [nested] at ha
      split at ha
      next => exact absurd ha List.not_mem_nil
      next hspan =>
        obtain rfl := List.mem_singleton.1 ha
        cases args with
        | nil => exact absurd (by decide) hspan
        | cons a rest =>
          rw [orDefault] at hspan ⊢
          split at hspan
          next => exact absurd (by decide) hspan
          next hempty =>
            rw [if_neg hempty]
            exact List.mem_cons_self
    | oneOf => exact ha
    | array => exact ha
    | repetition =>
      cases args with
      | nil => exact absurd ha List.not_mem_nil
      | cons count rest =>
        cases rest with
        | nil => exact absurd ha List.not_mem_nil
        | cons inner rest =>
          obtain rfl := List.mem_singleton.1 ha
          exact List.mem_cons_of_mem _ List.mem_cons_self
    | _ => exact absurd ha List.not_mem_nil
  | custom c =>
    rw [nested] at ha
    rcases hk c rfl o args with ⟨l, hrecipe⟩ | ⟨d, hrecipe⟩
    · rw [hrecipe] at ha
      exact absurd ha List.not_mem_nil
    · rw [hrecipe] at ha
      exact absurd ha List.not_mem_nil

namespace Registry

theorem AddsLeaves.descends {r : Registry} (hr : r.AddsLeaves) : r.Descends where
  plain h := hr.isPlain h
  shorthand hname h := by
    rcases hr.custom h with ⟨b, rfl, rfl⟩ | ⟨c, rfl, hc⟩
    · apply Builtin.buildsAlone
      revert hname
      cases b <;> decide
    · exact hc.buildsAlone

theorem standard_descends : standard.Descends := standard_addsLeaves.descends

theorem Descends.register {r : Registry} (hr : r.Descends) {name : String} {k : Kind}
    (hplain : k.IsPlain) (hname : name ∈ ["number", "char", "literal"] → k.BuildsAlone) :
    (r.register name k).Descends where
  plain h := by
    rw [lookup?_register] at h
    split at h
    next => exact Option.some.inj h ▸ hplain
    next => exact hr.plain h
  shorthand hmem h := by
    rw [lookup?_register] at h
    split at h
    next heq => exact Option.some.inj h ▸ hname (heq ▸ hmem)
    next => exact hr.shorthand hmem h

end Registry

namespace Node

variable {r : Registry} {o : Options} {e a : String} {i : Invocation} {k : Kind}
  {nest nest' : String → BuildM Node}

/-- While an expression is being built, another one is handed on to be built: how that one is built, and
all others alike, makes a difference. -/
def HandsOn (r : Registry) (o : Options) (e a : String) : Prop :=
  ∃ nest nest' : String → BuildM Node,
    (∀ a', a' ≠ a → nest a' = nest' a') ∧ buildFrom nest r o e ≠ buildFrom nest' r o e

/-- The expressions that are handed on while an expression is being built, in their order. -/
def handedOn (r : Registry) (o : Options) (e : String) : List String :=
  match enter r o e with
  | .ok (i, k) => k.nested o i.arguments
  | .error _ => []

theorem handedOn_of_enter (entered : enter r o e = .ok (i, k)) :
    handedOn r o e = k.nested o i.arguments := by
  unfold handedOn
  rw [entered]

theorem exists_enter_of_mem_handedOn (h : a ∈ handedOn r o e) :
    ∃ i k, enter r o e = .ok (i, k) ∧ a ∈ k.nested o i.arguments := by
  cases entered : enter r o e with
  | error d =>
    unfold handedOn at h
    rw [entered] at h
    exact absurd h List.not_mem_nil
  | ok p =>
    obtain ⟨i, k⟩ := p
    exact ⟨i, k, rfl, handedOn_of_enter entered ▸ h⟩

/-- An empty node for every expression, or for every expression but one. -/
def buildAllBut (refused : Option String) (e : String) : BuildM Node :=
  if refused = some e then throw (.unknownKind e) else pure ⟨"", [], .array []⟩

theorem nestAll_buildAllBut_none (args : List String) :
    Builtin.nestAll (buildAllBut none) args = pure (args.map fun _ => .array []) := by
  induction args with
  | nil => rfl
  | cons a rest ih =>
    rw [Builtin.nestAll, ih]
    rfl

theorem nestAll_buildAllBut_some {args : List String} (ha : a ∈ args) :
    Builtin.nestAll (buildAllBut (some a)) args = throw (.unknownKind a) := by
  induction args with
  | nil => exact absurd ha List.not_mem_nil
  | cons a' rest ih =>
    rw [Builtin.nestAll, buildAllBut]
    by_cases heq : a = a'
    · rw [if_pos (congrArg some heq), heq]
      rfl
    · rw [if_neg fun h => heq (Option.some.inj h), ih ((List.mem_cons.1 ha).resolve_left heq)]
      rfl

theorem buildFrom_of_construct_eq (h : construct nest r o e = construct nest' r o e) :
    buildFrom nest r o e = buildFrom nest' r o e := by
  rw [buildFrom, buildFrom, h]

theorem not_handsOn_of_buildsAlone (parsed : Expression.parse e = .ok i)
    (hk : r.lookup? i.kind = some k) (halone : k.BuildsAlone) : ¬HandsOn r o e a := by
  rintro ⟨nest, nest', -, hne⟩
  apply hne
  apply buildFrom_of_construct_eq
  rw [construct, construct, parsed, lift_ok_bind, lift_ok_bind]
  simp only [hk, halone nest nest']

section Plain

variable (hr : r.IsPlain)
include hr

theorem buildFrom_congr (h : ∀ a ∈ handedOn r o e, nest a = nest' a) :
    buildFrom nest r o e = buildFrom nest' r o e := by
  apply buildFrom_of_construct_eq
  cases entered : enter r o e with
  | error d => rw [construct_of_enter_error entered, construct_of_enter_error entered]
  | ok p =>
    obtain ⟨i, k⟩ := p
    obtain ⟨f, hf⟩ := exists_completes_of_enter hr entered
    rw [handedOn_of_enter entered] at h
    rw [hf.construct_eq, hf.construct_eq, Builtin.nestAll_congr h]

/-- If all that is handed on builds, so does the expression, and if all but one does, it fails because of
that one. -/
theorem handsOn_of_mem (ha : a ∈ handedOn r o e) : HandsOn r o e a := by
  obtain ⟨i, k, entered, ha⟩ := exists_enter_of_mem_handedOn ha
  obtain ⟨f, hf⟩ := exists_completes_of_enter hr entered
  have hfails : Raises (buildFrom (buildAllBut (some a)) r o e) ⟨[], 0⟩ (.unknownKind a)
      ⟨expansion e, 0⟩ := by
    rw [Raises, Ends, run_buildFrom, hf.construct_eq, nestAll_buildAllBut_some ha]
    rfl
  obtain ⟨n, b', hn, -, -⟩ := hf.returns (List.length_map _) ⟨expansion e, 0⟩
  have hbuilds : Returns (buildFrom (buildAllBut none) r o e) ⟨[], 0⟩ n b' := by
    rw [Returns, Ends, run_buildFrom, hf.construct_eq, nestAll_buildAllBut_none]
    exact hn
  refine ⟨buildAllBut none, buildAllBut (some a), ?_, ?_⟩
  · intro a' hne
    rw [buildAllBut, buildAllBut, if_neg (Option.some_ne_none a').symm,
      if_neg fun h => hne (Option.some.inj h).symm]
  · intro heq
    rw [heq] at hbuilds
    exact hfails.not_returns hbuilds

theorem handsOn_iff : HandsOn r o e a ↔ a ∈ handedOn r o e := by
  constructor
  · rintro ⟨nest, nest', hother, hne⟩
    by_contra ha
    exact hne (buildFrom_congr hr fun a' ha' => hother a' fun heq => ha (heq ▸ ha'))
  · exact handsOn_of_mem hr

end Plain

section Descends

variable (hr : r.Descends)
include hr

theorem argument_of_handsOn (h : HandsOn r o e a) :
    ∃ i, Expression.parse e = .ok i ∧ a ∈ i.arguments := by
  obtain ⟨i, k, entered, ha⟩ := exists_enter_of_mem_handedOn ((handsOn_iff hr.plain).1 h)
  obtain ⟨parsed, hk, -⟩ := enter_eq_ok_iff.1 entered
  exact ⟨i, parsed, Kind.mem_of_mem_nested (hr.plain hk) ha⟩

/-- What is handed on is shorter. -/
theorem length_lt_of_mem_handedOn (ha : a ∈ handedOn r o e) : a.length < e.length := by
  obtain ⟨i, k, entered, hmem⟩ := exists_enter_of_mem_handedOn ha
  obtain ⟨parsed, hk, -⟩ := enter_eq_ok_iff.1 entered
  rcases Expression.length_lt_of_parse parsed with ⟨hkind, -⟩ | hshort
  · have halone := hr.shorthand hkind hk
    exact absurd (handsOn_of_mem hr.plain ha) (not_handsOn_of_buildsAlone parsed hk halone)
  · exact hshort a (Kind.mem_of_mem_nested (hr.plain hk) hmem)

theorem length_lt_of_handsOn (h : HandsOn r o e a) : a.length < e.length :=
  length_lt_of_mem_handedOn hr ((handsOn_iff hr.plain).1 h)

theorem length_lt_of_enter (entered : enter r o e = .ok (i, k)) (ha : a ∈ k.nested o i.arguments) :
    a.length < e.length :=
  length_lt_of_mem_handedOn hr (handedOn_of_enter entered ▸ ha)

theorem wellFounded_handsOn : WellFounded fun a e => HandsOn r o e a :=
  Subrelation.wf (fun h => length_lt_of_handsOn hr h) (measure String.length).wf

/-- Depths beyond the length of an expression make no difference. -/
theorem buildWithin_eq_of_length_lt {depth depth' : Nat} (h : e.length < depth)
    (h' : e.length < depth') : buildWithin r o depth e = buildWithin r o depth' e := by
  induction depth generalizing depth' e with
  | zero => omega
  | succ depth ih =>
    cases depth' with
    | zero => omega
    | succ depth' =>
      rw [buildWithin_succ, buildWithin_succ]
      apply buildFrom_congr hr.plain
      intro a ha
      have hlength := length_lt_of_mem_handedOn hr ha
      exact ih (by omega) (by omega)

theorem buildWithin_eq_build {depth : Nat} (h : e.length < depth) :
    buildWithin r o depth e = build r o e :=
  buildWithin_eq_of_length_lt hr h (length_lt_depthLimit r e)

/-- Building goes by recursion without any bound on the depth. -/
theorem build_eq_buildFrom : build r o e = buildFrom (build r o) r o e := by
  rw [build, depthLimit, buildWithin_succ]
  apply buildFrom_congr hr.plain
  intro a ha
  have hlength := length_lt_of_mem_handedOn hr ha
  exact buildWithin_eq_build hr (by omega)

end Descends

/-- Building an expression comes to an end, and this is what it does: every expression that is handed on is
built in the same way, and that goes on for finitely many levels. -/
inductive Unfolds (r : Registry) (o : Options) : String → BuildM Node → Prop
  | intro {e : String} {nest : String → BuildM Node}
      (inner : ∀ a, HandsOn r o e a → Unfolds r o a (nest a)) : Unfolds r o e (buildFrom nest r o e)

theorem unfolds_build (hr : r.Descends) (e : String) : Unfolds r o e (build r o e) := by
  apply (wellFounded_handsOn hr).induction e
  intro e ih
  rw [build_eq_buildFrom hr]
  exact .intro ih

theorem Unfolds.eq_build (hr : r.Descends) {x : BuildM Node} (h : Unfolds r o e x) :
    x = build r o e := by
  induction h with
  | intro _ ih =>
    rw [build_eq_buildFrom hr]
    apply buildFrom_congr hr.plain
    intro a ha
    exact ih a (handsOn_of_mem hr.plain ha)

theorem not_unfolds_of_handsOn_self (h : HandsOn r o e e) (x : BuildM Node) : ¬Unfolds r o e x := by
  intro hx
  induction hx with
  | intro _ ih => exact ih _ h h

/-- The kinds of the shorthands have to build nothing: if quotations were arrays, each would be an array of
itself. -/
theorem quotation_never_ends (hr : r.IsPlain)
    (hliteral : r.lookup? "literal" = some (.builtin .array))
    (he : Expression.IsQuotation e.toList) : HandsOn r o e e ∧ ∀ x, ¬Unfolds r o e x := by
  have entered : enter r o e = .ok (⟨"literal", [e]⟩, .builtin .array) :=
    enter_eq_ok_iff.2 ⟨Expression.parse_of_isQuotation he, hliteral, rfl⟩
  have hself : HandsOn r o e e := by
    apply handsOn_of_mem hr
    rw [handedOn_of_enter entered]
    exact List.mem_singleton_self e
  exact ⟨hself, not_unfolds_of_handsOn_self hself⟩

/-- The expressions that are handed on while an expression is being built are those nested in it. They are
arguments of it as they stand, no defaults, and shorter than it, though a repetition is shorter than what it
is written out to. So building comes to an end for every expression, it does so in one way only, and any
depth beyond the length of the expression is deep enough. -/
theorem building_descends (hr : r.Descends) (o : Options) (e : String) :
    (∀ a, HandsOn r o e a ↔ a ∈ handedOn r o e) ∧
    (∀ a, HandsOn r o e a →
      (∃ i, Expression.parse e = .ok i ∧ a ∈ i.arguments) ∧ a.length < e.length) ∧
    (Expression.isRepetition e = true → e.length < (Expression.expand e).length) ∧
    (∀ x, Unfolds r o e x ↔ x = build r o e) ∧
    ∀ depth, e.length < depth → buildWithin r o depth e = build r o e := by
  refine ⟨fun a => handsOn_iff hr.plain, ?_, Expression.length_lt_expand, ?_, ?_⟩
  · intro a h
    exact ⟨argument_of_handsOn hr h, length_lt_of_handsOn hr h⟩
  · intro x
    constructor
    · exact Unfolds.eq_build hr
    · rintro rfl
      exact unfolds_build hr e
  · intro depth h
    exact buildWithin_eq_build hr h

/-- An array and a string under other names, and a number that is a leaf. -/
theorem building_descends_repetition :
    let strings : Registry := Registry.standard.register "letters" (.builtin .string)
    let arrays := strings.register "items" (.builtin .array)
    let r := arrays.register "number" (.scripted "number" false [.count])
    let e := "2*(items:(letters:)::(1-2))"
    let inner := "items:(letters:)::(1-2)"
    r.Descends ∧ (HandsOn r .standard e inner ∧ inner.length < e.length) ∧
      (HandsOn r .standard inner "letters:" ∧ "letters:".length < inner.length) ∧
      ¬HandsOn r .standard "letters:" "10-20" ∧
      (Expression.isRepetition e = true ∧ e.length < (Expression.expand e).length) ∧
      Unfolds r .standard e (build r .standard e) ∧
      buildWithin r .standard 28 e = build r .standard e := by
  intro strings arrays r e inner
  have hr : r.Descends := by
    have hstrings : strings.Descends :=
      Registry.standard_descends.register (fun c h => by cases h) fun h => absurd h (by decide)
    have harrays : arrays.Descends :=
      hstrings.register (fun c h => by cases h) fun h => absurd h (by decide)
    have hleaf : CustomKind.IsLeaf ⟨"number", 0, fun _ _ => .leaf (.scripted false [.count])⟩ :=
      fun _ _ => .inl ⟨_, rfl⟩
    refine harrays.register ?_ fun _ => hleaf.buildsAlone
    rintro c h
    obtain rfl := Kind.custom.inj h
    exact hleaf
  obtain ⟨hhands, hshort, hlonger, hunfolds, hdepth⟩ := building_descends hr .standard e
  obtain ⟨hhandsInner, hshortInner, -⟩ := building_descends hr .standard inner
  obtain ⟨-, hshortLetters, -⟩ := building_descends hr .standard "letters:"
  have hinner : HandsOn r .standard e inner := (hhands inner).2 (by decide +kernel)
  have hletters : HandsOn r .standard inner "letters:" := (hhandsInner _).2 (by decide +kernel)
  have hrepetition : Expression.isRepetition e = true := by decide +kernel
  refine ⟨hr, ⟨hinner, (hshort _ hinner).2⟩, ⟨hletters, (hshortInner _ hletters).2⟩, ?_,
    ⟨hrepetition, hlonger hrepetition⟩, (hunfolds _).2 rfl, hdepth 28 (by decide +kernel)⟩
  -- The empty argument stands for its default, which is no argument of the text.
  intro h
  obtain ⟨⟨i, parsed, hmem⟩, -⟩ := hshortLetters _ h
  have hparse : Expression.parse "letters:" = .ok ⟨"letters", [""]⟩ := by decide +kernel
  obtain rfl := Except.ok.inj (hparse.symm.trans parsed)
  exact absurd hmem (by decide)

end Node

end GenExpr
