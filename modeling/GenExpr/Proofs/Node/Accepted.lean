import GenExpr.Proofs.Node.Visits
import GenExpr.Proofs.Range

/-!
# Expressions that can be built

Under the standard registry an expression can be built if it is well formed: it is an invocation of a
builtin kind, the arguments that the kind reads itself are of the form that it expects, and the arguments
that are expressions are well formed. Whatever else can be told of an expression, such as the letters and
the other options, does not matter.
-/

namespace GenExpr

open List (Forall₂)

/-- An option has a collection of at least one item. -/
def Options.HasItems (o : Options) (option : String) : Prop :=
  (∃ s, o.get? option = some (.str s) ∧ s ≠ "") ∨ (∃ vs, o.get? option = some (.array vs) ∧ vs ≠ []) ∨
    ∃ members, o.get? option = some (.map members) ∧ members ≠ []

/-- An option is missing, or has a value that is not truthy. -/
def Options.Lacks (o : Options) (option : String) : Prop :=
  o.get? option = none ∨ ∃ v, o.get? option = some v ∧ v.truthy = false

inductive WellFormed (o : Options) : String → Prop
  | letters {e args} (parsed : Expression.parse e = .ok ⟨"string", args⟩)
      (shape : Expression.IsNumberSpan (orDefault "10-20" args).toList)
      (range : IsNumberInterval (orDefault "10-20" args)) : WellFormed o e
  | text {e args} (parsed : Expression.parse e = .ok ⟨"string", args⟩)
      (shape : ¬Expression.IsNumberSpan (orDefault "10-20" args).toList)
      (inner : WellFormed o (orDefault "10-20" args)) : WellFormed o e
  | number {e args} (parsed : Expression.parse e = .ok ⟨"number", args⟩)
      (range : IsNumberInterval (orDefault "0-1" args))
      (precision : ∀ p, args[1]? = some p → p ≠ "" →
        ∃ x, Decimal.finite? p.toList = some x ∧ x.le (.zero false) = false) : WellFormed o e
  | int {e args} (parsed : Expression.parse e = .ok ⟨"int", args⟩)
      (range : IsNumberInterval (orDefault "0-10" args)) : WellFormed o e
  | char {e args} (parsed : Expression.parse e = .ok ⟨"char", args⟩)
      (range : IsCharInterval (orDefault "A-Z" args)) : WellFormed o e
  | boolean {e args x} (parsed : Expression.parse e = .ok ⟨"boolean", args⟩)
      (bias : Decimal.finite? (orDefault "0.5" args).toList = some x) : WellFormed o e
  | oneOf {e args} (parsed : Expression.parse e = .ok ⟨"oneOf", args⟩) (nonempty : args ≠ [])
      (inner : ∀ a ∈ args, WellFormed o a) : WellFormed o e
  | array {e args} (parsed : Expression.parse e = .ok ⟨"array", args⟩)
      (inner : ∀ a ∈ args, WellFormed o a) : WellFormed o e
  | repetition {e count inner rest n}
      (parsed : Expression.parse e = .ok ⟨"repeat", count :: inner :: rest⟩)
      (counts : Decimal.count? count.toList = some n) (inner : WellFormed o inner) : WellFormed o e
  | literal {e args v} (parsed : Expression.parse e = .ok ⟨"literal", args⟩)
      (reads : Json.read (orDefault "" args) = .ok v) : WellFormed o e
  | entry {e args} (parsed : Expression.parse e = .ok ⟨"entry", args⟩)
      (option : o.HasItems (orDefault "collection" args)) : WellFormed o e

section Entry

variable {o : Options} {option : String}

/-- An option is a collection with items, or there is nothing in it, or it is refused as a collection. -/
theorem Collection.ofOption_cases (o : Options) (option : String) :
    (o.HasItems option ∧ ∃ c, Collection.ofOption option o = .ok c) ∨
    (¬o.HasItems option ∧ o.Lacks option ∧
      Collection.ofOption option o = .error (.missingCollection option)) ∨
    ¬o.HasItems option ∧ ¬o.Lacks option ∧
      ∃ reason, Collection.ofOption option o = .error (.invalidArgument "entry" reason) := by
  rw [Options.HasItems, Options.Lacks, Collection.ofOption]
  cases o.get? option with
  | none => simp
  | some v =>
    cases htruthy : v.truthy with
    | false =>
      cases v with
      | str s =>
        have hempty : s = "" := by simpa [Value.truthy] using htruthy
        simp [hempty, Value.truthy]
      | array vs => cases htruthy
      | map members => cases htruthy
      | null => simp [htruthy]
      | bool b => simp [htruthy]
      | int i => simp [htruthy]
      | float x => simp [htruthy]
    | true =>
      cases v with
      | str s =>
        have hs : s ≠ "" := by simpa [Value.truthy] using htruthy
        simp [htruthy, hs]
      | array vs =>
        by_cases hvs : vs = []
        · simp [hvs, Value.truthy, Builtin.name]
        · simp [htruthy, hvs]
      | map members =>
        by_cases hmembers : members = []
        · simp [hmembers, Value.truthy, Builtin.name]
        · simp [htruthy, hmembers]
      | null => cases htruthy
      | bool b => simp [htruthy, Builtin.name]
      | int i => simp [htruthy, Builtin.name]
      | float x => simp [htruthy, Builtin.name]

theorem Collection.exists_ofOption_iff :
    (∃ c, Collection.ofOption option o = .ok c) ↔ o.HasItems option := by
  rcases Collection.ofOption_cases o option with
    ⟨hitems, hc⟩ | ⟨hitems, -, hc⟩ | ⟨hitems, -, reason, hc⟩
  · exact iff_of_true hc hitems
  · simp [hc, hitems]
  · simp [hc, hitems]

theorem Collection.category_of_ofOption {d : Error} (h : Collection.ofOption option o = .error d) :
    (d.category = .collectionNotFound ↔ o.Lacks option) ∧
      (d.category = .collectionNotFound ∨ d.category = .invalidArgument) := by
  rcases Collection.ofOption_cases o option with
    ⟨-, c, hc⟩ | ⟨-, hlacks, hc⟩ | ⟨-, hlacks, reason, hc⟩
  · rw [hc] at h
    cases h
  · rw [hc] at h
    obtain rfl := Except.error.inj h
    exact ⟨iff_of_true rfl hlacks, .inl rfl⟩
  · rw [hc] at h
    obtain rfl := Except.error.inj h
    exact ⟨iff_of_false (by simp [Error.category]) hlacks, .inr rfl⟩

end Entry

section Check

variable {o : Options} {args : List String}

theorem Builtin.exists_finiteArgument_iff {b : Builtin} {text : String} :
    (∃ x, b.finiteArgument text = .ok x) ↔ ∃ x, Decimal.finite? text.toList = some x := by
  rw [finiteArgument]
  cases Decimal.finite? text.toList with
  | none => simp
  | some x => simp

theorem Builtin.exists_precision_iff : (∃ p, precision args = .ok p) ↔
    ∀ p, args[1]? = some p → p ≠ "" →
      ∃ x, Decimal.finite? p.toList = some x ∧ x.le (.zero false) = false := by
  cases args with
  | nil => simp [precision]
  | cons first rest =>
    cases rest with
    | nil => simp [precision]
    | cons p rest =>
      have hp : (∀ q, (first :: p :: rest)[1]? = some q → q ≠ "" →
            ∃ x, Decimal.finite? q.toList = some x ∧ x.le (.zero false) = false) ↔
          (p ≠ "" → ∃ x, Decimal.finite? p.toList = some x ∧ x.le (.zero false) = false) := by
        simp
      rw [hp, precision]
      by_cases hempty : p = ""
      · simp [hempty]
      · rw [if_neg hempty, finiteArgument]
        cases Decimal.finite? p.toList with
        | none => simp [hempty]
        | some x => cases hx : x.le (.zero false) with
          | false => simp [hx]
          | true => simp [hx, hempty]

end Check

section Enter

variable {o : Options} {e : String} {i : Invocation} {k : Kind}

theorem Builtin.Reads.enter {b : Builtin} {args : List String} {a : Assembly} (reads : b.Reads o args a)
    (parsed : Expression.parse e = .ok ⟨b.name, args⟩) :
    Node.enter .standard o e = .ok (⟨b.name, args⟩, .builtin b) :=
  Node.enter_eq_ok_iff.2 ⟨parsed, Registry.standard_addsLeaves.builtin b, reads.check_eq⟩

/-- A node of a well-formed expression can be entered, and what is nested in it is well formed. -/
theorem WellFormed.enters (h : WellFormed o e) : ∃ i k, Node.enter .standard o e = .ok (i, k) ∧
    ∀ a ∈ k.nested o i.arguments, WellFormed o a := by
  cases h with
  | letters parsed shape range =>
    have span := Expression.isNumberRange_iff.2 shape
    obtain ⟨r, hr⟩ := NumberRange.exists_parse_iff.2 range
    refine ⟨_, _, (Builtin.Reads.letters span hr).enter parsed, ?_⟩
    rw [Kind.nested_string_of_span span]
    exact List.forall_mem_nil _
  | text parsed shape inner =>
    have span := mt Expression.isNumberRange_iff.1 shape
    refine ⟨_, _, (Builtin.Reads.text span).enter parsed, ?_⟩
    rw [Kind.nested_string_of_not_span span]
    exact List.forall_mem_singleton.2 inner
  | number parsed range precision =>
    obtain ⟨r, hr⟩ := NumberRange.exists_parse_iff.2 range
    obtain ⟨p, hp⟩ := Builtin.exists_precision_iff.2 precision
    exact ⟨_, _, (Builtin.Reads.number hp hr).enter parsed, List.forall_mem_nil _⟩
  | int parsed range =>
    obtain ⟨r, hr⟩ := NumberRange.exists_parse_iff.2 range
    exact ⟨_, _, (Builtin.Reads.int hr).enter parsed, List.forall_mem_nil _⟩
  | char parsed range =>
    obtain ⟨r, hr⟩ := CharRange.exists_parse_iff.2 range
    exact ⟨_, _, (Builtin.Reads.char hr).enter parsed, List.forall_mem_nil _⟩
  | boolean parsed bias =>
    obtain ⟨x, hx⟩ := Builtin.exists_finiteArgument_iff.2 ⟨_, bias⟩
    exact ⟨_, _, (Builtin.Reads.boolean hx).enter parsed, List.forall_mem_nil _⟩
  | oneOf parsed nonempty inner =>
    exact ⟨_, _, (Builtin.Reads.oneOf nonempty).enter parsed, inner⟩
  | array parsed inner => exact ⟨_, _, Builtin.Reads.array.enter parsed, inner⟩
  | repetition parsed counts inner =>
    exact ⟨_, _, (Builtin.Reads.repetition counts).enter parsed, List.forall_mem_singleton.2 inner⟩
  | literal parsed reads =>
    exact ⟨_, _, (Builtin.Reads.literal reads).enter parsed, List.forall_mem_nil _⟩
  | entry parsed option =>
    obtain ⟨c, hc⟩ := Collection.exists_ofOption_iff.2 option
    exact ⟨_, _, (Builtin.Reads.entry hc).enter parsed, List.forall_mem_nil _⟩

theorem wellFormed_of_enter (h : Node.enter .standard o e = .ok (i, k))
    (inner : ∀ a ∈ k.nested o i.arguments, WellFormed o a) : WellFormed o e := by
  obtain ⟨kind, args⟩ := i
  obtain ⟨parsed, hk, hcheck⟩ := Node.enter_eq_ok_iff.1 h
  obtain ⟨b, rfl, rfl⟩ := Registry.builtin_of_lookup? hk
  obtain ⟨a, reads⟩ := Builtin.check_eq_ok_iff.1 hcheck
  cases reads with
  | letters span hr =>
    exact .letters parsed (Expression.isNumberRange_iff.1 span) (NumberRange.exists_parse_iff.1 ⟨_, hr⟩)
  | text span =>
    rw [Kind.nested_string_of_not_span span] at inner
    exact .text parsed (mt Expression.isNumberRange_iff.2 span) (inner _ (List.mem_singleton_self _))
  | number hp hr =>
    exact .number parsed (NumberRange.exists_parse_iff.1 ⟨_, hr⟩) (Builtin.exists_precision_iff.1 ⟨_, hp⟩)
  | int hr => exact .int parsed (NumberRange.exists_parse_iff.1 ⟨_, hr⟩)
  | char hr => exact .char parsed (CharRange.exists_parse_iff.1 ⟨_, hr⟩)
  | boolean hx =>
    obtain ⟨x, bias⟩ := Builtin.exists_finiteArgument_iff.1 ⟨_, hx⟩
    exact .boolean parsed bias
  | oneOf nonempty => exact .oneOf parsed nonempty inner
  | array => exact .array parsed inner
  | repetition counts => exact .repetition parsed counts (inner _ (List.mem_singleton_self _))
  | literal reads => exact .literal parsed reads
  | entry hc => exact .entry parsed (Collection.exists_ofOption_iff.1 ⟨_, hc⟩)

end Enter

section Tree

variable {o : Options}

/-- Every node of a tree can be entered. -/
def Tree.IsSound (t : Tree) : Prop := ∀ v ∈ t.visits, v.failure? = none

theorem Tree.forall_visitsAll {P : Visit → Prop} {ts : List Tree} :
    (∀ v ∈ visitsAll ts, P v) ↔ ∀ t ∈ ts, ∀ v ∈ t.visits, P v := by
  induction ts with
  | nil => simp [visitsAll]
  | cons t ts ih => rw [visitsAll, List.forall_mem_append, ih, List.forall_mem_cons]

theorem Tree.isSound_sound {e kind : String} {ownAsync : Bool} {inner : List Tree} :
    (sound e kind ownAsync inner).IsSound ↔ ∀ t ∈ inner, t.IsSound := by
  rw [IsSound, visits, List.forall_mem_cons, List.forall_mem_append, forall_visitsAll]
  simp [IsSound, Visit.failure?]

theorem forall_iff_of_forall₂ {α β : Type} {P : α → Prop} {Q : β → Prop} {as : List α} {bs : List β}
    (h : Forall₂ (fun a b => P a ↔ Q b) as bs) : (∀ a ∈ as, P a) ↔ ∀ b ∈ bs, Q b := by
  induction h with
  | nil => simp
  | cons hab _ ih => rw [List.forall_mem_cons, List.forall_mem_cons, hab, ih]

theorem wellFormed_iff_isSound {e : String} {t : Tree} (ht : Grows .standard o e t) :
    WellFormed o e ↔ t.IsSound := by
  induction hlength : e.length using Nat.strongRecOn generalizing e t with
  | ind n ih =>
    cases ht with
    | @refused _ d entered =>
      apply iff_of_false
      · intro h
        obtain ⟨i, k, hentered, -⟩ := h.enters
        rw [entered] at hentered
        cases hentered
      · intro h
        have hd : some d = none := h (.enter e (some d)) (List.mem_singleton_self _)
        cases hd
    | @sound _ i k inner entered grown =>
      have hshort : ∀ a ∈ k.nested o i.arguments, a.length < n := fun a ha =>
        hlength ▸ Node.length_lt_of_enter Registry.standard_descends entered ha
      have hinner : (∀ a ∈ k.nested o i.arguments, WellFormed o a) ↔ ∀ t ∈ inner, t.IsSound :=
        forall_iff_of_forall₂ (((List.forall₂_and_left _ _).2 ⟨hshort, grown⟩).imp
          fun a t h => ih a.length h.1 h.2 rfl)
      rw [Tree.isSound_sound, ← hinner]
      constructor
      · intro h
        obtain ⟨i', k', hentered, hnested⟩ := h.enters
        obtain ⟨rfl, rfl⟩ := Prod.mk.inj (Except.ok.inj (entered.symm.trans hentered))
        exact hnested
      · exact wellFormed_of_enter entered

end Tree

namespace Node

variable {o : Options} {e : String}

theorem exists_build_iff (b : BuildState) :
    (∃ n b', Returns (build .standard o e) b n b') ↔ WellFormed o e := by
  obtain ⟨t, ht⟩ := exists_grows Registry.standard_addsLeaves o e
  have htakes := takes_buildMarked (fun _ => []) Registry.standard_addsLeaves
    (length_lt_depthLimit .standard e) ht b
  rw [buildMarked_none] at htakes
  rw [wellFormed_iff_isSound ht]
  rcases htakes with ⟨n, b', hn, -, hsound, -⟩ | ⟨d, b', done, v, rest, hd, hvisits, -, hv, -⟩
  · exact iff_of_true ⟨n, b', hn⟩ hsound
  · apply iff_of_false
    · rintro ⟨n, b', hn⟩
      exact hd.not_returns hn
    · intro hsound
      have hnone := hsound v (hvisits ▸ by simp)
      rw [hv] at hnone
      cases hnone

theorem raises_build_of_enter {r : Registry} {d : Error} (entered : enter r o e = .error d)
    (b : BuildState) :
    Raises (build r o e) b d { b with journal := b.journal ++ expansion e } := by
  rw [build, depthLimit, buildWithin_succ, Raises, Ends, run_buildFrom, construct_of_enter_error entered]
  rfl

/-- An expression that cannot be built for want of a collection has its own check to blame. -/
theorem ofOption_of_raises_build {args : List String} {d : Error} {b b' : BuildState}
    (parsed : Expression.parse e = .ok ⟨"entry", args⟩) (h : Raises (build .standard o e) b d b') :
    Collection.ofOption (orDefault "collection" args) o = .error d := by
  cases entered : enter .standard o e with
  | ok p =>
    obtain ⟨i, k⟩ := p
    obtain ⟨parsed', hk, -⟩ := enter_eq_ok_iff.1 entered
    obtain rfl := Except.ok.inj (parsed.symm.trans parsed')
    obtain rfl := Option.some.inj ((Registry.standard_addsLeaves.builtin .entry).symm.trans hk)
    obtain ⟨n, b', hn⟩ := (exists_build_iff b).2 (wellFormed_of_enter entered (List.forall_mem_nil _))
    exact absurd hn h.not_returns
  | error d' =>
    have hraises := raises_build_of_enter entered b
    obtain ⟨hd, -⟩ := Ends.unique h hraises
    obtain rfl := Except.error.inj hd
    have hcheck : Builtin.entry.check o args = .error d :=
      check_of_enter_error parsed (Registry.standard_addsLeaves.builtin .entry) entered
    have hfirst := Builtin.firstArgument_eq .entry args
    rw [Builtin.check, hfirst] at hcheck
    exact Except.discard_eq_error_iff.1 hcheck

/-- Under the standard registry exactly the well-formed expressions can be built. A collection is not
found if there is no truthy value for it, and whatever else is wrong with it makes it an invalid
argument. -/
theorem accepts_well_formed (o : Options) (e : String) :
    (∀ b, (∃ n b', (build .standard o e).run.run b = (.ok n, b')) ↔ WellFormed o e) ∧
    ∀ args b d b', Expression.parse e = .ok ⟨"entry", args⟩ →
      (build .standard o e).run.run b = (.error d, b') →
      (d.category = .collectionNotFound ↔ o.Lacks (orDefault "collection" args)) ∧
        (d.category = .collectionNotFound ∨ d.category = .invalidArgument) := by
  refine ⟨exists_build_iff, ?_⟩
  intro args b d b' parsed h
  exact Collection.category_of_ofOption (ofOption_of_raises_build parsed h)

theorem zero_and_empty_entries :
    let o := (Options.standard.set "age" (.int 0)).set "pets" (.array [])
    let e := "array:(oneOf:(2*(char:a-z)):(string:(literal:[1]))):(number::0.25):(repeat:+0:string:no)"
    WellFormed o e ∧
    (∃ d b', (build .standard o "entry:age").run.run ⟨[], 0⟩ = (.error d, b') ∧ o.Lacks "age" ∧
      d.category = .collectionNotFound) ∧
    ∃ d b', (build .standard o "entry:pets").run.run ⟨[], 0⟩ = (.error d, b') ∧ ¬o.Lacks "pets" ∧
      d.category = .invalidArgument := by
  intro o e
  have hok : ((build .standard o e).run.run ⟨[], 0⟩).1.isOk = true := by decide +kernel
  have hage : ((build .standard o "entry:age").run.run ⟨[], 0⟩).1.isOk = false := by decide +kernel
  have hpets : ((build .standard o "entry:pets").run.run ⟨[], 0⟩).1.isOk = false := by
    decide +kernel
  have hzero : o.Lacks "age" := .inr ⟨.int 0, rfl, rfl⟩
  have hempty : ¬o.Lacks "pets" := by
    rintro (h | ⟨v, h, hv⟩)
    · cases h
    · obtain rfl := Option.some.inj h
      cases hv
  obtain ⟨n, b, built⟩ := exists_eq_ok_of_isOk hok
  obtain ⟨d, b₁, hd⟩ := exists_eq_error_of_isOk hage
  obtain ⟨d', b₂, hd'⟩ := exists_eq_error_of_isOk hpets
  have hcategory := (accepts_well_formed o "entry:age").2 ["age"] _ d b₁ (by decide) hd
  have hcategory' := (accepts_well_formed o "entry:pets").2 ["pets"] _ d' b₂ (by decide) hd'
  refine ⟨((accepts_well_formed o e).1 _).1 ⟨n, b, built⟩, ⟨d, b₁, hd, hzero, hcategory.1.2 hzero⟩,
    d', b₂, hd', hempty, hcategory'.2.resolve_left fun h => hempty (hcategory'.1.1 h)⟩

end Node

end GenExpr
