import GenExpr.Proofs.Draw.Acts
import GenExpr.Proofs.Node.Meaning

/-!
# What builtin kinds build

A builtin kind reads its arguments before it builds anything, and refuses them or knows how its source is
put together. Then the expressions nested in it are built from left to right, and the source is made out
of theirs. `Reads` says this once for all kinds; what else holds of the kinds is said by cases of it.
-/

namespace GenExpr

/-- The expressions nested in an invocation that a draw can draw from. The inner expression of a
repetition is one of them whatever the count. -/
def Kind.nested (o : Options) (args : List String) : Kind → List String
  | builtin .string =>
    if Expression.isNumberRange (orDefault "10-20" args).toList then []
    else [orDefault "10-20" args]
  | builtin .oneOf => args
  | builtin .array => args
  | builtin .repetition =>
    match args with
    | _ :: inner :: _ => [inner]
    | _ => []
  | builtin _ => []
  | custom k =>
    match k.recipe o args with
    | .through inner _ => [inner]
    | _ => []

/-- What a builtin kind checks before it builds anything. -/
def Builtin.check (o : Options) (args : List String) (b : Builtin) : Except Error Unit :=
  let first := b.firstArgument args
  match b with
  | string =>
    if Expression.isNumberRange first.toList then discard (NumberRange.parse first) else .ok ()
  | number => do
    discard (precision args)
    discard (NumberRange.parse first)
  | int => discard (NumberRange.parse first)
  | char => discard (CharRange.parse first)
  | boolean => discard (finiteArgument boolean first)
  | oneOf => if args = [] then .error (.invalidArgument oneOf.name .noExpressions) else .ok ()
  | array => .ok ()
  | repetition =>
    match Decimal.count? first.toList with
    | none => .error (.invalidArgument repetition.name (.notACount first))
    | some _ =>
      if args.length < 2 then .error (.invalidArgument repetition.name .nothingToRepeat) else .ok ()
  | literal =>
    match Json.read first with
    | .ok _ => .ok ()
    | .error fault => .error (.json fault)
  | entry => discard (Collection.ofOption first o)

section Assembly

/-- How a source is put together: out of nothing, or out of other sources. -/
inductive Assembly where
  | alone (s : Source)
  | text
  | oneOf
  | array
  | times (count : Nat)

/-- A source is put together out of others. -/
inductive Assembly.Makes : Assembly → List Source → Source → Prop
  | alone {s : Source} (simple : s.isBasic = true) : Makes (alone s) [] s
  | text (s : Source) : Makes text [s] (.text s)
  | oneOf (first : Source) (others : List Source) :
      Makes oneOf (first :: others) (.oneOf first others)
  | array (items : List Source) : Makes array items (.array items)
  | times (count : Nat) (s : Source) : Makes (times count) [s] (.times count s)

/-- What is put together out of sources. An empty array stands in for a source that is missing. -/
def Assembly.make : Assembly → List Source → Source
  | alone s, _ => s
  | text, ss => .text (ss.headD (.array []))
  | oneOf, ss => .oneOf (ss.headD (.array [])) ss.tail
  | array, ss => .array ss
  | times count, ss => .times count (ss.headD (.array []))

theorem Source.isAsync_of_isBasic {s : Source} (h : s.isBasic = true) : s.isAsync = false := by
  cases s with
  | text | oneOf | array | times | leaf | adapted => cases h
  | _ => rfl

theorem Assembly.Makes.isAsync_eq {a : Assembly} {ss : List Source} {s : Source} (h : a.Makes ss s) :
    s.isAsync = Source.anyAsync ss := by
  cases h with
  | alone simple => exact Source.isAsync_of_isBasic simple
  | text => exact (Bool.or_false _).symm
  | oneOf => rfl
  | array => rfl
  | times => exact (Bool.or_false _).symm

end Assembly

theorem lift_ok_bind {α β : Type} (a : α) (f : α → BuildM β) :
    (liftM (Except.ok a : Except Error α) >>= f) = f a := rfl

theorem length_of_returns_nestAll {nest : String → BuildM Node} {args : List String} {ss : List Source}
    {b b' : BuildState} (h : Returns (Builtin.nestAll nest args) b ss b') : ss.length = args.length := by
  induction args generalizing b ss with
  | nil =>
    obtain ⟨rfl, -⟩ := returns_pure.1 h
    rfl
  | cons a rest ih =>
    obtain ⟨n, b₁, -, h⟩ := returns_bind.1 h
    obtain ⟨ss, hss, rfl⟩ := returns_map.1 h
    rw [List.length_cons, List.length_cons, ih hss]

theorem orDefault_empty (a : String) (rest : List String) : orDefault "" (a :: rest) = a := by
  rw [orDefault]
  split
  next h => exact h.symm
  next => rfl

theorem Builtin.firstArgument_literal (args : List String) :
    literal.firstArgument args = orDefault "" args := firstArgument_eq literal args

theorem Builtin.firstArgument_repetition (count : String) (rest : List String) :
    repetition.firstArgument (count :: rest) = count :=
  (firstArgument_eq repetition (count :: rest)).trans (orDefault_empty count rest)

/-- A builtin kind finds its arguments to be of the form that it expects, and knows how its source is put
together. -/
inductive Builtin.Reads (o : Options) : Builtin → List String → Assembly → Prop
  | letters {args range} (span : Expression.isNumberRange (orDefault "10-20" args).toList = true)
      (parsed : NumberRange.parse (orDefault "10-20" args) = .ok range) :
      Reads o string args (.alone (.letters range o.letters))
  | text {args} (span : ¬Expression.isNumberRange (orDefault "10-20" args).toList = true) :
      Reads o string args .text
  | number {args p range} (precise : precision args = .ok p)
      (parsed : NumberRange.parse (orDefault "0-1" args) = .ok range) :
      Reads o number args (.alone (.number range p))
  | int {args range} (parsed : NumberRange.parse (orDefault "0-10" args) = .ok range) :
      Reads o int args (.alone (.int range))
  | char {args range} (parsed : CharRange.parse (orDefault "A-Z" args) = .ok range) :
      Reads o char args (.alone (.char range))
  | boolean {args bias} (parsed : finiteArgument boolean (orDefault "0.5" args) = .ok bias) :
      Reads o boolean args (.alone (.boolean bias))
  | oneOf {args} (nonempty : args ≠ []) : Reads o oneOf args .oneOf
  | array {args} : Reads o array args .array
  | repetition {count inner rest n} (counts : Decimal.count? count.toList = some n) :
      Reads o repetition (count :: inner :: rest) (.times n)
  | literal {args v} (parsed : Json.read (orDefault "" args) = .ok v) :
      Reads o literal args (.alone (.literal v))
  | entry {args c} (found : Collection.ofOption (orDefault "collection" args) o = .ok c) :
      Reads o entry args (.alone (.entry c))

variable {o : Options} {args : List String}

theorem Kind.nested_string_of_span
    (span : Expression.isNumberRange (orDefault "10-20" args).toList = true) :
    (builtin .string).nested o args = [] := if_pos span

theorem Kind.nested_string_of_not_span
    (span : ¬Expression.isNumberRange (orDefault "10-20" args).toList = true) :
    (builtin .string).nested o args = [orDefault "10-20" args] := if_neg span

namespace Builtin

namespace Reads

variable {b : Builtin} {a : Assembly}

theorem check_eq (h : b.Reads o args a) : b.check o args = .ok () := by
  cases h with
  | letters span parsed =>
    rw [check, firstArgument_eq, defaultArgument, if_pos span, parsed]
    rfl
  | text span =>
    rw [check, firstArgument_eq, defaultArgument, if_neg span]
  | number precise parsed =>
    rw [check, firstArgument_eq, defaultArgument, precise, parsed]
    rfl
  | int parsed | char parsed | boolean parsed | entry parsed =>
    rw [check, firstArgument_eq, defaultArgument, parsed]
    rfl
  | oneOf nonempty => exact if_neg nonempty
  | array => rfl
  | repetition counts =>
    rw [check, firstArgument_repetition, counts]
    rfl
  | literal parsed => rw [check, firstArgument_literal, parsed]

theorem build_eq (h : b.Reads o args a) (nest : String → BuildM Node) :
    b.build nest o args = a.make <$> nestAll nest ((Kind.builtin b).nested o args) := by
  cases h with
  | letters span parsed =>
    rw [build, firstArgument_eq, defaultArgument, if_pos span, parsed, Kind.nested_string_of_span span]
    rfl
  | text span =>
    rw [build, firstArgument_eq, defaultArgument, if_neg span, Kind.nested_string_of_not_span span,
      nestAll, map_bind]
    rfl
  | number precise parsed =>
    rw [build, firstArgument_eq, defaultArgument, precise, parsed]
    rfl
  | int parsed | char parsed | boolean parsed | entry parsed =>
    rw [build, firstArgument_eq, defaultArgument, parsed]
    rfl
  | oneOf nonempty =>
    obtain ⟨first, rest, rfl⟩ := List.exists_cons_of_ne_nil nonempty
    simp only [build, Kind.nested, nestAll, map_bind, map_pure]
    rfl
  | array => rfl
  | repetition counts =>
    rw [build, firstArgument_repetition, counts, Kind.nested, nestAll, map_bind]
    rfl
  | literal parsed =>
    rw [build, firstArgument_literal, parsed]
    rfl

theorem makes (h : b.Reads o args a) {ss : List Source}
    (hlength : ss.length = ((Kind.builtin b).nested o args).length) : a.Makes ss (a.make ss) := by
  cases h with
  | text span =>
    rw [Kind.nested_string_of_not_span span] at hlength
    obtain ⟨s, rfl⟩ := List.length_eq_one_iff.1 hlength
    exact .text s
  | oneOf nonempty =>
    obtain ⟨first, rest, rfl⟩ := List.exists_cons_of_ne_nil nonempty
    obtain ⟨s, others, rfl⟩ := List.exists_cons_of_length_eq_add_one hlength
    exact .oneOf s others
  | array => exact .array ss
  | repetition =>
    obtain ⟨s, rfl⟩ := List.length_eq_one_iff.1 hlength
    exact .times _ s
  | letters span =>
    rw [Kind.nested_string_of_span span] at hlength
    obtain rfl := List.eq_nil_of_length_eq_zero hlength
    exact .alone rfl
  | number | int | char | boolean | literal | entry =>
    obtain rfl := List.eq_nil_of_length_eq_zero hlength
    exact .alone rfl

end Reads

/-- Arguments that are parsed are read, or refused for what is wrong with them. -/
theorem reads_or_refuses_of_parsed {α : Type} {b : Builtin} {x : Except Error α} {source : α → Source}
    (hcheck : b.check o args = discard x) (hbuild : ∀ nest, b.build nest o args = do return source (← x))
    (hreads : ∀ a, x = .ok a → b.Reads o args (.alone (source a))) :
    (∃ a, b.Reads o args a) ∨
      ∃ d, b.check o args = .error d ∧ ∀ nest, b.build nest o args = throw d := by
  cases parsed : x with
  | ok a => exact .inl ⟨_, hreads a parsed⟩
  | error d =>
    rw [parsed] at hcheck hbuild
    exact .inr ⟨d, hcheck, hbuild⟩

/-- A builtin kind reads its arguments, or refuses them before anything is built. -/
theorem reads_or_refuses (b : Builtin) (o : Options) (args : List String) :
    (∃ a, b.Reads o args a) ∨
      ∃ d, b.check o args = .error d ∧ ∀ nest, b.build nest o args = throw d := by
  cases b with
  | string =>
    by_cases span : Expression.isNumberRange (orDefault "10-20" args).toList = true
    · have hfirst := firstArgument_eq string args
      apply reads_or_refuses_of_parsed _ _ fun _ => .letters span
      · rw [check, hfirst]
        exact if_pos span
      · intro nest
        rw [build, hfirst]
        exact if_pos span
    · exact .inl ⟨_, .text span⟩
  | number =>
    -- The precision is read before the range, so that its error comes first.
    cases precise : precision args with
    | ok p =>
      have hfirst := firstArgument_eq number args
      apply reads_or_refuses_of_parsed _ _ fun _ => .number precise
      · rw [check, precise, hfirst]
        rfl
      · intro nest
        rw [build, precise, hfirst]
        rfl
    | error d =>
      refine .inr ⟨d, ?_, fun nest => ?_⟩
      · rw [check, precise]
        rfl
      · rw [build, precise]
        rfl
  | int =>
    apply reads_or_refuses_of_parsed rfl fun _ => rfl
    intro a parsed
    exact .int (firstArgument_eq int args ▸ parsed)
  | char =>
    apply reads_or_refuses_of_parsed rfl fun _ => rfl
    intro a parsed
    exact .char (firstArgument_eq char args ▸ parsed)
  | boolean =>
    apply reads_or_refuses_of_parsed rfl fun _ => rfl
    intro a parsed
    exact .boolean (firstArgument_eq boolean args ▸ parsed)
  | oneOf =>
    cases args with
    | nil => exact .inr ⟨_, rfl, fun _ => rfl⟩
    | cons first rest => exact .inl ⟨_, .oneOf (List.cons_ne_nil first rest)⟩
  | array => exact .inl ⟨_, .array⟩
  | repetition =>
    -- A count is asked for even where there is nothing to repeat.
    cases counts : Decimal.count? (repetition.firstArgument args).toList with
    | none =>
      have hrefused : repetition.check o args =
          .error (.invalidArgument repetition.name (.notACount (repetition.firstArgument args))) := by
        rw [check, counts]
      refine .inr ⟨_, hrefused, fun nest => ?_⟩
      rw [build, counts]
    | some n =>
      cases args with
      | nil => exact .inr ⟨_, rfl, fun _ => rfl⟩
      | cons count rest =>
        cases rest with
        | nil =>
          refine .inr ⟨.invalidArgument repetition.name .nothingToRepeat, ?_, fun nest => ?_⟩
          · rw [check, counts]
            rfl
          · rw [build, counts]
        | cons inner rest =>
          rw [firstArgument_repetition] at counts
          exact .inl ⟨_, .repetition counts⟩
  | literal =>
    cases parsed : Json.read (orDefault "" args) with
    | ok v => exact .inl ⟨_, .literal parsed⟩
    | error fault =>
      refine .inr ⟨.json fault, ?_, fun nest => ?_⟩
      · rw [check, firstArgument_literal, parsed]
      · rw [build, firstArgument_literal, parsed]
  | entry =>
    apply reads_or_refuses_of_parsed rfl fun _ => rfl
    intro a parsed
    exact .entry (firstArgument_eq entry args ▸ parsed)

theorem check_eq_ok_iff {b : Builtin} : b.check o args = .ok () ↔ ∃ a, b.Reads o args a := by
  constructor
  · intro h
    rcases reads_or_refuses b o args with reads | ⟨d, hd, -⟩
    · exact reads
    · rw [hd] at h
      cases h
  · intro h
    obtain ⟨a, reads⟩ := h
    exact reads.check_eq

theorem build_of_check_error {b : Builtin} {d : Error} (h : b.check o args = .error d)
    (nest : String → BuildM Node) : b.build nest o args = throw d := by
  rcases reads_or_refuses b o args with ⟨a, reads⟩ | ⟨d', hd, hbuild⟩
  · rw [reads.check_eq] at h
    cases h
  · obtain rfl := Except.error.inj (h.symm.trans hd)
    exact hbuild nest

/-- A builtin kind builds alike where the expressions nested in it are built alike. -/
theorem build_congr_nest (b : Builtin) {nest nest' : String → BuildM Node}
    (h : ∀ a ∈ (Kind.builtin b).nested o args, nest a = nest' a) :
    b.build nest o args = b.build nest' o args := by
  rcases reads_or_refuses b o args with ⟨a, reads⟩ | ⟨d, -, hbuild⟩
  · rw [reads.build_eq, reads.build_eq, nestAll_congr h]
  · rw [hbuild, hbuild]

/-- What a builtin kind builds is put together out of what the nested expressions are built into. -/
theorem exists_of_returns_build {b : Builtin} {nest : String → BuildM Node} {src : Source}
    {s s' : BuildState} (h : Returns (b.build nest o args) s src s') :
    ∃ a ss, b.Reads o args a ∧ Returns (nestAll nest ((Kind.builtin b).nested o args)) s ss s' ∧
      a.Makes ss src := by
  rcases reads_or_refuses b o args with ⟨a, reads⟩ | ⟨d, -, hbuild⟩
  · rw [reads.build_eq] at h
    obtain ⟨ss, hss, rfl⟩ := returns_map.1 h
    exact ⟨a, ss, reads, hss, reads.makes (length_of_returns_nestAll hss)⟩
  · rw [hbuild] at h
    exact absurd h not_returns_throw

end Builtin

end GenExpr
