import GenExpr.Proofs.Node.Drawable
import GenExpr.Proofs.Node.Reach

/-!
# The options that an expression names

Under the standard registry an expression reads the letters and the options that collections are taken
from, its own or those of the expressions nested in it. They are told from the text alone. Options that
agree on these build the same, whatever else they hold.
-/

namespace GenExpr

/-- An option that a collection is taken from, somewhere in an expression. -/
inductive NamesOption : String → String → Prop
  | entry {e : String} {args : List String}
      (parsed : Expression.parse e = .ok ⟨Builtin.entry.name, args⟩) :
      NamesOption e (Builtin.entry.firstArgument args)
  | nested {e a option : String} {args : List String} {b : Builtin}
      (parsed : Expression.parse e = .ok ⟨b.name, args⟩)
      (mem : a ∈ (Kind.builtin b).nested .standard args) (inner : NamesOption a option) :
      NamesOption e option

theorem Builtin.name_injective {b b' : Builtin} (h : b.name = b'.name) : b = b' := by
  have hlookup := Registry.lookup?_builtin b
  rw [h, Registry.lookup?_builtin b'] at hlookup
  exact (Kind.builtin.inj (Option.some.inj hlookup)).symm

theorem namesOption_iff {e option : String} {args : List String} {b : Builtin}
    (parsed : Expression.parse e = .ok ⟨b.name, args⟩) :
    NamesOption e option ↔ (b = .entry ∧ option = Builtin.entry.firstArgument args) ∨
      ∃ a ∈ (Kind.builtin b).nested .standard args, NamesOption a option := by
  constructor
  · intro h
    cases h with
    | entry parsed' =>
      obtain ⟨hname, rfl⟩ := Invocation.mk.inj (Except.ok.inj (parsed.symm.trans parsed'))
      exact .inl ⟨Builtin.name_injective hname, rfl⟩
    | nested parsed' mem inner =>
      obtain ⟨hname, rfl⟩ := Invocation.mk.inj (Except.ok.inj (parsed.symm.trans parsed'))
      obtain rfl := Builtin.name_injective hname
      exact .inr ⟨_, mem, inner⟩
  · rintro (⟨rfl, rfl⟩ | ⟨a, mem, inner⟩)
    · exact .entry parsed
    · exact .nested parsed mem inner

section Build

variable {nest nest' : String → BuildM Node} {args : List String} {o₁ o₂ : Options}

theorem lift_bind_congr {σ α β : Type} {x : Except Error α} {f g : α → ExceptT Error (StateM σ) β}
    (h : ∀ a, x = .ok a → f a = g a) :
    (liftM x >>= f : ExceptT Error (StateM σ) β) = liftM x >>= g := by
  cases x with
  | error e => rfl
  | ok a => exact h a rfl

theorem ite_bind_congr {σ β : Type} {c : Prop} [Decidable c] {x : ExceptT Error (StateM σ) Unit}
    {f g : Unit → ExceptT Error (StateM σ) β} (h : f () = g ()) :
    (if c then x >>= f else f ()) = if c then x >>= g else g () := by
  obtain rfl : f = g := funext fun _ => h
  rfl

theorem Kind.nested_builtin_eq (b : Builtin) (o o' : Options) (args : List String) :
    (builtin b).nested o args = (builtin b).nested o' args := by
  cases b <;> rfl

/-- A builtin kind reads no options but the letters and, for a collection, the one it is taken from. -/
theorem Builtin.build_congr_options (b : Builtin) (hletters : o₁.letters = o₂.letters)
    (hentry : b = entry → o₁.get? (entry.firstArgument args) = o₂.get? (entry.firstArgument args)) :
    b.build nest o₁ args = b.build nest o₂ args := by
  cases b with
  | string => rw [build, build, hletters]
  | entry =>
    rw [build, build, Collection.ofOption, Collection.ofOption, hentry rfl]
  | _ => rfl

theorem Builtin.build_congr (b : Builtin) (hletters : o₁.letters = o₂.letters)
    (hentry : b = entry → o₁.get? (entry.firstArgument args) = o₂.get? (entry.firstArgument args))
    (hnest : ∀ a ∈ (Kind.builtin b).nested .standard args, nest a = nest' a) :
    b.build nest o₁ args = b.build nest' o₂ args := by
  rw [Kind.nested_builtin_eq b .standard o₂] at hnest
  rw [b.build_congr_options hletters hentry, b.build_congr_nest hnest]

end Build

namespace Node

variable {o₁ o₂ : Options} {e : String}

/-- Options that agree on the letters and on what an expression names build the same. The induction is
on the depth: a nested expression names no options that the one around it does not. -/
theorem buildWithin_congr (hletters : o₁.letters = o₂.letters) (depth : Nat)
    (hnamed : ∀ option, NamesOption e option → o₁.get? option = o₂.get? option) :
    buildWithin .standard o₁ depth e = buildWithin .standard o₂ depth e := by
  induction depth generalizing e with
  | zero => rfl
  | succ depth ih =>
    rw [buildWithin, buildWithin]
    have hkind : ∀ invocation : Invocation, Expression.parse e = .ok invocation →
        ∀ k, Registry.standard.lookup? invocation.kind = some k →
          k.build (buildWithin .standard o₁ depth) o₁ invocation.arguments =
            k.build (buildWithin .standard o₂ depth) o₂ invocation.arguments := by
      intro invocation parsed k hk
      obtain ⟨b, hname, rfl⟩ := Registry.lookup?_standard_iff.1 hk
      have hparsed : Expression.parse e = .ok ⟨b.name, invocation.arguments⟩ := by
        rw [hname, parsed]
      apply b.build_congr hletters
      · rintro rfl
        exact hnamed _ (.entry hparsed)
      · intro a ha
        exact ih fun option hoption => hnamed option (.nested hparsed ha hoption)
    apply ite_bind_congr
    apply lift_bind_congr
    intro invocation parsed
    cases hk : Registry.standard.lookup? invocation.kind with
    | none => rfl
    | some k => simp only [hkind invocation parsed k hk]

/-- Options that agree on the letters and on what an expression names either fail alike, or build nodes
that draw the same values from the same entropy, however often they are drawn. -/
theorem only_named_options_matter (hletters : o₁.letters = o₂.letters)
    (hnamed : ∀ option, NamesOption e option → o₁.get? option = o₂.get? option) (b : BuildState) :
    (∃ (err : Error) (b' : BuildState), (build .standard o₁ e).run.run b = (.error err, b') ∧
      (build .standard o₂ e).run.run b = (.error err, b')) ∨
    ∃ (n₁ n₂ : Node) (b' : BuildState), (build .standard o₁ e).run.run b = (.ok n₁, b') ∧
      (build .standard o₂ e).run.run b = (.ok n₂, b') ∧
      ∀ (state : DrawState) (count : Nat), ∃ (vs : List Value) (state' : DrawState),
        vs.length = count ∧
        (DrawM.repeated n₁.source.draw count).run.run state = (.ok (vs.map .ready), state') ∧
        (DrawM.repeated n₂.source.draw count).run.run state = (.ok (vs.map .ready), state') := by
  have hbuild : build .standard o₁ e = build .standard o₂ e :=
    buildWithin_congr hletters _ hnamed
  rw [← hbuild]
  rcases hrun : (build .standard o₁ e).run.run b with ⟨err | n, b'⟩
  · exact .inl ⟨err, b', rfl, rfl⟩
  · refine .inr ⟨n, n, b', rfl, rfl, ?_⟩
    intro state count
    have hdraws : n.source.Draws (Denotes o₁ e) := draws_of_buildWithin _ e b n b' hrun
    obtain ⟨vs, state', hlength, hreturns⟩ := Source.exists_values_of_draws hdraws count state
    exact ⟨vs, state', hlength, hreturns, hreturns⟩

theorem only_named_options_matter_pets :
    let e := "array:(entry:pets):(oneOf:(entry):(string:2-3))"
    let pets := (Options.standard.set "pets" (.str "ab")).set "collection" (.array [.null])
    let more := { pets.set "noise" (.bool true) with iterations := 3 }
    pets.letters = more.letters ∧
      (∀ option, NamesOption e option → pets.get? option = more.get? option) ∧
      ∃ (n₁ n₂ : Node) (b' : BuildState), (build .standard pets e).run.run ⟨[], 0⟩ = (.ok n₁, b') ∧
        (build .standard more e).run.run ⟨[], 0⟩ = (.ok n₂, b') ∧
        ∀ (state : DrawState) (count : Nat), ∃ (vs : List Value) (state' : DrawState),
          vs.length = count ∧
          (DrawM.repeated n₁.source.draw count).run.run state = (.ok (vs.map .ready), state') ∧
          (DrawM.repeated n₂.source.draw count).run.run state = (.ok (vs.map .ready), state') := by
  intro e pets more
  have hnamed : ∀ option, NamesOption e option → option = "pets" ∨ option = "collection" := by
    intro option h
    have parsed : Expression.parse "array:(entry:pets):(oneOf:(entry):(string:2-3))" =
        .ok ⟨Builtin.array.name, ["entry:pets", "oneOf:(entry):(string:2-3)"]⟩ := rfl
    have parsed_pets : Expression.parse "entry:pets" = .ok ⟨Builtin.entry.name, ["pets"]⟩ := rfl
    have parsed_choice : Expression.parse "oneOf:(entry):(string:2-3)" =
        .ok ⟨Builtin.oneOf.name, ["entry", "string:2-3"]⟩ := rfl
    have parsed_entry : Expression.parse "entry" = .ok ⟨Builtin.entry.name, []⟩ := rfl
    have parsed_string : Expression.parse "string:2-3" = .ok ⟨Builtin.string.name, ["2-3"]⟩ := rfl
    rcases (namesOption_iff parsed).1 h with ⟨hb, -⟩ | ⟨a, ha, h⟩
    · cases hb
    rcases List.mem_pair.1 ha with rfl | rfl
    · rcases (namesOption_iff parsed_pets).1 h with ⟨-, rfl⟩ | ⟨a, ha, -⟩
      · exact .inl rfl
      · exact absurd ha List.not_mem_nil
    rcases (namesOption_iff parsed_choice).1 h with ⟨hb, -⟩ | ⟨a, ha, h⟩
    · cases hb
    rcases List.mem_pair.1 ha with rfl | rfl
    · rcases (namesOption_iff parsed_entry).1 h with ⟨-, rfl⟩ | ⟨a, ha, -⟩
      · exact .inr rfl
      · exact absurd ha List.not_mem_nil
    · rcases (namesOption_iff parsed_string).1 h with ⟨hb, -⟩ | ⟨a, ha, -⟩
      · cases hb
      · exact absurd ha List.not_mem_nil
  have hagree : ∀ option, NamesOption e option → pets.get? option = more.get? option := by
    intro option h
    rcases hnamed option h with rfl | rfl
    · rfl
    · rfl
  refine ⟨rfl, hagree, ?_⟩
  have hok : ((build .standard pets e).run.run ⟨[], 0⟩).1.isOk = true := by decide +kernel
  have hletters : pets.letters = more.letters := rfl
  rcases only_named_options_matter hletters hagree ⟨[], 0⟩ with ⟨err, b', herror, -⟩ | hnodes
  · rw [herror] at hok
    cases hok
  · exact hnodes

end Node

end GenExpr
