import GenExpr.Proofs.Node.Congruence

/-!
# Suspension is transparent

Two registries with the same kinds, except that leaves of the second suspend some of their draws. What
is built under the one is built under the other, and draws the same values from the same words, once the
leaves that it waits for have settled.
-/

namespace GenExpr

open List (Forall₂)

/-- Leaves that draw the same values, or the same refusal. -/
inductive Recipe.Suspends : Recipe → Recipe → Prop
  | leaf {l l' : Leaf} (h : l.Suspends l') : Suspends (.leaf l) (.leaf l')
  | refuse (e : Error) : Suspends (.refuse e) (.refuse e)

/-- The same builtin kind, or custom kinds of leaves that draw the same values. -/
inductive Kind.Suspends : Kind → Kind → Prop
  | builtin (b : Builtin) : Suspends (.builtin b) (.builtin b)
  | custom {k k' : CustomKind} (h : ∀ o args, (k.recipe o args).Suspends (k'.recipe o args)) :
      Suspends (.custom k) (.custom k')

/-- Under every name both registries have kinds whose leaves draw the same values. -/
structure Registry.Suspends (r r' : Registry) : Prop where
  reach_eq : r.reach = r'.reach
  kinds : ∀ name, Option.Rel Kind.Suspends (r.lookup? name) (r'.lookup? name)

def Node.Suspends (n n' : Node) : Prop := n.source.Suspends n'.source

theorem Source.suspends_congruent : Source.Congruent Source.Suspends where
  plain h _ := h.suspends
  text := Source.suspends_text
  oneOf := Source.suspends_oneOf
  array := Source.suspends_array
  times := Source.suspends_times

theorem Recipe.suspends_iff {recipe recipe' : Recipe} :
    recipe.Suspends recipe' ↔ recipe.Relates Leaf.Suspends recipe' := by
  constructor
  · rintro (h | e)
    · exact .leaf h
    · exact .refuse e
  · rintro (h | e)
    · exact .leaf h
    · exact .refuse e

theorem Kind.suspends_iff {k k' : Kind} : k.Suspends k' ↔ k.Relates Leaf.Suspends k' := by
  constructor
  · rintro (b | h)
    · exact .builtin b
    · exact .custom fun o args => Recipe.suspends_iff.1 (h o args)
  · rintro (b | h)
    · exact .builtin b
    · exact .custom fun o args => Recipe.suspends_iff.2 (h o args)

theorem Registry.suspends_iff {r r' : Registry} :
    r.Suspends r' ↔ r.Relates Leaf.Suspends r' := by
  have hkind : Kind.Suspends = Kind.Relates Leaf.Suspends := by
    funext k k'
    exact propext Kind.suspends_iff
  constructor
  · rintro ⟨hreach, hkinds⟩
    exact ⟨hreach, hkind ▸ hkinds⟩
  · rintro ⟨hreach, hkinds⟩
    exact ⟨hreach, hkind ▸ hkinds⟩

section Node

variable {r r' : Registry} (hr : r.Suspends r') (o : Options)
include hr

theorem Node.follows_build (e : String) :
    Follows BuildState.Alike Node.Suspends (build r o e) (build r' o e) :=
  (agrees_build Source.suspends_congruent Source.suspends_leaf (Registry.suspends_iff.1 hr) o e).follows

/-- Let the leaves of the second registry suspend what those of the first draw at once. What builds under
the first then builds under the second, and any number of draws take the same words; those of the first
are there at once, and those of the second settle to the same values, in whatever order their gates open
and however often they are polled. -/
theorem Node.suspension_is_transparent {e : String} {n : Node} {b b₁ b' : BuildState}
    (built : (build r o e).run.run b = (.ok n, b₁)) (leaves : b.leaves = b'.leaves)
    {s s' : DrawState} (words : s.entropy = s'.entropy) (tally : s.tally = s'.tally) (count : Nat) :
    ∃ n' b₁', (build r' o e).run.run b' = (.ok n', b₁') ∧
      ∃ vs ds s₁ s₁', (DrawM.repeated n.source.draw count).run.run s =
          (.ok (vs.map .ready), s₁) ∧
        (DrawM.repeated n'.source.draw count).run.run s' = (.ok ds, s₁') ∧
        s₁.entropy = s₁'.entropy ∧ vs.length = count ∧
        Forall₂ (fun d v => Deferred.SettlesTo d v) ds vs := by
  obtain ⟨n', b₁', built', hn, -⟩ := follows_build hr o e b b' n b₁ leaves built
  obtain ⟨ds, s₁, ds', s₁', hds, hds', ⟨hlength, hsuspends⟩, hs⟩ :=
    KeepStep.repeated hn count s s' ⟨words, tally⟩
  obtain ⟨vs, rfl, hvs⟩ := exists_values_of_suspends hsuspends
  refine ⟨n', b₁', built', vs, ds', s₁, s₁', hds, hds', hs.entropy, ?_, ?_⟩
  · rwa [List.length_map] at hlength
  · exact hvs.imp fun _ _ => Deferred.settlesTo_of_promises

end Node

theorem Registry.standard_suspends : Registry.standard.Suspends .standard :=
  suspends_iff.2 (standard_relates _)

theorem Registry.Suspends.register {r r' : Registry} (h : r.Suspends r') {name : String}
    {k k' : Kind} (hk : k.Suspends k')
    (hreach : (r.register name k).reach = (r'.register name k').reach) :
    (r.register name k).Suspends (r'.register name k') :=
  suspends_iff.2 ((suspends_iff.1 h).register (Kind.suspends_iff.1 hk) hreach)

theorem Node.nested_suspension_is_transparent :
    let r := Registry.standard.register "late"
      (.scripted "late" false [.ready (.int 4), .count, .ready (.str "x")])
    let r' := Registry.standard.register "late"
      (.scripted "late" true [.gated (.ok (.int 4)), .settledCount, .ready (.str "x")])
    let e := "array:(string:late):(oneOf:late:int):(3*(late))"
    let s : DrawState := ⟨⟨fun _ => 7, 0⟩, 0, fun _ => 0⟩
    ∃ n b₁ n' b₁', (build r .standard e).run.run ⟨[], 0⟩ = (.ok n, b₁) ∧
      (build r' .standard e).run.run ⟨[], 0⟩ = (.ok n', b₁') ∧
      ∃ vs ds s₁ s₁', (DrawM.repeated n.source.draw 2).run.run s = (.ok (vs.map .ready), s₁) ∧
        (DrawM.repeated n'.source.draw 2).run.run s = (.ok ds, s₁') ∧
        s₁.entropy = s₁'.entropy ∧ vs.length = 2 ∧
        Forall₂ (fun d v => Deferred.SettlesTo d v) ds vs := by
  intro r r' e s
  have hleaf : (Leaf.scripted false [.ready (.int 4), .count, .ready (.str "x")]).Suspends
      (.scripted true [.gated (.ok (.int 4)), .settledCount, .ready (.str "x")]) := by
    refine Leaf.related_scripted (.cons ?_ (.cons ?_ (.cons ?_ .nil))) nofun false true
    · exact fun _ => .gated _
    · exact fun _ => .settled _
    · exact fun _ => .ready _
  have hr : r.Suspends r' :=
    Registry.standard_suspends.register (.custom fun _ _ => .leaf hleaf) rfl
  have hok : ((build r .standard e).run.run ⟨[], 0⟩).1.isOk = true := by decide +kernel
  obtain ⟨n, b₁, built⟩ := exists_eq_ok_of_isOk hok
  obtain ⟨n', b₁', built', hdraws⟩ := suspension_is_transparent hr .standard built rfl rfl rfl 2
  exact ⟨n, b₁, n', b₁', built, built', hdraws⟩

end GenExpr
