import GenExpr.Proofs.Draw.Source
import GenExpr.Proofs.Node.Builtin

/-!
# Draws lie in the meaning of their expression

Whatever is built under the standard registry draws, at once and however often it was drawn before, a
value that its expression stands for. Each builtin kind reads its arguments as the meaning does, so that
the proof follows the reading of a node's arguments.
-/

namespace GenExpr

open List (Forall₂)

variable {o : Options}

section Build

variable {nest : String → BuildM Node} {e : String} {args : List String} {s : Source}
  {b b' : BuildState}

/-- What builds nested expressions gives nodes that draw in the meaning of their expressions. -/
def DrawsMeaning (o : Options) (nest : String → BuildM Node) : Prop :=
  ∀ e b n b', Returns (nest e) b n b' → n.source.Draws (Denotes o e)

theorem draws_denotes_nestAll (hnest : DrawsMeaning o nest) {ss : List Source}
    (h : Returns (Builtin.nestAll nest args) b ss b') :
    Forall₂ (fun a s => s.Draws (Denotes o a)) args ss := by
  induction args generalizing b ss with
  | nil =>
    obtain ⟨rfl, -⟩ := returns_pure.1 h
    exact .nil
  | cons a rest ih =>
    obtain ⟨n, b₁, hn, h⟩ := returns_bind.1 h
    obtain ⟨ss, hss, rfl⟩ := returns_map.1 h
    exact .cons (hnest _ _ _ _ hn) (ih hss)

/-- What a collection can yield is part of the option that it was made from. -/
theorem Collection.has_of_ofOption {option : String} {c : Collection}
    (h : Collection.ofOption option o = .ok c) {v : Value} (hv : c.Has v) :
    (∃ vs, o.get? option = some (.array vs) ∧ v ∈ vs) ∨
    (∃ members k, o.get? option = some (.map members) ∧ (k, v) ∈ members) ∨
    ∃ text char, o.get? option = some (.str text) ∧ char ∈ text.toList ∧
      v = .str (String.singleton char) := by
  rw [Collection.ofOption] at h
  split at h
  next => cases h
  next u hu =>
    split at h
    next =>
      split at h
      next vs _ =>
        beta_reduce at h
        split at h
        next =>
          obtain rfl := Except.ok.inj h
          exact .inl ⟨vs, hu, hv⟩
        next => cases h
      next members _ =>
        beta_reduce at h
        split at h
        next =>
          obtain rfl := Except.ok.inj h
          obtain ⟨⟨k, _⟩, hmem, rfl⟩ := List.mem_map.1 hv
          exact .inr (.inl ⟨members, k, hu, hmem⟩)
        next => cases h
      next text _ =>
        split at h
        next =>
          obtain rfl := Except.ok.inj h
          obtain ⟨char, hmem, rfl⟩ := hv
          exact .inr (.inr ⟨text, char, hu, hmem, rfl⟩)
        next => cases h
      next => cases h
    next => cases h

theorem draws_denotes_letters {range : NumberRange} (parsed : Expression.parse e = .ok ⟨"string", args⟩)
    (span : Expression.isNumberRange (orDefault "10-20" args).toList = true)
    (hrange : NumberRange.parse (orDefault "10-20" args) = .ok range) :
    (Source.letters range o.letters).Draws (Denotes o e) := by
  apply (Source.draws_letters range o.letters).mono
  intro w hw
  obtain ⟨text, rfl, hlo, hhi, hletters⟩ := hw
  have shape := Expression.isNumberRange_iff.1 span
  unfold NumberRange.lowest at hlo
  unfold NumberRange.highest at hhi
  refine .letters parsed shape (NumberRange.spans_of_parse hrange) ?_ ?_ hletters
  · omega
  · omega

theorem draws_denotes_text (parsed : Expression.parse e = .ok ⟨"string", args⟩)
    (span : ¬Expression.isNumberRange (orDefault "10-20" args).toList = true)
    (inner : s.Draws (Denotes o (orDefault "10-20" args))) : (Source.text s).Draws (Denotes o e) := by
  apply (Source.draws_text inner).mono
  intro w hw
  obtain ⟨v, hv, rfl⟩ := hw
  exact .text parsed (fun shape => span (Expression.isNumberRange_iff.2 shape)) hv

theorem draws_denotes_number (range : NumberRange) (precision : Option Binary64)
    (parsed : Expression.parse e = .ok ⟨"number", args⟩) :
    (Source.number range precision).Draws (Denotes o e) := by
  apply (Source.draws_number range precision).mono
  intro w hw
  obtain ⟨x, rfl⟩ := hw
  exact .number parsed

theorem draws_denotes_int {range : NumberRange} (parsed : Expression.parse e = .ok ⟨"int", args⟩)
    (hrange : NumberRange.parse (orDefault "0-10" args) = .ok range) :
    (Source.int range).Draws (Denotes o e) := by
  apply (Source.draws_int range).mono
  intro w hw
  obtain ⟨i, rfl, hlo, hhi⟩ := hw
  exact .int parsed (NumberRange.spans_of_parse hrange) hlo hhi

theorem draws_denotes_char {range : CharRange} (parsed : Expression.parse e = .ok ⟨"char", args⟩)
    (hrange : CharRange.parse (orDefault "A-Z" args) = .ok range) :
    (Source.char range).Draws (Denotes o e) := by
  apply (Source.draws_char range).mono
  intro w hw
  obtain ⟨c, rfl, hlo, hhi⟩ := hw
  exact .char parsed (CharRange.toList_of_parse hrange) hlo hhi

theorem draws_denotes_boolean (bias : Binary64)
    (parsed : Expression.parse e = .ok ⟨"boolean", args⟩) :
    (Source.boolean bias).Draws (Denotes o e) := by
  apply (Source.draws_boolean bias).mono
  intro w hw
  obtain ⟨x, rfl⟩ := hw
  exact .boolean parsed

theorem draws_denotes_oneOf {first : Source} {others : List Source}
    (parsed : Expression.parse e = .ok ⟨"oneOf", args⟩)
    (inner : Forall₂ (fun a s => s.Draws (Denotes o a)) args (first :: others)) :
    (Source.oneOf first others).Draws (Denotes o e) := by
  apply Source.draws_oneOf
  intro s hs
  obtain ⟨i, hi, rfl⟩ := List.mem_iff_getElem.1 hs
  obtain ⟨hlength, hget⟩ := List.forall₂_iff_get.1 inner
  have hi' : i < args.length := by rwa [hlength]
  exact (hget i hi' hi).mono fun v hv => .oneOf parsed (List.getElem_mem hi') hv

theorem draws_denotes_array {items : List Source} (parsed : Expression.parse e = .ok ⟨"array", args⟩)
    (inner : Forall₂ (fun a s => s.Draws (Denotes o a)) args items) :
    (Source.array items).Draws (Denotes o e) := by
  apply (Source.draws_array inner).mono
  intro w hw
  obtain ⟨vs, rfl, hvs⟩ := hw
  exact .array parsed hvs

theorem draws_denotes_repetition {count a : String} {rest : List String} {n : Nat}
    (parsed : Expression.parse e = .ok ⟨"repeat", count :: a :: rest⟩)
    (counts : Decimal.count? count.toList = some n) (inner : s.Draws (Denotes o a)) :
    (Source.times n s).Draws (Denotes o e) := by
  apply (Source.draws_times inner n).mono
  intro w hw
  obtain ⟨vs, hlength, hvs, rfl⟩ := hw
  exact .repetition parsed counts hlength hvs

theorem draws_denotes_literal {v : Value} (parsed : Expression.parse e = .ok ⟨"literal", args⟩)
    (reads : Json.read (orDefault "" args) = .ok v) : (Source.literal v).Draws (Denotes o e) := by
  apply (Source.draws_literal v).mono
  intro w hw
  obtain rfl := hw
  exact .literal parsed reads

theorem draws_denotes_entry {c : Collection} (parsed : Expression.parse e = .ok ⟨"entry", args⟩)
    (found : Collection.ofOption (orDefault "collection" args) o = .ok c) :
    (Source.entry c).Draws (Denotes o e) := by
  apply (Source.draws_entry c).mono
  intro v hv
  rcases Collection.has_of_ofOption found hv with
    ⟨vs, hoption, hmem⟩ | ⟨members, k, hoption, hmem⟩ | ⟨text, char, hoption, hmem, rfl⟩
  · exact .item parsed hoption hmem
  · exact .member parsed hoption hmem
  · exact .character parsed hoption hmem

theorem draws_denotes_of_reads {builtin : Builtin} {a : Assembly} {ss : List Source}
    (parsed : Expression.parse e = .ok ⟨builtin.name, args⟩) (reads : builtin.Reads o args a)
    (makes : a.Makes ss s)
    (inner : Forall₂ (fun e s => s.Draws (Denotes o e)) ((Kind.builtin builtin).nested o args) ss) :
    s.Draws (Denotes o e) := by
  cases reads with
  | letters span hrange =>
    cases makes
    exact draws_denotes_letters parsed span hrange
  | text span =>
    cases makes
    rw [Kind.nested_string_of_not_span span] at inner
    exact draws_denotes_text parsed span (List.forall₂_cons.1 inner).1
  | number =>
    cases makes
    exact draws_denotes_number _ _ parsed
  | int hrange =>
    cases makes
    exact draws_denotes_int parsed hrange
  | char hrange =>
    cases makes
    exact draws_denotes_char parsed hrange
  | boolean =>
    cases makes
    exact draws_denotes_boolean _ parsed
  | oneOf =>
    cases makes
    exact draws_denotes_oneOf parsed inner
  | array =>
    cases makes
    exact draws_denotes_array parsed inner
  | repetition counts =>
    cases makes
    exact draws_denotes_repetition parsed counts (List.forall₂_cons.1 inner).1
  | literal hread =>
    cases makes
    exact draws_denotes_literal parsed hread
  | entry found =>
    cases makes
    exact draws_denotes_entry parsed found

end Build

theorem Entries.value_of_insert {α : Type} {P : String → α → Prop} {key : String} {a : α}
    {entries : List (String × α)} (ha : P key a)
    (h : ∀ k b, Entries.find? k entries = some b → P k b) {k : String} {b : α}
    (hfind : Entries.find? k (Entries.insert key a entries) = some b) : P k b := by
  rw [Entries.find?_insert] at hfind
  split at hfind
  next heq =>
    obtain rfl := Option.some.inj hfind
    rw [heq]
    exact ha
  next => exact h k b hfind

/-- The standard registry has the builtin kinds under their own names. -/
theorem Registry.builtin_of_lookup? {name : String} {k : Kind}
    (h : Registry.standard.lookup? name = some k) :
    ∃ b : Builtin, k = .builtin b ∧ b.name = name := by
  have hstep : ∀ (bs : List Builtin) (r : Registry),
      (∀ name k, r.lookup? name = some k → ∃ b : Builtin, k = .builtin b ∧ b.name = name) →
      ∀ name k, (bs.foldl (fun r b => r.register b.name (.builtin b)) r).lookup? name = some k →
        ∃ b : Builtin, k = .builtin b ∧ b.name = name := by
    intro bs
    induction bs with
    | nil => exact fun _ hr => hr
    | cons b bs ih =>
      intro r hr
      apply ih
      intro name k hfind
      exact Entries.value_of_insert ⟨b, rfl, rfl⟩ hr hfind
  exact hstep Builtin.all [] nofun name k h

/-- What was built was read as an invocation of a kind, which built its source. -/
theorem Node.exists_of_buildWithin {r : Registry} {depth : Nat} {e : String} {n : Node}
    {b b' : BuildState} (h : Returns (buildWithin r o (depth + 1) e) b n b') :
    ∃ k b₁ b₂, Expression.parse e = .ok ⟨n.kind, n.arguments⟩ ∧ r.lookup? n.kind = some k ∧
      Returns (k.build (buildWithin r o depth) o n.arguments) b₁ n.source b₂ := by
  rw [buildWithin] at h
  obtain ⟨b₁, h⟩ := exists_returns_of_ite h
  obtain ⟨invocation, hparse, h⟩ := exists_of_returns_lift_bind h
  split at h
  next => exact absurd h not_returns_throw
  next k hk =>
    obtain ⟨source, b₂, hsource, h⟩ := returns_bind.1 h
    obtain ⟨_, b₃, -, h⟩ := returns_bind.1 h
    obtain ⟨rfl, -⟩ := returns_pure.1 h
    exact ⟨k, b₁, b₂, hparse, hk, hsource⟩

theorem Node.draws_of_buildWithin (depth : Nat) :
    DrawsMeaning o (buildWithin .standard o depth) := by
  induction depth with
  | zero =>
    intro e b n b' h
    exact absurd h not_returns_throw
  | succ depth ih =>
    intro e b n b' h
    obtain ⟨k, b₁, b₂, parsed, hk, hsource⟩ := exists_of_buildWithin h
    obtain ⟨builtin, rfl, hname⟩ := Registry.builtin_of_lookup? hk
    rw [← hname] at parsed
    obtain ⟨a, ss, reads, hss, makes⟩ := Builtin.exists_of_returns_build hsource
    exact draws_denotes_of_reads parsed reads makes (draws_denotes_nestAll ih hss)

/-- Every draw of a node that is built under the standard registry succeeds at once, whatever the
entropy and however many draws came before it, with a value that the expression stands for. -/
theorem Node.draws_lie_in_meaning {e : String} {b b' : BuildState} {n : Node}
    (built : (Node.build .standard o e).run.run b = (.ok n, b')) (state : DrawState) (count : Nat) :
    ∃ ds state', (DrawM.repeated n.source.draw count).run.run state = (.ok ds, state') ∧
      ds.length = count ∧ ∀ d ∈ ds, ∃ v, d = .ready v ∧ Denotes o e v :=
  Always.repeated (draws_of_buildWithin _ e b n b' built) count state

theorem Node.nested_draws_lie_in_meaning :
    let e := "oneOf:(array:(int:-3-4):char:\"x\"):(3*(string:0-2))"
    let state : DrawState := ⟨⟨fun _ => 7, 0⟩, 0, fun _ => 5⟩
    ∃ n b', (Node.build .standard .standard e).run.run ⟨[], 0⟩ = (.ok n, b') ∧
      ∃ ds state', (DrawM.repeated n.source.draw 2).run.run state = (.ok ds, state') ∧
        ds.length = 2 ∧ ∀ d ∈ ds, ∃ v, d = .ready v ∧ Denotes .standard e v := by
  intro e state
  have hok : ((Node.build .standard .standard e).run.run ⟨[], 0⟩).1.isOk = true := by
    decide +kernel
  obtain ⟨n, b', built⟩ := exists_eq_ok_of_isOk hok
  exact ⟨n, b', built, draws_lie_in_meaning built state 2⟩

end GenExpr
