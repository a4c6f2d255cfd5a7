import GenExpr.Proofs.Expression.Nesting
import GenExpr.Proofs.Node.Drawn

/-!
# Nested nodes

An array of one expression is built from that expression itself, as long as the parentheses of the
expression are balanced. A quotation whose parentheses are not is no argument of anything.
-/

namespace GenExpr.Node

open Expression (IsQuotation Balanced nested)

variable {e : String}

theorem exists_inner_of_buildWithin_nested
    (parsed : Expression.parse (nested e) = .ok ⟨"array", [e]⟩) {r : Registry}
    (harray : r.lookup? "array" = some (.builtin .array)) {o : Options} {depth : Nat} {n : Node}
    {b b' : BuildState} (built : Returns (buildWithin r o (depth + 1) (nested e)) b n b') :
    ∃ inner b₁ b₂, Returns (buildWithin r o depth e) b₁ inner b₂ ∧
      n.source = .array [inner.source] := by
  obtain ⟨kind, arguments, source⟩ := n
  obtain ⟨k, b₁, b₂, hparse, hk, hsource⟩ := exists_of_buildWithin built
  rw [parsed] at hparse
  obtain ⟨rfl, rfl⟩ : "array" = kind ∧ [e] = arguments := by simpa using hparse
  obtain rfl : Kind.builtin .array = k := Option.some.inj (harray.symm.trans hk)
  obtain ⟨items, b₃, hitems, hsource⟩ := returns_bind.1 hsource
  obtain ⟨rfl, -⟩ := returns_pure.1 hsource
  obtain ⟨inner, b₄, hinner, hitems⟩ := returns_bind.1 hitems
  obtain ⟨rest, hrest, rfl⟩ := returns_map.1 hitems
  obtain ⟨rfl, -⟩ := returns_pure.1 hrest
  exact ⟨inner, b₁, b₄, hinner, rfl⟩

/-- An expression comes back as the one argument of an array around it, unless it is a quotation with
unbalanced parentheses. What is built for the array then is built from the expression itself. -/
theorem nested_from_same_text {i : Invocation} (parsed : Expression.parse e = .ok i) :
    (Expression.parse ("array:(" ++ e ++ ")") = .ok ⟨"array", [e]⟩ ↔
      ¬(IsQuotation e.toList ∧ ¬Balanced e.toList)) ∧
    (¬(IsQuotation e.toList ∧ ¬Balanced e.toList) → ∀ (r : Registry) o depth b n b',
      r.lookup? "array" = some (.builtin .array) →
      (buildWithin r o (depth + 1) ("array:(" ++ e ++ ")")).run.run b = (.ok n, b') →
      ∃ inner b₁ b₂, (buildWithin r o depth e).run.run b₁ = (.ok inner, b₂) ∧
        n.source = .array [inner.source]) := by
  have hbalanced : Balanced e.toList ↔ ¬(IsQuotation e.toList ∧ ¬Balanced e.toList) := by
    have hshape := Expression.balanced_of_parse parsed
    tauto
  have hnested := Expression.parse_nested_eq_iff e
  refine ⟨hnested.trans hbalanced, ?_⟩
  intro hquoted r o depth b n b' harray built
  exact exists_inner_of_buildWithin_nested (hnested.2 (hbalanced.2 hquoted)) harray built

theorem nested_repetition_from_same_text :
    let e := "2*(oneOf:(\"a:b\"):(3*(int:-1-2)))"
    Expression.parse ("array:(" ++ e ++ ")") = .ok ⟨"array", [e]⟩ ∧
    ∃ n inner b b₁ b₂,
      (buildWithin .standard .standard 5 ("array:(" ++ e ++ ")")).run.run ⟨[], 0⟩ = (.ok n, b) ∧
      (buildWithin .standard .standard 4 e).run.run b₁ = (.ok inner, b₂) ∧
      n.source = .array [inner.source] := by
  intro e
  have parsed : Expression.parse e = .ok ⟨"repeat", ["2", "oneOf:(\"a:b\"):(3*(int:-1-2))"]⟩ := by
    decide +kernel
  have hquoted : ¬(IsQuotation e.toList ∧ ¬Balanced e.toList) := by
    intro h
    have hhead := h.1.2.1
    simp [e] at hhead
  have hok : ((buildWithin .standard .standard 5 ("array:(" ++ e ++ ")")).run.run
      ⟨[], 0⟩).1.isOk = true := by
    decide +kernel
  obtain ⟨n, b, built⟩ := exists_eq_ok_of_isOk hok
  obtain ⟨hparse, hbuild⟩ := nested_from_same_text parsed
  obtain ⟨inner, b₁, b₂, hinner, hsource⟩ :=
    hbuild hquoted .standard .standard 4 ⟨[], 0⟩ n b rfl built
  exact ⟨hparse.2 hquoted, n, inner, b, b₁, b₂, built, hinner, hsource⟩

/-- Not every expression can be nested: a quotation may hold parentheses that are not balanced. Around
it the text is malformed, or stands for another text. -/
theorem unbalanced_quotation_is_lost :
    Expression.parse "\"a:(b\"" = .ok ⟨"literal", ["\"a:(b\""]⟩ ∧
    Expression.parse "array:(\"a:(b\")" ≠ .ok ⟨"array", ["\"a:(b\""]⟩ ∧
    (Expression.parse "array:(\"a:(b\")").toOption = none ∧
    Expression.parse "\"a)(b\"" = .ok ⟨"literal", ["\"a)(b\""]⟩ ∧
    Expression.parse "array:(\"a)(b\")" = .ok ⟨"array", ["\"ab\""]⟩ := by
  decide

end GenExpr.Node
