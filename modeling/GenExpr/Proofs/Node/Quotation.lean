import GenExpr.Proofs.Json.RoundTrip
import GenExpr.Proofs.Node.Accepted

/-!
# Quotations and the texts they stand for

The JSON text of a string is a quotation, unless the string is empty. So it is an expression that stands
for the string itself, whatever characters the string holds. The two quotes of an empty string are the
name of a kind, which there is not.
-/

namespace GenExpr

/-- The JSON text of a string that is not empty is a quotation. -/
theorem Json.isQuotation_writeString {t : String} (h : t ≠ "") :
    Expression.IsQuotation (writeString t) := by
  have hchars : t.toList ≠ [] := fun hnil => h (String.toList_eq_nil_iff.1 hnil)
  obtain ⟨c, r, hcr⟩ := List.exists_cons_of_ne_nil hchars
  have hescape : 0 < (escape c).length := List.length_pos_iff.2 (escape_ne_nil c)
  refine ⟨?_, rfl, ?_⟩
  · rw [writeString, hcr]
    simp only [List.flatMap_cons, List.length_cons, List.length_append, List.length_nil]
    omega
  · rw [writeString, ← List.cons_append, List.getLast?_concat]

namespace Node

variable {o : Options} {e : String}

/-- A literal is built from JSON, and draws the value of that. -/
theorem returns_build_literal {args : List String} {v : Value}
    (parsed : Expression.parse e = .ok ⟨"literal", args⟩)
    (read : Json.read (orDefault "" args) = .ok v) (b : BuildState) :
    ∃ b', Returns (build .standard o e) b ⟨"literal", args, .literal v⟩ b' := by
  have hk : Registry.lookup? .standard "literal" = some (.builtin .literal) := rfl
  have reads : Builtin.literal.Reads o args (.alone (.literal v)) := .literal read
  have hsource : ∀ nest, (Kind.builtin .literal).build nest o args = pure (.literal v) := reads.build_eq
  unfold Returns Ends
  rw [build, depthLimit, buildWithin_succ, run_buildFrom, construct, parsed, lift_ok_bind]
  simp only [hk, hsource]
  exact ⟨_, rfl⟩

/-- A string that is not empty is what its JSON text draws, every time and without random words. The
JSON text of the empty string is the name of an unknown kind. -/
theorem quotation_denotes_text (o : Options) (t : String) :
    (t ≠ "" → ∀ b, ∃ n b', (build .standard o (Value.str t).json).run.run b = (.ok n, b') ∧
      n.kind = "literal" ∧ n.arguments = [(Value.str t).json] ∧ n.isAsync = false ∧
      ∀ s, n.source.draw.run.run s = (.ok (.ready (.str t)), s)) ∧
    (t = "" → ∀ b, ∃ b', (build .standard o (Value.str t).json).run.run b =
      (.error (.unknownKind "\"\""), b')) := by
  constructor
  · intro hne b
    have hquoted : Expression.IsQuotation (Value.str t).json.toList := by
      rw [Value.json, String.toList_ofList]
      exact Json.isQuotation_writeString hne
    have hread : Json.read (orDefault "" [(Value.str t).json]) = .ok (.str t) := by
      rw [orDefault_empty]
      exact Json.read_write (.str t) (Nat.zero_le _)
    obtain ⟨b', built⟩ :=
      returns_build_literal (o := o) (Expression.parse_of_isQuotation hquoted) hread b
    exact ⟨_, b', built, rfl, rfl, rfl, fun s => rfl⟩
  · intro hempty b
    subst hempty
    have entered : enter .standard o (Value.str "").json = .error (.unknownKind "\"\"") := rfl
    exact ⟨_, raises_build_of_enter entered b⟩

theorem marked_text_is_quoted :
    ∃ n b', (build .standard .standard "\"a\\\"):(\\u0001\\\\\"").run.run ⟨[], 0⟩ = (.ok n, b') ∧
      ∀ s, n.source.draw.run.run s = (.ok (.ready (.str "a\"):(\x01\\")), s) := by
  have hjson : (Value.str "a\"):(\x01\\").json = "\"a\\\"):(\\u0001\\\\\"" := by decide
  obtain ⟨n, b', built, -, -, -, hdraw⟩ :=
    (quotation_denotes_text .standard "a\"):(\x01\\").1 (by decide) ⟨[], 0⟩
  exact ⟨n, b', hjson ▸ built, hdraw⟩

/-- The empty string has a JSON text that is no literal, while `literal` takes that text. -/
theorem empty_text_is_not_quoted :
    (Value.str "").json = "\"\"" ∧
    ¬(∃ n b', (build .standard .standard "\"\"").run.run ⟨[], 0⟩ = (.ok n, b')) ∧
    ∃ n b', (build .standard .standard "literal:\"\"").run.run ⟨[], 0⟩ = (.ok n, b') ∧
      ∀ s, n.source.draw.run.run s = (.ok (.ready (.str "")), s) := by
  refine ⟨by decide, ?_, ?_⟩
  · intro h
    obtain ⟨n, b', built⟩ := h
    have entered : enter .standard .standard "\"\"" = .error (.unknownKind "\"\"") := rfl
    exact (raises_build_of_enter entered ⟨[], 0⟩).not_returns built
  · have parsed : Expression.parse "literal:\"\"" = .ok ⟨"literal", ["\"\""]⟩ := rfl
    have hread : Json.read "\"\"" = .ok (.str "") := by
      have hjson : "\"\"" = (Value.str "").json := by decide
      rw [hjson]
      exact Json.read_write (.str "") (Nat.zero_le _)
    obtain ⟨b', built⟩ := returns_build_literal (o := .standard) parsed hread ⟨[], 0⟩
    exact ⟨_, b', built, fun s => rfl⟩

end Node

end GenExpr
