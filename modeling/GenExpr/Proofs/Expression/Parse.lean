import GenExpr.Expression.Parse
import GenExpr.Proofs.Expression.General
import GenExpr.Proofs.Expression.Shape

/-!
# Parsing by shape and depth

Every expression is read by its shape: the four shorthands in their order, and all other texts by depth.
-/

namespace GenExpr.Expression

theorem toList_repeated (count inner : List Char) :
    (String.ofList (repeated count inner)).toList =
      'r' :: ("epeat:".toList ++ count ++ [':', '('] ++ inner ++ [')']) := by
  rw [String.toList_ofList]
  rfl

theorem expand_of_isRepetition {s : String} {count inner : List Char}
    (h : IsRepetition count inner s.toList) : expand s = String.ofList (repeated count inner) := by
  rw [expand, repetition?_eq_some_iff.2 h]

theorem expand_of_not_isRepetition {s : String}
    (h : ∀ count inner, ¬IsRepetition count inner s.toList) : expand s = s := by
  unfold expand
  split
  · rename_i count inner hr
    exact absurd (repetition?_eq_some_iff.1 hr) (h count inner)
  · rfl

/-- A repetition begins with a digit. -/
theorem not_isRepetition_of_cons {c : Char} {r : List Char} (h : c.isDigit = false)
    (count inner : List Char) : ¬IsRepetition count inner (c :: r) := by
  intro hx
  obtain ⟨hne, hdigits, -, heq⟩ := hx
  cases count with
  | nil => exact hne rfl
  | cons d rest =>
    obtain ⟨rfl, -⟩ := List.cons.inj heq
    rw [hdigits c List.mem_cons_self] at h
    cases h

/-- A repetition that is written out is no repetition any more. -/
theorem not_isRepetition_repeated (count inner c i : List Char) :
    ¬IsRepetition c i (String.ofList (repeated count inner)).toList := by
  rw [toList_repeated]
  exact not_isRepetition_of_cons (by decide) c i

theorem parse_of_not_shorthand {s : String} (hrep : ∀ count inner, ¬IsRepetition count inner s.toList)
    (hshort : shorthand? s.toList = none) :
    parse s = match general s with
      | .error failure => .error (.malformed failure)
      | .ok invocation => .ok invocation := by
  rw [parse, expand_of_not_isRepetition hrep]
  cases hgeneral : general s with
  | error failure => simp only [readExpanded, hshort, hgeneral]
  | ok invocation => simp only [readExpanded, hshort, hgeneral]

theorem parse_of_isRepetition {s : String} {count inner : List Char}
    (h : IsRepetition count inner s.toList) :
    parse s = parse (String.ofList (repeated count inner)) := by
  unfold parse
  rw [expand_of_isRepetition h, expand_of_not_isRepetition (not_isRepetition_repeated _ _)]

/-- A text that begins with a quote has none of the shorthands that come before the quotation. -/
theorem parse_of_quote {s : String} {r : List Char} (h : s.toList = '"' :: r) :
    parse s = readExpanded s ∧ isNumberRange s.toList = false ∧ isCharRange s.toList = false := by
  refine ⟨?_, ?_, ?_⟩
  · rw [parse, expand_of_not_isRepetition]
    rw [h]
    exact not_isRepetition_of_cons (by decide)
  · rw [h]
    rfl
  · rw [h, Bool.eq_false_iff, ne_eq, isCharRange_iff]
    rintro ⟨a, b, ha, -, heq⟩
    obtain ⟨rfl, -⟩ := List.cons.inj heq
    cases ha

/-- A quotation is a literal. -/
theorem parse_of_isQuotation {s : String} (h : IsQuotation s.toList) :
    parse s = .ok ⟨"literal", [s]⟩ := by
  obtain ⟨r, hr⟩ : ∃ r, s.toList = '"' :: r := by
    cases hs : s.toList with
    | nil =>
      rw [hs] at h
      cases h.2.1
    | cons c r =>
      rw [hs] at h
      obtain rfl := Option.some.inj h.2.1
      exact ⟨r, rfl⟩
  obtain ⟨hread, hnumber, hchar⟩ := parse_of_quote hr
  simp [hread, readExpanded, shorthand?, hnumber, hchar, isQuoted_iff.2 h]

/-- The general form is read by depth, and all other texts are malformed. -/
theorem general_by_depth (s : String) :
    (∃ kind arguments, Balanced s.toList ∧ pieces 0 s.toList = kind :: arguments ∧ kind ≠ [] ∧
      general s = .ok ⟨String.ofList kind, arguments.map String.ofList⟩) ∨
    (¬(Balanced s.toList ∧ (pieces 0 s.toList).head? ≠ some []) ∧ ∃ f, general s = .error f) := by
  unfold general
  cases hs : segments s.toList with
  | ok p =>
    obtain ⟨kind, arguments⟩ := p
    obtain ⟨hb, hp, hne⟩ := segments_eq_ok_iff.1 hs
    exact .inl ⟨kind, arguments, hb, hp, hne, rfl⟩
  | error e =>
    refine .inr ⟨?_, _, rfl⟩
    intro hx
    obtain ⟨hb, hne⟩ := hx
    cases hp : pieces 0 s.toList with
    | nil => exact pieces_ne_nil _ _ hp
    | cons kind arguments =>
      have hok := segments_eq_ok_iff.2 ⟨hb, hp, fun h => hne (by simp [hp, h])⟩
      simp [hs] at hok

open Classical in
/-- Every text is read by its shape, the first that it has in this order: a repetition as what it
stands for, a span of numbers, a span of letters, a quotation, and else by depth. -/
theorem parse_by_shape (s : String) :
    (∀ count inner, IsRepetition count inner s.toList → parse s =
      parse (String.ofList ("repeat:".toList ++ count ++ ":(".toList ++ inner ++ ")".toList))) ∧
    ((∀ count inner, ¬IsRepetition count inner s.toList) →
      if IsNumberSpan s.toList then parse s = .ok ⟨"number", [s]⟩
      else if IsLetterSpan s.toList then parse s = .ok ⟨"char", [s]⟩
      else if IsQuotation s.toList then parse s = .ok ⟨"literal", [s]⟩
      else if Balanced s.toList ∧ (pieces 0 s.toList).head? ≠ some [] then
        ∃ kind arguments, pieces 0 s.toList = kind :: arguments ∧
          parse s = .ok ⟨String.ofList kind, arguments.map String.ofList⟩
      else ∃ e, parse s = .error e ∧ e.category = .malformedExpression) := by
  refine ⟨fun count inner h => parse_of_isRepetition h, fun h => ?_⟩
  unfold parse
  rw [expand_of_not_isRepetition h]
  unfold readExpanded shorthand?
  simp only [← isNumberRange_iff, ← isCharRange_iff, ← isQuoted_iff]
  by_cases hnumber : isNumberRange s.toList = true
  · simp [hnumber]
  by_cases hchar : isCharRange s.toList = true
  · simp [hnumber, hchar]
  by_cases hquoted : isQuoted s.toList = true
  · simp [hnumber, hchar, hquoted]
  simp only [hnumber, hchar, hquoted, if_false, Bool.false_eq_true]
  rcases general_by_depth s with ⟨kind, arguments, hb, hp, hne, hg⟩ | ⟨hno, f, hg⟩
  · rw [if_pos ⟨hb, by simp [hp, hne]⟩, hg]
    exact ⟨kind, arguments, hp, rfl⟩
  · rw [if_neg hno, hg]
    exact ⟨_, rfl, rfl⟩

end GenExpr.Expression
