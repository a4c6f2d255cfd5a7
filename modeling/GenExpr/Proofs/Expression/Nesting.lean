import GenExpr.Proofs.Expression.Parse

/-!
# Expressions inside expressions

An expression that is put in parentheses is an argument of the expression around it. Parentheses are
counted there, so it is the same text exactly if its own are balanced. Every expression but a quotation
is balanced.
-/

namespace GenExpr.Expression

section Balance

theorem plain_of_isDigit {c : Char} (h : c.isDigit = true) : c ≠ '(' ∧ c ≠ ')' := by
  constructor
  · rintro rfl
    simp at h
  · rintro rfl
    simp at h

theorem balanced_of_isBound {p : Char → Bool} (hp : ∀ c, p c = true → c ≠ '(' ∧ c ≠ ')')
    {b : List Char} (h : IsBound p b) : Balanced b := by
  obtain ⟨body, -, hbody, hsign⟩ := h
  have hplain : Balanced body := .of_plain fun c hc => hp c (hbody c hc)
  rcases hsign with rfl | rfl
  · exact hplain
  · have hminus : Balanced ['-'] := .singleton (by decide) (by decide)
    exact hminus.append hplain

theorem balanced_of_isNumberSpan {cs : List Char} (h : IsNumberSpan cs) : Balanced cs := by
  obtain ⟨lo, hi, hlo, hhi, rfl⟩ := h
  have hplain : ∀ c : Char, (c.isDigit || c = '.') = true → c ≠ '(' ∧ c ≠ ')' := by
    intro c hc
    rcases Bool.or_eq_true_iff.1 hc with hdigit | hpoint
    · exact plain_of_isDigit hdigit
    · obtain rfl := of_decide_eq_true hpoint
      decide
  have hminus : Balanced ['-'] := .singleton (by decide) (by decide)
  exact (balanced_of_isBound hplain hlo).append (hminus.append (balanced_of_isBound hplain hhi))

theorem balanced_of_isLetterSpan {cs : List Char} (h : IsLetterSpan cs) : Balanced cs := by
  obtain ⟨a, b, ha, hb, rfl⟩ := h
  have hletter : ∀ c : Char, c.isAlpha = true → c ≠ '(' ∧ c ≠ ')' := by
    intro c hc
    constructor
    · rintro rfl
      simp at hc
    · rintro rfl
      simp at hc
  apply Balanced.of_plain
  intro c hc
  have hmem : c = a ∨ c = '-' ∨ c = b := by simpa using hc
  rcases hmem with rfl | rfl | rfl
  · exact hletter c ha
  · decide
  · exact hletter c hb

/-- A repetition that is written out has the parentheses of its inner text and those around it. -/
theorem balanced_repeated_iff_group {count : List Char} (h : ∀ c ∈ count, c.isDigit = true)
    (inner : List Char) : Balanced (repeated count inner) ↔ Balanced ('(' :: (inner ++ [')'])) := by
  have hcount : Balanced count := .of_plain fun c hc => plain_of_isDigit (h c hc)
  have hkind : Balanced "repeat:".toList := by
    rw [balanced_iff]
    decide
  have hcolon : Balanced [':'] := .singleton (by decide) (by decide)
  have hwritten : repeated count inner =
      "repeat:".toList ++ (count ++ ([':'] ++ '(' :: (inner ++ [')']))) := by
    simp [repeated]
  rw [hwritten, balanced_append_iff hkind, balanced_append_iff hcount, balanced_append_iff hcolon]

/-- A repetition has the parentheses of what it is written out to. -/
theorem balanced_repeated_iff {count inner cs : List Char} (h : IsRepetition count inner cs) :
    Balanced (repeated count inner) ↔ Balanced cs := by
  obtain ⟨-, hdigits, -, rfl⟩ := h
  have hcount : Balanced count := .of_plain fun c hc => plain_of_isDigit (hdigits c hc)
  have hstar : Balanced ['*'] := .singleton (by decide) (by decide)
  rw [balanced_repeated_iff_group hdigits, balanced_append_iff hcount]
  exact (balanced_append_iff hstar).symm

theorem balanced_of_general {s : String} {i : Invocation} (h : general s = .ok i) :
    Balanced s.toList := by
  rcases general_by_depth s with ⟨_, _, hbalanced, -, -, -⟩ | ⟨-, f, hf⟩
  · exact hbalanced
  · rw [hf] at h
    cases h

/-- An expression that is not a repetition is one of the other shorthands, or of the general form. -/
theorem readExpanded_cases {s : String} {i : Invocation} (h : readExpanded s = .ok i) :
    (IsNumberSpan s.toList ∧ i = ⟨"number", [s]⟩) ∨ (IsLetterSpan s.toList ∧ i = ⟨"char", [s]⟩) ∨
      (IsQuotation s.toList ∧ i = ⟨"literal", [s]⟩) ∨ general s = .ok i := by
  rw [readExpanded] at h
  split at h
  next kind hshort =>
    obtain rfl := Except.ok.inj h
    rw [shorthand?] at hshort
    split at hshort
    next hspan =>
      obtain rfl := Option.some.inj hshort
      exact .inl ⟨isNumberRange_iff.1 hspan, rfl⟩
    next =>
      split at hshort
      next hspan =>
        obtain rfl := Option.some.inj hshort
        exact .inr (.inl ⟨isCharRange_iff.1 hspan, rfl⟩)
      next =>
        split at hshort
        next hquoted =>
          obtain rfl := Option.some.inj hshort
          exact .inr (.inr (.inl ⟨isQuoted_iff.1 hquoted, rfl⟩))
        next => cases hshort
  next =>
    split at h
    next => cases h
    next hgeneral =>
      obtain rfl := Except.ok.inj h
      exact .inr (.inr (.inr hgeneral))

theorem balanced_of_readExpanded {s : String} {i : Invocation} (h : readExpanded s = .ok i) :
    Balanced s.toList ∨ IsQuotation s.toList := by
  rcases readExpanded_cases h with ⟨hspan, -⟩ | ⟨hspan, -⟩ | ⟨hquoted, -⟩ | hgeneral
  · exact .inl (balanced_of_isNumberSpan hspan)
  · exact .inl (balanced_of_isLetterSpan hspan)
  · exact .inr hquoted
  · exact .inl (balanced_of_general hgeneral)

/-- A repetition that is written out begins with the name of its kind. -/
theorem not_isQuotation_repeated (count inner : List Char) :
    ¬IsQuotation (repeated count inner) := by
  rintro ⟨-, hhead, -⟩
  simp [repeated] at hhead

/-- Only a quotation can be an expression without being balanced. -/
theorem balanced_of_parse {e : String} {i : Invocation} (h : parse e = .ok i) :
    Balanced e.toList ∨ IsQuotation e.toList := by
  by_cases hrep : ∃ count inner, IsRepetition count inner e.toList
  · obtain ⟨count, inner, hrep⟩ := hrep
    rw [parse, expand_of_isRepetition hrep] at h
    have hread := balanced_of_readExpanded h
    rw [String.toList_ofList, balanced_repeated_iff hrep] at hread
    rcases hread with hbalanced | hquoted
    · exact .inl hbalanced
    · exact absurd hquoted (not_isQuotation_repeated count inner)
  · rw [parse, expand_of_not_isRepetition fun count inner hr => hrep ⟨count, inner, hr⟩] at h
    exact balanced_of_readExpanded h

end Balance

section Nested

/-- An array of one expression. -/
def nested (e : String) : String := "array:(" ++ e ++ ")"

variable (e : String)

theorem toList_nested :
    (nested e).toList = "array:".toList ++ '(' :: (e.toList ++ ')' :: []) := by
  simp [nested, String.toList_append]

theorem balanced_nested_iff : Balanced (nested e).toList ↔ Balanced ('(' :: (e.toList ++ [')'])) := by
  have harray : Balanced "array:".toList := by
    rw [balanced_iff]
    decide
  rw [toList_nested, balanced_append_iff harray]

theorem pieces_nested :
    pieces 0 (nested e).toList = "array".toList :: pieces 0 ('(' :: (e.toList ++ ')' :: [])) := by
  rw [toList_nested]
  simp [pieces, nextDepth, prepend]

theorem parse_nested : parse (nested e) = match general (nested e) with
    | .error failure => .error (.malformed failure)
    | .ok invocation => .ok invocation := by
  have hshort : shorthand? (nested e).toList = none := by
    rw [toList_nested]
    rfl
  refine parse_of_not_shorthand (fun count inner => ?_) hshort
  rw [toList_nested]
  exact not_isRepetition_of_cons (by decide) count inner

/-- A text comes back from an array exactly if it is balanced. -/
theorem parse_nested_eq_iff : parse (nested e) = .ok ⟨"array", [e]⟩ ↔ Balanced e.toList := by
  rw [parse_nested]
  rcases general_by_depth (nested e) with ⟨kind, arguments, hb, hp, -, hg⟩ | ⟨hno, f, hf⟩
  · rw [hg]
    rw [pieces_nested] at hp
    obtain ⟨rfl, rfl⟩ := List.cons.inj hp
    have hgroup := (balanced_nested_iff e).1 hb
    constructor
    · intro h
      have hargs : (pieces 0 ('(' :: (e.toList ++ [')']))).map String.ofList = [e] := by
        simpa using h
      have hmem : e ∈ (pieces 0 ('(' :: (e.toList ++ [')']))).map String.ofList := by
        rw [hargs]
        exact List.mem_singleton_self e
      obtain ⟨p, hpiece, hp⟩ := List.mem_map.1 hmem
      obtain rfl : p = e.toList := by rw [← hp, String.toList_ofList]
      exact (mem_pieces_parenthesised_iff hgroup).1 hpiece
    · intro h
      rw [pieces_parenthesised h]
      simp
  · rw [hf]
    constructor
    · intro h
      cases h
    · intro h
      refine absurd ⟨?_, ?_⟩ hno
      · exact (balanced_nested_iff e).2 h.group
      · rw [pieces_nested]
        simp

end Nested

end GenExpr.Expression
