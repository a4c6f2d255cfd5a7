import GenExpr.Proofs.Expression.Extent

/-!
# What a repetition repeats

A repetition ends with its text, whatever parentheses it holds. Written out, its inner text stands in a
group of its own, so it stays together exactly if its parentheses are balanced. Otherwise the group ends
inside the inner text: then the repetition is malformed, or it has other arguments.
-/

namespace GenExpr.Expression

/-- A repetition is read by the depth of its inner text in parentheses. -/
theorem parse_repetition {s : String} {count inner : List Char}
    (h : IsRepetition count inner s.toList) :
    (Balanced ('(' :: (inner ++ [')'])) → parse s = .ok ⟨"repeat",
      String.ofList count :: (pieces 0 ('(' :: (inner ++ [')']))).map String.ofList⟩) ∧
    (¬Balanced ('(' :: (inner ++ [')'])) → ∃ failure, parse s = .error (.malformed failure)) := by
  have hshort : shorthand? (String.ofList (repeated count inner)).toList = none := by
    rw [toList_repeated]
    rfl
  have hpieces := pieces_repeated h.count_digits inner
  have hgroup := balanced_repeated_iff_group h.count_digits inner
  rw [parse_of_isRepetition h, parse_of_not_shorthand (not_isRepetition_repeated count inner) hshort]
  rcases general_by_depth (String.ofList (repeated count inner)) with
    ⟨kind, arguments, hbalanced, hp, -, hg⟩ | ⟨hno, f, hf⟩
  · rw [String.toList_ofList] at hbalanced hp
    rw [hpieces] at hp
    obtain ⟨rfl, rfl⟩ := List.cons.inj hp
    rw [hg]
    exact ⟨fun _ => rfl, fun hopen => absurd (hgroup.1 hbalanced) hopen⟩
  · rw [hf]
    refine ⟨fun hbalanced => absurd ⟨?_, ?_⟩ hno, fun _ => ⟨f, rfl⟩⟩
    · rw [String.toList_ofList]
      exact hgroup.2 hbalanced
    · rw [String.toList_ofList, hpieces]
      simp

theorem isRepetition_append {count inner : String} (count_ne : count ≠ "")
    (digits : ∀ c ∈ count.toList, c.isDigit = true) (inner_ne : inner ≠ "") :
    IsRepetition count.toList inner.toList (count ++ "*(" ++ inner ++ ")").toList where
  count_ne_nil := fun h => count_ne (String.toList_eq_nil_iff.1 h)
  count_digits := digits
  inner_ne_nil := fun h => inner_ne (String.toList_eq_nil_iff.1 h)
  eq_append := by simp [String.toList_append]

/-- A repetition has its count and its inner text as arguments exactly if the inner text is balanced.
If only the inner text in parentheses is, the arguments are the pieces of that, and the inner text is not
among them. Otherwise the repetition is malformed. -/
theorem repetition_keeps_balanced_text {count inner : String} (count_ne : count ≠ "")
    (digits : ∀ c ∈ count.toList, c.isDigit = true) (inner_ne : inner ≠ "") :
    (Balanced inner.toList → parse (count ++ "*(" ++ inner ++ ")") = .ok ⟨"repeat", [count, inner]⟩) ∧
    (¬Balanced inner.toList → Balanced ('(' :: (inner.toList ++ [')'])) → ∃ arguments,
      arguments = (pieces 0 ('(' :: (inner.toList ++ [')']))).map String.ofList ∧
      parse (count ++ "*(" ++ inner ++ ")") = .ok ⟨"repeat", count :: arguments⟩ ∧
      inner ∉ arguments) ∧
    (¬Balanced ('(' :: (inner.toList ++ [')'])) →
      ∃ failure, parse (count ++ "*(" ++ inner ++ ")") = .error (.malformed failure)) := by
  obtain ⟨hread, hmalformed⟩ := parse_repetition (isRepetition_append count_ne digits inner_ne)
  rw [String.ofList_toList] at hread
  refine ⟨?_, ?_, hmalformed⟩
  · intro hinner
    rw [hread hinner.group, pieces_parenthesised hinner, List.map_singleton, String.ofList_toList]
  · intro hinner hgroup
    refine ⟨_, rfl, hread hgroup, ?_⟩
    intro hmem
    obtain ⟨p, hpiece, rfl⟩ := List.mem_map.1 hmem
    rw [String.toList_ofList] at hinner hgroup hpiece
    exact hinner ((mem_pieces_parenthesised_iff hgroup).1 hpiece)

theorem repetitions_of_three_texts :
    parse "12*(string:(char:A-C))" = .ok ⟨"repeat", ["12", "string:(char:A-C)"]⟩ ∧
    (∃ arguments, parse "3*(a):(b)" = .ok ⟨"repeat", "3" :: arguments⟩ ∧ "a):(b" ∉ arguments) ∧
    ∃ failure, parse "3*((a)" = .error (.malformed failure) := by
  have hwhole : Balanced "string:(char:A-C)".toList := balanced_iff.2 (by decide +kernel)
  have hcut : ¬Balanced "a):(b".toList := by
    rw [balanced_iff]
    decide +kernel
  have hgroup : Balanced ('(' :: ("a):(b".toList ++ [')'])) := balanced_iff.2 (by decide +kernel)
  have hopen : ¬Balanced ('(' :: ("(a".toList ++ [')'])) := by
    rw [balanced_iff]
    decide +kernel
  have htwelve : ∀ c ∈ "12".toList, c.isDigit = true := List.all_eq_true.1 rfl
  have hthree : ∀ c ∈ "3".toList, c.isDigit = true := List.all_eq_true.1 rfl
  obtain ⟨hkept, -, -⟩ := @repetition_keeps_balanced_text "12" "string:(char:A-C)"
    (by simp) htwelve (by simp)
  obtain ⟨-, hgroups, -⟩ := @repetition_keeps_balanced_text "3" "a):(b" (by simp) hthree (by simp)
  obtain ⟨-, -, hmalformed⟩ := @repetition_keeps_balanced_text "3" "(a" (by simp) hthree (by simp)
  obtain ⟨arguments, -, hread, hlost⟩ := hgroups hcut hgroup
  exact ⟨hkept hwhole, ⟨arguments, hread, hlost⟩, hmalformed hopen⟩

/-- The inner text of a repetition can be cut into several arguments, or lose parentheses, without an
error. -/
theorem repetition_cuts_its_text :
    parse "3*(a):(b)" = .ok ⟨"repeat", ["3", "a", "b"]⟩ ∧
    parse "3*(a)(b)" = .ok ⟨"repeat", ["3", "ab"]⟩ ∧
    ¬(parse "3*(a):(b)" = .ok ⟨"repeat", ["3", "a):(b"]⟩ ∨
      ∃ e, parse "3*(a):(b)" = .error e ∧ e.category = .malformedExpression) := by
  have hcut : parse "3*(a):(b)" = .ok ⟨"repeat", ["3", "a", "b"]⟩ := rfl
  refine ⟨hcut, rfl, ?_⟩
  rw [hcut]
  intro h
  obtain h | ⟨e, h, -⟩ := h
  · simp at h
  · cases h

end GenExpr.Expression
