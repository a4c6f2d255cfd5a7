import GenExpr.Proofs.Expression.Nesting

/-!
# The extent of arguments

The pieces of a text are no longer together than the text, even with the colons between them. So an
expression is longer than each of its arguments, unless it is one of the shorthands that a kind takes as
a whole.
-/

namespace GenExpr.Expression

/-- The length of several pieces with a colon after each. -/
def extent : List (List Char) → Nat
  | [] => 0
  | p :: ps => p.length + 1 + extent ps

theorem length_lt_extent {p : List Char} {ps : List (List Char)} (h : p ∈ ps) :
    p.length < extent ps := by
  induction ps with
  | nil => exact absurd h List.not_mem_nil
  | cons q ps ih =>
    rw [extent]
    rcases List.mem_cons.1 h with rfl | h
    · omega
    · exact Nat.lt_of_lt_of_le (ih h) (Nat.le_add_left _ _)

theorem extent_prepend (cs : List Char) {ps : List (List Char)} (h : ps ≠ []) :
    extent (prepend cs ps) = cs.length + extent ps := by
  cases ps with
  | nil => exact absurd rfl h
  | cons p ps =>
    rw [prepend, extent, extent, List.length_append]
    omega

theorem extent_pieces_le (d : Nat) (cs : List Char) : extent (pieces d cs) ≤ cs.length + 1 := by
  induction cs generalizing d with
  | nil => simp [pieces, extent]
  | cons c r ih =>
    rw [pieces, List.length_cons]
    split
    next =>
      have hrest := ih d
      rw [extent, List.length_nil]
      omega
    next =>
      have hrest := ih (nextDepth d c)
      split
      next => omega
      next =>
        rw [extent_prepend [c] (pieces_ne_nil _ r), List.length_singleton]
        omega

/-- Text that has neither colons nor parentheses is a piece of its own up to the next colon. -/
theorem pieces_plain {p : List Char} (h : ∀ c ∈ p, c ≠ ':' ∧ c ≠ '(' ∧ c ≠ ')') (r : List Char) :
    pieces 0 (p ++ ':' :: r) = p :: pieces 0 r := by
  induction p with
  | nil => simp [pieces]
  | cons c p ih =>
    obtain ⟨⟨hcolon, hopen, -⟩, hp⟩ := List.forall_mem_cons.1 h
    rw [List.cons_append, pieces_bare hcolon hopen, ih hp]
    rfl

theorem pieces_repeated {count : List Char} (h : ∀ c ∈ count, c.isDigit = true) (inner : List Char) :
    pieces 0 (repeated count inner) =
      "repeat".toList :: count :: pieces 0 ('(' :: (inner ++ [')'])) := by
  have hwritten : repeated count inner =
      "repeat".toList ++ ':' :: (count ++ ':' :: '(' :: (inner ++ [')'])) := by
    simp [repeated]
  rw [hwritten, pieces_plain (by simp), pieces_plain]
  intro c hc
  obtain ⟨hopen, hclose⟩ := plain_of_isDigit (h c hc)
  refine ⟨?_, hopen, hclose⟩
  rintro rfl
  exact absurd (h _ hc) (by decide)

theorem pieces_of_general {s kind : String} {args : List String}
    (h : general s = .ok ⟨kind, args⟩) : pieces 0 s.toList = kind.toList :: args.map String.toList := by
  rcases general_by_depth s with ⟨k, ps, -, hp, -, hg⟩ | ⟨-, f, hf⟩
  · rw [hg] at h
    obtain ⟨rfl, rfl⟩ := Invocation.mk.inj (Except.ok.inj h)
    rw [hp, String.toList_ofList, List.map_map]
    simp [Function.comp_def]
  · rw [hf] at h
    cases h

theorem length_lt_of_general {s kind a : String} {args : List String}
    (h : general s = .ok ⟨kind, args⟩) (ha : a ∈ args) : a.toList.length < s.toList.length := by
  have hextent := extent_pieces_le 0 s.toList
  rw [pieces_of_general h] at hextent
  have hpiece := length_lt_extent (List.mem_map_of_mem (f := String.toList) ha)
  rw [extent] at hextent
  omega

/-- A repetition is shorter than what it is written out to. -/
theorem length_lt_expand {e : String} (h : isRepetition e = true) : e.length < (expand e).length := by
  obtain ⟨⟨count, inner⟩, hrep⟩ := Option.isSome_iff_exists.1 h
  have hexpand : expand e = String.ofList (repeated count inner) := by rw [expand, hrep]
  rw [hexpand, ← String.length_toList, ← String.length_toList, String.toList_ofList,
    eq_of_repetition hrep, repeated]
  simp only [List.length_append, List.length_cons, List.length_nil]
  omega

/-- Though what a repetition is written out to is longer than the repetition, its arguments are not. -/
theorem length_lt_of_repetition {s kind a : String} {args : List String} {count inner : List Char}
    (hrep : IsRepetition count inner s.toList)
    (h : general (String.ofList (repeated count inner)) = .ok ⟨kind, args⟩) (ha : a ∈ args) :
    a.toList.length < s.toList.length := by
  have hpieces := pieces_of_general h
  rw [String.toList_ofList, pieces_repeated hrep.count_digits] at hpieces
  obtain ⟨-, hargs⟩ := List.cons.inj hpieces
  have hcount : 0 < count.length := List.length_pos_iff.2 hrep.count_ne_nil
  have hlength : s.toList.length = count.length + inner.length + 3 := by
    rw [hrep.eq_append]
    simp
    omega
  have hmem : a.toList ∈ count :: pieces 0 ('(' :: (inner ++ [')'])) :=
    hargs ▸ List.mem_map_of_mem ha
  rcases List.mem_cons.1 hmem with hcount | hpiece
  · rw [hcount]
    omega
  · have hextent := extent_pieces_le 0 ('(' :: (inner ++ [')']))
    have hlt := length_lt_extent hpiece
    simp only [List.length_cons, List.length_append, List.length_nil] at hextent
    omega

/-- The arguments of an expression are shorter than the expression, unless it is a shorthand that its
kind takes as a whole. -/
theorem length_lt_of_parse {e kind : String} {args : List String}
    (h : parse e = .ok ⟨kind, args⟩) :
    kind ∈ ["number", "char", "literal"] ∧ args = [e] ∨ ∀ a ∈ args, a.length < e.length := by
  simp only [← String.length_toList]
  by_cases hrep : ∃ count inner, IsRepetition count inner e.toList
  · obtain ⟨count, inner, hrep⟩ := hrep
    right
    intro a ha
    have hshort : shorthand? (String.ofList (repeated count inner)).toList = none := by
      rw [toList_repeated]
      rfl
    rw [parse_of_isRepetition hrep,
      parse_of_not_shorthand (not_isRepetition_repeated count inner) hshort] at h
    split at h
    next => cases h
    next hgeneral =>
      obtain rfl := Except.ok.inj h
      exact length_lt_of_repetition hrep hgeneral ha
  · rw [parse, expand_of_not_isRepetition fun count inner hr => hrep ⟨count, inner, hr⟩] at h
    rcases readExpanded_cases h with ⟨-, heq⟩ | ⟨-, heq⟩ | ⟨-, heq⟩ | hgeneral
    · obtain ⟨rfl, rfl⟩ := Invocation.mk.inj heq
      exact .inl ⟨by decide, rfl⟩
    · obtain ⟨rfl, rfl⟩ := Invocation.mk.inj heq
      exact .inl ⟨by decide, rfl⟩
    · obtain ⟨rfl, rfl⟩ := Invocation.mk.inj heq
      exact .inl ⟨by decide, rfl⟩
    · exact .inr fun a ha => length_lt_of_general hgeneral ha

end GenExpr.Expression
