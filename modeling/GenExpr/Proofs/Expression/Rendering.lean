import GenExpr.Proofs.Expression.Nesting

/-!
# Writing invocations

An invocation is written with its kind and each of its arguments in parentheses, which is read back as
the same invocation. The texts in it must be balanced, as are those of every expression that is read,
quotations apart.
-/

namespace GenExpr

open Expression (Balanced IsQuotation IsRepetition IsNumberSpan IsLetterSpan pieces parse general)

namespace Invocation

/-- The kind and the arguments, each in parentheses, with colons between them. -/
def render (i : Invocation) : String :=
  "(" ++ i.kind ++ ")" ++ String.join (i.arguments.map fun a => ":(" ++ a ++ ")")

/-- The kind is not empty, and neither it nor an argument has a parenthesis without its partner. -/
structure WellFormed (i : Invocation) : Prop where
  kind_ne_empty : i.kind ≠ ""
  kind_balanced : Balanced i.kind.toList
  arguments_balanced : ∀ a ∈ i.arguments, Balanced a.toList

end Invocation

namespace Expression

section Written

/-- Arguments as they are written: a colon and a group for each. -/
def written (args : List String) : List Char :=
  args.flatMap fun a => ':' :: '(' :: (a.toList ++ [')'])

theorem toList_render (i : Invocation) :
    i.render.toList = '(' :: (i.kind.toList ++ ')' :: written i.arguments) := by
  simp [Invocation.render, written, String.toList_append, List.flatMap_map]

variable {args : List String}

theorem balanced_written (h : ∀ a ∈ args, Balanced a.toList) : Balanced (written args) := by
  have hcolon : Balanced [':'] := .singleton (by decide) (by decide)
  induction args with
  | nil => exact .nil
  | cons a rest ih =>
    obtain ⟨ha, hrest⟩ := List.forall_mem_cons.1 h
    exact (hcolon.append ha.group).append (ih hrest)

theorem pieces_written (h : ∀ a ∈ args, Balanced a.toList) :
    pieces 0 (written args) = [] :: args.map String.toList := by
  induction args with
  | nil => rfl
  | cons a rest ih =>
    obtain ⟨ha, hrest⟩ := List.forall_mem_cons.1 h
    have hcons : written (a :: rest) = ':' :: '(' :: (a.toList ++ ')' :: written rest) := by
      simp [written]
    have hcolon : ∀ cs, pieces 0 (':' :: cs) = [] :: pieces 0 cs := by simp [pieces]
    rw [hcons, hcolon, pieces_group ha, ih hrest, prepend, List.append_nil, List.map_cons]

end Written

section Render

variable {i : Invocation}

/-- A text that begins with a parenthesis has none of the shorthands. -/
theorem parse_of_open {s : String} {r : List Char} (h : s.toList = '(' :: r) :
    parse s = match general s with
      | .error failure => .error (.malformed failure)
      | .ok invocation => .ok invocation := by
  have hchar : isCharRange ('(' :: r) = false := by
    rw [Bool.eq_false_iff, ne_eq, isCharRange_iff]
    rintro ⟨a, b, ha, -, heq⟩
    obtain ⟨rfl, -⟩ := List.cons.inj heq
    cases ha
  have hshort : shorthand? s.toList = none := by
    rw [h, shorthand?, hchar]
    rfl
  refine parse_of_not_shorthand (fun count inner => ?_) hshort
  rw [h]
  exact not_isRepetition_of_cons (by decide) count inner

theorem segments_render (h : i.WellFormed) :
    segments i.render.toList = .ok (i.kind.toList, i.arguments.map String.toList) := by
  have hkind : i.kind.toList ≠ [] := by
    rw [ne_eq, String.toList_eq_nil_iff]
    exact h.kind_ne_empty
  rw [segments_eq_ok_iff, toList_render]
  refine ⟨?_, ?_, hkind⟩
  · have hgroup := h.kind_balanced.group.append (balanced_written h.arguments_balanced)
    simpa using hgroup
  · rw [pieces_group h.kind_balanced, pieces_written h.arguments_balanced, prepend, List.append_nil]

theorem parse_render (h : i.WellFormed) : parse i.render = .ok i := by
  have hgeneral : general i.render = .ok i := by
    rw [general, segments_render h]
    simp [List.map_map, Function.comp_def]
  rw [parse_of_open (toList_render i), hgeneral]

end Render

section Read

variable {s : String} {i : Invocation}

theorem wellFormed_of_general (h : general s = .ok i) : i.WellFormed := by
  rcases general_by_depth s with ⟨kind, args, hbalanced, hpieces, hne, hok⟩ | ⟨-, f, hf⟩
  · obtain rfl := Except.ok.inj (hok.symm.trans h)
    have hmem := balanced_of_mem_pieces hbalanced
    rw [hpieces] at hmem
    obtain ⟨hkind, hargs⟩ := List.forall_mem_cons.1 hmem
    refine ⟨?_, ?_, ?_⟩
    · rwa [ne_eq, String.ofList_eq_empty_iff]
    · rwa [String.toList_ofList]
    · intro a ha
      obtain ⟨piece, hpiece, rfl⟩ := List.mem_map.1 ha
      rw [String.toList_ofList]
      exact hargs piece hpiece
  · rw [hf] at h
    cases h

/-- A shorthand gives its kind the whole text. -/
theorem wellFormed_shorthand {kind : String} (hne : kind ≠ "") (hkind : Balanced kind.toList)
    (hs : Balanced s.toList) : Invocation.WellFormed ⟨kind, [s]⟩ where
  kind_ne_empty := hne
  kind_balanced := hkind
  arguments_balanced := by
    intro a ha
    obtain rfl := List.mem_singleton.1 ha
    exact hs

theorem wellFormed_of_readExpanded (h : readExpanded s = .ok i) (hs : ¬IsQuotation s.toList) :
    i.WellFormed := by
  rcases readExpanded_cases h with ⟨hspan, rfl⟩ | ⟨hspan, rfl⟩ | ⟨hquoted, -⟩ | hgeneral
  · exact wellFormed_shorthand (by decide) (balanced_iff.2 rfl) (balanced_of_isNumberSpan hspan)
  · exact wellFormed_shorthand (by decide) (balanced_iff.2 rfl) (balanced_of_isLetterSpan hspan)
  · exact absurd hquoted hs
  · exact wellFormed_of_general hgeneral

/-- What is read from an expression is well formed, unless the expression is a quotation. -/
theorem wellFormed_of_parse (h : parse s = .ok i) (hs : ¬IsQuotation s.toList) : i.WellFormed := by
  by_cases hrep : ∃ count inner, IsRepetition count inner s.toList
  · obtain ⟨count, inner, hrep⟩ := hrep
    rw [parse, expand_of_isRepetition hrep] at h
    apply wellFormed_of_readExpanded h
    rw [String.toList_ofList]
    exact not_isQuotation_repeated count inner
  · rw [parse, expand_of_not_isRepetition fun count inner hr => hrep ⟨count, inner, hr⟩] at h
    exact wellFormed_of_readExpanded h hs

theorem not_isQuotation_render (i : Invocation) : ¬IsQuotation i.render.toList := by
  rintro ⟨-, hhead, -⟩
  rw [toList_render] at hhead
  simp at hhead

end Read

end Expression

open Expression in
/-- Exactly the well formed invocations are read back from what they are written as. They are those that
any expression but a quotation is read as. -/
theorem Invocation.wellFormed_iff_read_back (i : Invocation) :
    (i.WellFormed ↔ parse i.render = .ok i) ∧
    (i.WellFormed ↔ ∃ e, ¬IsQuotation e.toList ∧ parse e = .ok i) := by
  have hread : ∀ e, ¬IsQuotation e.toList ∧ parse e = .ok i → i.WellFormed :=
    fun e he => wellFormed_of_parse he.2 he.1
  constructor
  · constructor
    · exact parse_render
    · exact fun h => hread i.render ⟨not_isQuotation_render i, h⟩
  · constructor
    · exact fun h => ⟨i.render, not_isQuotation_render i, parse_render h⟩
    · rintro ⟨e, he⟩
      exact hread e he

example : Invocation.render ⟨"a:b", ["c:(d)", "", "\"e\""]⟩ = "(a:b):(c:(d)):():(\"e\")" := by decide

end GenExpr
