import GenExpr.Expression.Shorthand

/-!
# The shapes of the shorthands

What each shorthand looks like, said of the whole text at once, and that the readers of the shorthands
recognise exactly these shapes.
-/

namespace GenExpr.Expression

/-- An optional minus sign and at least one character of a class. -/
def IsBound (p : Char → Bool) (b : List Char) : Prop :=
  ∃ body, body ≠ [] ∧ (∀ c ∈ body, p c = true) ∧ (b = body ∨ b = '-' :: body)

/-- Digits, `*(`, at least one character, and a closing parenthesis at the end. -/
structure IsRepetition (count inner cs : List Char) : Prop where
  count_ne_nil : count ≠ []
  count_digits : ∀ c ∈ count, c.isDigit = true
  inner_ne_nil : inner ≠ []
  eq_append : cs = count ++ '*' :: '(' :: (inner ++ [')'])

/-- Two bounds of digits and points with a hyphen between them. -/
def IsNumberSpan (cs : List Char) : Prop :=
  ∃ lo hi, IsBound (fun c => c.isDigit || c = '.') lo ∧ IsBound (fun c => c.isDigit || c = '.') hi ∧
    cs = lo ++ '-' :: hi

/-- Two ASCII letters with a hyphen between them. -/
def IsLetterSpan (cs : List Char) : Prop :=
  ∃ a b, a.isAlpha = true ∧ b.isAlpha = true ∧ cs = [a, '-', b]

/-- At least three characters that begin and end with a double quote. -/
def IsQuotation (cs : List Char) : Prop :=
  3 ≤ cs.length ∧ cs.head? = some '"' ∧ cs.getLast? = some '"'

theorem takeWhile_append_stop {p : Char → Bool} {as r : List Char} (ha : ∀ c ∈ as, p c = true)
    (hr : ∀ c s, r = c :: s → p c = false) : (as ++ r).takeWhile p = as := by
  rw [List.takeWhile_append_of_pos ha]
  cases r with
  | nil => simp
  | cons c s => simp [hr c s rfl]

theorem dropWhile_append_stop {p : Char → Bool} {as r : List Char} (ha : ∀ c ∈ as, p c = true)
    (hr : ∀ c s, r = c :: s → p c = false) : (as ++ r).dropWhile p = r := by
  rw [List.dropWhile_append_of_pos ha]
  cases r with
  | nil => simp
  | cons c s => simp [hr c s rfl]

theorem dropWhile_stop {p : Char → Bool} {cs : List Char} {c : Char} {s : List Char}
    (h : cs.dropWhile p = c :: s) : p c = false := by
  have := cs.head?_dropWhile_not p
  rwa [h] at this

theorem mem_takeWhile_holds {p : Char → Bool} {cs : List Char} {c : Char}
    (h : c ∈ cs.takeWhile p) : p c = true := by
  have := List.all_takeWhile (p := p) (l := cs)
  exact List.all_eq_true.1 this c h

theorem isBound_of_bound {p : Char → Bool} {cs b r : List Char} (h : bound p cs = some (b, r)) :
    IsBound p b ∧ ∀ c s, r = c :: s → p c = false := by
  unfold bound at h
  split at h
  · split at h
    · simp at h
    · rename_i r₀ hne
      obtain ⟨rfl, rfl⟩ : '-' :: r₀.takeWhile p = b ∧ r₀.dropWhile p = r := by simpa using h
      exact ⟨⟨r₀.takeWhile p, hne, fun c => mem_takeWhile_holds, .inr rfl⟩,
        fun c s => dropWhile_stop⟩
  · split at h
    · simp at h
    · rename_i hne
      obtain ⟨rfl, rfl⟩ : cs.takeWhile p = b ∧ cs.dropWhile p = r := by simpa using h
      exact ⟨⟨cs.takeWhile p, hne, fun c => mem_takeWhile_holds, .inl rfl⟩,
        fun c s => dropWhile_stop⟩

section Bound

variable {p : Char → Bool} (hp : p '-' = false)
include hp

theorem bound_of_isBound {b r : List Char} (hb : IsBound p b)
    (hr : ∀ c s, r = c :: s → p c = false) : bound p (b ++ r) = some (b, r) := by
  obtain ⟨body, hne, hbody, hsign⟩ := hb
  have htake := takeWhile_append_stop hbody hr
  have hdrop := dropWhile_append_stop hbody hr
  rcases hsign with rfl | rfl
  · cases b with
    | nil => exact absurd rfl hne
    | cons c t =>
      have hc : c ≠ '-' := by
        rintro rfl
        simp [hbody '-' List.mem_cons_self] at hp
      rw [List.cons_append] at htake hdrop ⊢
      unfold bound
      split
      · rename_i heq
        exact absurd (List.cons.inj heq).1 hc
      · rw [htake, hdrop, if_neg hne]
  · simp only [bound, List.cons_append, htake, hdrop, if_neg hne]

theorem splitRange_eq_some_iff {cs lo hi : List Char} :
    splitRange p cs = some (lo, hi) ↔ IsBound p lo ∧ IsBound p hi ∧ cs = lo ++ '-' :: hi := by
  constructor
  · intro h
    have heq := eq_of_splitRange h
    unfold splitRange at h
    split at h
    · rename_i hlo
      split at h
      · rename_i hhi
        obtain ⟨rfl, rfl⟩ := by simpa using h
        exact ⟨(isBound_of_bound hlo).1, (isBound_of_bound hhi).1, heq⟩
      · simp at h
    · simp at h
  · intro hx
    obtain ⟨hlo, hhi, rfl⟩ := hx
    have hyphen : ∀ c s, '-' :: hi = c :: s → p c = false := by
      intro c s h
      obtain ⟨rfl, -⟩ : '-' = c ∧ hi = s := by simpa using h
      exact hp
    have h₁ := bound_of_isBound hp hlo hyphen
    have h₂ := bound_of_isBound hp hhi (r := []) (by simp)
    rw [List.append_nil] at h₂
    simp only [splitRange, h₁, h₂]

end Bound

theorem isNumberRange_iff {cs : List Char} : isNumberRange cs = true ↔ IsNumberSpan cs := by
  have hp : isNumeric '-' = false := by decide
  rw [isNumberRange, Option.isSome_iff_exists]
  constructor
  · intro hx
    obtain ⟨⟨lo, hi⟩, h⟩ := hx
    exact ⟨lo, hi, (splitRange_eq_some_iff hp).1 h⟩
  · intro hx
    obtain ⟨lo, hi, h⟩ := hx
    exact ⟨(lo, hi), (splitRange_eq_some_iff hp).2 h⟩

theorem isCharRange_iff {cs : List Char} : isCharRange cs = true ↔ IsLetterSpan cs := by
  constructor
  · intro h
    unfold isCharRange at h
    split at h
    · rename_i a b
      simp only [Bool.and_eq_true] at h
      exact ⟨a, b, h.1, h.2, rfl⟩
    · simp at h
  · intro hx
    obtain ⟨a, b, ha, hb, rfl⟩ := hx
    simp [isCharRange, ha, hb]

theorem isQuoted_iff {cs : List Char} : isQuoted cs = true ↔ IsQuotation cs := by
  unfold IsQuotation
  constructor
  · intro h
    unfold isQuoted at h
    split at h
    · rename_i r
      simp only [Bool.and_eq_true, decide_eq_true_eq] at h
      obtain ⟨init, rfl⟩ := List.getLast?_eq_some_iff.1 h.2
      have hlen := h.1
      simp only [List.length_append, List.length_cons, List.length_nil] at hlen
      refine ⟨?_, rfl, ?_⟩
      · simp
        omega
      · rw [← List.cons_append, List.getLast?_concat]
    · simp at h
  · intro hx
    obtain ⟨hlen, hhead, hlast⟩ := hx
    cases cs with
    | nil => simp at hhead
    | cons c r =>
      obtain rfl : c = '"' := by simpa using hhead
      cases r with
      | nil => simp at hlen
      | cons d t =>
        rw [List.getLast?_cons_cons] at hlast
        simp only [List.length_cons] at hlen
        simp [isQuoted, hlast]
        omega

theorem repetition?_eq_some_iff {cs count inner : List Char} :
    repetition? cs = some (count, inner) ↔ IsRepetition count inner cs := by
  constructor
  · intro h
    have heq := eq_of_repetition h
    unfold repetition? at h
    split at h
    · simp at h
    · rename_i hne
      split at h
      · rename_i r hr
        split at h
        · rename_i hlast
          obtain ⟨rfl, rfl⟩ : cs.takeWhile Char.isDigit = count ∧ r.dropLast = inner := by
            simpa using h
          refine ⟨hne, fun c => mem_takeWhile_holds, ?_, heq⟩
          intro hnil
          have := congrArg List.length hnil
          simp at this
          omega
        · simp at h
      · simp at h
  · intro h
    obtain ⟨hne, hdigits, hinner, rfl⟩ := h
    have hstar : ∀ c s, '*' :: '(' :: (inner ++ [')']) = c :: s → c.isDigit = false := by
      intro c s h
      obtain ⟨rfl, -⟩ : '*' = c ∧ '(' :: (inner ++ [')']) = s := by simpa using h
      decide
    have htake := takeWhile_append_stop hdigits hstar
    have hdrop := dropWhile_append_stop hdigits hstar
    have hlen : 1 ≤ inner.length := List.length_pos_iff.2 hinner
    simp [repetition?, htake, hdrop, hne]
    omega

end GenExpr.Expression
