import GenExpr.Proofs.Draw.Index
import Mathlib.Algebra.BigOperators.Group.Finset.Basic
import Mathlib.Order.Interval.Finset.Nat
import Mathlib.SetTheory.Cardinal.Finite

/-!
# Uniform characters

Characters and their indices among all characters correspond to each other, so a range of characters is
an interval of indices. The words accepted for an index are those whose products with the width lie in
one interval. Its length is the same multiple of the width for every index, so as many words are accepted
for each.
-/

namespace GenExpr

namespace Sampling

open Finset (range)

section Indices

theorem charIndex_lt (c : Char) : charIndex c < 0x10f800 := by
  have hc : c.toNat.isValidChar := c.valid
  unfold Nat.isValidChar at hc
  unfold charIndex
  split <;> omega

theorem toNat_charAt {i : Nat} (h : i < 0x10f800) :
    (charAt i).toNat = if i < 0xd800 then i else i + 0x800 := by
  apply toNat_ofNat_of_valid
  unfold Nat.isValidChar
  split <;> omega

theorem charIndex_charAt {i : Nat} (h : i < 0x10f800) : charIndex (charAt i) = i := by
  rw [charIndex, toNat_charAt h]
  split <;> split <;> omega

theorem charAt_charIndex (c : Char) : charAt (charIndex c) = c := by
  obtain ⟨hle, hge⟩ := charAt_bounds (Nat.le_refl (charIndex c)) (Nat.le_refl _)
  exact Char.le_antisymm hge hle

end Indices

section Counting

variable {width i word : Nat}

/-- The words of 32 bits that are accepted for a width. -/
def acceptedWords (width : Nat) : Finset Nat :=
  (range (wordCount 32)).filter fun word => accepts width word = true

theorem mem_acceptedWords : word ∈ acceptedWords width ↔
    word < wordCount 32 ∧ threshold width ≤ word * width % wordCount 32 := by
  rw [acceptedWords, Finset.mem_filter, Finset.mem_range, accepts, decide_eq_true_iff]

/-- The slice of an index, less what is rejected of it, is a multiple of the width. -/
theorem threshold_add (hwidth : width ≤ wordCount 32) :
    threshold width + wordCount 32 / width * width = wordCount 32 := by
  rw [threshold, ← Nat.mod_eq_sub_mod hwidth, Nat.mod_add_div']

/-- The least word whose product reaches a number. -/
def leastWord (width n : Nat) : Nat := (n + (width - 1)) / width

theorem leastWord_le_iff (h : 0 < width) (n : Nat) : leastWord width n ≤ word ↔ n ≤ word * width := by
  rw [leastWord, Nat.div_le_iff_le_mul_add_pred h, Nat.mul_comm]
  omega

theorem leastWord_add (h : 0 < width) (n count : Nat) :
    leastWord width (n + count * width) = leastWord width n + count := by
  rw [leastWord, Nat.add_right_comm, Nat.add_mul_div_right _ _ h]
  rfl

theorem accepted_at_iff (hi : i < width) :
    word ∈ acceptedWords width ∧ scaled 32 width word = i ↔
      i * wordCount 32 + threshold width ≤ word * width ∧ word * width < (i + 1) * wordCount 32 := by
  have hpos := wordCount_pos 32
  have hdiv := Nat.div_add_mod' (word * width) (wordCount 32)
  have hmod := Nat.mod_lt (word * width) hpos
  rw [mem_acceptedWords, Nat.add_mul, Nat.one_mul]
  constructor
  · rintro ⟨⟨-, hthreshold⟩, hscaled⟩
    rw [scaled] at hscaled
    rw [hscaled] at hdiv
    omega
  · rintro ⟨hlow, hhigh⟩
    have hscaled : scaled 32 width word = i := by
      apply Nat.div_eq_of_lt_le
      · omega
      · rwa [Nat.add_mul, Nat.one_mul]
    have hlast : (i + 1) * wordCount 32 ≤ width * wordCount 32 := Nat.mul_le_mul_right _ hi
    -- Only a word of 32 bits has a product below that of the last index.
    have hword : word < wordCount 32 := by
      apply Nat.lt_of_mul_lt_mul_right (a := width)
      rw [Nat.add_mul, Nat.one_mul, Nat.mul_comm width] at hlast
      omega
    refine ⟨⟨hword, ?_⟩, hscaled⟩
    rw [scaled] at hscaled
    rw [hscaled] at hdiv
    omega

/-- As many words are accepted for one index below a width as for another. -/
theorem card_accepted_at (hwidth : width ≤ wordCount 32) (hi : i < width) :
    ((acceptedWords width).filter (scaled 32 width · = i)).card = wordCount 32 / width := by
  have hpos : 0 < width := Nat.zero_lt_of_lt hi
  let first := leastWord width (i * wordCount 32 + threshold width)
  have hnext : (i + 1) * wordCount 32 =
      i * wordCount 32 + threshold width + wordCount 32 / width * width := by
    rw [Nat.add_assoc, threshold_add hwidth, Nat.add_mul, Nat.one_mul]
  -- Both ends of the slice are bounds of the word, and they are a multiple of the width apart.
  have hwords : (acceptedWords width).filter (scaled 32 width · = i) =
      Finset.Ico first (first + wordCount 32 / width) := by
    ext word
    rw [Finset.mem_filter, accepted_at_iff hi, Finset.mem_Ico, ← leastWord_le_iff hpos, hnext,
      ← Nat.not_le, ← leastWord_le_iff hpos, leastWord_add hpos, Nat.not_le]
  rw [hwords, Nat.card_Ico, Nat.add_sub_cancel_left]

theorem card_acceptedWords (h : 0 < width) (hwidth : width ≤ wordCount 32) :
    (acceptedWords width).card = width * (wordCount 32 / width) := by
  have hmaps : Set.MapsTo (scaled 32 width) (acceptedWords width) (range width) := by
    intro word hword
    exact Finset.mem_coe.2 (Finset.mem_range.2 (scaled_lt (mem_acceptedWords.1 hword).1 h))
  rw [Finset.card_eq_sum_card_fiberwise hmaps, Finset.sum_const_nat (m := wordCount 32 / width),
    Finset.card_range]
  intro i hi
  exact card_accepted_at hwidth (Finset.mem_range.1 hi)

/-- Fewer words than the width are rejected. -/
theorem card_rejected (h : 0 < width) (hwidth : width ≤ wordCount 32) :
    ((range (wordCount 32)).filter fun word => ¬ accepts width word = true).card =
      wordCount 32 % width := by
  have hsplit := Finset.card_filter_add_card_filter_not (s := range (wordCount 32))
    fun word => accepts width word = true
  have haccepted := card_acceptedWords h hwidth
  have hdiv := Nat.div_add_mod (wordCount 32) width
  rw [acceptedWords] at haccepted
  rw [haccepted, Finset.card_range] at hsplit
  omega

end Counting

theorem run_accepted_succ (width attempts : Nat) (e : Entropy) :
    (accepted width (attempts + 1)).run e =
      if accepts width (lowHalf (e.stream e.taken)) = true then
        (scaled 32 width (lowHalf (e.stream e.taken)), { e with taken := e.taken + 1 })
      else (accepted width attempts).run { e with taken := e.taken + 1 } := by
  let word := lowHalf (e.stream e.taken)
  have hrun : (accepted width (attempts + 1)).run e =
      (if accepts width word = true then return scaled 32 width word
      else accepted width attempts : StateM Entropy Nat).run { e with taken := e.taken + 1 } := rfl
  rw [hrun]
  split <;> rfl

/-- The first word that is accepted is the one that counts. -/
theorem run_accepted {width n attempts : Nat} {e : Entropy} (hn : n ≤ attempts)
    (hrejected : ∀ k < n, accepts width (lowHalf (e.stream (e.taken + k))) = false)
    (haccepted : accepts width (lowHalf (e.stream (e.taken + n))) = true) :
    (accepted width attempts).run e = (scaled 32 width (lowHalf (e.stream (e.taken + n))),
      { e with taken := e.taken + (n + 1) }) := by
  induction n generalizing e attempts with
  | zero =>
    cases attempts with
    | zero => rfl
    | succ attempts => exact (run_accepted_succ width attempts e).trans (if_pos haccepted)
  | succ n ih =>
    obtain ⟨attempts, rfl⟩ := Nat.exists_eq_add_one_of_ne_zero (Nat.ne_zero_of_lt hn)
    have hfirst := hrejected 0 (Nat.succ_pos n)
    rw [run_accepted_succ, if_neg (by simpa using hfirst)]
    -- After the first word is taken, the others come one place earlier.
    have hshift : ∀ k, e.taken + 1 + k = e.taken + (k + 1) := by omega
    rw [ih (Nat.le_of_succ_le_succ hn)]
    · simp only [hshift]
    · intro k hk
      simpa only [hshift] using hrejected (k + 1) (Nat.succ_lt_succ hk)
    · simpa only [hshift] using haccepted

end Sampling

namespace CharRange

open Sampling

variable {r : CharRange} {c : Char} {word : Nat}

/-- The index of the character that a word draws. -/
def drawnIndex (r : CharRange) (word : Nat) : Nat := charIndex r.min + scaled 32 r.size word

/-- The character that a word draws if it is accepted. -/
def drawn (r : CharRange) (word : Nat) : Char := charAt (r.drawnIndex word)

theorem contains_iff : r.contains c = true ↔ r.min ≤ c ∧ c ≤ r.max := by
  rw [contains, Bool.and_eq_true, decide_eq_true_iff, decide_eq_true_iff]

theorem contains_charAt {i : Nat} (h : i < r.size) :
    r.contains (charAt (charIndex r.min + i)) = true := by
  have hmin := charIndex_mono r.min_le_max
  rw [size] at h
  exact contains_iff.2 (charAt_bounds (Nat.le_add_right _ _) (by omega))

theorem size_le (r : CharRange) : charIndex r.min + r.size ≤ 0x10f800 := by
  have hmin := charIndex_mono r.min_le_max
  have hmax := charIndex_lt r.max
  rw [size]
  omega

theorem charIndex_sub_lt (h : r.contains c = true) :
    charIndex r.min ≤ charIndex c ∧ charIndex c - charIndex r.min < r.size := by
  obtain ⟨hmin, hmax⟩ := contains_iff.1 h
  have hmin := charIndex_mono hmin
  have hmax := charIndex_mono hmax
  rw [size]
  omega

/-- The characters of a range correspond to the numbers below its size. -/
def characters (r : CharRange) : Fin r.size ≃ { c // r.contains c = true } where
  toFun i := ⟨charAt (charIndex r.min + i), contains_charAt i.isLt⟩
  invFun c := ⟨charIndex c - charIndex r.min, (charIndex_sub_lt c.property).2⟩
  left_inv i := by
    have hsize := r.size_le
    have hi := i.isLt
    apply Fin.ext
    simp only
    rw [charIndex_charAt (by omega), Nat.add_sub_cancel_left]
  right_inv c := by
    apply Subtype.ext
    simp only
    rw [Nat.add_sub_cancel' (charIndex_sub_lt c.property).1, charAt_charIndex]

theorem card_characters (r : CharRange) : Nat.card { c // r.contains c = true } = r.size := by
  rw [← Nat.card_congr r.characters, Nat.card_fin]

/-- The surrogates do not count. -/
theorem size_eq (r : CharRange) : r.size = r.max.toNat + 1 - r.min.toNat -
    if r.min.toNat < 0xd800 ∧ 0xe000 ≤ r.max.toNat then 0x800 else 0 := by
  have hle := le_iff_toNat_le.1 r.min_le_max
  have hmin : r.min.toNat.isValidChar := r.min.valid
  have hmax : r.max.toNat.isValidChar := r.max.valid
  unfold Nat.isValidChar at hmin hmax
  unfold size charIndex
  split <;> split <;> split <;> omega

theorem size_pos (r : CharRange) : 0 < r.size := Nat.succ_pos _

theorem size_le_wordCount (r : CharRange) : r.size ≤ wordCount 32 := by
  have hsize := r.size_le
  rw [wordCount_eq]
  omega

/-- A word draws the character at the place that it is scaled to. -/
theorem drawn_eq_iff (h : r.contains c = true) (hword : word < wordCount 32) :
    r.drawn word = c ↔ scaled 32 r.size word = charIndex c - charIndex r.min := by
  have hscaled := scaled_lt hword r.size_pos
  let i : Fin r.size := ⟨scaled 32 r.size word, hscaled⟩
  have hplace : i = r.characters.symm ⟨c, h⟩ ↔ r.characters i = ⟨c, h⟩ :=
    r.characters.eq_symm_apply
  rw [Subtype.ext_iff, Fin.ext_iff] at hplace
  exact hplace.symm

/-- The accepted words that draw a character. -/
def wordsOf (r : CharRange) (c : Char) : Finset Nat :=
  (acceptedWords r.size).filter (r.drawn · = c)

theorem card_wordsOf (h : r.contains c = true) : (r.wordsOf c).card = wordCount 32 / r.size := by
  have hwords : r.wordsOf c = (acceptedWords r.size).filter
      (scaled 32 r.size · = charIndex c - charIndex r.min) := by
    apply Finset.filter_congr
    intro word hword
    exact drawn_eq_iff h (mem_acceptedWords.1 hword).1
  rw [hwords, card_accepted_at r.size_le_wordCount (charIndex_sub_lt h).2]

theorem drawn_of_accepts (hword : word < wordCount 32) :
    (r.drawn word).toNat = (if r.drawnIndex word < 0xd800 then r.drawnIndex word
      else r.drawnIndex word + 0x800) ∧ r.contains (r.drawn word) = true := by
  have hscaled := scaled_lt hword r.size_pos
  have hsize := r.size_le
  refine ⟨toNat_charAt ?_, contains_charAt hscaled⟩
  rw [drawnIndex]
  omega

/-- The draw of a character from a limited number of words. -/
def randomWithin (r : CharRange) (attempts : Nat) : StateM Entropy Char := do
  let i ← accepted r.size attempts
  return charAt (charIndex r.min + i)

theorem run_randomWithin {n attempts : Nat} {e : Entropy} (hn : n ≤ attempts)
    (hrejected : ∀ k < n, accepts r.size (lowHalf (e.stream (e.taken + k))) = false)
    (haccepted : accepts r.size (lowHalf (e.stream (e.taken + n))) = true) :
    (r.randomWithin attempts).run e = (r.drawn (lowHalf (e.stream (e.taken + n))),
      { e with taken := e.taken + (n + 1) }) := by
  have hrun := run_accepted hn hrejected haccepted
  exact congrArg (fun p => (charAt (charIndex r.min + p.1), p.2)) hrun

/-- Every accepted word draws a character of the range, and as many words draw one of them as another.
The others are rejected: the first word that is not gives the character, whatever the limit. The
surrogates are neither counted nor drawn. -/
theorem draws_uniformly (r : CharRange) :
    (r.size = Nat.card { c // r.contains c = true } ∧
      r.size = r.max.toNat + 1 - r.min.toNat -
        if r.min.toNat < 0xd800 ∧ 0xe000 ≤ r.max.toNat then 0x800 else 0) ∧
    (∀ word ∈ acceptedWords r.size,
      (r.drawn word).toNat = (if r.drawnIndex word < 0xd800 then r.drawnIndex word
        else r.drawnIndex word + 0x800) ∧ r.contains (r.drawn word) = true) ∧
    (∀ c, r.contains c = true → (r.wordsOf c).card = 2 ^ 32 / r.size) ∧
    ((Finset.range (2 ^ 32)).filter fun word => ¬ accepts r.size word = true).card = 2 ^ 32 % r.size ∧
    (∀ (e : Entropy) (n attempts : Nat), n ≤ attempts →
      (∀ k < n, accepts r.size (lowHalf (e.stream (e.taken + k))) = false) →
      accepts r.size (lowHalf (e.stream (e.taken + n))) = true →
      (r.randomWithin attempts).run e = (r.drawn (lowHalf (e.stream (e.taken + n))),
        { e with taken := e.taken + (n + 1) })) ∧
    r.random = r.randomWithin patience ∧
    (Source.char r).draw =
      (fun c => .ready (.str (String.ofList [c]))) <$> DrawM.sample r.random := by
  refine ⟨⟨r.card_characters.symm, r.size_eq⟩, ?_, ?_, ?_, ?_, rfl, ?_⟩
  · intro word hword
    exact drawn_of_accepts (mem_acceptedWords.1 hword).1
  · intro c hc
    rw [← wordCount_eq]
    exact card_wordsOf hc
  · rw [← wordCount_eq]
    exact card_rejected r.size_pos r.size_le_wordCount
  · intro e n attempts hn hrejected haccepted
    exact run_randomWithin hn hrejected haccepted
  · rw [Source.draw]
    rfl

end CharRange

end GenExpr
