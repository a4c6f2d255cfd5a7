import GenExpr.Letters

/-!
# Samples stay in bounds

Whatever the entropy, a whole number lies between the floors of the bounds of its range, a character
between the bounds of its own, and an item is one of those that it was picked from.
-/

namespace GenExpr

variable {α β : Type}

/-- Whatever the entropy, a sample is of a kind. -/
def Sampling.Yields (x : StateM Entropy α) (P : α → Prop) : Prop := ∀ e, P (x.run e).1

namespace Sampling

theorem Yields.pure {P : α → Prop} {a : α} (h : P a) : Yields (Pure.pure a) P := fun _ => h

theorem Yields.any (x : StateM Entropy α) : Yields x fun _ => True := fun _ => trivial

theorem Yields.bind {x : StateM Entropy α} {f : α → StateM Entropy β} {P : α → Prop} {Q : β → Prop}
    (hx : Yields x P) (hf : ∀ a, P a → Yields (f a) Q) : Yields (x >>= f) Q :=
  fun e => hf _ (hx e) (x.run e).2

theorem signed_bounds {n : Nat} (h : n < wordCount 64) :
    -0x8000000000000000 ≤ signed n ∧ signed n ≤ 0x7fffffffffffffff := by
  have h₆₃ : wordCount 63 = 0x8000000000000000 := rfl
  have h₆₄ : wordCount 64 = 0x10000000000000000 := rfl
  unfold signed
  split <;> omega

theorem yields_int64 {lo hi : Int} (h : lo ≤ hi) (hlo : -0x8000000000000000 ≤ lo)
    (hhi : hi ≤ 0x7fffffffffffffff) : Yields (int64 lo hi h) fun i => lo ≤ i ∧ i ≤ hi := by
  unfold int64
  have h₆₄ : (wordCount 64 : Int) = 0x10000000000000000 := rfl
  split
  next hfull =>
    refine (Yields.any Entropy.next).bind fun word _ => Yields.pure ?_
    have hword := signed_bounds word.toNat_lt
    omega
  next =>
    refine (Yields.any _).bind fun r _ => Yields.pure ?_
    have hr := r.isLt
    omega

theorem yields_pick {items : List α} (h : items ≠ []) : Yields (pick items h) (· ∈ items) :=
  (Yields.any _).bind fun _ _ => Yields.pure (List.getElem_mem _)

theorem scaled_lowHalf_lt {width : Nat} (h : 0 < width) (w : UInt64) :
    scaled 32 width (lowHalf w) < width := scaled_lt (lowHalf w).isLt h

theorem yields_accepted {width : Nat} (h : 0 < width) (n : Nat) :
    Yields (accepted width n) (· < width) := by
  induction n with
  | zero => exact (Yields.any _).bind fun w _ => Yields.pure (scaled_lowHalf_lt h w)
  | succ n ih =>
    refine (Yields.any _).bind fun w _ => ?_
    dsimp only
    split
    · exact Yields.pure (scaled_lowHalf_lt h w)
    · exact ih

theorem toNat_ofNat_of_valid {n : Nat} (h : n.isValidChar) : (Char.ofNat n).toNat = n := by
  rw [Char.ofNat, dif_pos h]
  rfl

theorem le_iff_toNat_le {a b : Char} : a ≤ b ↔ a.toNat ≤ b.toNat := UInt32.le_iff_toNat_le

theorem charIndex_mono {a b : Char} (h : a ≤ b) : charIndex a ≤ charIndex b := by
  have hle := le_iff_toNat_le.1 h
  have ha : a.toNat.isValidChar := a.valid
  unfold Nat.isValidChar at ha
  unfold charIndex
  split <;> split <;> omega

/-- Between the indices of two characters lie the indices of the characters between them. -/
theorem charAt_bounds {a b : Char} {i : Nat} (hlo : charIndex a ≤ i) (hhi : i ≤ charIndex b) :
    a ≤ charAt i ∧ charAt i ≤ b := by
  have ha : a.toNat.isValidChar := a.valid
  have hb : b.toNat.isValidChar := b.valid
  unfold charIndex at hlo hhi
  have hvalid : (if i < 0xd800 then i else i + 0x800).isValidChar := by
    unfold Nat.isValidChar at hb ⊢
    split at hhi <;> split <;> omega
  rw [le_iff_toNat_le, le_iff_toNat_le, charAt, toNat_ofNat_of_valid hvalid]
  unfold Nat.isValidChar at ha hb
  split at hlo <;> split at hhi <;> split <;> omega

end Sampling

open Sampling (Yields)

theorem NumberRange.le_lowest (r : NumberRange) : -0x8000000000000000 ≤ r.lowest :=
  Int.le_max_left _ _

theorem NumberRange.highest_le (r : NumberRange) : r.highest ≤ 0x7fffffffffffffff := by
  unfold highest Binary64.clampInt64
  omega

theorem NumberRange.yields_randomInt (r : NumberRange) :
    Yields r.randomInt fun i => r.lowest ≤ i ∧ i ≤ r.highest :=
  Sampling.yields_int64 r.lowest_le_highest r.le_lowest r.highest_le

theorem CharRange.yields_random (r : CharRange) :
    Yields r.random fun c => r.min ≤ c ∧ c ≤ r.max := by
  refine (Sampling.yields_accepted (Nat.succ_pos _) _).bind fun i hi => Yields.pure ?_
  apply Sampling.charAt_bounds (Nat.le_add_right _ _)
  have hmin := Sampling.charIndex_mono r.min_le_max
  omega

/-- A character is one of the letters. -/
def Letters.Has : Letters → Char → Prop
  | range r, c => r.min ≤ c ∧ c ≤ r.max
  | alphabet a, c => c ∈ a.chars

namespace Letters

theorem yields_random (l : Letters) : Yields l.random l.Has := by
  cases l with
  | range r => exact r.yields_random
  | alphabet a => exact Sampling.yields_pick a.nonempty

theorem yields_randomChars (l : Letters) (n : Nat) :
    Yields (l.randomChars n) fun cs => cs.length = n ∧ ∀ c ∈ cs, l.Has c := by
  induction n with
  | zero => exact Yields.pure ⟨rfl, by simp⟩
  | succ n ih =>
    refine l.yields_random.bind fun c hc => ?_
    refine ih.bind fun cs hcs => Yields.pure ?_
    obtain ⟨hlength, hall⟩ := hcs
    refine ⟨by rw [List.length_cons, hlength], ?_⟩
    intro d hd
    rcases List.mem_cons.1 hd with rfl | hd
    · exact hc
    · exact hall d hd

end Letters

end GenExpr
