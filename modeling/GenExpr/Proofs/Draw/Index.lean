import GenExpr.Proofs.Draw.Source
import Mathlib.Algebra.Order.Ring.Int

/-!
# Whole numbers and indices

A word scaled to a width comes to every number below the width. So every whole number between two bounds
is drawn for some words, and every item of a list. The words of a machine, which wrap around, compute the
same numbers.
-/

namespace GenExpr

variable {α β : Type}

/-- The next two words of entropy. -/
def Entropy.Starts (e : Entropy) (first second : UInt64) : Prop :=
  e.stream e.taken = first ∧ e.stream (e.taken + 1) = second

namespace Sampling

/-- For some words, a sample is this one. -/
def MayYield (x : StateM Entropy α) (a : α) : Prop :=
  ∃ first second, ∀ e, Entropy.Starts e first second → (x.run e).1 = a

theorem MayYield.map {x : StateM Entropy α} {a : α} (h : MayYield x a) (f : α → β) :
    MayYield (f <$> x) (f a) := by
  obtain ⟨first, second, h⟩ := h
  exact ⟨first, second, fun e he => congrArg f (h e he)⟩

theorem wordCount_eq (bits : Nat) : wordCount bits = 2 ^ bits := by
  rw [wordCount, Nat.shiftLeft_eq, Nat.one_mul]

section Words

variable {bits width : Nat}

/-- The scaling of two words that are taken one after another. -/
def combined (bits width word second : Nat) : Nat :=
  if wantsSecond bits width word then carried bits width word second else scaled bits width word

theorem run_belowWidth (h : 0 < width) (read : UInt64 → Fin (wordCount bits)) (e : Entropy) :
    (((belowWidth bits width h read).run e).1 : Nat) =
      combined bits width (read (e.stream e.taken)) (read (e.stream (e.taken + 1))) := by
  let word := read (e.stream e.taken)
  have hrun : (belowWidth bits width h read).run e =
      (if wantsSecond bits width word then do
        let second ← Entropy.next
        return ⟨carried bits width word (read second), carried_lt word.isLt (read second).isLt h⟩
      else return ⟨scaled bits width word, scaled_lt word.isLt h⟩ : StateM Entropy (Fin width)).run
        { e with taken := e.taken + 1 } := rfl
  rw [hrun, combined]
  split <;> rfl

theorem combined_zero (word : Nat) : combined bits width word 0 = scaled bits width word := by
  have hlow := Nat.mod_lt (word * width) (wordCount_pos bits)
  have hzero : scaled bits width 0 = 0 := by rw [scaled, Nat.zero_mul, Nat.zero_div]
  rw [combined, carried, hzero, Nat.add_zero, if_neg (Nat.not_le.2 hlow), Nat.add_zero, ite_self]

/-- The least word whose product reaches the slice of a number is scaled to that number. -/
theorem exists_combined_eq {i : Nat} (hi : i < width) (hwidth : width ≤ wordCount bits) :
    ∃ word < wordCount bits, combined bits width word 0 = i := by
  have hdiv := Nat.div_add_mod (i * wordCount bits + (width - 1)) width
  have hmod := Nat.mod_lt (i * wordCount bits + (width - 1)) (Nat.zero_lt_of_lt hi)
  rw [Nat.mul_comm width] at hdiv
  revert hdiv
  generalize (i * wordCount bits + (width - 1)) / width = word
  intro hdiv
  have hnext : (i + 1) * wordCount bits ≤ width * wordCount bits := Nat.mul_le_mul_right _ hi
  rw [Nat.add_mul, Nat.one_mul] at hnext
  refine ⟨word, ?_, ?_⟩
  · apply Nat.lt_of_mul_lt_mul_left (a := width)
    rw [Nat.mul_comm width]
    omega
  · rw [combined_zero, scaled]
    apply Nat.div_eq_of_lt_le
    · omega
    · rw [Nat.add_mul, Nat.one_mul]
      omega

theorem mayYield_belowWidth {read : UInt64 → Fin (wordCount bits)} (h : 0 < width)
    (hwidth : width ≤ wordCount bits) (hread : ∀ n, ∃ w, read w = n) (i : Fin width) :
    MayYield (belowWidth bits width h read) i := by
  -- A second word of zero brings no carry, whether it is taken or not.
  obtain ⟨word, hword, hcombined⟩ := exists_combined_eq i.isLt hwidth
  obtain ⟨first, hfirst⟩ := hread ⟨word, hword⟩
  obtain ⟨second, hsecond⟩ := hread ⟨0, wordCount_pos bits⟩
  refine ⟨first, second, fun e he => Fin.ext ?_⟩
  rw [run_belowWidth, he.1, he.2, hfirst, hsecond]
  exact hcombined

end Words

theorem exists_wholeWord (n : Fin (wordCount 64)) : ∃ w, wholeWord w = n :=
  ⟨UInt64.ofNat n, Fin.ext (Nat.mod_eq_of_lt n.isLt)⟩

theorem exists_lowHalf (n : Fin (wordCount 32)) : ∃ w, lowHalf w = n := by
  have hlt : n.val < 2 ^ 64 := Nat.lt_trans n.isLt (by decide)
  refine ⟨UInt64.ofNat n, Fin.ext ?_⟩
  have hmod : (UInt64.ofNat n).toNat % wordCount 32 = n := by
    rw [UInt64.toNat_ofNat_of_lt' hlt, Nat.mod_eq_of_lt n.isLt]
  exact hmod

theorem exists_signed {i : Int} (hlo : -0x8000000000000000 ≤ i) (hhi : i ≤ 0x7fffffffffffffff) :
    ∃ w : UInt64, signed w.toNat = i := by
  have h₆₃ : wordCount 63 = 0x8000000000000000 := rfl
  have h₆₄ : wordCount 64 = 0x10000000000000000 := rfl
  let n := if 0 ≤ i then i.toNat else (i + wordCount 64).toNat
  have hn : n < 2 ^ 64 := by
    unfold n
    split <;> omega
  refine ⟨UInt64.ofNat n, ?_⟩
  rw [UInt64.toNat_ofNat_of_lt' hn, signed]
  unfold n
  split <;> split <;> omega

theorem mayYield_int64 {lo hi : Int} (h : lo ≤ hi) (hlo : -0x8000000000000000 ≤ lo)
    (hhi : hi ≤ 0x7fffffffffffffff) {i : Int} (hle : lo ≤ i) (hge : i ≤ hi) :
    MayYield (int64 lo hi h) i := by
  have h₆₄ : (wordCount 64 : Int) = 0x10000000000000000 := rfl
  unfold int64
  split
  next =>
    obtain ⟨w, hw⟩ := exists_signed (i := i) (by omega) (by omega)
    refine ⟨w, 0, fun e he => ?_⟩
    rw [← hw, ← he.1]
    rfl
  next hfull =>
    have hwidth : (hi - lo + 1).toNat ≤ wordCount 64 := by omega
    have hmay := mayYield_belowWidth (by omega) hwidth exists_wholeWord ⟨(i - lo).toNat, by omega⟩
    have hlast : i = lo + ((i - lo).toNat : Int) := by omega
    rw [hlast]
    exact hmay.map fun r => lo + (r.val : Int)

theorem mayYield_index {n : Nat} (h : 0 < n) (hn : n < 2 ^ 32) (i : Fin n) :
    MayYield (index n h) i :=
  mayYield_belowWidth h (by rw [wordCount_eq]; exact Nat.le_of_lt hn) exists_lowHalf i

section Machine

variable {bits : Nat}

/-- The upper half of the product of two words. -/
def upper (a b : BitVec bits) : BitVec bits := .ofNat bits (a.toNat * b.toNat / 2 ^ bits)

/-- The sample between two bounds as a machine computes it, in words that wrap around. The number of
samples wraps to zero if every word is one. -/
def wrapping (lo hi word second : BitVec bits) : BitVec bits :=
  let range := hi - lo + 1
  if range = 0 then word
  else
    let low := word * range
    let carry := decide (-range < low) && low.uaddOverflow (upper second range)
    lo + (upper word range + if carry then 1 else 0)

theorem combined_eq (width word second : Nat) : combined bits width word second =
    scaled bits width word + if wantsSecond bits width word = true ∧
      wordCount bits ≤ word * width % wordCount bits + scaled bits width second then 1 else 0 := by
  rw [combined]
  cases wantsSecond bits width word with
  | true => simp [carried]
  | false => simp

theorem toNat_upper {range : BitVec bits} (h : 0 < range.toNat) (word : BitVec bits) :
    (upper word range).toNat = scaled bits range.toNat word.toNat := by
  have hword : word.toNat < wordCount bits := wordCount_eq bits ▸ word.isLt
  have hlt := Nat.lt_trans (scaled_lt hword h) range.isLt
  rw [scaled, wordCount_eq] at hlt ⊢
  rw [upper, BitVec.toNat_ofNat, Nat.mod_eq_of_lt hlt]

theorem carry_iff {range : BitVec bits} (h : 0 < range.toNat) (word second : BitVec bits) :
    (decide (-range < word * range) && (word * range).uaddOverflow (upper second range)) = true ↔
      wantsSecond bits range.toNat word.toNat = true ∧ wordCount bits ≤
        word.toNat * range.toNat % wordCount bits + scaled bits range.toNat second.toNat := by
  have hneg : (2 ^ bits - range.toNat) % 2 ^ bits = 2 ^ bits - range.toNat :=
    Nat.mod_eq_of_lt (Nat.sub_lt (Nat.two_pow_pos bits) h)
  rw [Bool.and_eq_true, decide_eq_true_iff, BitVec.lt_def, BitVec.toNat_neg, hneg, BitVec.toNat_mul,
    BitVec.uaddOverflow, decide_eq_true_iff, BitVec.toNat_mul, toNat_upper h, wantsSecond,
    decide_eq_true_iff, wordCount_eq]

theorem wrapping_eq {lo hi : BitVec bits} (h : hi - lo + 1 ≠ 0) (word second : BitVec bits) :
    wrapping lo hi word second =
      lo + .ofNat bits (combined bits (hi - lo + 1).toNat word.toNat second.toNat) := by
  have hpos : 0 < (hi - lo + 1).toNat := by
    apply Nat.pos_of_ne_zero
    intro hzero
    exact h (BitVec.eq_of_toNat_eq hzero)
  have hupper : upper word (hi - lo + 1) =
      .ofNat bits (scaled bits (hi - lo + 1).toNat word.toNat) := by
    rw [upper, scaled, wordCount_eq]
  rw [wrapping]
  simp only [if_neg h, carry_iff hpos]
  rw [combined_eq, BitVec.ofNat_add, hupper]
  split <;> rfl

theorem toNat_range {lo hi : Int64} (h : lo.toInt ≤ hi.toInt) :
    ((hi.toBitVec - lo.toBitVec + 1).toNat : Int) = (hi.toInt - lo.toInt + 1) % 2 ^ 64 := by
  have hlo := BitVec.toInt_eq_toNat_cond lo.toBitVec
  have hhi := BitVec.toInt_eq_toNat_cond hi.toBitVec
  rw [Int64.toInt_toBitVec] at hlo hhi
  have hone : (1 : BitVec 64).toNat = 1 := rfl
  rw [BitVec.toNat_add, BitVec.toNat_sub, hone]
  split at hlo <;> split at hhi <;> omega

theorem toInt_add_ofNat {lo : Int64} (hi : Int64) {r : Nat} (h : lo.toInt + r ≤ hi.toInt) :
    (lo.toBitVec + .ofNat 64 r).toInt = lo.toInt + r := by
  have hlo := BitVec.toInt_eq_toNat_cond lo.toBitVec
  have hsum := BitVec.toInt_eq_toNat_cond (lo.toBitVec + .ofNat 64 r)
  have hlt := hi.toInt_lt
  rw [Int64.toInt_toBitVec] at hlo
  rw [BitVec.toNat_add, BitVec.toNat_ofNat] at hsum
  split at hlo <;> split at hsum <;> omega

theorem toInt_eq_signed (w : UInt64) : w.toBitVec.toInt = signed w.toNat := by
  have h₆₃ : wordCount 63 = 2 ^ 63 := wordCount_eq 63
  have h₆₄ : wordCount 64 = 2 ^ 64 := wordCount_eq 64
  rw [BitVec.toInt_eq_toNat_cond, UInt64.toNat_toBitVec, signed, h₆₃, h₆₄]
  split <;> split <;> omega

theorem toInt_wrapping {lo hi : Int64} (h : lo.toInt ≤ hi.toInt) (e : Entropy) :
    (wrapping lo.toBitVec hi.toBitVec (e.stream e.taken).toBitVec
      (e.stream (e.taken + 1)).toBitVec).toInt = ((int64 lo.toInt hi.toInt h).run e).1 := by
  have hrange := toNat_range h
  have hlo := lo.le_toInt
  have hhi := hi.toInt_lt
  have h₆₄ : (wordCount 64 : Int) = 2 ^ 64 := rfl
  rw [int64]
  split
  next hfull =>
    have hzero : hi.toBitVec - lo.toBitVec + 1 = 0 := by
      apply BitVec.eq_of_toNat_eq
      have hnone : (0 : BitVec 64).toNat = 0 := rfl
      omega
    rw [wrapping, if_pos hzero]
    exact toInt_eq_signed _
  next hfull =>
    have hwidth : (hi.toBitVec - lo.toBitVec + 1).toNat = (hi.toInt - lo.toInt + 1).toNat := by omega
    have hne : hi.toBitVec - lo.toBitVec + 1 ≠ 0 := by
      intro hzero
      have hnone : (0 : BitVec 64).toNat = 0 := rfl
      rw [hzero] at hwidth
      omega
    have hpos : 0 < (hi.toInt - lo.toInt + 1).toNat := by omega
    let r := ((belowWidth 64 _ hpos wholeWord).run e).1
    have hr := r.isLt
    have hcombined : r.val = combined 64 (hi.toInt - lo.toInt + 1).toNat
        (e.stream e.taken).toBitVec.toNat (e.stream (e.taken + 1)).toBitVec.toNat :=
      run_belowWidth hpos wholeWord e
    rw [wrapping_eq hne, hwidth, ← hcombined]
    exact toInt_add_ofNat hi (by omega)

theorem lowHalf_eq (w : UInt64) : (lowHalf w : Nat) = w.toUInt32.toBitVec.toNat := by
  rw [UInt32.toNat_toBitVec, UInt64.toNat_toUInt32, lowHalf, ← wordCount_eq]

theorem toNat_wrapping {n : Nat} (h : 0 < n) (hn : n < 2 ^ 32) (e : Entropy) :
    (wrapping 0 (.ofNat 32 (n - 1)) (e.stream e.taken).toUInt32.toBitVec
      (e.stream (e.taken + 1)).toUInt32.toBitVec).toNat = ((index n h).run e).1 := by
  have hrange : (BitVec.ofNat 32 (n - 1) - 0 + 1).toNat = n := by
    have hone : (1 : BitVec 32).toNat = 1 := rfl
    have hzero : (0 : BitVec 32).toNat = 0 := rfl
    rw [BitVec.toNat_add, BitVec.toNat_sub, BitVec.toNat_ofNat, hone, hzero]
    omega
  have hne : BitVec.ofNat 32 (n - 1) - 0 + 1 ≠ 0 := by
    intro hzero
    rw [hzero] at hrange
    exact absurd hrange (Nat.ne_of_lt h)
  have hlt := Nat.lt_trans ((index n h).run e).1.isLt hn
  have hzero : (0 : BitVec 32).toNat = 0 := rfl
  rw [index, run_belowWidth, lowHalf_eq, lowHalf_eq] at hlt ⊢
  rw [wrapping_eq hne, hrange, BitVec.toNat_add, BitVec.toNat_ofNat, hzero, Nat.zero_add,
    Nat.mod_mod, Nat.mod_eq_of_lt hlt]

end Machine

end Sampling

open Sampling (index)

theorem Source.draw_items (vs : List Value) (h : vs ≠ []) :
    (Source.entry (.items vs h)).draw = (fun i => .ready vs[i]) <$>
      DrawM.sample (index vs.length (List.length_pos_iff.2 h)) := by
  rw [Source.draw]
  rfl

theorem Source.draw_chars (cs : List Char) (h : cs ≠ []) :
    (Source.entry (.chars cs h)).draw = (fun i => .ready (.str (String.ofList [cs[i]]))) <$>
      DrawM.sample (index cs.length (List.length_pos_iff.2 h)) := by
  rw [Source.draw]
  rfl

theorem DrawM.sample_index {n : Nat} (actions : List (DrawM α)) (hn : actions.length = n) (h : 0 < n) :
    DrawM.sample (index actions.length (hn ▸ h)) >>= actions.get =
      DrawM.sample (index n h) >>= fun i => actions[i] := by
  subst hn
  rfl

/-- The draw of a choice is that of the source at an index. -/
theorem Source.draw_oneOf (first : Source) (others : List Source) :
    (Source.oneOf first others).draw =
      DrawM.sample (index (others.length + 1) (Nat.succ_pos _)) >>= fun i =>
        ((first :: others)[i]).draw := by
  have hactions : draw first :: draws others = (first :: others).map draw := by
    rw [draws_eq_map, List.map_cons]
  have hlength : (draw first :: draws others).length = others.length + 1 := by
    rw [hactions, List.length_map, List.length_cons]
  rw [draw]
  refine (DrawM.sample_index _ hlength (Nat.succ_pos _)).trans ?_
  simp only [Fin.getElem_fin, hactions, List.getElem_map]

namespace Sampling

/-- Whole numbers are drawn between their bounds and indices below their number, as words that wrap
around compute them, and for some words each of them is drawn. Alphabets, collections and choices draw
by such an index. -/
theorem draws_keep_bounds_and_reach_all :
    (∀ (lo hi : Int64) (h : lo.toInt ≤ hi.toInt),
      (∀ e, let i := ((int64 lo.toInt hi.toInt h).run e).1
        lo.toInt ≤ i ∧ i ≤ hi.toInt ∧
          i = (wrapping lo.toBitVec hi.toBitVec (e.stream e.taken).toBitVec
            (e.stream (e.taken + 1)).toBitVec).toInt) ∧
      ∀ i, lo.toInt ≤ i → i ≤ hi.toInt → MayYield (int64 lo.toInt hi.toInt h) i) ∧
    (∀ r : NumberRange, Yields r.randomInt (fun i => r.lowest ≤ i ∧ i ≤ r.highest) ∧
      ∀ i, r.lowest ≤ i → i ≤ r.highest → MayYield r.randomInt i) ∧
    (∀ n (h : 0 < n), n < 2 ^ 32 →
      (∀ e, let i := ((index n h).run e).1.val
        i < n ∧ i = (wrapping 0 (.ofNat 32 (n - 1)) (e.stream e.taken).toUInt32.toBitVec
          (e.stream (e.taken + 1)).toUInt32.toBitVec).toNat) ∧
      ∀ i, MayYield (index n h) i) ∧
    (∀ a : Alphabet, a.random = (fun i => a.chars[i]) <$>
      index a.chars.length (List.length_pos_iff.2 a.nonempty)) ∧
    (∀ vs h, (Source.entry (.items vs h)).draw = (fun i => .ready vs[i]) <$>
      DrawM.sample (index vs.length (List.length_pos_iff.2 h))) ∧
    (∀ cs h, (Source.entry (.chars cs h)).draw = (fun i => .ready (.str (String.ofList [cs[i]]))) <$>
      DrawM.sample (index cs.length (List.length_pos_iff.2 h))) ∧
    ∀ first others, (Source.oneOf first others).draw =
      DrawM.sample (index (others.length + 1) (Nat.succ_pos _)) >>= fun i =>
        ((first :: others)[i]).draw := by
  refine ⟨?_, ?_, ?_, fun _ => rfl, Source.draw_items, Source.draw_chars, Source.draw_oneOf⟩
  · intro lo hi h
    have hlo := lo.le_toInt
    have hhi := hi.toInt_lt
    refine ⟨fun e => ?_, fun i hle hge => mayYield_int64 h (by omega) (by omega) hle hge⟩
    obtain ⟨hle, hge⟩ := yields_int64 h (by omega) (by omega) e
    exact ⟨hle, hge, (toInt_wrapping h e).symm⟩
  · intro r
    refine ⟨r.yields_randomInt, fun i hle hge => ?_⟩
    exact mayYield_int64 r.lowest_le_highest r.le_lowest r.highest_le hle hge
  · intro n h hn
    refine ⟨fun e => ⟨((index n h).run e).1.isLt, (toNat_wrapping h hn e).symm⟩, ?_⟩
    exact mayYield_index h hn

end Sampling

end GenExpr
