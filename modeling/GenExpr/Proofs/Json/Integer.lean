import GenExpr.Decimal.Layout
import GenExpr.Json.Reader

/-!
# Integers in JSON

A whole number of 64 bits is written in decimal digits and read back from them, as long as what follows
does not go on with the number. In a JSON text that is written without blanks, what follows a value is
its end, a comma or a closing bracket.
-/

namespace GenExpr.Json

/-- What may follow a value that is written: nothing, a comma or a closing bracket. -/
def Follows (rest : List Char) : Prop := ∀ c r, rest = c :: r → c = ',' ∨ c = ']' ∨ c = '\x7d'

theorem follows_nil : Follows [] := by
  intro c r h
  cases h

theorem follows_cons {c : Char} (h : c = ',' ∨ c = ']' ∨ c = '\x7d') (r : List Char) :
    Follows (c :: r) := by
  intro d s hds
  obtain ⟨rfl, -⟩ := List.cons.inj hds
  exact h

/-- A text does not begin like the rest of a number. -/
def Apart (rest : List Char) : Prop :=
  ∀ c r, rest = c :: r → c.isDigit = false ∧ c ≠ '.' ∧ c ≠ 'e' ∧ c ≠ 'E'

theorem Follows.apart {rest : List Char} (h : Follows rest) : Apart rest := by
  intro c r hcr
  rcases h c r hcr with rfl | rfl | rfl
  · decide
  · decide
  · decide

theorem Apart.not_startsWithDigit {rest : List Char} (h : Apart rest) :
    startsWithDigit rest = false := by
  cases rest with
  | nil => rfl
  | cons c r => exact (h c r rfl).1

section Digits

theorem le_ofDigitChars (ds : List Char) (m : Nat) : m ≤ Nat.ofDigitChars 10 ds m := by
  induction ds generalizing m with
  | nil => exact Nat.le_refl m
  | cons c r ih =>
    rw [Nat.ofDigitChars_cons]
    have := ih (10 * m + (c.toNat - '0'.toNat))
    omega

/-- Digits are gathered up to their end, as long as they make a word. -/
theorem gather_digits {ds rest : List Char} (hds : ∀ c ∈ ds, c.isDigit = true)
    (hrest : startsWithDigit rest = false) (m count : Nat)
    (hword : Nat.ofDigitChars 10 ds m ≤ maxWord) :
    gather m count (ds ++ rest) = (Nat.ofDigitChars 10 ds m, count + ds.length, rest) := by
  induction ds generalizing m count with
  | nil =>
    cases rest with
    | nil => rfl
    | cons c r =>
      have hc : c.isDigit = false := hrest
      simp [gather, hc]
  | cons c r ih =>
    obtain ⟨hc, hr⟩ := List.forall_mem_cons.1 hds
    have hstep : 10 * m + (c.toNat - '0'.toNat) = m * 10 + digit c := by
      rw [digit]
      omega
    rw [Nat.ofDigitChars_cons, hstep] at hword ⊢
    have hle : m * 10 + digit c ≤ maxWord := Nat.le_trans (le_ofDigitChars r _) hword
    rw [List.cons_append, gather, if_pos ⟨hc, hle⟩, ih hr _ _ hword, List.length_cons]
    congr 2
    omega

/-- Only zero is written with a zero in front. -/
theorem eq_zero_of_toDigits {n : Nat} {ds : List Char} (h : Nat.toDigits 10 n = '0' :: ds) :
    n = 0 ∧ ds = [] := by
  induction n using Nat.strongRecOn generalizing ds with
  | ind n ih =>
    rw [Nat.toDigits_eq_if (by decide)] at h
    split at h
    next =>
      obtain ⟨hdigit, rfl⟩ := List.cons.inj h
      exact ⟨Nat.digitChar_eq_zero.1 hdigit, rfl⟩
    next hge =>
      obtain ⟨c, r, hcr⟩ := List.exists_cons_of_ne_nil (Nat.toDigits_ne_nil (n := n / 10) (b := 10))
      rw [hcr] at h
      obtain ⟨rfl, -⟩ := List.cons.inj h
      obtain ⟨hzero, -⟩ := ih (n / 10) (by omega) hcr
      omega

/-- Digits that make a word are read as a whole, unless there are more of them after a zero. -/
theorem unsigned_digits {ds rest : List Char} (hne : ds ≠ []) (hds : ∀ c ∈ ds, c.isDigit = true)
    (hzero : ∀ r, ds = '0' :: r → r = []) (hword : Nat.ofDigitChars 10 ds 0 ≤ maxWord)
    (negative : Bool) (hrest : startsWithDigit rest = false) :
    unsigned negative (ds ++ rest) = whole negative (Nat.ofDigitChars 10 ds 0) rest := by
  obtain ⟨c, r, rfl⟩ := List.exists_cons_of_ne_nil hne
  obtain ⟨hc, hr⟩ := List.forall_mem_cons.1 hds
  rw [List.cons_append, unsigned]
  by_cases hfirst : c = '0'
  · subst hfirst
    obtain rfl := hzero r rfl
    rw [if_pos rfl, List.nil_append, hrest]
    rfl
  · have hdigit : 10 * 0 + (c.toNat - '0'.toNat) = digit c := by
      rw [digit]
      omega
    rw [Nat.ofDigitChars_cons, hdigit] at hword ⊢
    rw [if_neg hfirst, if_pos hc, gather_digits hr hrest _ _ hword]
    simp only [hrest, Bool.false_eq_true, if_false]

/-- A number that makes a word is read from its digits. -/
theorem unsigned_toDigits {n : Nat} (hword : n ≤ maxWord) (negative : Bool) {rest : List Char}
    (hrest : Apart rest) : unsigned negative (Nat.toDigits 10 n ++ rest) = whole negative n rest := by
  have hdigits : ∀ c ∈ Nat.toDigits 10 n, c.isDigit = true :=
    fun c hc => Nat.isDigit_of_mem_toDigits (by decide) (by decide) hc
  have hvalue : Nat.ofDigitChars 10 (Nat.toDigits 10 n) 0 = n := Nat.ofDigitChars_ten_toDigits
  rw [unsigned_digits Nat.toDigits_ne_nil hdigits (fun r h => (eq_zero_of_toDigits h).2)
    (hvalue.symm ▸ hword) negative hrest.not_startsWithDigit, hvalue]

end Digits

/-- Without a point or an exponent a number is whole. -/
theorem whole_of_plain (negative : Bool) (n : Nat) {rest : List Char}
    (h : ∀ c r, rest = c :: r → c ≠ '.' ∧ c ≠ 'e' ∧ c ≠ 'E') :
    whole negative n rest =
      if ¬negative then .ok (.natural n, rest)
      else if 0 < n ∧ n ≤ 1 <<< 63 then .ok (.negative n, rest)
      else .ok (.float (Binary64.ofInt n).neg, rest) := by
  rw [whole.eq_def]
  split
  next r => exact absurd rfl (h '.' r rfl).1
  next =>
    split
    next => exact absurd rfl (h 'e' _ rfl).2.1
    next => exact absurd rfl (h 'E' _ rfl).2.2
    next => rfl

theorem whole_of_apart (negative : Bool) (n : Nat) {rest : List Char} (h : Apart rest) :
    whole negative n rest =
      if ¬negative then .ok (.natural n, rest)
      else if 0 < n ∧ n ≤ 1 <<< 63 then .ok (.negative n, rest)
      else .ok (.float (Binary64.ofInt n).neg, rest) :=
  whole_of_plain negative n fun c r hcr => (h c r hcr).2

/-- A natural number of 64 bits is read from its digits. -/
theorem number_toDigits {n : Nat} (hword : n ≤ maxWord) {rest : List Char} (hrest : Apart rest) :
    number (Nat.toDigits 10 n ++ rest) = .ok (.natural n, rest) := by
  have hunsigned : number (Nat.toDigits 10 n ++ rest) = unsigned false (Nat.toDigits 10 n ++ rest) := by
    obtain ⟨c, r, hcr⟩ := List.exists_cons_of_ne_nil (Nat.toDigits_ne_nil (n := n) (b := 10))
    have hc : c.isDigit = true :=
      Nat.isDigit_of_mem_toDigits (by decide) (by decide) (hcr ▸ List.mem_cons_self)
    rw [hcr, List.cons_append, number.eq_def]
    split
    next heq =>
      obtain ⟨rfl, -⟩ := List.cons.inj heq
      cases hc
    next => rfl
  rw [hunsigned, unsigned_toDigits hword false hrest, whole_of_apart false n hrest]
  rfl

/-- Integers of 64 bits are read back from their digits. -/
theorem numberValue_ofInt {i : Int} (lower : -0x8000000000000000 ≤ i)
    (upper : i ≤ 0x7fffffffffffffff) {rest : List Char} (hrest : Apart rest) :
    numberValue (Decimal.ofInt i ++ rest) = .ok (.int i, rest) := by
  have hlimit : 1 <<< 63 = 0x8000000000000000 := by decide
  have hword : maxWord = 0xffffffffffffffff := by decide
  cases i with
  | ofNat n =>
    have hn : (n : Int) ≤ 0x7fffffffffffffff := upper
    have hsmall : n < 1 <<< 63 := by omega
    rw [Decimal.ofInt, numberValue, number_toDigits (by omega) hrest]
    simp only [Number.value, if_pos hsmall]
    rfl
  | negSucc n =>
    have hn : n + 1 ≤ 1 <<< 63 := by omega
    have hnumber : number ('-' :: Nat.toDigits 10 (n + 1) ++ rest) =
        unsigned true (Nat.toDigits 10 (n + 1) ++ rest) := rfl
    rw [Decimal.ofInt, numberValue, hnumber, unsigned_toDigits (by omega) true hrest,
      whole_of_apart true (n + 1) hrest]
    simp only [not_true_eq_false, if_false, if_pos (And.intro (Nat.succ_pos n) hn), Number.value]
    rfl

/-- An integer begins with a minus sign or a digit. -/
theorem exists_ofInt_cons (i : Int) :
    ∃ c r, Decimal.ofInt i = c :: r ∧ (c = '-' ∨ c.isDigit = true) := by
  cases i with
  | ofNat n =>
    obtain ⟨c, r, hcr⟩ := List.exists_cons_of_ne_nil (Nat.toDigits_ne_nil (n := n) (b := 10))
    refine ⟨c, r, hcr, .inr ?_⟩
    exact Nat.isDigit_of_mem_toDigits (by decide) (by decide) (hcr ▸ List.mem_cons_self)
  | negSucc n => exact ⟨'-', _, rfl, .inl rfl⟩

end GenExpr.Json
