import GenExpr.Entropy.Basic
import GenExpr.Range

/-!
# Sampling

Uniform draws from intervals. Whole numbers scale a word to the width of the interval by one product; a
second word is taken only if the low half of the product leaves the result open. Characters are drawn
by their index among all characters, so that the gap of the surrogates does not count, and words that
would favour some of them are rejected.
-/

namespace GenExpr

namespace Sampling

/-- How many words of a number of bits there are. -/
def wordCount (bits : Nat) : Nat := 1 <<< bits

theorem wordCount_pos (bits : Nat) : 0 < wordCount bits := by
  rw [wordCount, Nat.shiftLeft_eq, Nat.one_mul]
  exact Nat.two_pow_pos bits

/-- Whether a product leaves its result open to a carry from a second word. -/
def wantsSecond (bits width word : Nat) : Bool := wordCount bits - width < word * width % wordCount bits

def scaled (bits width word : Nat) : Nat := word * width / wordCount bits

/-- A word scaled to a width, with the carry that a second word brings. -/
def carried (bits width word second : Nat) : Nat :=
  scaled bits width word +
    if wordCount bits ≤ word * width % wordCount bits + scaled bits width second then 1 else 0

theorem scaled_lt {bits width word : Nat} (hw : word < wordCount bits) (h : 0 < width) :
    scaled bits width word < width :=
  Nat.div_lt_of_lt_mul (Nat.mul_lt_mul_of_pos_right hw h)

/-- A carry never reaches the width: a product in the last slice has a low half too small for one. -/
theorem carried_lt {bits width word second : Nat} (hw : word < wordCount bits) (hs : second < wordCount bits)
    (h : 0 < width) : carried bits width word second < width := by
  have h₁ := scaled_lt hw h
  have h₂ := scaled_lt hs h
  unfold carried
  split
  · rename_i hc
    have hdiv := Nat.div_add_mod (word * width) (wordCount bits)
    have hword : word * width ≤ (wordCount bits - 1) * width := Nat.mul_le_mul_right _ (by omega)
    rw [Nat.sub_one_mul] at hword
    have hbig : width ≤ wordCount bits * width := Nat.le_mul_of_pos_left _ (wordCount_pos bits)
    apply Nat.lt_of_not_le
    intro hle
    have hlast : wordCount bits * (width - 1) ≤ wordCount bits * scaled bits width word :=
      Nat.mul_le_mul_left _ (by omega)
    rw [Nat.mul_sub_one] at hlast
    have hmul : wordCount bits ≤ wordCount bits * width := Nat.le_mul_of_pos_right _ h
    unfold scaled at *
    omega
  · omega

def lowHalf (w : UInt64) : Fin (wordCount 32) :=
  ⟨w.toNat % wordCount 32, Nat.mod_lt _ (wordCount_pos 32)⟩

def wholeWord (w : UInt64) : Fin (wordCount 64) := ⟨w.toNat, w.toNat_lt⟩

/-- Draws a natural number below a width, by words of a given number of bits. -/
def belowWidth (bits width : Nat) (h : 0 < width) (read : UInt64 → Fin (wordCount bits)) :
    StateM Entropy (Fin width) := do
  let word ← Entropy.next
  if wantsSecond bits width (read word) then
    let second ← Entropy.next
    return ⟨carried bits width (read word) (read second),
      carried_lt (read word).isLt (read second).isLt h⟩
  else return ⟨scaled bits width (read word), scaled_lt (read word).isLt h⟩

/-- The signed number of 64 bits with a bit pattern. -/
def signed (n : Nat) : Int := if n < wordCount 63 then n else n - wordCount 64

/-- Draws a signed number of 64 bits from `lo` to `hi`. If these are the least and the greatest one, the
word itself is the number. -/
def int64 (lo hi : Int) (h : lo ≤ hi) : StateM Entropy Int := do
  if hi - lo + 1 = wordCount 64 then
    return signed (← Entropy.next).toNat
  else
    let r ← belowWidth 64 (hi - lo + 1).toNat (by omega) wholeWord
    return lo + (r.val : Int)

/-- Draws an index below a positive number, by words of 32 bits. -/
def index (n : Nat) (h : 0 < n) : StateM Entropy (Fin n) := belowWidth 32 n h lowHalf

def pick {α : Type} (items : List α) (h : items ≠ []) : StateM Entropy α := do
  let i ← index items.length (List.length_pos_iff.2 h)
  return items[i]

/-- The index of a character among all characters. -/
def charIndex (c : Char) : Nat := if c.toNat < 0xe000 then c.toNat else c.toNat - 0x800

def charAt (i : Nat) : Char := Char.ofNat (if i < 0xd800 then i else i + 0x800)

/-- The low halves of products that are rejected lie below this. -/
def threshold (width : Nat) : Nat := (wordCount 32 - width) % width

/-- Whether a word of 32 bits gives an index below a width. -/
def accepts (width word : Nat) : Bool := threshold width ≤ word * width % wordCount 32

/-- Takes words until one is accepted, at most a given number of times. -/
def accepted (width : Nat) : Nat → StateM Entropy Nat
  | 0 => do return scaled 32 width (lowHalf (← Entropy.next))
  | n + 1 => do
    let word := lowHalf (← Entropy.next)
    if accepts width word then return scaled 32 width word else accepted width n

/-- How many words in a row may be rejected. Each is rejected less often than not. -/
def patience : Nat := 0x10000

end Sampling

namespace NumberRange

/-- The fraction in `[0, 1)` made of the upper 52 bits of a word. -/
def fraction52 (w : UInt64) : Binary64 := .nearest false ((w.toNat >>> 12) * Binary64.one) (1 <<< 52)

def random (r : NumberRange) : StateM Entropy Binary64 := do
  let word ← Entropy.next
  return ((fraction52 word).mul (r.max.sub r.min)).add r.min

/-- Draws a whole number between the floors of the bounds. -/
def randomInt (r : NumberRange) : StateM Entropy Int :=
  Sampling.int64 r.lowest r.highest r.lowest_le_highest

end NumberRange

namespace CharRange

def size (r : CharRange) : Nat := Sampling.charIndex r.max - Sampling.charIndex r.min + 1

def random (r : CharRange) : StateM Entropy Char := do
  let i ← Sampling.accepted r.size Sampling.patience
  return Sampling.charAt (Sampling.charIndex r.min + i)

end CharRange

/-- The fraction in `[0, 1)` made of the upper 53 bits of a word. -/
def Sampling.fraction53 (w : UInt64) : Binary64 :=
  .nearest false ((w.toNat >>> 11) * Binary64.one) (1 <<< 53)

/-- Draws whether a uniform fraction lies below a bias. -/
def Sampling.belowBias (bias : Binary64) : StateM Entropy Bool := do
  return (fraction53 (← Entropy.next)).lt bias

end GenExpr
