import GenExpr.Options.Document
import GenExpr.Proofs.Json.RoundTrip
import GenExpr.Proofs.Options.Settings
import Mathlib.Data.List.DropRight

/-!
# Members of an options document

A member is read as the setting that it stands for, whatever comes after it. Where its value is read at
all, the reader of a named member leaves what the reader of values leaves.
-/

namespace GenExpr

namespace Json

theorem value_skipBlank (depth : Nat) (cs : List Char) : value depth (skipBlank cs) = value depth cs := by
  have hskip : skipBlank (skipBlank cs) = skipBlank cs := List.dropWhile_idempotent ..
  cases depth with
  | zero => rw [value, valueWith, valueWith, hskip]
  | succ depth => rw [value, valueWith, valueWith, hskip]

theorem value_quote (depth : Nat) (cs : List Char) :
    value depth ('"' :: cs) = match stringRest cs with
      | .error e => .error e
      | .ok (s, r) => .ok (.str s, r) := by
  cases depth with
  | zero => exact valueWith_quote _ cs
  | succ depth => exact valueWith_quote _ cs

theorem value_number {depth : Nat} {c : Char} (h : c = '-' ∨ c.isDigit = true) (cs : List Char) :
    value depth (c :: cs) = numberValue (c :: cs) := by
  cases depth with
  | zero => exact valueWith_number h _ cs
  | succ depth => exact valueWith_number h _ cs

theorem bracketed_ne_str {inner : Reader Value} {c : Char} {cs r : List Char} {s : String} :
    bracketed inner c cs ≠ .ok (.str s, r) := by
  intro h
  rw [bracketed] at h
  split at h
  next =>
    split at h
    next => cases h
    next => cases h
  next =>
    split at h
    next => cases h
    next => cases h

theorem numberValue_ne_str {cs r : List Char} {s : String} : numberValue cs ≠ .ok (.str s, r) := by
  intro h
  rw [numberValue] at h
  split at h
  next => cases h
  next n r₀ _ =>
    have hvalue : n.value = .str s := (Prod.mk.inj (Except.ok.inj h)).1
    rw [Number.value.eq_def] at hvalue
    split at hvalue
    next => split at hvalue <;> cases hvalue
    next => cases hvalue
    next => cases hvalue

theorem wordValue_ne_str {w cs r : List Char} {v : Value} {s : String} (hv : v ≠ .str s) :
    wordValue w v cs ≠ .ok (.str s, r) := by
  intro h
  rw [wordValue] at h
  split at h
  next => cases h
  next => exact hv (Prod.mk.inj (Except.ok.inj h)).1

end Json

open Json

namespace Options.Document

variable {t : List Char}

/-- A natural number is read from its digits. -/
theorem natural_append {text : String} {n : Nat} (h : WritesNatural n text) (ht : Apart t) :
    ∃ r, natural (text.toList ++ t) = .ok (n, r ++ t) ∧ Blank r := by
  obtain ⟨hn, before, after, hbefore, hafter, rfl⟩ := h
  refine ⟨after, ?_, hafter⟩
  have hword : n ≤ maxWord := hn
  have hnumber := number_toDigits hword (hafter.apart_append ht)
  obtain ⟨c, r, hcr⟩ := List.exists_cons_of_ne_nil (Nat.toDigits_ne_nil (n := n) (b := 10))
  have hc : c = '-' ∨ c.isDigit = true :=
    .inr (Nat.isDigit_of_mem_toDigits (by decide) (by decide) (hcr ▸ List.mem_cons_self))
  rw [hcr, List.cons_append] at hnumber
  rw [String.toList_ofList, hcr, List.append_assoc, List.append_assoc, natural,
    skipBlank_append_of_blank hbefore, List.cons_append, skipBlank_cons (opens_of_digit hc).1]
  simp only [if_pos hc, hnumber]

/-- Only a quoted text is read as a string. -/
theorem string_of_valueWith {bracket : Char → Reader Value} {cs r : List Char} {s : String}
    (hbracket : ∀ c cs, bracket c cs ≠ .ok (.str s, r)) (h : valueWith bracket cs = .ok (.str s, r)) :
    string cs = .ok (s, r) := by
  rw [valueWith] at h
  split at h
  next => cases h
  next c r₀ hskip =>
    split at h
    next => exact absurd h (wordValue_ne_str (by simp))
    split at h
    next => exact absurd h (wordValue_ne_str (by simp))
    split at h
    next => exact absurd h (wordValue_ne_str (by simp))
    split at h
    next => exact absurd h numberValue_ne_str
    split at h
    next hquote =>
      subst hquote
      rw [string, hskip]
      split at h
      next => cases h
      next s' r' hstring =>
        cases h
        exact hstring
    split at h
    next => exact absurd h (hbracket c r₀)
    next => cases h

theorem string_of_value {depth : Nat} {cs r : List Char} {s : String}
    (h : value depth cs = .ok (.str s, r)) : string cs = .ok (s, r) := by
  cases depth with
  | zero =>
    refine string_of_valueWith ?_ h
    intro c cs hdeep
    cases hdeep
  | succ depth => exact string_of_valueWith (fun _ _ => bracketed_ne_str) h

theorem wrongType_ne_ok {α : Type} {wanted : String} {cs : List Char} {a : α} :
    wrongType wanted cs ≠ .ok a := by
  intro h
  rw [wrongType.eq_def] at h
  simp only at h
  split at h
  next => cases h
  next c r =>
    split at h
    next => split at h <;> cases h
    split at h
    next => split at h <;> cases h
    split at h
    next => split at h <;> cases h
    split at h
    next => split at h <;> cases h
    split at h
    next => split at h <;> cases h
    split at h
    next => cases h
    split at h
    next => cases h
    next => cases h

theorem exists_quote_of_string {cs r : List Char} {s : String} (h : string cs = .ok (s, r)) :
    ∃ r₀, skipBlank cs = '"' :: r₀ ∧ stringRest r₀ = .ok (s, r) := by
  rw [string] at h
  split at h
  next r₀ hskip => exact ⟨r₀, hskip, h⟩
  next => exact absurd h wrongType_ne_ok

theorem extends_string : Extends t string string := by
  intro cs s r h
  obtain ⟨r₀, hskip, hstring⟩ := exists_quote_of_string h
  rw [string, skipBlank_append hskip]
  exact extends_stringRest _ _ _ hstring

theorem exists_number_of_natural {cs r : List Char} {n : Nat} (h : natural cs = .ok (n, r)) :
    ∃ c r₀, skipBlank cs = c :: r₀ ∧ (c = '-' ∨ c.isDigit = true) ∧
      number (c :: r₀) = .ok (.natural n, r) := by
  rw [natural] at h
  split at h
  next => cases h
  next c r₀ hskip =>
    split at h
    next hc =>
      refine ⟨c, r₀, hskip, hc, ?_⟩
      split at h
      next => cases h
      next hnumber =>
        cases h
        exact hnumber
      next => cases h
      next => cases h
    next => exact absurd h wrongType_ne_ok

/-- Where a value is read, a natural number that is read there leaves the same. -/
theorem eq_of_natural_of_value {depth n : Nat} {cs r r' : List Char} {v : Value}
    (hvalue : value depth cs = .ok (v, r)) (hnatural : natural cs = .ok (n, r')) : r' = r := by
  obtain ⟨c, r₀, hskip, hc, hnumber⟩ := exists_number_of_natural hnatural
  rw [← value_skipBlank, hskip, value_number hc, numberValue, hnumber] at hvalue
  exact (Prod.mk.inj (Except.ok.inj hvalue)).2

/-- Where a value is read, a string that is read there leaves the same. -/
theorem eq_of_string_of_value {depth : Nat} {cs r r' : List Char} {v : Value} {s : String}
    (hvalue : value depth cs = .ok (v, r)) (hstring : string cs = .ok (s, r')) : r' = r := by
  obtain ⟨r₀, hskip, hrest⟩ := exists_quote_of_string hstring
  rw [← value_skipBlank, hskip, value_quote, hrest] at hvalue
  exact (Prod.mk.inj (Except.ok.inj hvalue)).2

namespace Draft

/-- How often a named member has been read. -/
def given (d : Draft) (name : String) : Nat :=
  if name = "iterations" then d.iterationsGiven.toNat else d.lettersGiven.toNat

theorem given_le_one (d : Draft) (name : String) : d.given name ≤ 1 := by
  rw [given]
  split
  next => exact Bool.toNat_le _
  next => exact Bool.toNat_le _

end Draft

/-- What is read next to a colon is read by the reader of the member. -/
theorem member_colon {α : Type} {blanks : List Char} (h : Blank blanks) (reader : Reader α)
    (cs : List Char) : member reader (blanks ++ ':' :: cs) = reader cs := by
  have hskip : skipBlank (':' :: cs) = ':' :: cs := rfl
  simp only [member, colon, skipBlank_append_of_blank h, hskip]

section Members

variable {d d' : Draft} {key : String} {cs r : List Char}

/-- A named member is read only where it has not been read before, and is counted. -/
theorem given_addMember (h : addMember d key cs = .ok (d', r)) {name : String} (hname : Named name) :
    d'.given name = d.given name + if key = name then 1 else 0 := by
  rw [addMember] at h
  split at h
  next hkey =>
    subst hkey
    split at h
    next => cases h
    next hfirst =>
      split at h
      next => cases h
      next n r₀ _ =>
        obtain ⟨rfl, rfl⟩ := Prod.mk.inj (Except.ok.inj h)
        rcases hname with rfl | rfl
        · simp [Draft.given, hfirst]
        · simp [Draft.given]
  next hiterations =>
    split at h
    next hkey =>
      subst hkey
      split at h
      next => cases h
      next hfirst =>
        split at h
        next => cases h
        next s r₀ _ =>
          split at h
          next => cases h
          next l _ =>
            obtain ⟨rfl, rfl⟩ := Prod.mk.inj (Except.ok.inj h)
            rcases hname with rfl | rfl
            · simp [Draft.given]
            · simp [Draft.given, hfirst]
    next hletters =>
      split at h
      next => cases h
      next v r₀ _ =>
        obtain ⟨rfl, rfl⟩ := Prod.mk.inj (Except.ok.inj h)
        rcases hname with rfl | rfl
        · simp [Draft.given, hiterations]
        · simp [Draft.given, hletters]

variable {t : List Char}

/-- A member that stands for a setting is read as it, whatever comes after it. -/
theorem addMember_gives {e : String × String} {s : Setting} (h : Gives e s) {blanks : List Char}
    (hblanks : Blank blanks) (hfirst : Named e.1 → d.given e.1 = 0) (ht : Apart t) :
    ∃ d' r, addMember d e.1 (blanks ++ ':' :: (e.2.toList ++ t)) = .ok (d', r ++ t) ∧ Blank r ∧
      d'.options = s.apply d.options := by
  cases h with
  | @iterations text n writes =>
    obtain ⟨r, hread, hblank⟩ := natural_append writes ht
    have hgiven : d.iterationsGiven = false := by simpa [Draft.given] using hfirst (.inl rfl)
    refine ⟨⟨{ d.options with iterations := n }, true, d.lettersGiven⟩, r, ?_, hblank, rfl⟩
    simp only [addMember, hgiven, member_colon hblanks, hread, if_true, Bool.false_eq_true, if_false]
  | @letters text s l read parsed =>
    obtain ⟨r, hvalue, hblank⟩ := readAll_eq_ok_iff.1 read
    have hread := extends_string (t := t) _ _ _ (string_of_value hvalue)
    have hgiven : d.lettersGiven = false := by simpa [Draft.given] using hfirst (.inr rfl)
    have hkey : "letters" ≠ "iterations" := by decide
    refine ⟨⟨{ d.options with letters := l }, d.iterationsGiven, true⟩, r, ?_, hblank, rfl⟩
    simp only [addMember, if_neg hkey, hgiven, member_colon hblanks, hread, parsed, if_true,
      Bool.false_eq_true, if_false]
  | @custom key text v other readable read =>
    obtain ⟨w, r, hread, hvalue, hblank⟩ := readable.exists_read
    obtain rfl := Except.ok.inj (read.symm.trans hread)
    obtain ⟨hiterations, hletters⟩ := not_or.1 other
    refine ⟨{ d with options := d.options.set key v }, r, ?_, hblank, rfl⟩
    simp only [addMember, if_neg hiterations, if_neg hletters, member_colon hblanks,
      extends_value ht (Nat.le_refl _) _ _ _ hvalue]

/-- Where a value is read, a member that is read there leaves the same. -/
theorem addMember_rest {text : String} (hreadable : Readable text) {blanks : List Char}
    (hblanks : Blank blanks) (ht : Apart t)
    (h : addMember d key (blanks ++ ':' :: (text.toList ++ t)) = .ok (d', r)) :
    ∃ r₀, r = r₀ ++ t ∧ Blank r₀ := by
  obtain ⟨v, r₀, -, hvalue, hblank⟩ := hreadable.exists_read
  have hvalue := extends_value ht (Nat.le_refl _) _ _ _ hvalue
  refine ⟨r₀, ?_, hblank⟩
  simp only [addMember, member_colon hblanks] at h
  split at h
  next =>
    split at h
    next => cases h
    split at h
    next => cases h
    next n r₁ hnatural =>
      obtain ⟨-, rfl⟩ := Prod.mk.inj (Except.ok.inj h)
      exact eq_of_natural_of_value hvalue hnatural
  split at h
  next =>
    split at h
    next => cases h
    split at h
    next => cases h
    next s r₁ hstring =>
      split at h
      next => cases h
      obtain ⟨-, rfl⟩ := Prod.mk.inj (Except.ok.inj h)
      exact eq_of_string_of_value hvalue hstring
  · rw [hvalue] at h
    exact (Prod.mk.inj (Except.ok.inj h)).2.symm

end Members

end Options.Document

end GenExpr
