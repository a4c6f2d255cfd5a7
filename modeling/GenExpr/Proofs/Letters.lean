import GenExpr.Proofs.Draw.Index
import GenExpr.Proofs.Options.Document
import GenExpr.Proofs.Range

/-!
# Letters that a text stands for

A text is a range of letters if it is a range of characters, and an alphabet otherwise. Two digits with a
hyphen between them are a range of numbers, so as letters they are an alphabet of three characters, one
of them the hyphen. The letters of an options document are those of its member.
-/

namespace GenExpr

namespace Letters

theorem parse_of_isCharInterval {text : String} (h : IsCharInterval text) :
    ∃ r, parse text = .ok (.range r) ∧ text.toList = [r.min, '-', r.max] := by
  obtain ⟨r, hr⟩ := CharRange.exists_parse_iff.2 h
  exact ⟨r, by rw [parse, hr], CharRange.toList_of_parse hr⟩

theorem parse_of_not_isCharInterval {text : String} (h : ¬IsCharInterval text)
    (nonempty : text.toList ≠ []) : parse text = .ok (.alphabet ⟨text.toList, nonempty⟩) := by
  rw [parse]
  split
  next r hr => exact absurd (CharRange.exists_parse_iff.1 ⟨r, hr⟩) h
  next => rw [Alphabet.ofChars?, dif_pos nonempty]

/-- Each character of a short alphabet is drawn for some words. -/
theorem mayYield_alphabet {a : Alphabet} (short : a.chars.length < 2 ^ 32) {c : Char}
    (h : c ∈ a.chars) : Sampling.MayYield (alphabet a).random c := by
  obtain ⟨i, hi, rfl⟩ := List.getElem_of_mem h
  exact (Sampling.mayYield_index (List.length_pos_iff.2 a.nonempty) short ⟨i, hi⟩).map
    fun i => a.chars[i]

section Hyphen

variable {a b : Char} (ha : a ≠ '-') (hb : b ≠ '-') (hab : a ≤ b)
include ha hb hab

theorem isCharInterval_iff :
    IsCharInterval (String.ofList [a, '-', b]) ↔ ¬(a.isDigit = true ∧ b.isDigit = true) := by
  rw [IsCharInterval, String.toList_ofList]
  constructor
  · intro h
    obtain ⟨a', b', heq, -, -, -, hdigits⟩ := h
    obtain ⟨rfl, -, rfl⟩ : a = a' ∧ '-' = '-' ∧ b = b' := by simpa using heq
    exact hdigits
  · exact fun hdigits => ⟨a, b, rfl, ha, hb, hab, hdigits⟩

/-- Two characters with a hyphen between them are the letters from the one to the other, unless both are
digits. -/
theorem parse_hyphen (hdigits : ¬(a.isDigit = true ∧ b.isDigit = true)) :
    parse (String.ofList [a, '-', b]) = .ok (.range ⟨a, b, hab⟩) := by
  obtain ⟨r, hr, heq⟩ := parse_of_isCharInterval ((isCharInterval_iff ha hb hab).2 hdigits)
  rw [String.toList_ofList] at heq
  obtain ⟨rfl, -, rfl⟩ : a = r.min ∧ '-' = '-' ∧ b = r.max := by simpa using heq
  exact hr

theorem parse_hyphen_digits (hdigits : a.isDigit = true ∧ b.isDigit = true) :
    parse (String.ofList [a, '-', b]) =
      .ok (.alphabet ⟨[a, '-', b], List.cons_ne_nil a ['-', b]⟩) := by
  have hinterval : ¬IsCharInterval (String.ofList [a, '-', b]) :=
    fun h => (isCharInterval_iff ha hb hab).1 h hdigits
  rw [parse_of_not_isCharInterval hinterval (by simp)]
  simp

end Hyphen

end Letters

namespace Options.Document

theorem Gives.letters?_of_parse {e : String × String} {x : Setting} (h : Gives e x)
    (hkey : e.1 = "letters") {s : String} {l : Letters} (read : Json.read e.2 = .ok (.str s))
    (parsed : Letters.parse s = .ok l) : x.letters? = some l := by
  cases h with
  | iterations _ => exact absurd hkey (by simp)
  | letters read' parsed' =>
    obtain rfl := Value.str.inj (Except.ok.inj (read'.symm.trans read))
    exact congrArg some (Except.ok.inj (parsed'.symm.trans parsed))
  | custom other _ _ => exact absurd (.inr hkey) other

/-- The letters of a document are those that the text of its member stands for. -/
theorem exists_ofJson_letters {w : Writing} (usable : Usable w.entries) {t s : String} {l : Letters}
    (mem : ("letters", t) ∈ w.entries) (read : Json.read t = .ok (.str s))
    (parsed : Letters.parse s = .ok l) : ∃ o, Options.ofJson w.text = .ok o ∧ o.letters = l := by
  obtain ⟨f, hgives⟩ := usable.exists_gives
  refine ⟨_, Writing.ofJson_eq_ok hgives usable.once, ?_⟩
  have hmem : ("letters", t) ∈ w.entries.filter (·.1 = "letters") :=
    List.mem_filter.2 ⟨mem, by simp⟩
  obtain ⟨e, he⟩ : ∃ e, w.entries.filter (·.1 = "letters") = [e] :=
    List.length_eq_one_iff.1
      (Nat.le_antisymm (usable.once "letters" (.inr rfl)) (List.length_pos_of_mem hmem))
  obtain rfl : ("letters", t) = e := by simpa [he] using hmem
  have hset : (f ("letters", t)).letters? = some l :=
    (hgives _ mem).letters?_of_parse rfl read parsed
  have hlast : (w.entries.map f).filterMap Setting.letters? = [l] := by
    rw [← filterMap_filter fun e he => (hgives e he).letters?_of_ne, he]
    simp [hset]
  rw [build, foldl_apply, hlast]
  rfl

end Options.Document

open Options.Document

/-- Two characters other than hyphens with a hyphen between them can be used as letters, also in an
options document. Unless both are digits, whatever letter is drawn lies between the two. If both are
digits, the hyphen can be drawn too. -/
theorem hyphenated_letters_lie_between {a b : Char} (ha : a ≠ '-') (hb : b ≠ '-') (hab : a ≤ b) :
    ∃ l, Letters.parse (String.ofList [a, '-', b]) = .ok l ∧
      (¬(a.isDigit = true ∧ b.isDigit = true) →
        Sampling.Yields l.random fun c => a ≤ c ∧ c ≤ b) ∧
      (a.isDigit = true ∧ b.isDigit = true → Sampling.MayYield l.random '-') ∧
      ∀ (w : Writing) t, Usable w.entries → ("letters", t) ∈ w.entries →
        Json.read t = .ok (.str (String.ofList [a, '-', b])) →
        ∃ o, Options.ofJson w.text = .ok o ∧ o.letters = l := by
  by_cases hdigits : a.isDigit = true ∧ b.isDigit = true
  · have hparse := Letters.parse_hyphen_digits ha hb hab hdigits
    refine ⟨_, hparse, fun h => absurd hdigits h, fun _ => ?_, ?_⟩
    · exact Letters.mayYield_alphabet (by simp) (by simp)
    · exact fun w t usable mem read => exists_ofJson_letters usable mem read hparse
  · have hparse := Letters.parse_hyphen ha hb hab hdigits
    refine ⟨_, hparse, fun _ => CharRange.yields_random _, fun h => absurd h hdigits, ?_⟩
    exact fun w t usable mem read => exists_ofJson_letters usable mem read hparse

theorem letters_from_zero_to_a :
    ∃ l, Letters.parse "0-a" = .ok l ∧ Sampling.Yields l.random (fun c => '0' ≤ c ∧ c ≤ 'a') ∧
      ∃ o, Options.ofJson "\x7b\"letters\":\"0-a\"\x7d" = .ok o ∧ o.letters = l := by
  let letters : Member :=
    { key := "letters", text := "\"0-a\"", label := "letters".toList, spells := by decide +kernel }
  let w : Writing := { members := [letters] }
  have htext : w.text = "\x7b\"letters\":\"0-a\"\x7d" := by decide +kernel
  have hread : Json.read "\"0-a\"" = .ok (.str "0-a") := by
    have hwrite : "\"0-a\"" = String.ofList (Json.write (.str "0-a")) := by decide +kernel
    exact hwrite ▸ Json.read_write (.str "0-a") (by decide)
  have husable : Usable w.entries := by
    constructor
    · intro text hmem
      simp [w, Writing.entries, letters] at hmem
    · intro text hmem
      obtain rfl : text = "\"0-a\"" := by simpa [w, Writing.entries, letters] using hmem
      exact ⟨"0-a", hread, by decide⟩
    · intro key text hmem hother
      obtain ⟨rfl, -⟩ : key = "letters" ∧ text = "\"0-a\"" := by
        simpa [w, Writing.entries, letters] using hmem
      exact absurd (.inr rfl) hother
    · intro key _
      exact List.length_filter_le _ _
  obtain ⟨l, hparse, hbetween, -, hdocument⟩ :=
    hyphenated_letters_lie_between (a := '0') (b := 'a') (by decide) (by decide) (by decide)
  have hmem : ("letters", "\"0-a\"") ∈ w.entries := List.mem_singleton_self _
  exact ⟨l, hparse, hbetween (by decide), htext ▸ hdocument w _ husable hmem hread⟩

/-- The letters of two digits with a hyphen between them are not those from the one to the other. -/
theorem letters_from_one_to_nine :
    ∃ l, Letters.parse "1-9" = .ok l ∧
      ∃ e, (l.random.run e).1 = '-' ∧ ¬('1' ≤ (l.random.run e).1 ∧ (l.random.run e).1 ≤ '9') := by
  refine ⟨_, Letters.parse_hyphen_digits (a := '1') (b := '9') (by decide) (by decide) (by decide)
    (by decide), .ofWords #[0x55555556] 0, ?_⟩
  decide +kernel

end GenExpr
