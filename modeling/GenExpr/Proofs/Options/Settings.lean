import GenExpr.Options.Basic
import GenExpr.Proofs.Entries
import GenExpr.Proofs.Json.Extends
import Mathlib.Tactic.Choose

/-!
# Options that are set one after another

What the members of an options document stand for, by their keys and the texts of their values: settings
of the options. The settings of different keys can change places, and of a custom option the last one
counts.
-/

namespace GenExpr

open Json

namespace Options

/-- What a call sets. -/
inductive Setting where
  | iterations (n : Nat)
  | letters (l : Letters)
  | custom (key : String) (v : Value)

namespace Setting

def apply (o : Options) : Setting → Options
  | iterations n => { o with iterations := n }
  | letters l => { o with letters := l }
  | custom key v => o.set key v

def iterations? : Setting → Option Nat
  | iterations n => some n
  | _ => none

def letters? : Setting → Option Letters
  | letters l => some l
  | _ => none

def custom? : Setting → Option (String × Value)
  | custom key v => some (key, v)
  | _ => none

end Setting

/-- The options after one call after another. -/
def build (settings : List Setting) : Options := settings.foldl Setting.apply standard

theorem foldl_apply (settings : List Setting) (o : Options) :
    settings.foldl Setting.apply o = ⟨(settings.filterMap Setting.iterations?).getLastD o.iterations,
      (settings.filterMap Setting.letters?).getLastD o.letters,
      Entries.insertAll (settings.filterMap Setting.custom?) o.custom⟩ := by
  induction settings generalizing o with
  | nil => rfl
  | cons s settings ih =>
    rw [List.foldl_cons, ih]
    cases s with
    | iterations n =>
      simp only [List.filterMap_cons, Setting.iterations?, Setting.letters?, Setting.custom?,
        List.getLastD_cons, Setting.apply]
    | letters l =>
      simp only [List.filterMap_cons, Setting.iterations?, Setting.letters?, Setting.custom?,
        List.getLastD_cons, Setting.apply]
    | custom key v =>
      simp only [List.filterMap_cons, Setting.iterations?, Setting.letters?, Setting.custom?,
        Setting.apply, set]
      rfl

theorem custom_build (settings : List Setting) :
    (build settings).custom = Entries.insertAll (settings.filterMap Setting.custom?) [] := by
  rw [build, foldl_apply]
  rfl

namespace Document

/-- The names of the members that may occur once and have types of their own. -/
def Named (key : String) : Prop := key = "iterations" ∨ key = "letters"

instance (key : String) : Decidable (Named key) :=
  inferInstanceAs (Decidable (key = "iterations" ∨ key = "letters"))

/-- A text that is a natural number of 64 bits in decimal digits. -/
def WritesNatural (n : Nat) (text : String) : Prop :=
  n ≤ 0xffffffffffffffff ∧ ∃ before after, Blank before ∧ Blank after ∧
    text = String.ofList (before ++ Nat.toDigits 10 n ++ after)

/-- A text that is read as a value and leaves a bracket, of those that may be open, to the object that it
stands in. -/
def Readable (text : String) : Prop := ∃ v, readAll (value (maxDepth - 1)) text = .ok v

theorem readable_iff {text : String} :
    Readable text ↔ (readAll (value (maxDepth - 1)) text).isOk = true := by
  rw [Readable]
  cases readAll (value (maxDepth - 1)) text with
  | error e => simp [Except.isOk, Except.toBool]
  | ok v => simp [Except.isOk, Except.toBool]

instance (text : String) : Decidable (Readable text) := decidable_of_iff _ readable_iff.symm

/-- The setting that a member stands for, by its key and the text of its value. -/
inductive Gives : String × String → Setting → Prop
  | iterations {text : String} {n : Nat} (writes : WritesNatural n text) :
    Gives ("iterations", text) (.iterations n)
  | letters {text s : String} {l : Letters} (read : Json.read text = .ok (.str s))
    (parsed : Letters.parse s = .ok l) : Gives ("letters", text) (.letters l)
  | custom {key text : String} {v : Value} (other : ¬Named key) (readable : Readable text)
    (read : Json.read text = .ok v) : Gives (key, text) (.custom key v)

/-- Members by their keys and texts: a natural number and letters, which are not empty, once each, and
values under other keys. -/
structure Usable (entries : List (String × String)) : Prop where
  iterations : ∀ text, ("iterations", text) ∈ entries → ∃ n, WritesNatural n text
  letters : ∀ text, ("letters", text) ∈ entries → ∃ s, Json.read text = .ok (.str s) ∧ s ≠ ""
  custom : ∀ key text, (key, text) ∈ entries → ¬Named key → Readable text
  once : ∀ key, Named key → (entries.filter (·.1 = key)).length ≤ 1

/-- A text that is read with less depth is read alone, and nothing but blanks is left of it. -/
theorem Readable.exists_read {text : String} (h : Readable text) :
    ∃ v r, Json.read text = .ok v ∧ value (maxDepth - 1) text.toList = .ok (v, r) ∧ Blank r := by
  obtain ⟨v, hread⟩ := h
  obtain ⟨r, hvalue, hblank⟩ := readAll_eq_ok_iff.1 hread
  have hdeep := extends_value follows_nil.apart (Nat.sub_le maxDepth 1) _ _ _ hvalue
  rw [List.append_nil, List.append_nil] at hdeep
  exact ⟨v, r, readAll_eq_ok_iff.2 ⟨r, hdeep, hblank⟩, hvalue, hblank⟩

theorem exists_letters_parse {s : String} (h : s ≠ "") : ∃ l, Letters.parse s = .ok l := by
  rw [Letters.parse]
  split
  next r _ => exact ⟨.range r, rfl⟩
  next =>
    have hchars : s.toList ≠ [] := fun hnil => h (String.toList_eq_nil_iff.1 hnil)
    rw [Alphabet.ofChars?, dif_pos hchars]
    exact ⟨_, rfl⟩

/-- Each member of a usable document stands for a setting. -/
theorem Usable.exists_gives {entries : List (String × String)} (h : Usable entries) :
    ∃ f : String × String → Setting, ∀ e ∈ entries, Gives e (f e) := by
  have hgives : ∀ e : String × String, ∃ s, e ∈ entries → Gives e s := by
    rintro ⟨key, text⟩
    by_cases hmem : (key, text) ∈ entries
    · by_cases hother : Named key
      · rcases hother with rfl | rfl
        · obtain ⟨n, hwrites⟩ := h.iterations text hmem
          exact ⟨.iterations n, fun _ => .iterations hwrites⟩
        · obtain ⟨s, hread, hne⟩ := h.letters text hmem
          obtain ⟨l, hparsed⟩ := exists_letters_parse hne
          exact ⟨.letters l, fun _ => .letters hread hparsed⟩
      · have hreadable := h.custom key text hmem hother
        obtain ⟨v, -, hread, -⟩ := hreadable.exists_read
        exact ⟨.custom key v, fun _ => .custom hother hreadable hread⟩
    · exact ⟨.iterations 0, fun he => absurd he hmem⟩
  choose f hf using hgives
  exact ⟨f, hf⟩

section Meaning

variable {f : String × String → Setting} {entries entries' : List (String × String)}

theorem Gives.custom?_of_named {e : String × String} {s : Setting} (h : Gives e s) (hname : Named e.1) :
    s.custom? = none := by
  cases h with
  | iterations _ => rfl
  | letters _ _ => rfl
  | custom other _ _ => exact absurd hname other

theorem Gives.custom?_of_other {e : String × String} {s : Setting} (h : Gives e s)
    (hother : ¬Named e.1) : ∃ v, s.custom? = some (e.1, v) ∧ Json.read e.2 = .ok v := by
  cases h with
  | iterations _ => exact absurd (.inl rfl) hother
  | letters _ _ => exact absurd (.inr rfl) hother
  | custom _ _ read => exact ⟨_, rfl, read⟩

/-- A key that is not named is kept if it is among the members. -/
theorem forall_custom_ne_iff (hgives : ∀ e ∈ entries, Gives e (f e)) {key : String}
    (hother : ¬Named key) :
    (∀ p ∈ (entries.map f).filterMap Setting.custom?, p.1 ≠ key) ↔ ∀ e ∈ entries, e.1 ≠ key := by
  simp only [List.mem_filterMap, List.mem_map]
  constructor
  · rintro h e he rfl
    obtain ⟨v, hcustom, -⟩ := (hgives e he).custom?_of_other hother
    exact h (e.1, v) ⟨f e, ⟨e, he, rfl⟩, hcustom⟩ rfl
  · rintro h p ⟨s, ⟨e, he, rfl⟩, hp⟩ rfl
    by_cases hname : Named e.1
    · rw [(hgives e he).custom?_of_named hname] at hp
      cases hp
    · obtain ⟨v, hcustom, -⟩ := (hgives e he).custom?_of_other hname
      obtain rfl := Option.some.inj (hcustom.symm.trans hp)
      exact h e he rfl

/-- Of several members with a key that is not named the last counts. -/
theorem last_custom_iff (hgives : ∀ e ∈ entries, Gives e (f e)) {key : String} {v : Value} :
    Entries.Last key v ((entries.map f).filterMap Setting.custom?) ↔
      ¬Named key ∧ ∃ text, Entries.Last key text entries ∧ Json.read text = .ok v := by
  induction entries with
  | nil => simp [Entries.not_last_nil]
  | cons e entries ih =>
    obtain ⟨he, hentries⟩ := List.forall_mem_cons.1 hgives
    rw [List.map_cons]
    simp only [Entries.last_cons]
    by_cases hname : Named e.1
    · rw [List.filterMap_cons_none (he.custom?_of_named hname), ih hentries]
      refine and_congr_right fun hother => exists_congr fun text => and_congr_left fun _ => ?_
      refine ⟨.inl, ?_⟩
      rintro (hlast | ⟨-, rfl⟩)
      · exact hlast
      · exact absurd hname hother
    · obtain ⟨w, hcustom, hread⟩ := he.custom?_of_other hname
      rw [List.filterMap_cons_some hcustom, Entries.last_cons, ih hentries]
      constructor
      · rintro (⟨hother, text, hlast, htext⟩ | ⟨hnone, heq⟩)
        · exact ⟨hother, text, .inl hlast, htext⟩
        · obtain ⟨rfl, rfl⟩ := Prod.mk.inj heq
          exact ⟨hname, e.2, .inr ⟨(forall_custom_ne_iff hentries hname).1 hnone, rfl⟩, hread⟩
      · rintro ⟨hother, text, hlast | ⟨hnone, rfl⟩, htext⟩
        · exact .inl ⟨hother, text, hlast, htext⟩
        · obtain rfl := Except.ok.inj (hread.symm.trans htext)
          exact .inr ⟨(forall_custom_ne_iff hentries hother).2 hnone, rfl⟩

theorem get?_build (hgives : ∀ e ∈ entries, Gives e (f e)) {key : String} {v : Value} :
    (build (entries.map f)).get? key = some v ↔
      ¬Named key ∧ ∃ text, Entries.Last key text entries ∧ Json.read text = .ok v := by
  rw [build, foldl_apply, get?, Entries.find?_insertAll, ← last_custom_iff hgives]
  simp [standard, Entries.find?]

theorem Gives.iterations?_of_ne {e : String × String} {s : Setting} (h : Gives e s)
    (hkey : e.1 ≠ "iterations") : s.iterations? = none := by
  cases h with
  | iterations _ => exact absurd rfl hkey
  | letters _ _ => rfl
  | custom _ _ _ => rfl

theorem Gives.letters?_of_ne {e : String × String} {s : Setting} (h : Gives e s)
    (hkey : e.1 ≠ "letters") : s.letters? = none := by
  cases h with
  | iterations _ => rfl
  | letters _ _ => exact absurd rfl hkey
  | custom _ _ _ => rfl

/-- Of what is set, only the members with a key matter that can set it. -/
theorem filterMap_filter {β : Type} {g : Setting → Option β} {key : String}
    (hkey : ∀ e ∈ entries, e.1 ≠ key → g (f e) = none) :
    ((entries.filter (·.1 = key)).map f).filterMap g = (entries.map f).filterMap g := by
  induction entries with
  | nil => rfl
  | cons e entries ih =>
    obtain ⟨he, hentries⟩ := List.forall_mem_cons.1 hkey
    rw [List.map_cons, List.filterMap_cons, ← ih hentries]
    by_cases h : e.1 = key
    · rw [List.filter_cons_of_pos (by simpa using h), List.map_cons, List.filterMap_cons]
    · rw [List.filter_cons_of_neg (by simpa using h), he h]

/-- Members with different keys can change places. -/
theorem build_congr (hgives : ∀ e ∈ entries, Gives e (f e)) (hgives' : ∀ e ∈ entries', Gives e (f e))
    (h : ∀ key, entries'.filter (·.1 = key) = entries.filter (·.1 = key)) :
    build (entries'.map f) = build (entries.map f) := by
  -- Each field depends on the members with its own keys only, which stand in the same order.
  have hiterations : (entries'.map f).filterMap Setting.iterations? =
      (entries.map f).filterMap Setting.iterations? := by
    rw [← filterMap_filter fun e he => (hgives' e he).iterations?_of_ne, h,
      filterMap_filter fun e he => (hgives e he).iterations?_of_ne]
  have hletters : (entries'.map f).filterMap Setting.letters? =
      (entries.map f).filterMap Setting.letters? := by
    rw [← filterMap_filter fun e he => (hgives' e he).letters?_of_ne, h,
      filterMap_filter fun e he => (hgives e he).letters?_of_ne]
  have hcustom : (build (entries'.map f)).custom = (build (entries.map f)).custom := by
    have hfind : ∀ key, (build (entries'.map f)).get? key = (build (entries.map f)).get? key := by
      intro key
      apply Option.ext
      intro v
      rw [get?_build hgives', get?_build hgives]
      refine and_congr_right fun _ => exists_congr fun text => and_congr_left fun _ => ?_
      rw [← Entries.last_filter, h, Entries.last_filter]
    have hascending : ∀ settings, Entries.Ascending (build settings).custom := by
      intro settings
      rw [custom_build]
      exact Entries.ascending_insertAll .nil
    exact Entries.eq_of_find?_eq (hascending _) (hascending _) hfind
  rw [custom_build, custom_build] at hcustom
  rw [build, build, foldl_apply, foldl_apply, hiterations, hletters]
  exact congrArg (Options.mk _ _) hcustom

end Meaning

end Document

end Options

end GenExpr
