import GenExpr.Proofs.Options.Members

/-!
# Options documents and the calls they stand for

Options can be written as a JSON object or set one after another. A document with its members, and with
blanks wherever JSON allows them, gives the options that are set by its members in their order. A member
inside the document is read as its text is read alone.
-/

namespace GenExpr

open Json

namespace Options

namespace Document

/-- A member as it is written: its key between quotes, in any characters that spell it, a colon and the
text of its value, with the blanks around them. -/
structure Member where
  key : String
  text : String
  label : List Char
  spells : stringRest (label ++ ['"']) = .ok (key, [])
  before : List Char := []
  before_blank : Blank before := by decide
  after : List Char := []
  after_blank : Blank after := by decide

def Member.write (m : Member) : List Char :=
  m.before ++ '"' :: (m.label ++ '"' :: (m.after ++ ':' :: m.text.toList))

/-- Members as they are written, each after a comma, unless it is the first. -/
def writeMembers : Bool → List Member → List Char
  | _, [] => []
  | first, m :: rest => (if first then m.write else ',' :: m.write) ++ writeMembers false rest

/-- An options document as it is written, with the blanks before, in and after its brackets. -/
structure Writing where
  members : List Member
  lead : List Char := []
  lead_blank : Blank lead := by decide
  gap : List Char := []
  gap_blank : Blank gap := by decide
  trail : List Char := []
  trail_blank : Blank trail := by decide

namespace Writing

/-- The keys of a document with the texts of their values. -/
def entries (w : Writing) : List (String × String) := w.members.map fun m => (m.key, m.text)

/-- The members and the closing bracket. -/
def body (w : Writing) : List Char := writeMembers true w.members ++ (w.gap ++ '\x7d' :: w.trail)

def text (w : Writing) : String := String.ofList (w.lead ++ '\x7b' :: w.body)

end Writing

section Run

variable {d : Draft} {m : Member} {t : List Char}

theorem length_le_writeMembers (first : Bool) (ms : List Member) :
    ms.length ≤ (writeMembers first ms).length := by
  induction ms generalizing first with
  | nil => exact Nat.zero_le _
  | cons m ms ih =>
    have hrest := ih false
    rw [writeMembers, List.length_append, List.length_cons]
    split
    next => simp only [Member.write, List.length_append, List.length_cons]; omega
    next => simp only [List.length_cons]; omega

/-- After a value there is a comma or the end of the object. -/
theorem apart_writeMembers {ms : List Member} (ht : Apart t) : Apart (writeMembers false ms ++ t) := by
  cases ms with
  | nil => exact ht
  | cons m ms => exact (follows_cons (.inl rfl) _).apart

theorem skipBlank_write (m : Member) (t : List Char) :
    skipBlank (m.write ++ t) = '"' :: (m.label ++ ['"'] ++ (m.after ++ ':' :: (m.text.toList ++ t))) := by
  have hwrite : m.write ++ t =
      m.before ++ '"' :: (m.label ++ ['"'] ++ (m.after ++ ':' :: (m.text.toList ++ t))) := by
    simp [Member.write]
  rw [hwrite, skipBlank_append_of_blank m.before_blank]
  rfl

/-- One member is read by its reader, and then the others. -/
theorem members_member (n : Nat) (first : Bool) (d : Draft) (m : Member) (t : List Char) :
    members addMember (n + 1) first d ((if first then m.write else ',' :: m.write) ++ t) =
      match addMember d m.key (m.after ++ ':' :: (m.text.toList ++ t)) with
      | .error e => .error e
      | .ok (d, r) => members addMember n false d r := by
  have hthen : memberThen addMember (members addMember n false) d
      ('"' :: (m.label ++ ['"'] ++ (m.after ++ ':' :: (m.text.toList ++ t)))) =
      match addMember d m.key (m.after ++ ':' :: (m.text.toList ++ t)) with
      | .error e => .error e
      | .ok (d, r) => members addMember n false d r := by
    simp only [memberThen, extends_stringRest _ _ _ m.spells, List.nil_append]
    cases addMember d m.key (m.after ++ ':' :: (m.text.toList ++ t)) with
    | error e => rfl
    | ok p => rfl
  rw [members_succ, ← hthen]
  cases first with
  | true => exact separated_first (skipBlank_write m t) (by decide)
  | false => exact separated_comma (skipBlank_write m t) (by decide) (by decide)

/-- Blanks before members do not matter. -/
theorem members_blank {n : Nat} {first : Bool} {bs : List Char} (h : Blank bs) (cs : List Char) :
    members addMember n first d (bs ++ cs) = members addMember n first d cs := by
  cases n with
  | zero => rfl
  | succ n =>
    rw [members_succ]
    exact separated_congr (skipBlank_append_of_blank h cs)

/-- A named member goes over from those to come to those that have been read. -/
theorem given_add_length {d₁ : Draft} {cs r : List Char} (h : addMember d m.key cs = .ok (d₁, r))
    (ms : List Member) {name : String} (hname : Named name) :
    d₁.given name + (ms.filter (·.key = name)).length =
      d.given name + ((m :: ms).filter (·.key = name)).length := by
  rw [given_addMember h hname, List.filter_cons]
  by_cases hkey : m.key = name
  · simp only [hkey, decide_true, if_true, List.length_cons]
    omega
  · simp [hkey]

/-- Members that stand for settings are read as these, one after the other. -/
theorem members_gives {f : String × String → Setting} {ms : List Member} {rest : List Char}
    (hgives : ∀ m ∈ ms, Gives (m.key, m.text) (f (m.key, m.text))) {n : Nat} (hn : ms.length < n)
    (first : Bool) {gap : List Char} (hgap : Blank gap)
    (honce : ∀ name, Named name → d.given name + (ms.filter (·.key = name)).length ≤ 1) :
    ∃ d', members addMember n first d (writeMembers first ms ++ (gap ++ '\x7d' :: rest)) =
        .ok (d', rest) ∧
      d'.options = (ms.map fun m => f (m.key, m.text)).foldl Setting.apply d.options := by
  induction ms generalizing n first d with
  | nil =>
    obtain ⟨n, rfl⟩ := Nat.exists_eq_succ_of_ne_zero (Nat.ne_zero_of_lt hn)
    refine ⟨d, ?_, rfl⟩
    rw [writeMembers, List.nil_append, members_blank hgap]
    rfl
  | cons m ms ih =>
    obtain ⟨n, rfl⟩ := Nat.exists_eq_succ_of_ne_zero (Nat.ne_zero_of_lt hn)
    obtain ⟨hm, hms⟩ := List.forall_mem_cons.1 hgives
    have hapart : Apart (writeMembers false ms ++ (gap ++ '\x7d' :: rest)) :=
      apart_writeMembers (hgap.apart_append (follows_cons (.inr (.inr rfl)) rest).apart)
    have hfirst : Named m.key → d.given m.key = 0 := by
      intro hname
      have hcount := honce m.key hname
      rw [List.filter_cons_of_pos (by simp), List.length_cons] at hcount
      omega
    obtain ⟨d₁, r, hread, hblank, hoptions⟩ := addMember_gives hm m.after_blank hfirst hapart
    have honce₁ : ∀ name, Named name → d₁.given name + (ms.filter (·.key = name)).length ≤ 1 :=
      fun name hname => given_add_length hread ms hname ▸ honce name hname
    obtain ⟨d', hmembers, hfinal⟩ := ih hms (Nat.lt_of_succ_lt_succ hn) false honce₁
    refine ⟨d', ?_, ?_⟩
    · -- The blanks that the value leaves stand before what comes next.
      rw [writeMembers, List.append_assoc, members_member, hread]
      exact (members_blank hblank _).trans hmembers
    · rw [hfinal, hoptions]
      rfl

/-- A named member that comes twice is not read. -/
theorem members_repeated {ms : List Member} (hreadable : ∀ m ∈ ms, Readable m.text) (n : Nat)
    (first : Bool) (ht : Apart t) {name : String} (hname : Named name)
    (hmany : 1 < d.given name + (ms.filter (·.key = name)).length) :
    ∃ e, members addMember n first d (writeMembers first ms ++ t) = .error e := by
  induction ms generalizing n first d with
  | nil =>
    have hgiven := d.given_le_one name
    simp only [List.filter_nil, List.length_nil] at hmany
    omega
  | cons m ms ih =>
    cases n with
    | zero => exact ⟨_, rfl⟩
    | succ n =>
      obtain ⟨hm, hms⟩ := List.forall_mem_cons.1 hreadable
      rw [writeMembers, List.append_assoc, members_member]
      cases hread :
        addMember d m.key (m.after ++ ':' :: (m.text.toList ++ (writeMembers false ms ++ t))) with
      | error e => exact ⟨e, rfl⟩
      | ok p =>
        obtain ⟨d₁, r⟩ := p
        obtain ⟨r₀, rfl, hblank⟩ := addMember_rest hm m.after_blank (apart_writeMembers ht) hread
        rw [← given_add_length hread ms hname] at hmany
        obtain ⟨e, he⟩ := ih hms n false hmany
        exact ⟨e, (members_blank hblank _).trans he⟩

end Run

namespace Writing

variable {w : Writing}

theorem filter_entries (w : Writing) (key : String) :
    w.entries.filter (·.1 = key) = (w.members.filter (·.key = key)).map fun m => (m.key, m.text) :=
  List.filter_map

theorem read_text (w : Writing) :
    Document.read w.text.toList =
      match Json.members addMember (w.body.length + 1) true ⟨standard, false, false⟩ w.body with
      | .error e => .error e
      | .ok (d, r) => .ok (d.options, r) := by
  have hskip : skipBlank w.text.toList = '\x7b' :: w.body := by
    rw [text, String.toList_ofList, skipBlank_append_of_blank w.lead_blank]
    rfl
  rw [Document.read, hskip]
  rfl

/-- A document whose members stand for settings is read as these. -/
theorem ofJson_eq_ok {f : String × String → Setting} (hgives : ∀ e ∈ w.entries, Gives e (f e))
    (honce : ∀ name, Named name → (w.entries.filter (·.1 = name)).length ≤ 1) :
    Options.ofJson w.text = .ok (build (w.entries.map f)) := by
  have hlength : w.members.length < w.body.length + 1 := by
    have hwrite := length_le_writeMembers true w.members
    rw [body, List.length_append]
    omega
  have hstart : ∀ name, Named name →
      (⟨standard, false, false⟩ : Draft).given name + (w.members.filter (·.key = name)).length ≤ 1 := by
    intro name hname
    have hcount := honce name hname
    rw [filter_entries, List.length_map] at hcount
    simpa [Draft.given] using hcount
  obtain ⟨d, hmembers, hoptions⟩ :
      ∃ d, Json.members addMember (w.body.length + 1) true ⟨standard, false, false⟩ w.body =
          .ok (d, w.trail) ∧
        d.options = (w.members.map fun m => f (m.key, m.text)).foldl Setting.apply standard :=
    members_gives (List.forall_mem_map.1 hgives) hlength true w.gap_blank hstart
  have hread : readAll Document.read w.text = .ok d.options := by
    refine readAll_eq_ok_iff.2 ⟨w.trail, ?_, w.trail_blank⟩
    rw [read_text, hmembers]
  rw [Options.ofJson, hread, hoptions, entries, List.map_map]
  rfl

/-- A document in which a named member comes twice is not read. -/
theorem ofJson_eq_error (hreadable : ∀ e ∈ w.entries, Readable e.2) {name : String}
    (hname : Named name) (hmany : 1 < (w.entries.filter (·.1 = name)).length) :
    ∃ fault, Options.ofJson w.text = .error (.json fault) := by
  have hend : Apart (w.gap ++ '\x7d' :: w.trail) :=
    w.gap_blank.apart_append (follows_cons (.inr (.inr rfl)) w.trail).apart
  have hmembers : ∀ m ∈ w.members, Readable m.text := fun m hm =>
    hreadable (m.key, m.text) (List.mem_map_of_mem hm)
  rw [filter_entries, List.length_map] at hmany
  obtain ⟨e, he⟩ :
      ∃ e, Json.members addMember (w.body.length + 1) true ⟨standard, false, false⟩ w.body = .error e :=
    members_repeated hmembers _ true hend hname (Nat.lt_of_lt_of_le hmany (Nat.le_add_left _ _))
  have hread : Document.read w.text.toList = .error e := by
    rw [read_text, he]
  exact ⟨e.fault w.text.toList, by simp only [Options.ofJson, readAll, hread]⟩

end Writing

end Document

open Document

/-- An options document gives what is set by its members one after another: of a key that is not named
the last member counts, members with different keys can change places, and the named members are not
among the custom options. A named member that comes twice is an error. -/
theorem document_means_settings (w : Writing) :
    (Usable w.entries →
      (∃ f : String × String → Setting, ∀ e ∈ w.entries, Gives e (f e)) ∧
      ∀ f : String × String → Setting, (∀ e ∈ w.entries, Gives e (f e)) →
        Options.ofJson w.text = .ok (build (w.entries.map f)) ∧
        (∀ key v, (build (w.entries.map f)).get? key = some v ↔
          ¬Named key ∧ ∃ text, Entries.Last key text w.entries ∧ Json.read text = .ok v) ∧
        (∀ key, Named key → (build (w.entries.map f)).get? key = none) ∧
        ∀ w' : Writing, (∀ key, w'.entries.filter (·.1 = key) = w.entries.filter (·.1 = key)) →
          Options.ofJson w'.text = .ok (build (w.entries.map f))) ∧
    ((∀ e ∈ w.entries, Readable e.2) → ∀ key, Named key → 1 < (w.entries.filter (·.1 = key)).length →
      ∃ e, Options.ofJson w.text = .error e ∧ e.category = .parse) := by
  constructor
  · intro husable
    refine ⟨husable.exists_gives, ?_⟩
    intro f hgives
    have hget : ∀ key v, (build (w.entries.map f)).get? key = some v ↔
        ¬Named key ∧ ∃ text, Entries.Last key text w.entries ∧ Json.read text = .ok v :=
      fun key v => get?_build hgives
    refine ⟨Writing.ofJson_eq_ok hgives husable.once, hget, ?_, ?_⟩
    · intro key hname
      rw [Option.eq_none_iff_forall_ne_some]
      intro v hv
      exact ((hget key v).1 hv).1 hname
    · intro w' hsame
      have hgives' : ∀ e ∈ w'.entries, Gives e (f e) := by
        intro e he
        have hmem : e ∈ w'.entries.filter (·.1 = e.1) := List.mem_filter.2 ⟨he, by simp⟩
        rw [hsame] at hmem
        exact hgives e (List.mem_filter.1 hmem).1
      rw [← build_congr hgives hgives' hsame]
      refine Writing.ofJson_eq_ok hgives' fun key hname => ?_
      rw [hsame]
      exact husable.once key hname
  · intro hreadable key hname hmany
    obtain ⟨fault, hfault⟩ := Writing.ofJson_eq_error hreadable hname hmany
    exact ⟨.json fault, hfault, rfl⟩

theorem settings_in_any_order :
    ∃ o, Options.ofJson
        "\x7b \"iter\\u0061tions\" : 5 ,\"n\":[1],\"letters\":\"D-F\",\"n\":null\x7d\n" = .ok o ∧
      Options.ofJson
        "\x7b\"n\":[1],\"n\":null,\"letters\":\"D-F\",\"iterations\": 5 \x7d" = .ok o ∧
      o.iterations = 5 ∧ o.get? "n" = some .null ∧ o.get? "iterations" = none ∧
      ∃ e, Options.ofJson "\x7b\"letters\":7,\"letters\":\"D-F\"\x7d" = .error e ∧
        e.category = .parse := by
  let five : Member :=
    { key := "iterations", text := " 5 ", label := "iterations".toList, spells := by decide +kernel }
  let escapedFive : Member :=
    { key := "iterations", text := " 5 ", before := [' '], after := [' '],
      label := "iter\\u0061tions".toList, spells := by decide +kernel }
  let list : Member := { key := "n", text := "[1]", label := ['n'], spells := by decide +kernel }
  let null : Member := { list with text := "null" }
  let letters : Member :=
    { key := "letters", text := "\"D-F\"", label := "letters".toList, spells := by decide +kernel }
  let w : Writing := { members := [escapedFive, list, letters, null], trail := ['\n'] }
  let moved : Writing := { members := [list, null, letters, five] }
  let twice : Writing := { members := [{ letters with text := "7" }, letters] }
  have htext : w.text =
      "\x7b \"iter\\u0061tions\" : 5 ,\"n\":[1],\"letters\":\"D-F\",\"n\":null\x7d\n" := by
    decide +kernel
  have hmoved : moved.text =
      "\x7b\"n\":[1],\"n\":null,\"letters\":\"D-F\",\"iterations\": 5 \x7d" := by
    decide +kernel
  have htwice : twice.text = "\x7b\"letters\":7,\"letters\":\"D-F\"\x7d" := by
    decide +kernel
  have hfive : WritesNatural 5 " 5 " := ⟨by decide, [' '], [' '], by decide, by decide, by decide +kernel⟩
  have hletters : Json.read "\"D-F\"" = .ok (.str "D-F") := by
    have hwrite : "\"D-F\"" = String.ofList (Json.write (.str "D-F")) := by decide +kernel
    exact hwrite ▸ Json.read_write (.str "D-F") (by decide)
  have hlist : Json.read "[1]" = .ok (.array [.int 1]) := by
    have hwrite : "[1]" = String.ofList (Json.write (.array [.int 1])) := by decide +kernel
    exact hwrite ▸ Json.read_write (.array (by simp [Value.Exact.int])) (by decide)
  have hnull : Json.read "null" = .ok .null := by
    have hwrite : "null" = String.ofList (Json.write .null) := by decide +kernel
    exact hwrite ▸ Json.read_write .null (by decide)
  have hreadable : Readable "[1]" ∧ Readable "null" ∧ Readable "7" ∧ Readable "\"D-F\"" := by
    decide +kernel
  obtain ⟨hreadList, hreadNull, hreadNumber, hreadLetters⟩ := hreadable
  have husable : Usable w.entries := by
    constructor
    · intro text hmem
      obtain rfl : text = " 5 " := by simpa [w, Writing.entries, escapedFive, list, letters, null] using hmem
      exact ⟨5, hfive⟩
    · intro text hmem
      obtain rfl : text = "\"D-F\"" := by simpa [w, Writing.entries, escapedFive, list, letters, null] using hmem
      exact ⟨"D-F", hletters, by decide⟩
    · intro key text hmem hother
      simp only [Named, not_or] at hother
      have hkey : key = "n" ∧ text = "[1]" ∨ key = "n" ∧ text = "null" := by
        simpa [w, Writing.entries, escapedFive, list, letters, null, hother] using hmem
      rcases hkey with ⟨-, rfl⟩ | ⟨-, rfl⟩
      · exact hreadList
      · exact hreadNull
    · rintro key (rfl | rfl)
      · decide
      · decide
  have htwiceReadable : ∀ e ∈ twice.entries, Readable e.2 :=
    List.forall_mem_cons.2 ⟨hreadNumber, List.forall_mem_singleton.2 hreadLetters⟩
  obtain ⟨l, hl⟩ := exists_letters_parse (s := "D-F") (by decide)
  let f : String × String → Setting := fun e =>
    if e.1 = "iterations" then .iterations 5
    else if e.1 = "letters" then .letters l
    else .custom "n" (if e.2 = "[1]" then .array [.int 1] else .null)
  have hgives : ∀ e ∈ w.entries, Gives e (f e) := by
    have hother : ¬Named "n" := by decide
    refine List.forall_mem_cons.2 ⟨.iterations hfive, ?_⟩
    refine List.forall_mem_cons.2 ⟨.custom hother hreadList hlist, ?_⟩
    exact List.forall_mem_cons.2 ⟨.letters hletters hl,
      List.forall_mem_singleton.2 (.custom hother hreadNull hnull)⟩
  obtain ⟨hread, hget, hnamed, hany⟩ := ((document_means_settings w).1 husable).2 f hgives
  obtain ⟨e, herror, hparse⟩ :=
    (document_means_settings twice).2 htwiceReadable "letters" (.inr rfl) (by decide)
  refine ⟨build (w.entries.map f), htext ▸ hread, hmoved ▸ hany moved ?_, ?_, ?_, hnamed _ (.inl rfl),
    e, htwice ▸ herror, hparse⟩
  · intro key
    by_cases hn : "n" = key
    · subst hn
      rfl
    by_cases hi : "iterations" = key
    · subst hi
      rfl
    · simp [w, moved, Writing.entries, escapedFive, five, list, letters, null, List.filter_cons, hn, hi]
  · rfl
  · rfl

end Options

end GenExpr
