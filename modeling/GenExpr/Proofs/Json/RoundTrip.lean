import GenExpr.Proofs.Json.Integer
import GenExpr.Proofs.Json.Quoted
import GenExpr.Value.Text

/-!
# Values that JSON keeps

A value without floats is read back from its JSON text, as long as it nests no more brackets than the
reader allows. Floats are not treated here: their JSON text can read as another number.
-/

namespace GenExpr

namespace Value

/-- There are no floats in a value, its integers have 64 bits, and its maps list their members in
order. -/
inductive Exact : Value → Prop
  | null : Exact .null
  | bool (b : Bool) : Exact (.bool b)
  | int {i : Int} (lower : -0x8000000000000000 ≤ i) (upper : i ≤ 0x7fffffffffffffff) : Exact (.int i)
  | str (s : String) : Exact (.str s)
  | array {items : List Value} (items_exact : ∀ v ∈ items, Exact v) : Exact (.array items)
  | map {members : List (String × Value)} (ascending : Entries.Ascending members)
      (members_exact : ∀ e ∈ members, Exact e.2) : Exact (.map members)

mutual

/-- How many arrays and maps of a value lie inside each other. -/
def nesting : Value → Nat
  | array items => nestingOfItems items + 1
  | map members => nestingOfMembers members + 1
  | _ => 0

def nestingOfItems : List Value → Nat
  | [] => 0
  | v :: rest => max (nesting v) (nestingOfItems rest)

def nestingOfMembers : List (String × Value) → Nat
  | [] => 0
  | (_, v) :: rest => max (nesting v) (nestingOfMembers rest)

end

theorem nesting_le_of_mem_items {items : List Value} {v : Value} (h : v ∈ items) :
    v.nesting ≤ nestingOfItems items := by
  induction items with
  | nil => cases h
  | cons w rest ih =>
    rw [nestingOfItems]
    rcases List.mem_cons.1 h with rfl | h
    · exact Nat.le_max_left _ _
    · exact Nat.le_trans (ih h) (Nat.le_max_right _ _)

theorem nesting_le_of_mem_members {members : List (String × Value)} {e : String × Value}
    (h : e ∈ members) : e.2.nesting ≤ nestingOfMembers members := by
  induction members with
  | nil => cases h
  | cons e' rest ih =>
    obtain ⟨k, w⟩ := e'
    rw [nestingOfMembers]
    rcases List.mem_cons.1 h with rfl | h
    · exact Nat.le_max_left _ _
    · exact Nat.le_trans (ih h) (Nat.le_max_right _ _)

end Value

namespace Json

/-- A text begins with a character that is not blank and closes no list. -/
def Opens (cs : List Char) : Prop := ∃ c r, cs = c :: r ∧ isBlank c = false ∧ c ≠ ']'

theorem Opens.append {cs : List Char} (h : Opens cs) (rest : List Char) : Opens (cs ++ rest) := by
  obtain ⟨c, r, rfl, hc⟩ := h
  exact ⟨c, r ++ rest, rfl, hc⟩

theorem skipBlank_cons {c : Char} (h : isBlank c = false) (r : List Char) :
    skipBlank (c :: r) = c :: r := by
  rw [skipBlank, List.dropWhile_cons_of_neg]
  simp [h]

section Writing

/-- A member as it is written. -/
def writeMember (e : String × Value) : List Char := writeString e.1 ++ ':' :: write e.2

theorem writeItems_cons (v : Value) (rest : List Value) :
    writeItems (v :: rest) = write v ++ rest.flatMap fun w => ',' :: write w := by
  induction rest generalizing v with
  | nil => rw [writeItems, List.flatMap_nil, List.append_nil]
  | cons w rest ih =>
    rw [writeItems, ih w, List.flatMap_cons]
    · rfl
    · exact List.cons_ne_nil w rest

theorem writeMembers_cons (e : String × Value) (rest : List (String × Value)) :
    writeMembers (e :: rest) = writeMember e ++ rest.flatMap fun e => ',' :: writeMember e := by
  induction rest generalizing e with
  | nil => rw [writeMembers, List.flatMap_nil, List.append_nil, writeMember]
  | cons f rest ih =>
    rw [writeMembers, ih f, List.flatMap_cons]
    · simp [writeMember]
    · exact List.cons_ne_nil f rest

theorem opens_of_digit {c : Char} (h : c = '-' ∨ c.isDigit = true) : isBlank c = false ∧ c ≠ ']' := by
  rcases h with rfl | h
  · decide
  · constructor
    · rw [Bool.eq_false_iff]
      intro hblank
      simp only [isBlank, Bool.or_eq_true, decide_eq_true_eq] at hblank
      rcases hblank with ((rfl | rfl) | rfl) | rfl <;> cases h
    · rintro rfl
      cases h

theorem opens_write {v : Value} (h : v.Exact) : Opens (write v) := by
  cases h with
  | null => exact ⟨_, _, rfl, rfl, by decide⟩
  | bool b => cases b <;> exact ⟨_, _, rfl, rfl, by decide⟩
  | @int i _ _ =>
    obtain ⟨c, r, hcr, hc⟩ := exists_ofInt_cons i
    exact ⟨c, r, hcr, opens_of_digit hc⟩
  | str s => exact ⟨_, _, rfl, rfl, by decide⟩
  | array _ => exact ⟨_, _, rfl, rfl, by decide⟩
  | map _ _ => exact ⟨_, _, rfl, rfl, by decide⟩

end Writing

/-- A reader takes a written value off the front of a text. -/
def ReadsBack (reader : Reader Value) (v : Value) : Prop :=
  ∀ rest, Follows rest → reader (write v ++ rest) = .ok (v, rest)

section Separated

variable {α : Type} (xs : List α) (f : α → List Char)

theorem follows_separated {c : Char} (hc : c = ']' ∨ c = '\x7d') (rest : List Char) :
    Follows (xs.flatMap (fun x => ',' :: f x) ++ c :: rest) := by
  cases xs with
  | nil => exact follows_cons (.inr hc) rest
  | cons x xs => exact follows_cons (.inl rfl) _

theorem length_le_separated : xs.length ≤ (xs.flatMap fun x => ',' :: f x).length := by
  induction xs with
  | nil => exact Nat.zero_le _
  | cons x xs ih =>
    rw [List.flatMap_cons, List.length_append, List.length_cons, List.length_cons]
    omega

end Separated

section Items

variable {reader : Reader Value} {n : Nat}

/-- One item more is read, at the front of a list or after a comma. -/
theorem items_step {α : Type} {reader : Reader α} {a : α} {as : List α} {text rest rest' : List Char}
    (hopens : Opens text) (hitem : reader text = .ok (a, rest))
    (hitems : items reader n false rest = .ok (as, rest')) :
    items reader (n + 1) true text = .ok (a :: as, rest') ∧
      items reader (n + 1) false (',' :: text) = .ok (a :: as, rest') := by
  obtain ⟨c, r, rfl, hblank, hclose⟩ := hopens
  have hcomma : skipBlank (',' :: c :: r) = ',' :: c :: r := rfl
  constructor
  · rw [items]
    simp only [skipBlank_cons hblank, if_neg hclose, hitem, hitems]
    rfl
  · rw [items]
    simp only [hcomma, skipBlank_cons hblank, if_neg hclose, hitem, hitems]
    rfl

theorem items_rest {vs : List Value} (hexact : ∀ v ∈ vs, v.Exact)
    (hreads : ∀ v ∈ vs, ReadsBack reader v) (hn : vs.length < n) (rest : List Char) :
    items reader n false (vs.flatMap (fun v => ',' :: write v) ++ ']' :: rest) = .ok (vs, rest) := by
  induction vs generalizing n with
  | nil =>
    obtain ⟨n, rfl⟩ := Nat.exists_eq_succ_of_ne_zero (Nat.ne_zero_of_lt hn)
    rfl
  | cons v vs ih =>
    obtain ⟨n, rfl⟩ := Nat.exists_eq_succ_of_ne_zero (Nat.ne_zero_of_lt hn)
    obtain ⟨hv, hvs⟩ := List.forall_mem_cons.1 hexact
    obtain ⟨hread, hreads⟩ := List.forall_mem_cons.1 hreads
    have hitem := hread _ (follows_separated vs write (.inl rfl) rest)
    have hitems := ih hvs hreads (Nat.lt_of_succ_lt_succ hn)
    rw [List.flatMap_cons, List.append_assoc]
    exact (items_step ((opens_write hv).append _) hitem hitems).2

/-- A written list is read item by item. -/
theorem items_written {vs : List Value} (hexact : ∀ v ∈ vs, v.Exact)
    (hreads : ∀ v ∈ vs, ReadsBack reader v) (rest : List Char) :
    items reader ((writeItems vs ++ ']' :: rest).length + 1) true (writeItems vs ++ ']' :: rest) =
      .ok (vs, rest) := by
  cases vs with
  | nil => rfl
  | cons v vs =>
    obtain ⟨hv, hvs⟩ := List.forall_mem_cons.1 hexact
    obtain ⟨hread, hreads⟩ := List.forall_mem_cons.1 hreads
    have hitem := hread _ (follows_separated vs write (.inl rfl) rest)
    rw [writeItems_cons, List.append_assoc]
    refine (items_step ((opens_write hv).append _) hitem (items_rest hvs hreads ?_ rest)).1
    have hlength := length_le_separated vs write
    simp only [List.length_append, List.length_cons]
    omega

end Items

section Members

variable {reader : Reader Value} {n : Nat}

/-- One member more is read, at the front of an object or after a comma. -/
theorem members_step {σ : Type} {member : σ → String → Reader σ} {s s' s'' : σ} {key : String}
    {text r rest rest' : List Char} (hkey : stringRest text = .ok (key, r))
    (hmember : member s key r = .ok (s', rest))
    (hmembers : members member n false s' rest = .ok (s'', rest')) :
    members member (n + 1) true s ('"' :: text) = .ok (s'', rest') ∧
      members member (n + 1) false s (',' :: '"' :: text) = .ok (s'', rest') := by
  have hquote : skipBlank ('"' :: text) = '"' :: text := rfl
  have hcomma : skipBlank (',' :: '"' :: text) = ',' :: '"' :: text := rfl
  constructor
  · rw [members]
    simp only [hquote, hkey, hmember, hmembers]
    rfl
  · rw [members]
    simp only [hcomma, hquote, hkey, hmember, hmembers]
    rfl

theorem writeMember_append (e : String × Value) (rest : List Char) :
    writeMember e ++ rest = '"' :: (e.1.toList.flatMap escape ++ '"' :: ':' :: (write e.2 ++ rest)) := by
  simp [writeMember, writeString]

theorem entry_written {e : String × Value} (hread : ReadsBack reader e.2)
    (entries : List (String × Value)) {rest : List Char} (hrest : Follows rest) :
    entry reader entries e.1 (':' :: (write e.2 ++ rest)) =
      .ok (Entries.insert e.1 e.2 entries, rest) := by
  have hcolon : colon (':' :: (write e.2 ++ rest)) = .ok (write e.2 ++ rest) := rfl
  simp only [entry, hcolon, hread rest hrest]

/-- Members are read into those before them, whose keys are less. -/
theorem members_rest {ms entries : List (String × Value)}
    (hascending : Entries.Ascending (entries ++ ms)) (hreads : ∀ e ∈ ms, ReadsBack reader e.2)
    (hn : ms.length < n) (rest : List Char) :
    members (entry reader) n false entries
      (ms.flatMap (fun e => ',' :: writeMember e) ++ '\x7d' :: rest) = .ok (entries ++ ms, rest) := by
  induction ms generalizing entries n with
  | nil =>
    obtain ⟨n, rfl⟩ := Nat.exists_eq_succ_of_ne_zero (Nat.ne_zero_of_lt hn)
    rw [List.append_nil]
    rfl
  | cons e ms ih =>
    obtain ⟨n, rfl⟩ := Nat.exists_eq_succ_of_ne_zero (Nat.ne_zero_of_lt hn)
    obtain ⟨hread, hreads⟩ := List.forall_mem_cons.1 hreads
    have hmember := entry_written hread entries (follows_separated ms writeMember (.inr rfl) rest)
    have hlast : ∀ f ∈ entries, f.1 < e.1 :=
      fun f hf => (List.pairwise_append.1 hascending).2.2 f hf e List.mem_cons_self
    rw [Entries.insert_of_forall_lt e.2 hlast] at hmember
    have hcons : entries ++ e :: ms = entries ++ [e] ++ ms := List.append_cons entries e ms
    rw [hcons] at hascending ⊢
    have hmembers := ih hascending hreads (Nat.lt_of_succ_lt_succ hn)
    rw [List.flatMap_cons, List.append_assoc, List.cons_append, writeMember_append]
    exact (members_step (stringRest_escaped e.1 _) hmember hmembers).2

/-- A written object is read member by member. -/
theorem members_written {ms : List (String × Value)} (hascending : Entries.Ascending ms)
    (hreads : ∀ e ∈ ms, ReadsBack reader e.2) (rest : List Char) :
    members (entry reader) ((writeMembers ms ++ '\x7d' :: rest).length + 1) true []
      (writeMembers ms ++ '\x7d' :: rest) = .ok (ms, rest) := by
  cases ms with
  | nil => rfl
  | cons e ms =>
    obtain ⟨hread, hreads⟩ := List.forall_mem_cons.1 hreads
    have hmember := entry_written hread [] (follows_separated ms writeMember (.inr rfl) rest)
    have hn : ms.length < (writeMembers (e :: ms) ++ '\x7d' :: rest).length := by
      have hlength := length_le_separated ms writeMember
      simp only [writeMembers_cons, List.length_append, List.length_cons]
      omega
    have hascending : Entries.Ascending ([(e.1, e.2)] ++ ms) := hascending
    have hmembers := members_rest hascending hreads hn rest
    rw [writeMembers_cons, List.append_assoc, writeMember_append] at hmembers ⊢
    exact (members_step (stringRest_escaped e.1 _) hmember hmembers).1

end Members

section Values

theorem valueWith_number {c : Char} (h : c = '-' ∨ c.isDigit = true) (bracket : Char → Reader Value)
    (r : List Char) : valueWith bracket (c :: r) = numberValue (c :: r) := by
  have hword : c ≠ 'n' ∧ c ≠ 't' ∧ c ≠ 'f' := by
    refine ⟨?_, ?_, ?_⟩ <;> rintro rfl <;> simp at h
  obtain ⟨hn, ht, hf⟩ := hword
  simp only [valueWith, skipBlank_cons (opens_of_digit h).1, if_neg hn, if_neg ht, if_neg hf, if_pos h]

theorem valueWith_quote (bracket : Char → Reader Value) (cs : List Char) :
    valueWith bracket ('"' :: cs) = match stringRest cs with
      | .error e => .error e
      | .ok (s, r) => .ok (.str s, r) := rfl

theorem valueWith_string (bracket : Char → Reader Value) (s : String) (rest : List Char) :
    valueWith bracket (writeString s ++ rest) = .ok (.str s, rest) := by
  have hquote : writeString s ++ rest = '"' :: (s.toList.flatMap escape ++ '"' :: rest) := by
    simp [writeString]
  rw [hquote, valueWith_quote, stringRest_escaped]

/-- What a value without brackets is read as does not depend on how brackets are read. -/
theorem readsBack_valueWith {v : Value} (h : v.Exact) (hflat : v.nesting = 0)
    (bracket : Char → Reader Value) : ReadsBack (valueWith bracket) v := by
  intro rest hrest
  cases h with
  | null => rfl
  | bool b => cases b <;> rfl
  | @int i lower upper =>
    have hread := numberValue_ofInt lower upper hrest.apart
    obtain ⟨c, r, hcr, hc⟩ := exists_ofInt_cons i
    rw [write, hcr, List.cons_append, valueWith_number hc]
    rwa [hcr, List.cons_append] at hread
  | str s => exact valueWith_string bracket s rest
  | array _ => cases hflat
  | map _ _ => cases hflat

theorem readsBack_value {v : Value} (h : v.Exact) {depth : Nat} (hdepth : v.nesting ≤ depth) :
    ReadsBack (value depth) v := by
  have hatom : ∀ {v : Value}, v.Exact → v.nesting = 0 → ∀ depth, ReadsBack (value depth) v := by
    intro v hv hflat depth
    cases depth with
    | zero => exact readsBack_valueWith hv hflat _
    | succ depth => exact readsBack_valueWith hv hflat _
  induction h generalizing depth with
  | null => exact hatom .null rfl depth
  | bool b => exact hatom (.bool b) rfl depth
  | int lower upper => exact hatom (.int lower upper) rfl depth
  | str s => exact hatom (.str s) rfl depth
  | @array vs hexact ih =>
    rw [Value.nesting] at hdepth
    obtain ⟨depth, rfl⟩ := Nat.exists_eq_succ_of_ne_zero (Nat.ne_zero_of_lt hdepth)
    intro rest _
    have hreads : ∀ v ∈ vs, ReadsBack (value depth) v := fun v hv =>
      ih v hv (Nat.le_trans (Value.nesting_le_of_mem_items hv) (Nat.le_of_succ_le_succ hdepth))
    have hlist : ∀ r, value (depth + 1) ('[' :: r) = bracketed (value depth) '[' r := fun _ => rfl
    have hwrite : write (.array vs) ++ rest = '[' :: (writeItems vs ++ ']' :: rest) := by
      simp [write]
    rw [hwrite, hlist, bracketed, if_pos rfl, items_written hexact hreads]
  | @map ms hascending hexact ih =>
    rw [Value.nesting] at hdepth
    obtain ⟨depth, rfl⟩ := Nat.exists_eq_succ_of_ne_zero (Nat.ne_zero_of_lt hdepth)
    intro rest _
    have hreads : ∀ e ∈ ms, ReadsBack (value depth) e.2 := fun e he =>
      ih e he (Nat.le_trans (Value.nesting_le_of_mem_members he) (Nat.le_of_succ_le_succ hdepth))
    have hobject : ∀ r, value (depth + 1) ('\x7b' :: r) = bracketed (value depth) '\x7b' r := fun _ => rfl
    have hopen : '\x7b' ≠ '[' := by decide
    have hwrite : write (.map ms) ++ rest = '\x7b' :: (writeMembers ms ++ '\x7d' :: rest) := by
      simp [write]
    rw [hwrite, hobject, bracketed, if_neg hopen, members_written hascending hreads]

theorem read_write {v : Value} (h : v.Exact) (hdepth : v.nesting ≤ maxDepth) :
    read (String.ofList (write v)) = .ok v := by
  have hread : value maxDepth (write v) = .ok (v, []) := by
    have hwhole := readsBack_value h hdepth [] follows_nil
    rwa [List.append_nil] at hwhole
  simp only [read, readAll, String.toList_ofList, hread]
  rfl

end Values

end Json

namespace Value

/-- A value without floats that nests at most 127 arrays and maps is read back from its JSON text. So a
map is read back from its text, which is its JSON text. -/
theorem json_reads_back {v : Value} (exact : v.Exact) (shallow : v.nesting ≤ 127) :
    Json.read v.json = .ok v ∧
    ∀ members, v = .map members → v.text = v.json ∧ Json.read v.text = .ok v := by
  have hread : Json.read v.json = .ok v := Json.read_write exact shallow
  refine ⟨hread, ?_⟩
  rintro members rfl
  have htext : (map members).text = (map members).json := by rw [text, json]
  exact ⟨htext, htext ▸ hread⟩

theorem Exact.repeat_array {v : Value} (h : v.Exact) (n : Nat) :
    (Nat.repeat (fun w => .array [w]) n v).Exact := by
  induction n with
  | zero => exact h
  | succ n ih => exact .array (List.forall_mem_singleton.2 ih)

theorem extremes_read_back :
    let members : List (String × Value) := [("", .int (-0x8000000000000000)),
      ("\"\\", .map [("\x00", .str "\"\\\x08\x0c\n\r\t\x1f\x7f/é𝄞"), ("b", .bool false)]),
      ("é", .array [.int 0x7fffffffffffffff, .null, .map [], .int 0])]
    let deep := Nat.repeat (fun v => Value.array [v]) 124 (.map members)
    deep.nesting = 127 ∧ Json.read deep.json = .ok deep ∧
      Json.read (map members).text = .ok (.map members) := by
  intro members deep
  have hinner : (map [("\x00", .str "\"\\\x08\x0c\n\r\t\x1f\x7f/é𝄞"), ("b", .bool false)]).Exact := by
    refine .map ?_ ?_
    · rw [Entries.Ascending]
      decide +kernel
    · simp [Exact.str, Exact.bool]
  have hlist : (array [.int 0x7fffffffffffffff, .null, .map [], .int 0]).Exact := by
    have hempty : (map []).Exact := .map .nil (List.forall_mem_nil _)
    refine .array ?_
    simp [Exact.int, Exact.null, hempty]
  have hmembers : (map members).Exact := by
    refine .map ?_ ?_
    · rw [Entries.Ascending]
      decide +kernel
    · simp [members, Exact.int, hinner, hlist]
  have hdeep : deep.nesting = 127 := by decide +kernel
  have hshallow : (map members).nesting ≤ 127 := by decide +kernel
  refine ⟨hdeep, ?_, ?_⟩
  · exact (json_reads_back (hmembers.repeat_array 124) (Nat.le_of_eq hdeep)).1
  · exact ((json_reads_back hmembers hshallow).2 members rfl).2

end Value

end GenExpr
