import GenExpr.Entries

/-!
# Entries and what is found in them

Setting many keys one after another keeps the last value of each. Entries with ascending keys are known
by what is found under every key.
-/

namespace GenExpr.Entries

variable {α : Type} {key : String} {a : α} {pairs entries entries' : List (String × α)}

/-- The last of several pairs with a key has a value. -/
def Last (key : String) (a : α) (pairs : List (String × α)) : Prop :=
  ∃ before after, pairs = before ++ (key, a) :: after ∧ ∀ p ∈ after, p.1 ≠ key

/-- The entries with the keys of several pairs set one after another. -/
def insertAll (pairs entries : List (String × α)) : List (String × α) :=
  pairs.foldl (fun es p => insert p.1 p.2 es) entries

theorem find?_eq_none_iff : find? key entries = none ↔ ∀ e ∈ entries, e.1 ≠ key := by
  induction entries with
  | nil => simp [find?]
  | cons e rest ih =>
    obtain ⟨k, b⟩ := e
    rw [find?, List.forall_mem_cons]
    by_cases hk : key = k
    · simp [hk]
    · rw [if_neg hk, ih]
      simp [Ne.symm hk]

theorem mem_keys_iff : key ∈ keys entries ↔ ∃ a, find? key entries = some a := by
  rw [← Option.ne_none_iff_exists', ne_eq, find?_eq_none_iff, keys, List.mem_map]
  simp

theorem keys_ascending (h : Ascending entries) : (keys entries).Pairwise (· < ·) :=
  List.pairwise_map.2 h

theorem last_cons {p : String × α} :
    Last key a (p :: pairs) ↔ Last key a pairs ∨ (∀ q ∈ pairs, q.1 ≠ key) ∧ p = (key, a) := by
  constructor
  · rintro ⟨before, after, heq, hafter⟩
    cases before with
    | nil =>
      obtain ⟨rfl, rfl⟩ := List.cons.inj heq
      exact .inr ⟨hafter, rfl⟩
    | cons q before =>
      obtain ⟨rfl, rfl⟩ := List.cons.inj heq
      exact .inl ⟨before, after, rfl, hafter⟩
  · rintro (⟨before, after, rfl, hafter⟩ | ⟨hafter, rfl⟩)
    · exact ⟨p :: before, after, rfl, hafter⟩
    · exact ⟨[], pairs, rfl, hafter⟩

theorem not_last_nil : ¬Last key a [] := by
  rintro ⟨before, after, heq, -⟩
  simp at heq

/-- Only the pairs with a key matter for the last of them. -/
theorem last_filter : Last key a (pairs.filter (·.1 = key)) ↔ Last key a pairs := by
  induction pairs with
  | nil => rfl
  | cons p pairs ih =>
    by_cases h : p.1 = key
    · rw [List.filter_cons_of_pos (by simpa using h), last_cons, last_cons, ih]
      simp
    · have hne : p ≠ (key, a) := fun heq => h (congrArg Prod.fst heq)
      rw [List.filter_cons_of_neg (by simpa using h), last_cons, ih]
      simp [hne]

theorem ascending_insertAll (h : Ascending entries) : Ascending (insertAll pairs entries) := by
  induction pairs generalizing entries with
  | nil => exact h
  | cons p pairs ih => exact ih (ascending_insert p.1 p.2 h)

/-- The last value that a key is set to is found, and what was there if it is not set. -/
theorem find?_insertAll : find? key (insertAll pairs entries) = some a ↔
    Last key a pairs ∨ (∀ p ∈ pairs, p.1 ≠ key) ∧ find? key entries = some a := by
  induction pairs generalizing entries with
  | nil => simp [insertAll, not_last_nil]
  | cons p pairs ih =>
    obtain ⟨k, b⟩ := p
    have hstep : insertAll ((k, b) :: pairs) entries = insertAll pairs (insert k b entries) := rfl
    rw [hstep, ih, find?_insert, last_cons, List.forall_mem_cons]
    by_cases hk : key = k
    · subst hk
      simp
    · rw [if_neg hk]
      have hne : (k, b) ≠ (key, a) := fun heq => hk (congrArg Prod.fst heq).symm
      simp [hne, Ne.symm hk]

theorem find?_of_forall_lt (h : ∀ e ∈ entries, key < e.1) : find? key entries = none :=
  find?_eq_none_iff.2 fun e he heq => String.lt_irrefl key (heq ▸ h e he)

theorem le_of_mem_keys {k : String} {b : α} (h : Ascending ((k, b) :: entries))
    (hmem : key ∈ keys ((k, b) :: entries)) : k ≤ key := by
  obtain ⟨hlt, -⟩ := List.pairwise_cons.1 h
  obtain ⟨e, he, rfl⟩ := List.mem_map.1 hmem
  rcases List.mem_cons.1 he with rfl | he
  · exact String.le_refl _
  · exact String.not_lt.1 fun hgt => String.lt_irrefl k (String.lt_trans (hlt e he) hgt)

/-- Entries with ascending keys under which the same is found are the same. -/
theorem eq_of_find?_eq (h : Ascending entries) (h' : Ascending entries')
    (hfind : ∀ key, find? key entries = find? key entries') : entries = entries' := by
  induction entries generalizing entries' with
  | nil =>
    cases entries' with
    | nil => rfl
    | cons e rest =>
      obtain ⟨k, b⟩ := e
      have hk := hfind k
      simp [find?] at hk
  | cons e rest ih =>
    obtain ⟨k, b⟩ := e
    cases entries' with
    | nil =>
      have hk := hfind k
      simp [find?] at hk
    | cons e' rest' =>
      obtain ⟨k', b'⟩ := e'
      have hfound : find? k ((k, b) :: rest) = some b := if_pos rfl
      have hfound' : find? k' ((k', b') :: rest') = some b' := if_pos rfl
      -- Each head is found on the other side, so neither key is less than the other.
      have hle : k' ≤ k := le_of_mem_keys h' (mem_keys_iff.2 ⟨b, hfind k ▸ hfound⟩)
      have hge : k ≤ k' := le_of_mem_keys h (mem_keys_iff.2 ⟨b', (hfind k').symm ▸ hfound'⟩)
      obtain rfl := String.le_antisymm hge hle
      obtain rfl : b = b' := Option.some.inj (hfound.symm.trans ((hfind k).trans hfound'))
      obtain ⟨hlt, hrest⟩ := List.pairwise_cons.1 h
      obtain ⟨hlt', hrest'⟩ := List.pairwise_cons.1 h'
      rw [ih hrest hrest' fun key => ?_]
      by_cases hkey : key = k
      · rw [hkey, find?_of_forall_lt hlt, find?_of_forall_lt hlt']
      · have hstep := hfind key
        rwa [find?, find?, if_neg hkey, if_neg hkey] at hstep

end GenExpr.Entries
