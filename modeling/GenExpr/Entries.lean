/-!
# Entries in order

Lists of pairs with ascending keys. The order of keys is that of their characters, which is the order of
their bytes in UTF-8. Values use them for their maps, options for custom options and the registry for
its kinds.
-/

namespace GenExpr.Entries

variable {α : Type}

def Ascending (entries : List (String × α)) : Prop := entries.Pairwise fun a b => a.1 < b.1

/-- The entries with a key set to a value, in the place of an older value or at the key's place. -/
def insert (key : String) (a : α) : List (String × α) → List (String × α)
  | [] => [(key, a)]
  | (k, b) :: rest =>
    if key = k then (key, a) :: rest
    else if key < k then (key, a) :: (k, b) :: rest
    else (k, b) :: insert key a rest

def find? (key : String) : List (String × α) → Option α
  | [] => none
  | (k, a) :: rest => if key = k then some a else find? key rest

def keys (entries : List (String × α)) : List String := entries.map Prod.fst

/-- The entries of a list of pairs; of a repeated key the last pair counts. -/
def ofList (pairs : List (String × α)) : List (String × α) :=
  pairs.foldl (fun entries p => insert p.1 p.2 entries) []

theorem mem_keys_insert {key k : String} {a : α} {entries : List (String × α)} :
    k ∈ keys (insert key a entries) ↔ k = key ∨ k ∈ keys entries := by
  induction entries with
  | nil => simp [insert, keys]
  | cons e rest ih =>
    obtain ⟨l, b⟩ := e
    simp only [keys] at ih ⊢
    unfold insert
    split
    · rename_i h
      simp [h]
    · split
      · simp
      · simp only [List.map_cons, List.mem_cons, ih]
        constructor <;> rintro (h | h | h) <;> simp [h]

theorem ascending_insert (key : String) (a : α) {entries : List (String × α)}
    (h : Ascending entries) : Ascending (insert key a entries) := by
  induction entries with
  | nil => simp [insert, Ascending]
  | cons e rest ih =>
    obtain ⟨l, b⟩ := e
    obtain ⟨hl, hrest⟩ := List.pairwise_cons.1 h
    unfold insert
    split
    · rename_i hk
      subst hk
      exact List.pairwise_cons.2 ⟨hl, hrest⟩
    · rename_i hne
      split
      · rename_i hlt
        refine List.pairwise_cons.2 ⟨?_, h⟩
        intro e he
        rcases List.mem_cons.1 he with rfl | he
        · exact hlt
        · exact String.lt_trans hlt (hl e he)
      · rename_i hnlt
        refine List.pairwise_cons.2 ⟨?_, ih hrest⟩
        intro e he
        have hmem : e.1 ∈ keys (insert key a rest) := List.mem_map_of_mem he
        rcases mem_keys_insert.1 hmem with hk | hk
        · rw [hk]
          apply Decidable.byContradiction
          intro hle
          exact hne (String.le_antisymm (String.not_lt.1 hle) (String.not_lt.1 hnlt))
        · obtain ⟨f, hf, hfe⟩ := List.mem_map.1 hk
          exact hfe ▸ hl f hf

/-- A key beyond all others is put at the end. -/
theorem insert_of_forall_lt {key : String} (a : α) {entries : List (String × α)}
    (h : ∀ e ∈ entries, e.1 < key) : insert key a entries = entries ++ [(key, a)] := by
  induction entries with
  | nil => rfl
  | cons e rest ih =>
    obtain ⟨k, b⟩ := e
    obtain ⟨hlt, hrest⟩ := List.forall_mem_cons.1 h
    have hne : key ≠ k := fun heq => String.lt_irrefl k (heq ▸ hlt)
    have hnlt : ¬key < k := fun hgt => String.lt_irrefl k (String.lt_trans hlt hgt)
    rw [insert, if_neg hne, if_neg hnlt, ih hrest, List.cons_append]

theorem ascending_ofList (pairs : List (String × α)) : Ascending (ofList pairs) := by
  have step : ∀ (ps : List (String × α)) (entries : List (String × α)), Ascending entries →
      Ascending (ps.foldl (fun es p => insert p.1 p.2 es) entries) := by
    intro ps
    induction ps with
    | nil => exact fun _ h => h
    | cons p ps ih => exact fun entries h => ih _ (ascending_insert p.1 p.2 h)
  exact step pairs [] List.Pairwise.nil

theorem find?_insert (key k : String) (a : α) (entries : List (String × α)) :
    find? k (insert key a entries) = if k = key then some a else find? k entries := by
  induction entries with
  | nil => simp [insert, find?]
  | cons e rest ih =>
    obtain ⟨l, b⟩ := e
    by_cases h : key = l
    · subst h
      by_cases hk : k = key <;> simp [insert, find?, hk]
    · by_cases hl : key < l
      · by_cases hk : k = key <;> simp [insert, find?, h, hl, hk]
      · by_cases hk : k = key
        · subst hk
          simp [insert, find?, h, hl, ih]
        · simp [insert, find?, h, hl, hk, ih]

end GenExpr.Entries
