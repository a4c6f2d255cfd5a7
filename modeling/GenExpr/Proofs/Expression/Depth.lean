import GenExpr.Expression.Grammar

/-!
# Reading by depth

A second account of the general form that knows no grammar: a counter of open parentheses goes over the
text once. The text is cut at the colons at depth zero, and the outermost parentheses are dropped.

That the grammar reads texts in the same way is shown in `GenExpr.Proofs.Expression.General`.
-/

namespace GenExpr.Expression

/-- Opening parentheses minus closing ones. -/
def depth (cs : List Char) : Int := (cs.count '(' : Int) - cs.count ')'

/-- From left to right the depth never drops below zero, and it ends at zero. -/
structure Balanced (cs : List Char) : Prop where
  never_below : ∀ p, p <+: cs → 0 ≤ depth p
  ends_at_zero : depth cs = 0

def nextDepth (d : Nat) (c : Char) : Nat :=
  if c = '(' then d + 1 else if c = ')' then d - 1 else d

def prepend (cs : List Char) : List (List Char) → List (List Char)
  | [] => [cs]
  | p :: ps => (cs ++ p) :: ps

/-- The pieces of a text that is read from a depth on: cut at the colons at depth zero, without the
parentheses that lead from depth zero to one and from one to zero. -/
def pieces : Nat → List Char → List (List Char)
  | _, [] => [[]]
  | d, c :: r =>
    if c = ':' ∧ d = 0 then [] :: pieces d r
    else if c = '(' ∧ d = 0 ∨ c = ')' ∧ d = 1 then pieces (nextDepth d c) r
    else prepend [c] (pieces (nextDepth d c) r)

theorem prepend_prepend (as bs : List Char) (ps : List (List Char)) :
    prepend as (prepend bs ps) = prepend (as ++ bs) ps := by
  cases ps <;> simp [prepend]

theorem prepend_nil {ps : List (List Char)} (h : ps ≠ []) : prepend [] ps = ps := by
  cases ps with
  | nil => exact absurd rfl h
  | cons p ps => rfl

theorem pieces_ne_nil (d : Nat) (cs : List Char) : pieces d cs ≠ [] := by
  induction cs generalizing d with
  | nil => simp [pieces]
  | cons c r ih =>
    simp only [pieces]
    split
    · simp
    · split
      · exact ih _
      · cases pieces (nextDepth d c) r <;> simp [prepend]

/-- The depth after a text that is read from a depth on, or nothing if it would drop below zero. -/
def depthAfter : Nat → List Char → Option Nat
  | d, [] => some d
  | d, c :: r => if c = ')' ∧ d = 0 then none else depthAfter (nextDepth d c) r

section Step

variable {c : Char}

theorem depthAfter_bare (hopen : c ≠ '(') (hclose : c ≠ ')') (d : Nat) (r : List Char) :
    depthAfter d (c :: r) = depthAfter d r := by
  simp [depthAfter, nextDepth, hopen, hclose]

theorem depthAfter_open (d : Nat) (r : List Char) :
    depthAfter d ('(' :: r) = depthAfter (d + 1) r := rfl

theorem depthAfter_close (d : Nat) (r : List Char) :
    depthAfter (d + 1) (')' :: r) = depthAfter d r := rfl

theorem pieces_bare (hcolon : c ≠ ':') (hopen : c ≠ '(') (r : List Char) :
    pieces 0 (c :: r) = prepend [c] (pieces 0 r) := by
  simp [pieces, nextDepth, hcolon, hopen]

theorem pieces_open (r : List Char) : pieces 0 ('(' :: r) = pieces 1 r := rfl

theorem pieces_close (r : List Char) : pieces 1 (')' :: r) = pieces 0 r := rfl

end Step

theorem depth_cons (c : Char) (cs : List Char) : depth (c :: cs) = depth [c] + depth cs := by
  simp only [depth, List.count_cons, List.count_nil]
  omega

theorem nextDepth_eq {d : Nat} {c : Char} (h : ¬(c = ')' ∧ d = 0)) :
    (nextDepth d c : Int) = d + depth [c] := by
  unfold nextDepth
  split
  · rename_i hc
    subst hc
    rfl
  · split
    · rename_i hc
      subst hc
      have : d ≠ 0 := fun hd => h ⟨rfl, hd⟩
      have : depth [')'] = -1 := rfl
      omega
    · rename_i ho hc
      have : depth [c] = 0 := by simp [depth, ho, hc]
      omega

theorem depthAfter_eq_some_iff {d e : Nat} {cs : List Char} :
    depthAfter d cs = some e ↔
      (∀ p, p <+: cs → 0 ≤ (d : Int) + depth p) ∧ (e : Int) = d + depth cs := by
  induction cs generalizing d with
  | nil =>
    simp only [depthAfter, Option.some.injEq, List.prefix_nil, forall_eq]
    simp only [depth, List.count_nil]
    omega
  | cons c r ih =>
    simp only [depthAfter]
    split
    · rename_i h
      obtain ⟨rfl, rfl⟩ := h
      constructor
      · intro h
        simp at h
      · intro hx
        obtain ⟨h, _⟩ := hx
        have := h [')'] (List.prefix_append [')'] r)
        simp [depth] at this
    · rename_i h
      rw [ih, nextDepth_eq h, depth_cons c r]
      constructor
      · intro hx
        obtain ⟨hp, he⟩ := hx
        refine ⟨?_, by omega⟩
        intro p hpre
        rcases List.prefix_cons_iff.1 hpre with rfl | ⟨q, rfl, hq⟩
        · simp [depth]
        · have := hp q hq
          rw [depth_cons]
          omega
      · intro hx
        obtain ⟨hp, he⟩ := hx
        refine ⟨?_, by omega⟩
        intro q hq
        have := hp (c :: q) ((List.prefix_cons_inj c).2 hq)
        rw [depth_cons] at this
        omega

theorem balanced_iff {cs : List Char} : Balanced cs ↔ depthAfter 0 cs = some 0 := by
  rw [depthAfter_eq_some_iff]
  constructor
  · intro h
    refine ⟨fun p hp => ?_, ?_⟩
    · have := h.never_below p hp
      omega
    · have := h.ends_at_zero
      omega
  · intro hx
    obtain ⟨hp, he⟩ := hx
    refine ⟨fun p h => ?_, by omega⟩
    have := hp p h
    omega

theorem depthAfter_append (d : Nat) (as bs : List Char) :
    depthAfter d (as ++ bs) = (depthAfter d as).bind fun e => depthAfter e bs := by
  induction as generalizing d with
  | nil => rfl
  | cons a as ih =>
    simp only [List.cons_append, depthAfter]
    split
    · rfl
    · exact ih _

theorem depthAfter_add {d e : Nat} {cs : List Char} (h : depthAfter d cs = some e) (k : Nat) :
    depthAfter (d + k) cs = some (e + k) := by
  rw [depthAfter_eq_some_iff] at h ⊢
  refine ⟨fun p hp => ?_, by omega⟩
  have := h.1 p hp
  omega

theorem Balanced.nil : Balanced [] := balanced_iff.2 rfl

theorem Balanced.append {as bs : List Char} (ha : Balanced as) (hb : Balanced bs) :
    Balanced (as ++ bs) := by
  rw [balanced_iff] at *
  rw [depthAfter_append, ha]
  exact hb

theorem Balanced.depthAfter {cs : List Char} (h : Balanced cs) (d : Nat) :
    depthAfter d cs = some d := by
  have := depthAfter_add (balanced_iff.1 h) d
  rwa [Nat.zero_add] at this

theorem Balanced.group {cs : List Char} (h : Balanced cs) : Balanced ('(' :: (cs ++ [')'])) := by
  rw [balanced_iff]
  change Expression.depthAfter 1 (cs ++ [')']) = some 0
  rw [depthAfter_append, h.depthAfter 1]
  rfl

theorem Balanced.singleton {c : Char} (ho : c ≠ '(') (hc : c ≠ ')') : Balanced [c] := by
  rw [balanced_iff, depthAfter_bare ho hc]
  rfl

/-- Where the depth comes down by one for the first time, a parenthesis closes balanced text. -/
theorem exists_closing {d e : Nat} {cs : List Char} (h : depthAfter (d + 1) cs = some e)
    (hle : e ≤ d) :
    ∃ inner rest, cs = inner ++ ')' :: rest ∧ Balanced inner ∧ depthAfter d rest = some e := by
  induction hn : cs.length using Nat.strongRecOn generalizing d cs with
  | ind n ih =>
    cases cs with
    | nil =>
      obtain rfl : d + 1 = e := by simpa [depthAfter] using h
      omega
    | cons c r =>
      simp only [List.length_cons] at hn
      by_cases hclose : c = ')'
      · subst hclose
        exact ⟨[], r, rfl, .nil, by rwa [depthAfter_close] at h⟩
      by_cases hopen : c = '('
      · subst hopen
        have hr : depthAfter (d + 1 + 1) r = some e := by rwa [depthAfter_open] at h
        obtain ⟨first, r₁, rfl, hfirst, hr₁⟩ := ih r.length (by omega) hr (by omega) rfl
        simp only [List.length_append, List.length_cons] at hn
        obtain ⟨more, rest, rfl, hmore, hrest⟩ := ih r₁.length (by omega) hr₁ hle rfl
        exact ⟨'(' :: (first ++ [')']) ++ more, rest, by simp, hfirst.group.append hmore, hrest⟩
      · have hr : depthAfter (d + 1) r = some e := by rwa [depthAfter_bare hopen hclose] at h
        obtain ⟨inner, rest, rfl, hinner, hrest⟩ := ih r.length (by omega) hr hle rfl
        exact ⟨[c] ++ inner, rest, rfl, (Balanced.singleton hopen hclose).append hinner, hrest⟩

theorem Balanced.of_plain {cs : List Char} (h : ∀ c ∈ cs, c ≠ '(' ∧ c ≠ ')') : Balanced cs := by
  induction cs with
  | nil => exact .nil
  | cons c r ih =>
    obtain ⟨ho, hc⟩ := h c List.mem_cons_self
    exact (Balanced.singleton ho hc).append (ih fun d hd => h d (List.mem_cons_of_mem c hd))

theorem balanced_append_iff {as : List Char} (h : Balanced as) {bs : List Char} :
    Balanced (as ++ bs) ↔ Balanced bs := by
  rw [balanced_iff, balanced_iff, depthAfter_append, balanced_iff.1 h]
  exact Iff.rfl

/-- Balanced text that is not empty begins with a group or with a character that is no parenthesis. -/
theorem Balanced.uncons {c : Char} {r : List Char} (h : Balanced (c :: r)) :
    (∃ inner rest, c = '(' ∧ r = inner ++ ')' :: rest ∧ Balanced inner ∧ Balanced rest) ∨
    (c ≠ '(' ∧ c ≠ ')' ∧ Balanced r) := by
  have hdepth : Expression.depthAfter 0 (c :: r) = some 0 := balanced_iff.1 h
  by_cases hclose : c = ')'
  · simp [hclose, Expression.depthAfter] at hdepth
  by_cases hopen : c = '('
  · subst hopen
    have hr : Expression.depthAfter 1 r = some 0 := by rwa [depthAfter_open] at hdepth
    obtain ⟨inner, rest, rfl, hinner, hrest⟩ := exists_closing hr (Nat.le_refl 0)
    exact .inl ⟨inner, rest, rfl, rfl, hinner, balanced_iff.2 hrest⟩
  · rw [depthAfter_bare hopen hclose] at hdepth
    exact .inr ⟨hopen, hclose, balanced_iff.2 hdepth⟩

theorem pieces_inside {d e : Nat} {inner : List Char} (h : depthAfter d inner = some e)
    (rest : List Char) :
    pieces (d + 1) (inner ++ rest) = prepend inner (pieces (e + 1) rest) := by
  induction inner generalizing d with
  | nil =>
    obtain rfl : d = e := by simpa [depthAfter] using h
    rw [prepend_nil (pieces_ne_nil _ _)]
    rfl
  | cons c r ih =>
    simp only [depthAfter] at h
    split at h
    · simp at h
    · rename_i hstay
      have hnext : nextDepth (d + 1) c = nextDepth d c + 1 := by
        unfold nextDepth
        split
        · rfl
        · split
          · rename_i hc
            have : d ≠ 0 := fun hd => hstay ⟨hc, hd⟩
            omega
          · rfl
      have hkeep : ¬(c = '(' ∧ d + 1 = 0 ∨ c = ')' ∧ d + 1 = 1) := by
        rintro (⟨_, hd⟩ | ⟨hc, hd⟩)
        · omega
        · exact hstay ⟨hc, by omega⟩
      simp only [List.cons_append, pieces]
      rw [if_neg (by omega), if_neg hkeep, hnext, ih h, prepend_prepend]
      rfl

/-- A group gives its contents to the piece it stands in. -/
theorem pieces_group {inner : List Char} (h : Balanced inner) (rest : List Char) :
    pieces 0 ('(' :: (inner ++ ')' :: rest)) = prepend inner (pieces 0 rest) := by
  rw [pieces_open, pieces_inside (balanced_iff.1 h), pieces_close]

theorem depthAfter_group {inner : List Char} (h : Balanced inner) (d : Nat) (rest : List Char) :
    depthAfter d ('(' :: (inner ++ ')' :: rest)) = depthAfter d rest := by
  rw [depthAfter_open, depthAfter_append, h.depthAfter]
  exact depthAfter_close d rest

theorem balanced_of_mem_prepend {as : List Char} (has : Balanced as) {ps : List (List Char)}
    (h : ∀ p ∈ ps, Balanced p) : ∀ p ∈ prepend as ps, Balanced p := by
  intro p hp
  cases ps with
  | nil =>
    obtain rfl : p = as := List.mem_singleton.1 hp
    exact has
  | cons q qs =>
    rcases List.mem_cons.1 hp with rfl | hp
    · exact has.append (h q List.mem_cons_self)
    · exact h p (List.mem_cons_of_mem q hp)

/-- The pieces of balanced text are balanced. -/
theorem balanced_of_mem_pieces {cs : List Char} (h : Balanced cs) : ∀ p ∈ pieces 0 cs, Balanced p := by
  induction hn : cs.length using Nat.strongRecOn generalizing cs with
  | ind n ih =>
    cases cs with
    | nil =>
      intro p hp
      obtain rfl : p = [] := List.mem_singleton.1 hp
      exact .nil
    | cons c r =>
      simp only [List.length_cons] at hn
      rcases h.uncons with ⟨inner, rest, rfl, rfl, hinner, hrest⟩ | ⟨hopen, hclose, hr⟩
      · simp only [List.length_append, List.length_cons] at hn
        rw [pieces_group hinner]
        exact balanced_of_mem_prepend hinner (ih rest.length (by omega) hrest rfl)
      · have hpieces := ih r.length (by omega) hr rfl
        by_cases hcolon : c = ':'
        · subst hcolon
          intro p hp
          rcases List.mem_cons.1 hp with rfl | hp
          · exact .nil
          · exact hpieces p hp
        · rw [pieces_bare hcolon hopen]
          exact balanced_of_mem_prepend (.singleton hopen hclose) hpieces

/-- Balanced text in parentheses is one piece. -/
theorem pieces_parenthesised {inner : List Char} (h : Balanced inner) :
    pieces 0 ('(' :: (inner ++ [')'])) = [inner] := by
  rw [pieces_group h]
  simp [pieces, prepend]

/-- Parentheses around a text keep it together exactly if it is balanced. -/
theorem mem_pieces_parenthesised_iff {inner : List Char} (h : Balanced ('(' :: (inner ++ [')']))) :
    inner ∈ pieces 0 ('(' :: (inner ++ [')'])) ↔ Balanced inner := by
  constructor
  · exact balanced_of_mem_pieces h inner
  · intro hinner
    rw [pieces_parenthesised hinner]
    exact List.mem_singleton_self inner

end GenExpr.Expression
