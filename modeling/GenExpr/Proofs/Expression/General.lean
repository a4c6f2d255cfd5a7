import GenExpr.Proofs.Expression.Depth

/-!
# The general form by depth

The grammar of the general form accepts exactly the balanced texts whose first piece is not empty, and
reads them as their pieces. The shorthands are not read here, and nothing is said of where a misfit is
noticed.
-/

namespace GenExpr.Expression

theorem afterGroup_of_balanced {n : Nat} {inner rest : List Char} (h : Balanced inner)
    (hn : inner.length < n) : afterGroup n (inner ++ ')' :: rest) = some rest := by
  induction n generalizing inner rest with
  | zero => omega
  | succ n ih =>
    cases inner with
    | nil => rfl
    | cons c r =>
      simp only [List.length_cons] at hn
      rcases h.uncons with ⟨first, more, rfl, rfl, hfirst, hmore⟩ | ⟨hopen, hclose, hr⟩
      · rw [List.length_append, List.length_cons] at hn
        have hgroup : afterGroup n (first ++ ')' :: (more ++ ')' :: rest)) =
            some (more ++ ')' :: rest) := ih hfirst (by omega)
        have hmore : afterGroup n (more ++ ')' :: rest) = some rest := ih hmore (by omega)
        simp [afterGroup, hgroup, hmore]
      · simp [afterGroup, hopen, hclose, ih hr (by omega)]

theorem balanced_of_afterGroup {n : Nat} {cs rest : List Char} (h : afterGroup n cs = some rest) :
    ∃ inner, cs = inner ++ ')' :: rest ∧ Balanced inner := by
  induction n generalizing cs rest with
  | zero => simp [afterGroup] at h
  | succ n ih =>
    cases cs with
    | nil => simp [afterGroup] at h
    | cons c r =>
      simp only [afterGroup] at h
      split at h
      · rename_i hc
        obtain rfl : r = rest := by simpa using h
        exact ⟨[], by simp [hc], .nil⟩
      · rename_i hclose
        split at h
        · rename_i hopen
          subst hopen
          cases hr : afterGroup n r with
          | none => simp [hr] at h
          | some r₁ =>
            obtain ⟨first, rfl, hfirst⟩ := ih hr
            obtain ⟨more, rfl, hmore⟩ := ih (by simpa [hr] using h)
            exact ⟨'(' :: (first ++ [')']) ++ more, by simp, hfirst.group.append hmore⟩
        · rename_i hopen
          obtain ⟨inner, rfl, hinner⟩ := ih h
          exact ⟨[c] ++ inner, rfl, (Balanced.singleton hopen hclose).append hinner⟩

theorem enclosed_of_balanced {inner : List Char} (h : Balanced inner) (rest : List Char) :
    enclosed (inner ++ ')' :: rest) = some (inner, rest) := by
  have hlen : (inner ++ ')' :: rest).length - rest.length - 1 = inner.length := by
    simp
    omega
  unfold enclosed
  rw [afterGroup_of_balanced h (by simp)]
  simp only [hlen, List.take_left]

theorem balanced_of_enclosed {r inner rest : List Char} (h : enclosed r = some (inner, rest)) :
    Balanced inner := by
  unfold enclosed at h
  cases hr : afterGroup r.length r with
  | none => simp [hr] at h
  | some after =>
    obtain ⟨first, rfl, hfirst⟩ := balanced_of_afterGroup hr
    have hread := enclosed_of_balanced hfirst after
    simp only [enclosed, hr] at hread
    simp only [hr] at h
    rw [hread] at h
    obtain ⟨rfl, -⟩ : first = inner ∧ after = rest := by simpa using h
    exact hfirst

theorem enclosed_eq_some_iff {r inner rest : List Char} :
    enclosed r = some (inner, rest) ↔ r = inner ++ ')' :: rest ∧ Balanced inner := by
  constructor
  · exact fun h => ⟨eq_of_enclosed h, balanced_of_enclosed h⟩
  · intro hx
    obtain ⟨rfl, h⟩ := hx
    exact enclosed_of_balanced h rest

theorem not_closed_of_enclosed_eq_none {r : List Char} (h : enclosed r = none) (d : Nat) :
    depthAfter (d + 1) r ≠ some d := by
  intro hd
  obtain ⟨inner, rest, rfl, hinner, -⟩ := exists_closing hd (Nat.le_refl d)
  simp [enclosed_of_balanced hinner] at h

def Ending (cs : List Char) : Prop := ∀ c r, cs = c :: r → c = ':' ∨ c = ')'

theorem ending_nil : Ending [] := by
  intro c r h
  simp at h

theorem ending_cons {c : Char} {r : List Char} (h : c = ':' ∨ c = ')') : Ending (c :: r) := by
  intro d s hds
  obtain ⟨rfl, rfl⟩ : c = d ∧ r = s := by simpa using hds
  exact h

/-- A segment that is read: its contents, and the text from the character that ends it. -/
inductive ReadsSegment : List Char → List Char → List Char → Prop
  | stop {cs : List Char} (ending : Ending cs) : ReadsSegment cs [] cs
  | group {inner r piece rest : List Char} (balanced : Balanced inner)
      (more : ReadsSegment r piece rest) :
      ReadsSegment ('(' :: (inner ++ ')' :: r)) (inner ++ piece) rest
  | bare {c : Char} {r piece rest : List Char} (not_end : ¬(c = ':' ∨ c = ')')) (not_open : c ≠ '(')
      (more : ReadsSegment r piece rest) : ReadsSegment (c :: r) (c :: piece) rest

/-- A segment in which a group is never closed. -/
inductive LeavesOpen : List Char → Prop
  | here {r : List Char} (unclosed : enclosed r = none) : LeavesOpen ('(' :: r)
  | group {inner r : List Char} (balanced : Balanced inner) (more : LeavesOpen r) :
      LeavesOpen ('(' :: (inner ++ ')' :: r))
  | bare {c : Char} {r : List Char} (not_end : ¬(c = ':' ∨ c = ')')) (not_open : c ≠ '(')
      (more : LeavesOpen r) : LeavesOpen (c :: r)

theorem segment_reads {n : Nat} {cs : List Char} (hn : cs.length ≤ n) :
    match segment n cs with
    | none => LeavesOpen cs
    | some (piece, rest) => ReadsSegment cs piece rest := by
  induction n generalizing cs with
  | zero =>
    obtain rfl : cs = [] := List.length_eq_zero_iff.1 (by omega)
    exact .stop ending_nil
  | succ n ih =>
    cases cs with
    | nil => exact .stop ending_nil
    | cons c r =>
      simp only [List.length_cons] at hn
      simp only [segment]
      by_cases hend : c = ':' ∨ c = ')'
      · rw [if_pos hend]
        exact .stop (ending_cons hend)
      rw [if_neg hend]
      by_cases hopen : c = '('
      · subst hopen
        rw [if_pos rfl]
        cases hr : enclosed r with
        | none => exact .here hr
        | some p =>
          obtain ⟨inner, r₁⟩ := p
          obtain ⟨rfl, hinner⟩ := enclosed_eq_some_iff.1 hr
          simp only [List.length_append, List.length_cons] at hn
          have hr₁ : r₁.length ≤ n := by omega
          have hrest := ih hr₁
          cases hs : segment n r₁ with
          | none =>
            simp only [hs] at hrest ⊢
            exact .group hinner hrest
          | some q =>
            simp only [hs] at hrest ⊢
            exact .group hinner hrest
      · rw [if_neg hopen]
        have hrest := ih (Nat.le_of_succ_le_succ hn)
        cases hs : segment n r with
        | none =>
          simp only [hs] at hrest ⊢
          exact .bare hend hopen hrest
        | some q =>
          simp only [hs] at hrest ⊢
          exact .bare hend hopen hrest

/-- A segment is one piece, and reading it leaves the depth where it was. -/
structure Segmented (cs piece rest : List Char) : Prop where
  ending : Ending rest
  length_le : rest.length ≤ cs.length
  depth_eq : depthAfter 0 cs = depthAfter 0 rest
  pieces_eq : pieces 0 cs = prepend piece (pieces 0 rest)

theorem ReadsSegment.segmented {cs piece rest : List Char} (h : ReadsSegment cs piece rest) :
    Segmented cs piece rest := by
  induction h with
  | stop hend => exact ⟨hend, Nat.le_refl _, rfl, (prepend_nil (pieces_ne_nil _ _)).symm⟩
  | group hinner _ ih =>
    refine ⟨ih.ending, ?_, (depthAfter_group hinner 0 _).trans ih.depth_eq, ?_⟩
    · have := ih.length_le
      simp
      omega
    · rw [pieces_group hinner, ih.pieces_eq, prepend_prepend]
  | bare hend hopen _ ih =>
    refine ⟨ih.ending, Nat.le_succ_of_le ih.length_le, ?_, ?_⟩
    · rw [depthAfter_bare hopen (not_or.1 hend).2]
      exact ih.depth_eq
    · rw [pieces_bare (not_or.1 hend).1 hopen, ih.pieces_eq, prepend_prepend]
      rfl

theorem LeavesOpen.depthAfter_ne {cs : List Char} (h : LeavesOpen cs) : depthAfter 0 cs ≠ some 0 := by
  induction h with
  | here hunclosed =>
    rw [depthAfter_open]
    exact not_closed_of_enclosed_eq_none hunclosed 0
  | group hinner _ ih => rwa [depthAfter_group hinner]
  | bare hend hopen _ ih => rwa [depthAfter_bare hopen (not_or.1 hend).2]

theorem segment_spec {n : Nat} {cs : List Char} (hn : cs.length ≤ n) :
    match segment n cs with
    | none => depthAfter 0 cs ≠ some 0
    | some (piece, rest) => Segmented cs piece rest := by
  have hread := segment_reads hn
  cases hs : segment n cs with
  | none =>
    rw [hs] at hread
    exact hread.depthAfter_ne
  | some p =>
    rw [hs] at hread
    exact hread.segmented

theorem arguments_spec {n : Nat} {cs : List Char} (hn : cs.length ≤ n) (hend : Ending cs) :
    match arguments n cs with
    | .error _ => depthAfter 0 cs ≠ some 0
    | .ok rest => depthAfter 0 cs = some 0 ∧ pieces 0 cs = [] :: rest := by
  induction n generalizing cs with
  | zero =>
    obtain rfl : cs = [] := List.length_eq_zero_iff.1 (by omega)
    exact ⟨rfl, rfl⟩
  | succ n ih =>
    cases cs with
    | nil => exact ⟨rfl, rfl⟩
    | cons c r =>
      simp only [List.length_cons] at hn
      simp only [arguments]
      by_cases hcolon : c = ':'
      · subst hcolon
        rw [if_pos rfl]
        have hdepth : depthAfter 0 (':' :: r) = depthAfter 0 r :=
          depthAfter_bare (by decide) (by decide) 0 r
        have hpieces : pieces 0 (':' :: r) = [] :: pieces 0 r := by simp [pieces]
        have hfirst := segment_spec (Nat.le_refl r.length)
        cases hs : segment r.length r with
        | none =>
          simp only [hs] at hfirst ⊢
          rwa [hdepth]
        | some p =>
          obtain ⟨first, r₁⟩ := p
          simp only [hs] at hfirst ⊢
          have hr₁ : r₁.length ≤ n := Nat.le_trans hfirst.length_le (by omega)
          have hmore := ih hr₁ hfirst.ending
          cases ha : arguments n r₁ with
          | error e =>
            simp only [ha] at hmore ⊢
            rwa [hdepth, hfirst.depth_eq]
          | ok more =>
            simp only [ha] at hmore ⊢
            refine ⟨by rw [hdepth, hfirst.depth_eq, hmore.1], ?_⟩
            rw [hpieces, hfirst.pieces_eq, hmore.2, prepend, List.append_nil]
      · rw [if_neg hcolon]
        rcases hend c r rfl with h | rfl
        · exact absurd h hcolon
        · simp [depthAfter]

theorem segments_eq_ok_iff {cs kind : List Char} {rest : List (List Char)} :
    segments cs = .ok (kind, rest) ↔ Balanced cs ∧ pieces 0 cs = kind :: rest ∧ kind ≠ [] := by
  have hfirst := segment_spec (Nat.le_refl cs.length)
  unfold segments
  rw [balanced_iff]
  cases hs : segment cs.length cs with
  | none =>
    simp only [hs] at hfirst
    simp [hfirst]
  | some p =>
    obtain ⟨first, r⟩ := p
    simp only [hs] at hfirst ⊢
    have hmore := arguments_spec (Nat.le_refl r.length) hfirst.ending
    rw [hfirst.depth_eq]
    cases ha : arguments r.length r with
    | error e =>
      simp only [ha] at hmore
      by_cases hkind : first = [] <;> simp [hkind, hmore]
    | ok more =>
      simp only [ha] at hmore ⊢
      have hpieces : pieces 0 cs = first :: more := by
        rw [hfirst.pieces_eq, hmore.2, prepend, List.append_nil]
      rw [hpieces]
      by_cases hkind : first = []
      · subst hkind
        rw [if_pos rfl]
        constructor
        · intro h
          simp at h
        · intro hx
          obtain ⟨-, h, hne⟩ := hx
          obtain ⟨rfl, -⟩ : [] = kind ∧ more = rest := by simpa using h
          exact absurd rfl hne
      · rw [if_neg hkind]
        constructor
        · intro h
          obtain ⟨rfl, rfl⟩ : first = kind ∧ more = rest := by simpa using h
          exact ⟨hmore.1, rfl, hkind⟩
        · intro hx
          obtain ⟨-, h, -⟩ := hx
          obtain ⟨rfl, rfl⟩ : first = kind ∧ more = rest := by simpa using h
          rfl

end GenExpr.Expression
