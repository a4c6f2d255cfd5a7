import GenExpr.Proofs.Expression.Parse
import Mathlib.Data.List.Induction
import Mathlib.Tactic.ByContra

/-!
# Where a text stops being readable

A text is viable if some text after it makes it one of the general form. Closing all open parentheses and
writing a letter is enough, unless a parenthesis has closed nothing or a colon has ended an empty kind.
So a misfit is noticed at the end of the longest viable prefix, whichever of the three it is.
-/

namespace GenExpr.Expression

/-- A text is of the general form. -/
def Accepted (cs : List Char) : Prop := ∃ i, general (String.ofList cs) = .ok i

/-- A text can go on to one of the general form. -/
def Viable (cs : List Char) : Prop := ∃ more, Accepted (cs ++ more)

/-- The longest viable prefix of a text. -/
structure LongestViable (p cs : List Char) : Prop where
  is_initial : p <+: cs
  viable : Viable p
  longest : ∀ q, q <+: cs → Viable q → q.length ≤ p.length

section Pieces

/-- The pieces of a text and those of what follows it, the last of the former and the first of the latter
being one. -/
def join : List (List Char) → List (List Char) → List (List Char)
  | [], qs => qs
  | [p], qs => prepend p qs
  | p :: p' :: ps, qs => p :: join (p' :: ps) qs

theorem join_cons {ps : List (List Char)} (h : ps ≠ []) (p : List Char) (qs : List (List Char)) :
    join (p :: ps) qs = p :: join ps qs := by
  obtain ⟨p', ps, rfl⟩ := List.exists_cons_of_ne_nil h
  rfl

theorem join_prepend {ps : List (List Char)} (h : ps ≠ []) (cs : List Char)
    (qs : List (List Char)) : join (prepend cs ps) qs = prepend cs (join ps qs) := by
  obtain ⟨p, ps, rfl⟩ := List.exists_cons_of_ne_nil h
  cases ps with
  | nil => exact (prepend_prepend cs p qs).symm
  | cons p' ps => rfl

theorem pieces_append {d e : Nat} {as : List Char} (h : depthAfter d as = some e) (bs : List Char) :
    pieces d (as ++ bs) = join (pieces d as) (pieces e bs) := by
  induction as generalizing d with
  | nil =>
    obtain rfl : d = e := by simpa [depthAfter] using h
    exact (prepend_nil (pieces_ne_nil d bs)).symm
  | cons c r ih =>
    rw [depthAfter] at h
    split at h
    next => cases h
    next =>
      rw [List.cons_append, pieces, pieces]
      split
      next hcolon =>
        obtain ⟨rfl, rfl⟩ := hcolon
        have hr : depthAfter 0 r = some e := by simpa [nextDepth] using h
        rw [join_cons (pieces_ne_nil 0 r), ih hr]
      next =>
        split
        next => exact ih h
        next => rw [join_prepend (pieces_ne_nil _ r), ih h]

end Pieces

theorem accepted_iff {cs : List Char} :
    Accepted cs ↔ Balanced cs ∧ (pieces 0 cs).head? ≠ some [] := by
  have hread := general_by_depth (String.ofList cs)
  rw [String.toList_ofList] at hread
  rcases hread with ⟨kind, arguments, hbalanced, hpieces, hne, hok⟩ | ⟨hno, f, herror⟩
  · exact iff_of_true ⟨_, hok⟩ ⟨hbalanced, by simpa [hpieces] using hne⟩
  · refine iff_of_false ?_ hno
    rintro ⟨i, hok⟩
    rw [herror] at hok
    cases hok

section Viable

variable {cs : List Char}

/-- Parentheses to close and a letter are in one piece that is not empty. -/
theorem pieces_closers (d : Nat) :
    depthAfter d (List.replicate d ')' ++ ['a']) = some 0 ∧
      ∃ p, p ≠ [] ∧ pieces d (List.replicate d ')' ++ ['a']) = [p] := by
  induction d with
  | zero => exact ⟨rfl, ['a'], List.cons_ne_nil _ _, rfl⟩
  | succ d ih =>
    obtain ⟨hdepth, p, hne, hpieces⟩ := ih
    rw [List.replicate_succ, List.cons_append]
    constructor
    · rwa [depthAfter_close]
    · cases d with
      | zero => exact ⟨['a'], List.cons_ne_nil _ _, rfl⟩
      | succ d =>
        refine ⟨')' :: p, List.cons_ne_nil _ _, ?_⟩
        have hstep : pieces (d + 1 + 1) (')' :: (List.replicate (d + 1) ')' ++ ['a'])) =
            prepend [')'] (pieces (d + 1) (List.replicate (d + 1) ')' ++ ['a'])) := by
          simp [pieces, nextDepth]
        rw [hstep, hpieces]
        rfl

/-- A text is viable unless a parenthesis closes nothing in it or its kind is empty and has ended. -/
theorem viable_iff : Viable cs ↔
    (∃ d, depthAfter 0 cs = some d) ∧ ∀ ps, pieces 0 cs = [] :: ps → ps = [] := by
  constructor
  · rintro ⟨more, h⟩
    obtain ⟨hbalanced, hkind⟩ := accepted_iff.1 h
    have hdepth := balanced_iff.1 hbalanced
    rw [depthAfter_append] at hdepth
    obtain ⟨d, hd, -⟩ := Option.bind_eq_some_iff.1 hdepth
    refine ⟨⟨d, hd⟩, ?_⟩
    intro ps hps
    by_contra hne
    rw [pieces_append hd, hps, join_cons hne] at hkind
    exact hkind rfl
  · rintro ⟨⟨d, hd⟩, hkind⟩
    obtain ⟨hclosed, p, hne, hpieces⟩ := pieces_closers d
    refine ⟨List.replicate d ')' ++ ['a'], accepted_iff.2 ⟨?_, ?_⟩⟩
    · rw [balanced_iff, depthAfter_append, hd]
      exact hclosed
    · rw [pieces_append hd, hpieces]
      obtain ⟨q, qs, hq⟩ := List.exists_cons_of_ne_nil (pieces_ne_nil 0 cs)
      rw [hq]
      cases qs with
      | nil => simp [join, prepend, hne]
      | cons q' qs =>
        rw [join_cons (List.cons_ne_nil q' qs), List.head?_cons]
        rintro hnil
        obtain rfl := Option.some.inj hnil
        exact absurd (hkind _ hq) (List.cons_ne_nil q' qs)

/-- In a text of one piece the kind has not ended yet. -/
theorem viable_of_piece {p : List Char} (hdepth : ∃ d, depthAfter 0 cs = some d)
    (hpieces : pieces 0 cs = [p]) : Viable cs := by
  refine viable_iff.2 ⟨hdepth, ?_⟩
  intro ps hps
  rw [hpieces] at hps
  exact (List.cons.inj hps).2.symm

theorem not_viable_of_depthAfter (h : depthAfter 0 cs = none) : ¬Viable cs := by
  intro hviable
  obtain ⟨⟨d, hd⟩, -⟩ := viable_iff.1 hviable
  rw [h] at hd
  cases hd

section Front

variable {front kind : List Char} (balanced : Balanced front) (one_piece : pieces 0 front = [kind])
include balanced one_piece

theorem viable_of_kind (hkind : kind ≠ []) {more : List Char} {d : Nat}
    (hdepth : depthAfter 0 more = some d) : Viable (front ++ more) := by
  have hfront := balanced.depthAfter 0
  refine viable_iff.2 ⟨⟨d, ?_⟩, ?_⟩
  · rw [depthAfter_append, hfront]
    exact hdepth
  · intro ps hps
    obtain ⟨q, qs, hq⟩ := List.exists_cons_of_ne_nil (pieces_ne_nil 0 more)
    rw [pieces_append hfront, one_piece, hq] at hps
    exact absurd (List.append_eq_nil_iff.1 (List.cons.inj hps).1).1 hkind

/-- An empty kind cannot end. -/
theorem not_viable_of_noKind (hkind : kind = []) {c : Char} (hend : c = ':' ∨ c = ')') :
    ¬Viable (front ++ [c]) := by
  have hfront := balanced.depthAfter 0
  subst hkind
  rcases hend with rfl | rfl
  · intro hviable
    have hended : pieces 0 (front ++ [':']) = [[], []] := by
      rw [pieces_append hfront, one_piece]
      rfl
    cases (viable_iff.1 hviable).2 _ hended
  · apply not_viable_of_depthAfter
    rw [depthAfter_append, hfront]
    rfl

end Front

theorem Viable.of_prefix {p : List Char} (h : Viable cs) (hp : p <+: cs) : Viable p := by
  obtain ⟨more, h⟩ := h
  obtain ⟨rest, rfl⟩ := hp
  exact ⟨rest ++ more, by rwa [← List.append_assoc]⟩

/-- A viable text that cannot go on with the next character is the longest viable prefix. -/
theorem longestViable_append {p rest : List Char} (h : Viable p)
    (hstop : ∀ c r, rest = c :: r → ¬Viable (p ++ [c])) : LongestViable p (p ++ rest) where
  is_initial := List.prefix_append p rest
  viable := h
  longest := by
    intro q hq hviable
    cases rest with
    | nil =>
      rw [List.append_nil] at hq
      exact hq.length_le
    | cons c r =>
      by_contra hlong
      have hnext : p ++ [c] <+: p ++ c :: r := ⟨r, by simp⟩
      have hlength : (p ++ [c]).length ≤ q.length := by
        rw [List.length_append, List.length_singleton]
        omega
      exact hstop c r rfl (hviable.of_prefix (List.prefix_of_prefix_length_le hnext hq hlength))

end Viable

section Reading

/-- A text in which no parenthesis closes nothing goes to some depth. -/
theorem exists_depthAfter_of_enclosed {r : List Char} (h : enclosed r = none) :
    ∃ e, depthAfter 0 r = some e := by
  -- up to the parenthesis that would close the group around it
  have hstays : ∀ p, p <+: r → ∃ e, depthAfter 0 p = some e := by
    intro p
    induction p using List.reverseRecOn with
    | nil => exact fun _ => ⟨0, rfl⟩
    | append_singleton p c ih =>
      intro hp
      obtain ⟨e, he⟩ := ih ((List.prefix_append p [c]).trans hp)
      rw [depthAfter_append, he, Option.bind_some, depthAfter]
      split
      next hclose =>
        obtain ⟨rfl, rfl⟩ := hclose
        obtain ⟨rest, rfl⟩ := hp
        rw [List.append_assoc, List.singleton_append,
          enclosed_of_balanced (balanced_iff.2 he)] at h
        cases h
      next => exact ⟨_, rfl⟩
  exact hstays r (List.prefix_refl r)

variable {n : Nat} {cs piece rest : List Char}

/-- A segment that is left open is one piece, and its parentheses can be closed. -/
theorem LeavesOpen.closable (h : LeavesOpen cs) :
    (∃ d, depthAfter 0 cs = some d) ∧ ∃ p, pieces 0 cs = [p] := by
  induction h with
  | @here r hunclosed =>
    obtain ⟨e, he⟩ := exists_depthAfter_of_enclosed hunclosed
    constructor
    · have hr := depthAfter_add he 1
      rw [Nat.zero_add] at hr
      exact ⟨e + 1, by rw [depthAfter_open, hr]⟩
    · have hinside := pieces_inside he []
      rw [List.append_nil] at hinside
      refine ⟨r, ?_⟩
      rw [pieces_open, hinside]
      simp [pieces, prepend]
  | group hinner _ ih =>
    obtain ⟨hdepth, p, hp⟩ := ih
    rw [depthAfter_group hinner, pieces_group hinner, hp]
    exact ⟨hdepth, _, rfl⟩
  | bare hend hopen _ ih =>
    obtain ⟨hdepth, p, hp⟩ := ih
    rw [depthAfter_bare hopen (not_or.1 hend).2, pieces_bare (not_or.1 hend).1 hopen, hp]
    exact ⟨hdepth, _, rfl⟩

/-- What a segment is read from is balanced text of one piece. -/
theorem ReadsSegment.exists_front (h : ReadsSegment cs piece rest) :
    ∃ front, cs = front ++ rest ∧ Balanced front ∧ pieces 0 front = [piece] := by
  induction h with
  | stop => exact ⟨[], rfl, .nil, rfl⟩
  | @group inner _ _ _ hinner _ ih =>
    obtain ⟨front, rfl, hfront, hpieces⟩ := ih
    have hgroup : '(' :: (inner ++ [')']) ++ front = '(' :: (inner ++ ')' :: front) := by simp
    refine ⟨'(' :: (inner ++ [')']) ++ front, by simp, hinner.group.append hfront, ?_⟩
    rw [hgroup, pieces_group hinner, hpieces]
    rfl
  | @bare c _ _ _ hend hopen _ ih =>
    obtain ⟨front, rfl, hfront, hpieces⟩ := ih
    refine ⟨c :: front, rfl, (Balanced.singleton hopen (not_or.1 hend).2).append hfront, ?_⟩
    rw [pieces_bare (not_or.1 hend).1 hopen, hpieces]
    rfl

/-- From depth zero, a text closes no more than it opens, but does with the next character. -/
structure StopsBefore (read rest : List Char) : Prop where
  exists_depth : ∃ d, depthAfter 0 read = some d
  closes_nothing : ∀ c r, rest = c :: r → depthAfter 0 (read ++ [c]) = none

theorem StopsBefore.append_left {front read : List Char} (h : StopsBefore read rest)
    (hfront : Balanced front) : StopsBefore (front ++ read) rest where
  exists_depth := by
    rw [depthAfter_append, hfront.depthAfter 0]
    exact h.exists_depth
  closes_nothing := by
    intro c r hr
    rw [List.append_assoc, depthAfter_append, hfront.depthAfter 0]
    exact h.closes_nothing c r hr

/-- Arguments are noticed not to go on where a parenthesis closes nothing, or at the end. -/
theorem stopsBefore_of_arguments {misfit : Misfit} (hn : cs.length ≤ n) (hend : Ending cs)
    (h : arguments n cs = .error (misfit, rest)) :
    ∃ read, cs = read ++ rest ∧ StopsBefore read rest := by
  induction n generalizing cs with
  | zero =>
    obtain rfl : cs = [] := List.length_eq_zero_iff.1 (by omega)
    cases h
  | succ n ih =>
    cases cs with
    | nil => cases h
    | cons c r =>
      rw [List.length_cons] at hn
      rw [arguments] at h
      split at h
      next hcolon =>
        subst hcolon
        have hstart : Balanced [':'] := .singleton (by decide) (by decide)
        have hread := segment_reads (Nat.le_refl r.length)
        split at h
        next hsegment =>
          obtain ⟨rfl, rfl⟩ := Prod.mk.inj (Except.error.inj h)
          rw [hsegment] at hread
          have hstops : StopsBefore r [] := ⟨hread.closable.1, fun c s hs => by cases hs⟩
          exact ⟨[':'] ++ r, by simp, hstops.append_left hstart⟩
        next first r₁ hsegment =>
          rw [hsegment] at hread
          obtain ⟨front, rfl, hfront, -⟩ := hread.exists_front
          split at h
          next e herror =>
            obtain rfl := Except.error.inj h
            have hlength := hread.segmented.length_le
            obtain ⟨read, rfl, hstops⟩ := ih (by omega) hread.segmented.ending herror
            exact ⟨[':'] ++ front ++ read, by simp, hstops.append_left (hstart.append hfront)⟩
          next => cases h
      next hcolon =>
        obtain ⟨rfl, rfl⟩ := Prod.mk.inj (Except.error.inj h)
        obtain rfl : c = ')' := (hend c r rfl).resolve_left hcolon
        refine ⟨[], rfl, ⟨0, rfl⟩, ?_⟩
        intro d s hs
        obtain ⟨rfl, -⟩ := List.cons.inj hs
        rfl

/-- A misfit is noticed at the end of a viable text that cannot go on with the next character. -/
theorem exists_read_of_segments {misfit : Misfit} (h : segments cs = .error (misfit, rest)) :
    ∃ read, cs = read ++ rest ∧ Viable read ∧
      ∀ c r, rest = c :: r → ¬Viable (read ++ [c]) := by
  have hread := segment_reads (Nat.le_refl cs.length)
  unfold segments at h
  split at h
  next hsegment =>
    obtain ⟨rfl, rfl⟩ := Prod.mk.inj (Except.error.inj h)
    rw [hsegment] at hread
    obtain ⟨hdepth, p, hp⟩ := hread.closable
    exact ⟨cs, by simp, viable_of_piece hdepth hp, fun c r hr => by cases hr⟩
  next kind r hsegment =>
    rw [hsegment] at hread
    have hending := hread.segmented.ending
    obtain ⟨front, rfl, hfront, hpieces⟩ := hread.exists_front
    split at h
    next hkind =>
      obtain ⟨rfl, rfl⟩ := Prod.mk.inj (Except.error.inj h)
      exact ⟨front, rfl, viable_of_piece ⟨0, hfront.depthAfter 0⟩ hpieces,
        fun c s hs => not_viable_of_noKind hfront hpieces hkind (hending c s hs)⟩
    next hkind =>
      split at h
      next e herror =>
        obtain rfl := Except.error.inj h
        obtain ⟨read, rfl, hstops⟩ := stopsBefore_of_arguments (Nat.le_refl _) hending herror
        obtain ⟨d, hd⟩ := hstops.exists_depth
        refine ⟨front ++ read, by simp, viable_of_kind hfront hpieces hkind hd, ?_⟩
        intro c s hs
        exact not_viable_of_depthAfter ((hstops.append_left hfront).closes_nothing c s hs)
      next => cases h

end Reading

/-- The place of a text that is not of the general form is the end of its longest viable prefix. -/
theorem exists_longestViable_of_general {s : String} {failure : Failure}
    (h : general s = .error failure) :
    failure.text = s ∧ ∃ p, LongestViable p s.toList ∧ failure.place = .following p := by
  unfold general at h
  split at h
  next misfit rest hsegments =>
    obtain rfl := Except.error.inj h
    obtain ⟨read, hread, hviable, hstop⟩ := exists_read_of_segments hsegments
    refine ⟨rfl, read, ?_, ?_⟩
    · rw [hread]
      exact longestViable_append hviable hstop
    · have htake : s.toList.take (s.toList.length - rest.length) = read := by
        rw [hread, List.length_append, Nat.add_sub_cancel, List.take_left]
      rw [Failure.place, htake]
  next => cases h

/-- A malformed expression is blamed at the end of its longest prefix that can go on to the general
form, a repetition as it is written out. -/
theorem malformed_at_longest_viable (s : String) :
    (∀ failure, general s = .error failure →
      ∃ p, LongestViable p s.toList ∧ failure.place = .following p) ∧
    (∀ e, parse s = .error e →
      ∃ failure p, e = .malformed failure ∧ general (expand s) = .error failure ∧
        LongestViable p (expand s).toList ∧ failure.place = .following p) := by
  refine ⟨fun failure h => (exists_longestViable_of_general h).2, ?_⟩
  intro e h
  unfold parse readExpanded at h
  split at h
  next => cases h
  next =>
    split at h
    next failure hgeneral =>
      obtain ⟨-, p, hp, hplace⟩ := exists_longestViable_of_general hgeneral
      exact ⟨failure, p, (Except.error.inj h).symm, hgeneral, hp, hplace⟩
    next => cases h

end GenExpr.Expression
