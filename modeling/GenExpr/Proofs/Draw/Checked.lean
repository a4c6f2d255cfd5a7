import GenExpr.Proofs.Action

/-!
# Draws with checks

A second account of drawing, in which nothing is taken for granted: every interval is checked before it
is sampled and every index before its item is taken, and a draw stops where a check fails. Only the
bounds and items of a source are read, not the proofs that come with them.

No source ever stops at a check, so that both accounts are the same.
-/

namespace GenExpr

inductive Stop where
  /-- The draw itself fails. -/
  | failed (e : Error)
  /-- There is nothing in an interval to be sampled. -/
  | emptyInterval
  /-- An index is not below the length of its list. -/
  | outOfBounds
  deriving DecidableEq

abbrev CheckedM := ExceptT Stop (StateM DrawState)

namespace CheckedM

variable {α β : Type}

/-- An action in which there is nothing to check. -/
def unchecked (x : DrawM α) : CheckedM α := fun s =>
  match (x.run.run s).run with
  | (.ok a, s') => (.ok a, s')
  | (.error e, s') => (.error (.failed e), s')

def whole (lo hi : Int) : CheckedM Int :=
  if h : lo ≤ hi then unchecked (DrawM.sample (Sampling.int64 lo hi h)) else throw .emptyInterval

def real (lo hi : Binary64) : CheckedM Binary64 :=
  if hle : lo.le hi = true then
    if hfinite : (hi.sub lo).isFinite = true then
      unchecked (DrawM.sample (NumberRange.random ⟨lo, hi, hle, hfinite⟩))
    else throw .emptyInterval
  else throw .emptyInterval

def character (lo hi : Char) : CheckedM Char :=
  if h : lo ≤ hi then unchecked (DrawM.sample (CharRange.random ⟨lo, hi, h⟩))
  else throw .emptyInterval

def index (n : Nat) : CheckedM Nat :=
  if h : 0 < n then Fin.val <$> unchecked (DrawM.sample (Sampling.index n h))
  else throw .emptyInterval

def item (items : List α) (i : Nat) : CheckedM α :=
  match items[i]? with
  | some a => pure a
  | none => throw .outOfBounds

def pick (items : List α) : CheckedM α := do item items (← index items.length)

def letter : Letters → CheckedM Char
  | .range r => character r.min r.max
  | .alphabet a => pick a.chars

def letters (l : Letters) : Nat → CheckedM (List Char)
  | 0 => pure []
  | n + 1 => do
    let c ← letter l
    return c :: (← letters l n)

def entry : Collection → CheckedM Value
  | .items vs _ => pick vs
  | .chars cs _ => do return .str (String.ofList [← pick cs])

def sequence : List (CheckedM α) → CheckedM (List α)
  | [] => pure []
  | action :: rest => do
    let a ← action
    return a :: (← sequence rest)

def repeated (action : CheckedM α) : Nat → CheckedM (List α)
  | 0 => pure []
  | n + 1 => do
    let a ← action
    return a :: (← repeated action n)

end CheckedM

namespace Source

open CheckedM (unchecked)

mutual

/-- One draw of a source, with checks. -/
def checkedDraw : Source → CheckedM Draw
  | letters length l => do
    let n ← CheckedM.whole length.lowest length.highest
    return .ready (.str (String.ofList (← CheckedM.letters l n.toNat)))
  | text inner => do
    return (← checkedDraw inner).map fun v => .str v.text
  | number range precision => do
    let x ← CheckedM.real range.min range.max
    match precision with
    | none => return .ready (.float x)
    | some p => return .ready (.float (Decimal.roundTo p x))
  | int range => do return .ready (.int (← CheckedM.whole range.lowest range.highest))
  | char range => do
    return .ready (.str (String.ofList [← CheckedM.character range.min range.max]))
  | boolean bias => do
    return .ready (.bool (← unchecked (DrawM.sample (Sampling.belowBias bias))))
  | oneOf first others => do
    let actions := checkedDraw first :: checkedDraws others
    let action ← CheckedM.pick actions
    action
  | array items => do return .all .array (← CheckedM.sequence (checkedDraws items))
  | times count inner => do
    return .all Value.concat (← CheckedM.repeated (checkedDraw inner) count)
  | literal v => pure (.ready v)
  | entry collection => do return .ready (← CheckedM.entry collection)
  | leaf id l => unchecked (l.drawAs id)
  | adapted inner f => do
    match (← checkedDraw inner).andThen f with
    | .ok d => return d
    | .error e => throw (.failed e)

/-- The draws of several sources with checks, none of them performed yet. -/
def checkedDraws : List Source → List (CheckedM Draw)
  | [] => []
  | s :: rest => checkedDraw s :: checkedDraws rest

end

end Source

namespace CheckedM

variable {α β : Type}

theorem unchecked_pure (a : α) : unchecked (pure a) = pure a := rfl

theorem unchecked_bind (x : DrawM α) (f : α → DrawM β) :
    unchecked (x >>= f) = unchecked x >>= fun a => unchecked (f a) := by
  funext s
  have hchecked : (unchecked x >>= fun a => unchecked (f a)) s = match unchecked x s with
      | (.ok a, t) => unchecked (f a) t
      | (.error e, t) => (.error e, t) := by
    simp only [bind, ExceptT.bind, ExceptT.mk, StateT.bind]
    rcases unchecked x s with ⟨e | a, t⟩ <;> rfl
  rw [hchecked, unchecked, run_run_bind, unchecked]
  rcases (x.run.run s).run with ⟨e | a, t⟩ <;> rfl

theorem unchecked_map (x : DrawM α) (f : α → β) : unchecked (f <$> x) = f <$> unchecked x := by
  rw [map_eq_pure_bind, map_eq_pure_bind, unchecked_bind]
  rfl

theorem unchecked_sample_bind (x : StateM Entropy α) (f : α → StateM Entropy β) :
    unchecked (DrawM.sample (x >>= f)) =
      unchecked (DrawM.sample x) >>= fun a => unchecked (DrawM.sample (f a)) := by
  rw [← unchecked_bind]
  rfl

theorem whole_of_le {lo hi : Int} (h : lo ≤ hi) :
    whole lo hi = unchecked (DrawM.sample (Sampling.int64 lo hi h)) := dif_pos h

theorem whole_bounds (r : NumberRange) :
    whole r.lowest r.highest = unchecked (DrawM.sample r.randomInt) :=
  whole_of_le r.lowest_le_highest

theorem real_bounds (r : NumberRange) : real r.min r.max = unchecked (DrawM.sample r.random) := by
  rw [real, dif_pos r.min_le_max, dif_pos r.finite_width]

theorem character_bounds (r : CharRange) :
    character r.min r.max = unchecked (DrawM.sample r.random) := dif_pos r.min_le_max

theorem index_of_pos {n : Nat} (h : 0 < n) :
    index n = Fin.val <$> unchecked (DrawM.sample (Sampling.index n h)) := dif_pos h

theorem item_of_lt {items : List α} {i : Nat} (h : i < items.length) :
    item items i = pure items[i] := by
  rw [item, List.getElem?_eq_getElem h]

/-- An index that was sampled for a list that is not empty has an item. -/
theorem pick_of_ne_nil {items : List α} (h : 0 < items.length) :
    pick items = items.get <$> unchecked (DrawM.sample (Sampling.index items.length h)) := by
  rw [pick, index_of_pos h, map_eq_pure_bind, map_eq_pure_bind, bind_assoc]
  congr 1
  funext i
  rw [pure_bind]
  exact item_of_lt i.isLt

theorem pick_eq {items : List α} (h : items ≠ []) :
    pick items = unchecked (DrawM.sample (Sampling.pick items h)) := by
  rw [pick_of_ne_nil (List.length_pos_iff.2 h), ← unchecked_map]
  rfl

theorem pick_map (f : α → β) (items : List α) : pick (items.map f) = f <$> pick items := by
  rw [pick, pick, List.length_map, map_bind]
  congr 1
  funext i
  rw [item, item, List.getElem?_map]
  cases items[i]? <;> rfl

theorem pick_bind_unchecked {actions : List (DrawM α)} (h : 0 < actions.length) :
    (pick (actions.map unchecked) >>= fun action => action) =
      unchecked (DrawM.sample (Sampling.index actions.length h) >>= actions.get) := by
  rw [pick_map, bind_map_left, pick_of_ne_nil h, bind_map_left, unchecked_bind]

theorem letter_eq (l : Letters) : letter l = unchecked (DrawM.sample l.random) := by
  cases l with
  | range r => exact character_bounds r
  | alphabet a => exact pick_eq a.nonempty

theorem letters_eq (l : Letters) (n : Nat) :
    letters l n = unchecked (DrawM.sample (l.randomChars n)) := by
  induction n with
  | zero => rfl
  | succ n ih =>
    rw [letters, letter_eq, ih, Letters.randomChars, unchecked_sample_bind]
    congr 1

theorem entry_eq (c : Collection) : entry c = unchecked (DrawM.sample c.random) := by
  cases c with
  | items vs h => exact pick_eq h
  | chars cs h =>
    rw [entry, pick_eq h, Collection.random, unchecked_sample_bind]
    rfl

theorem sequence_eq (actions : List (DrawM α)) :
    sequence (actions.map unchecked) = unchecked (DrawM.sequence actions) := by
  induction actions with
  | nil => rfl
  | cons action rest ih =>
    rw [List.map_cons, sequence, ih, DrawM.sequence, unchecked_bind]
    congr 1
    funext a
    rw [unchecked_bind]
    rfl

theorem repeated_eq (action : DrawM α) (n : Nat) :
    repeated (unchecked action) n = unchecked (DrawM.repeated action n) := by
  induction n with
  | zero => rfl
  | succ n ih =>
    rw [repeated, ih, DrawM.repeated, unchecked_bind]
    congr 1
    funext a
    rw [unchecked_bind]
    rfl

end CheckedM

namespace Source

open CheckedM (unchecked unchecked_bind)

mutual

/-- No draw of a source stops at a check. -/
theorem checkedDraw_eq : ∀ s : Source, checkedDraw s = unchecked (draw s)
  | letters length l => by
    rw [checkedDraw, draw, CheckedM.whole_bounds, unchecked_bind]
    congr 1
    funext n
    rw [CheckedM.letters_eq, unchecked_bind]
    rfl
  | text inner => by
    rw [checkedDraw, draw, checkedDraw_eq inner, unchecked_bind]
    rfl
  | number range precision => by
    rw [checkedDraw, draw, CheckedM.real_bounds, unchecked_bind]
    congr 1
    funext x
    cases precision <;> rfl
  | int range => by
    rw [checkedDraw, draw, CheckedM.whole_bounds, unchecked_bind]
    rfl
  | char range => by
    rw [checkedDraw, draw, CheckedM.character_bounds, unchecked_bind]
    rfl
  | boolean bias => by
    rw [checkedDraw, draw, unchecked_bind]
    rfl
  | oneOf first others => by
    have hactions : checkedDraw first :: checkedDraws others =
        (draw first :: draws others).map unchecked := by
      rw [checkedDraw_eq first, checkedDraws_eq others, List.map_cons]
    have hlength : 0 < (draw first :: draws others).length := Nat.succ_pos _
    rw [checkedDraw, draw, hactions]
    exact CheckedM.pick_bind_unchecked hlength
  | array items => by
    rw [checkedDraw, draw, checkedDraws_eq items, CheckedM.sequence_eq, unchecked_bind]
    rfl
  | times count inner => by
    rw [checkedDraw, draw, checkedDraw_eq inner, CheckedM.repeated_eq, unchecked_bind]
    rfl
  | literal v => by
    rw [checkedDraw, draw, CheckedM.unchecked_pure]
  | entry collection => by
    rw [checkedDraw, draw, CheckedM.entry_eq, unchecked_bind]
    rfl
  | leaf id l => by
    rw [checkedDraw, draw]
  | adapted inner f => by
    rw [checkedDraw, draw, checkedDraw_eq inner, unchecked_bind]
    congr 1
    funext d
    cases Deferred.andThen f d <;> rfl

theorem checkedDraws_eq : ∀ ss : List Source, checkedDraws ss = (draws ss).map unchecked
  | [] => by rw [checkedDraws, draws, List.map_nil]
  | s :: rest => by
    rw [checkedDraws, draws, checkedDraw_eq s, checkedDraws_eq rest, List.map_cons]

end

end Source

end GenExpr
