import GenExpr.Proofs.Deferred.Poll
import GenExpr.Proofs.Iterate.Account
import Mathlib.Data.List.Nodup

/-!
# Handling rows

What a look at the rows in flight comes to: those of them that settle are handed to the callback one
after another, up to the first error, and the others wait on.
-/

namespace GenExpr.Iterate

variable {σ β : Type}

/-- Hands rows that have settled to a callback, one after another. The first row that has settled to an
error, or at which the callback fails, is the last. -/
def handle {m : Type → Type} [Monad m] (call : Value → m (Except Raised β)) :
    List (Except Error Value) → m (Except Error (List β))
  | [] => pure (.ok [])
  | .error e :: _ => pure (.error e)
  | .ok v :: rest => do
    match ← call v with
    | .error raised => return .error (.custom raised)
    | .ok b =>
      match ← handle call rest with
      | .error e => return .error e
      | .ok bs => return .ok (b :: bs)

section Handle

variable (call : Value → StateM σ (Except Raised β)) (w : σ)

theorem run_handle_ok (v : Value) (rest : List (Except Error Value)) :
    (handle call (.ok v :: rest)).run w = match (call v).run w with
      | (.error raised, w') => (.error (.custom raised), w')
      | (.ok b, w') =>
        (((handle call rest).run w').1.map (b :: ·), ((handle call rest).run w').2) := by
  rw [handle, run_bind]
  rcases (call v).run w with ⟨raised | b, w'⟩
  · rfl
  · simp only [run_bind]
    rcases (handle call rest).run w' with ⟨e | bs, w''⟩ <;> rfl

theorem run_handle_append (first rest : List (Except Error Value)) :
    (handle call (first ++ rest)).run w = match (handle call first).run w with
      | (.error e, w') => (.error e, w')
      | (.ok bs, w') =>
        (((handle call rest).run w').1.map (bs ++ ·), ((handle call rest).run w').2) := by
  induction first generalizing w with
  | nil =>
    have hnil : (handle call ([] : List (Except Error Value))).run w = (.ok [], w) := rfl
    rw [List.nil_append, hnil]
    simp only []
    rcases (handle call rest).run w with ⟨e | bs, w'⟩ <;> rfl
  | cons r first ih =>
    cases r with
    | error e => rfl
    | ok v =>
      rw [List.cons_append, run_handle_ok, run_handle_ok]
      rcases (call v).run w with ⟨raised | b, w'⟩
      · rfl
      · simp only [ih w']
        rcases (handle call first).run w' with ⟨e | bs, w''⟩
        · rfl
        · simp only [Except.map]
          rcases (handle call rest).run w'' with ⟨e | cs, w'''⟩ <;> rfl

/-- Where all rows have been handled, none has settled to an error. -/
theorem exists_of_handle_eq_ok {rows : List (Except Error Value)} {bs : List β}
    (h : ((handle call rows).run w).1 = .ok bs) :
    ∃ vs : List Value, rows = vs.map .ok ∧ vs.length = bs.length := by
  induction rows generalizing w bs with
  | nil =>
    obtain rfl : [] = bs := Except.ok.inj h
    exact ⟨[], rfl, rfl⟩
  | cons r rest ih =>
    cases r with
    | error e => cases h
    | ok v =>
      rw [run_handle_ok] at h
      rcases hv : (call v).run w with ⟨raised | b, w'⟩ <;> simp only [hv] at h
      · cases h
      · cases hrest : ((handle call rest).run w').1 with
        | error e => simp [hrest, Except.map] at h
        | ok cs =>
          obtain ⟨vs, rfl, hlength⟩ := ih w' hrest
          obtain rfl : b :: cs = bs := by simpa [hrest, Except.map] using h
          exact ⟨v :: vs, rfl, by simp [hlength]⟩

end Handle

/-- What the row of a number settles to when it is polled, if it does. -/
def settlement (opened : Nat → Bool) (rows : List (Nat × Future Id Value)) (i : Nat) :
    Option (Nat × Except Error Value) :=
  (rows.lookup i).bind fun f => (f.poll opened).run.outcome?.map fun r => (i, r)

/-- The rows that settle when they are polled in an order. -/
def settlements (opened : Nat → Bool) (rows : List (Nat × Future Id Value)) (looked : List Nat) :
    List (Nat × Except Error Value) :=
  looked.filterMap (settlement opened rows)

/-- The rows that settle when all are polled, in their order. -/
def settling (opened : Nat → Bool) (rows : List (Nat × Future Id Value)) :
    List (Nat × Except Error Value) :=
  rows.filterMap fun row => (row.2.poll opened).run.outcome?.map fun r => (row.1, r)

/-- A polled row, unless it has settled. -/
def unsettled (opened : Nat → Bool) (row : Nat × Future Id Value) : Option (Nat × Future Id Value) :=
  if (row.2.poll opened).run.outcome?.isSome then none else some (row.1, (row.2.poll opened).run)

/-- The rows that are left when some of them have been polled. -/
def leftAfter (opened : Nat → Bool) (looked : List Nat) (rows : List (Nat × Future Id Value)) :
    List (Nat × Future Id Value) :=
  rows.filterMap fun row => if row.1 ∈ looked then unsettled opened row else some row

/-- The slots with results put at the places of rows. -/
def fill (slots : List (Option β)) (rows : List Nat) (bs : List β) : List (Option β) :=
  (rows.zip bs).foldl (fun slots p => slots.set p.1 (some p.2)) slots

section Rows

variable {opened : Nat → Bool} {rows : List (Nat × Future Id Value)} {i : Nat}
  {row : Future Id Value}

theorem mem_of_lookup (h : rows.lookup i = some row) : (i, row) ∈ rows := by
  obtain ⟨before, after, hrows, -⟩ := List.lookup_eq_some_iff.1 h
  rw [hrows]
  exact List.mem_append_cons_self

theorem lookup_of_mem (hrows : (rows.map Prod.fst).Nodup) (h : (i, row) ∈ rows) :
    rows.lookup i = some row := by
  induction rows with
  | nil => cases h
  | cons first rest ih =>
    obtain ⟨hfirst, hrest⟩ := List.nodup_cons.1 hrows
    rcases List.mem_cons.1 h with rfl | h
    · exact List.lookup_cons_self
    · have hne : i ≠ first.1 := fun heq => hfirst (heq ▸ List.mem_map_of_mem h)
      rw [List.lookup_cons, beq_false_of_ne hne]
      exact ih hrest h

theorem lookup_remove {j : Nat} (hji : j ≠ i) (rows : List (Nat × Future Id Value)) :
    (Flight.remove i rows).lookup j = rows.lookup j := by
  induction rows with
  | nil => rfl
  | cons first rest ih =>
    obtain ⟨k, f⟩ := first
    rw [Flight.remove] at ih ⊢
    by_cases hk : k = i
    · subst hk
      have hne : (j == k) = false := beq_false_of_ne hji
      simpa [List.lookup_cons, hne] using ih
    · rw [List.filter_cons_of_pos (by simpa using hk), List.lookup_cons, List.lookup_cons, ih]

theorem lookup_replace {j : Nat} (hji : j ≠ i) (f : Future Id Value)
    (rows : List (Nat × Future Id Value)) :
    (Flight.replace i f rows).lookup j = rows.lookup j := by
  induction rows with
  | nil => rfl
  | cons first rest ih =>
    obtain ⟨k, g⟩ := first
    rw [Flight.replace] at ih ⊢
    by_cases hk : k = i
    · subst hk
      have hne : (j == k) = false := beq_false_of_ne hji
      simp [List.lookup_cons, hne, ih]
    · simp [List.lookup_cons, hk, ih]

variable {looked : List Nat}

theorem settlements_remove (hi : i ∉ looked) (rows : List (Nat × Future Id Value)) :
    settlements opened (Flight.remove i rows) looked = settlements opened rows looked := by
  apply List.filterMap_congr
  intro j hj
  have hji : j ≠ i := by
    rintro rfl
    exact hi hj
  rw [settlement, settlement, lookup_remove hji]

theorem settlements_replace (hi : i ∉ looked) (f : Future Id Value)
    (rows : List (Nat × Future Id Value)) :
    settlements opened (Flight.replace i f rows) looked = settlements opened rows looked := by
  apply List.filterMap_congr
  intro j hj
  have hji : j ≠ i := by
    rintro rfl
    exact hi hj
  rw [settlement, settlement, lookup_replace hji]

theorem settlements_cons_of_none (h : settlement opened rows i = none) :
    settlements opened rows (i :: looked) = settlements opened rows looked :=
  List.filterMap_cons_none h

theorem settlements_cons_of_some {r : Except Error Value}
    (h : settlement opened rows i = some (i, r)) :
    settlements opened rows (i :: looked) = (i, r) :: settlements opened rows looked :=
  List.filterMap_cons_some h

theorem settlement_of_lookup (h : rows.lookup i = some row) :
    settlement opened rows i = (row.poll opened).run.outcome?.map fun r => (i, r) := by
  rw [settlement, h]
  rfl

theorem leftAfter_cons_of_missing (h : rows.lookup i = none) :
    leftAfter opened (i :: looked) rows = leftAfter opened looked rows := by
  apply List.filterMap_congr
  intro other hother
  have hne : other.1 ≠ i := by
    have hmissing := List.lookup_eq_none_iff.1 h other hother
    rintro rfl
    simp at hmissing
  simp [hne]

theorem leftAfter_cons_of_settled (hrows : (rows.map Prod.fst).Nodup) (hrow : (i, row) ∈ rows)
    {r : Except Error Value} (hr : (row.poll opened).run = .settled r) :
    leftAfter opened (i :: looked) rows = leftAfter opened looked (Flight.remove i rows) := by
  rw [leftAfter, leftAfter, Flight.remove, List.filterMap_filter]
  apply List.filterMap_congr
  intro other hother
  by_cases hij : other.1 = i
  · obtain rfl : other = (i, row) := List.inj_on_of_nodup_map hrows hother hrow hij
    simp [unsettled, hr, Future.outcome?]
  · simp [hij]

theorem leftAfter_cons_of_unsettled (hrows : (rows.map Prod.fst).Nodup) (hrow : (i, row) ∈ rows)
    (hi : i ∉ looked) (hr : (row.poll opened).run.outcome? = none) :
    leftAfter opened (i :: looked) rows =
      leftAfter opened looked (Flight.replace i (row.poll opened).run rows) := by
  rw [leftAfter, leftAfter, Flight.replace, List.filterMap_map]
  apply List.filterMap_congr
  intro other hother
  by_cases hij : other.1 = i
  · obtain rfl : other = (i, row) := List.inj_on_of_nodup_map hrows hother hrow hij
    simp [unsettled, hr, hi]
  · simp [hij]

/-- The rows that are left when all have been polled. -/
def left (opened : Nat → Bool) (rows : List (Nat × Future Id Value)) :
    List (Nat × Future Id Value) :=
  rows.filterMap (unsettled opened)

theorem settlements_all (hrows : (rows.map Prod.fst).Nodup) :
    settlements opened rows (rows.map Prod.fst) = settling opened rows := by
  rw [settlements, settling, List.filterMap_map]
  apply List.filterMap_congr
  intro row hrow
  exact settlement_of_lookup (lookup_of_mem hrows hrow)

theorem length_settling_add (opened : Nat → Bool) (rows : List (Nat × Future Id Value)) :
    (settling opened rows).length + (left opened rows).length = rows.length := by
  induction rows with
  | nil => rfl
  | cons row rest ih =>
    rw [settling, left] at ih ⊢
    cases hpolled : (row.2.poll opened).run.outcome? with
    | none =>
      simp [unsettled, hpolled]
      omega
    | some r =>
      simp [unsettled, hpolled]
      omega

theorem filterMap_sublist_map {α γ : Type} {g : α → Option γ} {h : α → γ}
    (hgh : ∀ a b, g a = some b → b = h a) (as : List α) :
    (as.filterMap g).Sublist (as.map h) := by
  induction as with
  | nil => exact .slnil
  | cons a as ih =>
    cases ha : g a with
    | none =>
      rw [List.filterMap_cons_none ha]
      exact ih.cons _
    | some b =>
      obtain rfl := hgh a b ha
      rw [List.filterMap_cons_some ha]
      exact ih.cons_cons _

theorem numbers_left_sublist (opened : Nat → Bool) (rows : List (Nat × Future Id Value)) :
    ((left opened rows).map Prod.fst).Sublist (rows.map Prod.fst) := by
  rw [left, List.map_filterMap]
  apply filterMap_sublist_map
  intro row i hi
  unfold unsettled at hi
  split at hi <;> simp_all

theorem mem_left {f : Future Id Value} :
    (i, f) ∈ left opened rows ↔
      ∃ g, (i, g) ∈ rows ∧ (g.poll opened).run = f ∧ f.outcome? = none := by
  rw [left, List.mem_filterMap]
  constructor
  · intro hx
    obtain ⟨⟨j, g⟩, hg, heq⟩ := hx
    unfold unsettled at heq
    split at heq
    next => cases heq
    next hout =>
      obtain ⟨rfl, rfl⟩ : j = i ∧ (g.poll opened).run = f := by simpa using heq
      exact ⟨g, hg, rfl, by simpa using hout⟩
  · intro hx
    obtain ⟨g, hg, rfl, hout⟩ := hx
    exact ⟨(i, g), hg, by simp [unsettled, hout]⟩

end Rows

def close (f : Flight β) : Flight β :=
  if f.waiting.isEmpty then { f with ended := some (.ok (f.slots.filterMap id)) } else f

theorem ended_close_of_nil {f : Flight β} (h : f.waiting = []) :
    (close f).ended = some (.ok (f.slots.filterMap id)) := by
  rw [close, if_pos (List.isEmpty_iff.2 h)]

theorem close_of_ne_nil {f : Flight β} (h : f.waiting ≠ []) : close f = f := by
  rw [close, if_neg (by simpa using h)]

/-- A flight has ended in an error, or is as it should be. -/
def Reaches (f : Flight β) : Except Error (Flight β) → Prop
  | .error e => f.ended = some (.error e)
  | .ok g => f = g

def withResult (f : Flight β) (i : Nat) (b : β) : Flight β :=
  { f with slots := f.slots.set i (some b), waiting := Flight.remove i f.waiting }

def withRow (f : Flight β) (i : Nat) (row : Future Id Value) : Flight β :=
  { f with waiting := Flight.replace i row f.waiting }

section Visit

variable (opened : Nat → Bool) (call : Value → StateM σ (Except Raised β))

/-- What a look at rows leaves, once the results of those that have settled are there. -/
def afterLook (looked : List Nat) (f : Flight β) (bs : List β) : Flight β :=
  close { f with
    slots := fill f.slots ((settlements opened f.waiting looked).map Prod.fst) bs
    waiting := leftAfter opened looked f.waiting }

section Look

variable {looked : List Nat} {f : Flight β} {i : Nat} {row : Future Id Value}

theorem visit_of_missing (hlookup : f.waiting.lookup i = none) :
    f.visit opened call (i :: looked) = f.visit opened call looked := by
  rw [Flight.visit, hlookup]

theorem visit_of_error (hlookup : f.waiting.lookup i = some row) {e : Error}
    (hpolled : (row.poll opened).run = .settled (.error e)) :
    f.visit opened call (i :: looked) = pure { f with ended := some (.error e) } := by
  rw [Flight.visit, hlookup]
  simp only [hpolled]

theorem run_visit_of_value (hlookup : f.waiting.lookup i = some row) {v : Value}
    (hpolled : (row.poll opened).run = .settled (.ok v)) (w : σ) :
    (f.visit opened call (i :: looked)).run w = match (call v).run w with
      | (.error raised, w') => ({ f with ended := some (.error (.custom raised)) }, w')
      | (.ok b, w') => ((withResult f i b).visit opened call looked).run w' := by
  rw [Flight.visit, hlookup]
  simp only [hpolled, run_bind]
  rcases (call v).run w with ⟨raised | b, w'⟩ <;> rfl

theorem visit_of_unsettled (hlookup : f.waiting.lookup i = some row)
    (hpolled : (row.poll opened).run.outcome? = none) :
    f.visit opened call (i :: looked) =
      (withRow f i (row.poll opened).run).visit opened call looked := by
  rw [Flight.visit, hlookup]
  rcases hrow : (row.poll opened).run with _ | _ | _ | _
  · simp [hrow, Future.outcome?] at hpolled
  all_goals simp only [hrow, withRow]

omit call

theorem afterLook_cons_of_missing (hlookup : f.waiting.lookup i = none) :
    afterLook opened (i :: looked) f = afterLook opened looked f := by
  have hnone : settlement opened f.waiting i = none := by
    rw [settlement, hlookup]
    rfl
  funext bs
  rw [afterLook, afterLook, settlements_cons_of_none hnone, leftAfter_cons_of_missing hlookup]

variable (hrows : (f.waiting.map Prod.fst).Nodup) (hlookup : f.waiting.lookup i = some row)
  (hi : i ∉ looked)
include hrows hlookup hi

theorem afterLook_cons_of_settled {v : Value} (hpolled : (row.poll opened).run = .settled (.ok v))
    (b : β) (bs : List β) :
    afterLook opened (i :: looked) f (b :: bs) = afterLook opened looked (withResult f i b) bs := by
  have hsettlement : settlement opened f.waiting i = some (i, .ok v) := by
    rw [settlement_of_lookup hlookup, hpolled]
    rfl
  rw [afterLook, afterLook, settlements_cons_of_some hsettlement,
    leftAfter_cons_of_settled hrows (mem_of_lookup hlookup) hpolled]
  simp only [withResult, settlements_remove hi]
  rfl

theorem map_afterLook_cons_of_settled {v : Value}
    (hpolled : (row.poll opened).run = .settled (.ok v)) (b : β) (r : Except Error (List β)) :
    (r.map (b :: ·)).map (afterLook opened (i :: looked) f) =
      r.map (afterLook opened looked (withResult f i b)) := by
  cases r with
  | error e => rfl
  | ok bs => exact congrArg Except.ok (afterLook_cons_of_settled opened hrows hlookup hi hpolled b bs)

theorem afterLook_cons_of_unsettled (hpolled : (row.poll opened).run.outcome? = none) :
    afterLook opened (i :: looked) f =
      afterLook opened looked (withRow f i (row.poll opened).run) := by
  have hsettlement : settlement opened f.waiting i = none := by
    rw [settlement_of_lookup hlookup, hpolled]
    rfl
  funext bs
  rw [afterLook, afterLook, settlements_cons_of_none hsettlement,
    leftAfter_cons_of_unsettled hrows (mem_of_lookup hlookup) hi hpolled]
  simp only [withRow, settlements_replace hi]

end Look

/-- A look at rows hands those that settle to the callback in the order of the look. -/
theorem run_visit {looked : List Nat} (hlooked : looked.Nodup) {f : Flight β}
    (hrows : (f.waiting.map Prod.fst).Nodup) (w : σ) :
    let handled := (handle call ((settlements opened f.waiting looked).map Prod.snd)).run w
    ((f.visit opened call looked).run w).2 = handled.2 ∧
      Reaches ((f.visit opened call looked).run w).1
        (handled.1.map (afterLook opened looked f)) := by
  induction looked generalizing f w with
  | nil =>
    have hleft : leftAfter opened [] f.waiting = f.waiting := by
      rw [leftAfter]
      simp
    refine ⟨rfl, ?_⟩
    rw [Flight.visit]
    change _ = close { f with slots := f.slots, waiting := leftAfter opened [] f.waiting }
    rw [hleft]
    rfl
  | cons i rest ih =>
    obtain ⟨hi, hrest⟩ := List.nodup_cons.1 hlooked
    cases hlookup : f.waiting.lookup i with
    | none =>
      have hnone : settlement opened f.waiting i = none := by
        rw [settlement, hlookup]
        rfl
      rw [visit_of_missing opened call hlookup, settlements_cons_of_none hnone,
        afterLook_cons_of_missing opened hlookup]
      exact ih hrest hrows w
    | some row =>
      have hsettlement : settlement opened f.waiting i =
          (row.poll opened).run.outcome?.map fun r => (i, r) := settlement_of_lookup hlookup
      cases hpolled : (row.poll opened).run.outcome? with
      | none =>
        have hreplaced : ((withRow f i (row.poll opened).run).waiting.map Prod.fst).Nodup := by
          rwa [withRow, map_fst_replace]
        have hnext := ih hrest hreplaced w
        rw [hpolled] at hsettlement
        rw [visit_of_unsettled opened call hlookup hpolled, settlements_cons_of_none hsettlement,
          afterLook_cons_of_unsettled opened hrows hlookup hi hpolled]
        rwa [withRow, settlements_replace hi] at hnext
      | some r =>
        rw [hpolled] at hsettlement
        have hsettled := Future.outcome?_eq_some hpolled
        rw [settlements_cons_of_some hsettlement, List.map_cons]
        cases r with
        | error e =>
          rw [visit_of_error opened call hlookup hsettled]
          exact ⟨rfl, rfl⟩
        | ok v =>
          rw [run_visit_of_value opened call hlookup hsettled, run_handle_ok]
          rcases (call v).run w with ⟨raised | b, w'⟩
          · exact ⟨rfl, rfl⟩
          · have hremoved : ((withResult f i b).waiting.map Prod.fst).Nodup :=
              hrows.sublist (List.filter_sublist.map _)
            have hnext := ih hrest hremoved w'
            simp only [map_afterLook_cons_of_settled opened hrows hlookup hi hsettled]
            rwa [withResult, settlements_remove hi] at hnext

end Visit

end GenExpr.Iterate
