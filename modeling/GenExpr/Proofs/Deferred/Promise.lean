import GenExpr.Deferred.Basic
import Mathlib.Data.List.Forall2

/-!
# Promises

A future promises a value if it settles to it once every gate is open. Polling keeps what is promised,
whichever gates are open, and settles a promise when all gates that it waits for are open. So the value
that a future settles to does not depend on when it is polled and in which order its gates open.

Which of several errors a future settles to does depend on that, and nothing is said of it here.
-/

namespace GenExpr

open List (Forall₂)

namespace Future

variable {α : Type}

def Promises (f : Future Id α) (v : α) : Prop := f.force.run = .ok v

theorem Promises.unique {f : Future Id α} {v w : α} (hv : f.Promises v) (hw : f.Promises w) :
    v = w := by
  unfold Promises at *
  rw [hv] at hw
  exact Except.ok.inj hw

theorem promises_settled {r : Except Error α} {v : α} : (settled r).Promises v ↔ r = .ok v :=
  Iff.rfl

theorem force_andThen (source : Future Id α) (f : α → Id (Except Error α)) :
    (andThen source f).force.run = match source.force.run with
      | .ok a => (f a).run
      | .error e => .error e := by
  rw [force]
  rfl

theorem force_join (items : List (Future Id α)) (combine : List α → α) :
    (join items combine).force.run = (forceItems items).run.map combine := by
  rw [force]
  simp only [Id.run_bind]
  cases (forceItems items).run <;> rfl

theorem forceItems_cons (item : Future Id α) (rest : List (Future Id α)) :
    (forceItems (item :: rest)).run = match item.force.run with
      | .error e => .error e
      | .ok a => (forceItems rest).run.map (a :: ·) := by
  rw [forceItems]
  simp only [Id.run_bind]
  rcases item.force.run with e | a
  · rfl
  · simp only [Id.run_bind]
    cases (forceItems rest).run <;> rfl

theorem promises_andThen {source : Future Id α} {f : α → Id (Except Error α)} {v : α} :
    (andThen source f).Promises v ↔ ∃ a, source.Promises a ∧ (f a).run = .ok v := by
  unfold Promises
  rw [force_andThen]
  cases source.force.run with
  | error e => simp
  | ok a => simp

theorem forceItems_eq_ok_iff {items : List (Future Id α)} {vs : List α} :
    (forceItems items).run = .ok vs ↔ Forall₂ Promises items vs := by
  induction items generalizing vs with
  | nil =>
    rw [List.forall₂_nil_left_iff]
    constructor
    · intro h
      exact (Except.ok.inj h).symm
    · rintro rfl
      rfl
  | cons item rest ih =>
    rw [forceItems_cons, List.forall₂_cons_left_iff]
    cases hitem : item.force.run with
    | error e =>
      simp [Promises, hitem]
    | ok a =>
      cases hrest : (forceItems rest).run with
      | error e =>
        have hno : ∀ as, ¬Forall₂ Promises rest as := by
          intro as has
          rw [← ih, hrest] at has
          simp at has
        simp [hno, Except.map]
      | ok as =>
        have has : Forall₂ Promises rest as := ih.1 hrest
        constructor
        · intro h
          obtain rfl : a :: as = vs := Except.ok.inj h
          exact ⟨a, as, hitem, has, rfl⟩
        · intro hx
          obtain ⟨b, bs, hb, hbs, rfl⟩ := hx
          obtain rfl : a = b := Promises.unique hitem hb
          rw [← ih, hrest] at hbs
          rw [Except.ok.inj hbs]
          rfl

theorem promises_join {items : List (Future Id α)} {combine : List α → α} {v : α} :
    (join items combine).Promises v ↔ ∃ vs, Forall₂ Promises items vs ∧ combine vs = v := by
  unfold Promises
  rw [force_join]
  constructor
  · intro h
    cases hitems : (forceItems items).run with
    | error e => simp [hitems, Except.map] at h
    | ok vs =>
      rw [hitems] at h
      exact ⟨vs, forceItems_eq_ok_iff.1 hitems, Except.ok.inj h⟩
  · intro hx
    obtain ⟨vs, hvs, rfl⟩ := hx
    rw [forceItems_eq_ok_iff.2 hvs]
    rfl

theorem values?_cons_settled (a : α) (rest : List (Future Id α)) :
    values? (settled (.ok a) :: rest) = (values? rest).map (a :: ·) := by
  rw [values?]
  cases values? rest <;> rfl

theorem values?_eq_some_iff {items : List (Future Id α)} {vs : List α} :
    values? items = some vs ↔ items = vs.map fun v => settled (.ok v) := by
  induction items generalizing vs with
  | nil =>
    cases vs <;> simp [values?]
  | cons item rest ih =>
    rcases item with (e | a) | _ | _ | _
    · cases vs <;> simp [values?]
    · rw [values?_cons_settled]
      cases vs with
      | nil => simp
      | cons v vs =>
        have hfst : (settled (.ok a) : Future Id α) = settled (.ok v) ↔ a = v := by simp
        simp only [Option.map_eq_some_iff, List.cons.injEq, List.map_cons, hfst, ih]
        constructor
        · intro hx
          obtain ⟨as, has, rfl, rfl⟩ := hx
          exact ⟨rfl, has⟩
        · intro hx
          obtain ⟨rfl, hvs⟩ := hx
          exact ⟨vs, hvs, rfl, rfl⟩
    all_goals cases vs <;> simp [values?]

theorem forall₂_promises_map (vs : List α) :
    Forall₂ Promises (vs.map fun v => (settled (.ok v) : Future Id α)) vs := by
  induction vs with
  | nil => exact .nil
  | cons v vs ih => exact .cons rfl ih

/-- What a join makes of its polled items keeps what the items promise. -/
theorem promises_joined {items : List (Future Id α)} {combine : List α → α} {v : α} :
    (joined combine (.ok items)).Promises v ↔ (join items combine).Promises v := by
  simp only [joined]
  cases h : values? items with
  | none => exact Iff.rfl
  | some as =>
    obtain rfl := values?_eq_some_iff.1 h
    rw [promises_join]
    constructor
    · intro hv
      exact ⟨as, forall₂_promises_map as, Except.ok.inj hv⟩
    · intro hx
      obtain ⟨vs, hvs, rfl⟩ := hx
      obtain rfl : as = vs := by
        rw [← forceItems_eq_ok_iff, forceItems_eq_ok_iff.2 (forall₂_promises_map as)] at hvs
        exact Except.ok.inj hvs
      rfl

section Poll

variable (opened : Nat → Bool)

theorem poll_andThen (source : Future Id α) (f : α → Id (Except Error α)) :
    ((andThen source f).poll opened).run = match (source.poll opened).run with
      | settled (.ok a) => settled (f a).run
      | settled (.error e) => settled (.error e)
      | source => andThen source f := by
  rw [poll]
  generalize source.poll opened = polled
  rcases polled with (_ | _) | _ | _ | _ <;> rfl

theorem poll_join (items : List (Future Id α)) (combine : List α → α) :
    ((join items combine).poll opened).run =
      joined combine (pollItems opened (items.length ≤ shortJoin) true items).run := by
  rw [poll]
  rfl

theorem pollItems_cons (short clear : Bool) (item : Future Id α) (rest : List (Future Id α)) :
    (pollItems opened short clear (item :: rest)).run = match (item.poll opened).run with
      | settled (.error e) =>
        if short || clear then .error e
        else (pollItems opened short false rest).run.map (settled (.error e) :: ·)
      | item => (pollItems opened short (clear && item.hasValue) rest).run.map (item :: ·) := by
  rw [pollItems]
  generalize item.poll opened = polled
  rcases polled with (e | a) | _ | _ | _ <;> simp only [Id.run, bind, pure]
  · cases short || clear
    · generalize pollItems opened short false rest = more
      rcases more with _ | _ <;> rfl
    · rfl
  all_goals
    generalize pollItems opened short (clear && _) rest = more
    rcases more with _ | _ <;> rfl

/-- Polled items promise the same values, unless an item is found that promises none. -/
def Polled (items : List (Future Id α)) : Except Error (List (Future Id α)) → Prop
  | .error _ => ∀ vs, ¬Forall₂ Promises items vs
  | .ok polled => ∀ vs, Forall₂ Promises polled vs ↔ Forall₂ Promises items vs

theorem not_promised_of_item {item : Future Id α} (rest : List (Future Id α))
    (h : ∀ v, ¬item.Promises v) (vs : List α) : ¬Forall₂ Promises (item :: rest) vs := by
  rw [List.forall₂_cons_left_iff]
  intro hx
  obtain ⟨v, _, hv, -⟩ := hx
  exact h v hv

theorem not_promised_of_rest {rest : List (Future Id α)} (item : Future Id α)
    (h : ∀ vs, ¬Forall₂ Promises rest vs) (vs : List α) : ¬Forall₂ Promises (item :: rest) vs := by
  rw [List.forall₂_cons_left_iff]
  intro hx
  obtain ⟨_, us, _, hus, -⟩ := hx
  exact h us hus

theorem Polled.cons {item polled : Future Id α} {rest : List (Future Id α)}
    {more : Except Error (List (Future Id α))} (hitem : ∀ v, polled.Promises v ↔ item.Promises v)
    (hrest : Polled rest more) :
    Polled (item :: rest) (more.map (polled :: ·)) := by
  cases more with
  | error e => exact not_promised_of_rest item hrest
  | ok more =>
    intro vs
    simp only [List.forall₂_cons_left_iff, hitem]
    constructor
    · intro hx
      obtain ⟨v, us, hv, hus, rfl⟩ := hx
      exact ⟨v, us, hv, (hrest us).1 hus, rfl⟩
    · intro hx
      obtain ⟨v, us, hv, hus, rfl⟩ := hx
      exact ⟨v, us, hv, (hrest us).2 hus, rfl⟩

mutual

theorem promises_poll : ∀ (f : Future Id α) (v : α),
    (f.poll opened).run.Promises v ↔ f.Promises v
  | settled r, v => by
    rw [poll]
    exact Iff.rfl
  | gate id r, v => by
    rw [poll]
    cases opened id <;> exact Iff.rfl
  | andThen source f, v => by
    have hsource := promises_poll source
    rw [poll_andThen, promises_andThen]
    rcases hpolled : (source.poll opened).run with (e | a) | _ | _ | _ <;>
      simp only [hpolled] at hsource
    · simp [← hsource, promises_settled]
    · simp [← hsource, promises_settled]
    all_goals simp only [promises_andThen, ← hsource]
  | join items combine, v => by
    have hitems := polled_pollItems (items.length ≤ shortJoin) true items
    rw [poll_join]
    cases hpolled : (pollItems opened (items.length ≤ shortJoin) true items).run with
    | error e =>
      rw [hpolled] at hitems
      simp [joined, promises_settled, promises_join, hitems _]
    | ok polled =>
      rw [hpolled] at hitems
      simp only [promises_joined, promises_join, hitems _]

theorem polled_pollItems (short clear : Bool) : ∀ items : List (Future Id α),
    Polled items (pollItems opened short clear items).run
  | [] => by
    intro vs
    exact Iff.rfl
  | item :: rest => by
    have hitem := promises_poll item
    have hrest := fun clear => polled_pollItems short clear rest
    rw [pollItems_cons]
    rcases hpolled : (item.poll opened).run with (e | a) | _ | _ | _ <;>
      simp only [hpolled] at hitem
    · have hno : ∀ v, ¬item.Promises v := by
        intro v hv
        have := (hitem v).2 hv
        simp [promises_settled] at this
      cases short || clear with
      | true => exact not_promised_of_item rest hno
      | false => exact Polled.cons hitem (hrest false)
    all_goals exact Polled.cons hitem (hrest _)

end

theorem gatesOfItems_subset_cons {item polled : Future Id α} {rest all : List (Future Id α)}
    {more : Except Error (List (Future Id α))} (hitem : polled.gates ⊆ item.gates)
    (hrest : ∀ ps, more = .ok ps → gatesOfItems ps ⊆ gatesOfItems rest)
    (h : more.map (polled :: ·) = .ok all) : gatesOfItems all ⊆ gatesOfItems (item :: rest) := by
  cases more with
  | error e => simp [Except.map] at h
  | ok ps =>
    obtain rfl : polled :: ps = all := Except.ok.inj h
    simp only [gatesOfItems]
    exact List.append_subset.2 ⟨List.subset_append_of_subset_left _ hitem,
      List.subset_append_of_subset_right _ (hrest ps rfl)⟩

mutual

theorem gates_poll_subset : ∀ f : Future Id α, (f.poll opened).run.gates ⊆ f.gates
  | settled r => by
    rw [poll]
    exact List.Subset.refl _
  | gate id r => by
    rw [poll]
    cases opened id with
    | false => exact List.Subset.refl _
    | true => exact List.nil_subset _
  | andThen source f => by
    have hsource := gates_poll_subset source
    rw [poll_andThen]
    rcases hpolled : (source.poll opened).run with (e | a) | _ | _ | _ <;>
      simp only [hpolled] at hsource ⊢
    · exact List.nil_subset _
    · exact List.nil_subset _
    all_goals exact hsource
  | join items combine => by
    have hitems := gates_pollItems_subset (items.length ≤ shortJoin) true items
    rw [poll_join]
    cases hpolled : (pollItems opened (items.length ≤ shortJoin) true items).run with
    | error e => exact List.nil_subset _
    | ok polled =>
      simp only [joined]
      cases values? polled with
      | some vs => exact List.nil_subset _
      | none => exact hitems polled hpolled

theorem gates_pollItems_subset (short clear : Bool) : ∀ items polled : List (Future Id α),
    (pollItems opened short clear items).run = .ok polled →
      gatesOfItems polled ⊆ gatesOfItems items
  | [], polled, h => by
    obtain rfl : [] = polled := Except.ok.inj h
    exact List.Subset.refl _
  | item :: rest, polled, h => by
    have hitem := gates_poll_subset item
    have hrest := fun clear => gates_pollItems_subset short clear rest
    rw [pollItems_cons] at h
    rcases hpolled : (item.poll opened).run with (e | a) | _ | _ | _ <;>
      simp only [hpolled] at h hitem
    · cases hstop : short || clear with
      | true => simp [hstop] at h
      | false => exact gatesOfItems_subset_cons hitem (hrest false) (by simpa [hstop] using h)
    all_goals exact gatesOfItems_subset_cons hitem (hrest _) h

end

mutual

/-- A future settles at the next poll once all gates that it waits for are open. -/
theorem settled_of_gates_open : ∀ f : Future Id α, (∀ g ∈ f.gates, opened g = true) →
    ∃ r, (f.poll opened).run = settled r
  | settled r, _ => ⟨r, by rw [poll]; rfl⟩
  | gate id r, h => by
    refine ⟨r, ?_⟩
    rw [poll, h id (by simp [gates])]
    rfl
  | andThen source f, h => by
    obtain ⟨r, hr⟩ := settled_of_gates_open source (by simpa [gates] using h)
    rw [poll_andThen, hr]
    cases r with
    | error e => exact ⟨_, rfl⟩
    | ok a => exact ⟨_, rfl⟩
  | join items combine, h => by
    rw [poll_join]
    rcases values_of_gates_open (items.length ≤ shortJoin) items (by simpa [gates] using h) with
      ⟨e, he⟩ | ⟨vs, hvs⟩
    · rw [he]
      exact ⟨_, rfl⟩
    · rw [hvs]
      simp only [joined, values?_eq_some_iff.2 rfl]
      exact ⟨_, rfl⟩

theorem values_of_gates_open (short : Bool) : ∀ items : List (Future Id α),
    (∀ g ∈ gatesOfItems items, opened g = true) →
      (∃ e, (pollItems opened short true items).run = .error e) ∨
      ∃ vs : List α, (pollItems opened short true items).run = .ok (vs.map fun v => settled (.ok v))
  | [], _ => .inr ⟨[], by rw [pollItems]; rfl⟩
  | item :: rest, h => by
    simp only [gatesOfItems, List.mem_append] at h
    obtain ⟨r, hr⟩ := settled_of_gates_open item fun g hg => h g (.inl hg)
    rw [pollItems_cons, hr]
    cases r with
    | error e =>
      refine .inl ⟨e, ?_⟩
      simp
    | ok a =>
      rcases values_of_gates_open short rest fun g hg => h g (.inr hg) with ⟨e, he⟩ | ⟨vs, hvs⟩
      · refine .inl ⟨e, ?_⟩
        simp [hasValue, he, Except.map]
      · refine .inr ⟨a :: vs, ?_⟩
        simp [hasValue, hvs, Except.map]

end

end Poll

end Future

end GenExpr
