import GenExpr.Proofs.Deferred.Promise

/-!
# Polling again

What a poll makes of a future depends only on the gates that the future waits for. A second poll changes
nothing unless a gate has opened in between, and with every gate open a future settles at once to its
outcome, be it a value or an error.
-/

namespace GenExpr.Future

variable {α : Type} (opened opened' : Nat → Bool)

mutual

theorem poll_congr : ∀ f : Future Id α, (∀ g ∈ f.gates, opened g = opened' g) →
    (f.poll opened).run = (f.poll opened').run
  | settled r, _ => by rw [poll, poll]
  | gate id r, h => by
    have hid : opened id = opened' id := h id (by simp [gates])
    rw [poll, poll, hid]
  | andThen source f, h => by
    rw [poll_andThen, poll_andThen, poll_congr source (by simpa [gates] using h)]
  | join items combine, h => by
    rw [poll_join, poll_join, pollItems_congr _ _ items (by simpa [gates] using h)]

theorem pollItems_congr (short clear : Bool) : ∀ items : List (Future Id α),
    (∀ g ∈ gatesOfItems items, opened g = opened' g) →
      (pollItems opened short clear items).run = (pollItems opened' short clear items).run
  | [], _ => by rw [pollItems, pollItems]
  | item :: rest, h => by
    simp only [gatesOfItems, List.mem_append] at h
    have hitem := poll_congr item fun g hg => h g (.inl hg)
    have hrest := fun clear => pollItems_congr short clear rest fun g hg => h g (.inr hg)
    rw [pollItems_cons, pollItems_cons, hitem]
    simp only [hrest]

end

theorem poll_settled (r : Except Error α) : ((settled r : Future Id α).poll opened).run = settled r := by
  rw [poll]
  rfl

theorem exists_of_map_cons_eq_ok {item : Future Id α} {all : List (Future Id α)}
    {more : Except Error (List (Future Id α))} (h : more.map (item :: ·) = .ok all) :
    ∃ rest, more = .ok rest ∧ all = item :: rest := by
  cases more with
  | error e => cases h
  | ok rest => exact ⟨rest, rfl, (Except.ok.inj h).symm⟩

mutual

theorem poll_poll : ∀ f : Future Id α,
    ((f.poll opened).run.poll opened).run = (f.poll opened).run
  | settled r => by rw [poll_settled, poll_settled]
  | gate id r => by
    rw [poll]
    cases hid : opened id with
    | false =>
      rw [if_neg (by simp), Id.run_pure, poll, hid]
      rfl
    | true => exact poll_settled opened r
  | andThen source f => by
    have hsource := poll_poll source
    rw [poll_andThen]
    rcases hpolled : (source.poll opened).run with (e | a) | _ | _ | _ <;>
      simp only [hpolled] at hsource ⊢
    · exact poll_settled opened _
    · exact poll_settled opened _
    all_goals rw [poll_andThen, hsource]
  | join items combine => by
    rw [poll_join]
    cases hpolled : (pollItems opened (items.length ≤ shortJoin) true items).run with
    | error e => exact poll_settled opened _
    | ok polled =>
      obtain ⟨hlength, hagain⟩ := pollItems_again _ true items polled hpolled
      simp only [joined]
      cases hvalues : values? polled with
      | some vs => exact poll_settled opened _
      | none =>
        simp only []
        rw [poll_join, hlength, hagain, joined, hvalues]

theorem pollItems_again (short clear : Bool) : ∀ items polled : List (Future Id α),
    (pollItems opened short clear items).run = .ok polled →
      polled.length = items.length ∧ (pollItems opened short clear polled).run = .ok polled
  | [], polled, h => by
    obtain rfl : [] = polled := Except.ok.inj h
    exact ⟨rfl, h⟩
  | item :: rest, polled, h => by
    have hitem := poll_poll item
    have hrest := fun clear => pollItems_again short clear rest
    rw [pollItems_cons] at h
    rcases hpolled : (item.poll opened).run with (e | a) | _ | _ | _ <;>
      simp only [hpolled] at h hitem
    · cases hstop : short || clear with
      | true => simp [hstop] at h
      | false =>
        rw [hstop] at h
        obtain ⟨more, hmore, rfl⟩ := exists_of_map_cons_eq_ok h
        obtain ⟨hlength, hagain⟩ := hrest false more hmore
        refine ⟨by rw [List.length_cons, hlength, List.length_cons], ?_⟩
        rw [pollItems_cons, hitem]
        simp only [hstop, hagain]
        rfl
    all_goals
      obtain ⟨more, hmore, rfl⟩ := exists_of_map_cons_eq_ok h
      obtain ⟨hlength, hagain⟩ := hrest _ more hmore
      refine ⟨by rw [List.length_cons, hlength, List.length_cons], ?_⟩
      rw [pollItems_cons, hitem]
      simp only [hagain]
      rfl

end

mutual

/-- With every gate open, a future settles to its outcome at the next poll. -/
theorem poll_open : ∀ f : Future Id α, (f.poll fun _ => true).run = settled f.force.run
  | settled r => by rw [poll, force]; rfl
  | gate id r => by rw [poll, force]; rfl
  | andThen source f => by
    rw [poll_andThen, poll_open source, force_andThen]
    cases source.force.run <;> rfl
  | join items combine => by
    rw [poll_join, pollItems_open _ items, force_join]
    cases (forceItems items).run with
    | error e => rfl
    | ok vs =>
      simp only [Except.map, joined, values?_eq_some_iff.2 rfl]

theorem pollItems_open (short : Bool) : ∀ items : List (Future Id α),
    (pollItems (fun _ => true) short true items).run =
      (forceItems items).run.map fun vs => vs.map fun v => settled (.ok v)
  | [] => by rw [pollItems, forceItems]; rfl
  | item :: rest => by
    have hrest := pollItems_open short rest
    rw [pollItems_cons, poll_open item, forceItems_cons]
    cases item.force.run with
    | error e => simp [Except.map]
    | ok a =>
      simp only [Bool.true_and, hasValue, hrest]
      cases (forceItems rest).run <;> rfl

end

end GenExpr.Future
