import GenExpr.Iterate.Run
import GenExpr.Proofs.Action
import GenExpr.Proofs.Deferred.Join

/-!
# The first error of combined draws

Arrays, repetitions and rows combine draws into one. If they combine few enough, the error of the first
of them to fail ends the combined draw at the next poll, whatever the others still wait for. If they
combine more, that error has to wait its turn: it ends the combined draw once all draws before it have
values.
-/

namespace GenExpr

namespace Future

variable {α : Type}

theorem follow_append_of_settled {f : Future Id α} {r : Except Error α} {events : List Event}
    {opened : List Nat} (h : f.follow events opened = settled r) (later : List Event) :
    f.follow (events ++ later) opened = settled r := by
  induction events generalizing f opened with
  | nil =>
    obtain rfl : f = settled r := h
    exact settled_follow r later opened
  | cons event rest ih =>
    cases event with
    | opening gate => exact ih h
    | polling => exact ih h

/-- An item of a long list that has not settled keeps every later error from counting. -/
theorem blamed_of_unsettled {front : List (Future Id α)} {item : Future Id α}
    (hfront : ∀ f ∈ front, ∀ e, f ≠ settled (.error e)) (hitem : item.outcome? = none)
    (back : List (Future Id α)) : blamed false (front ++ item :: back) = none := by
  induction front with
  | nil =>
    have hvalue : item.hasValue = false := by
      rcases item with (e | a) | _ | _ | _ <;> simp_all [outcome?, hasValue]
    have herror : ∀ e, item ≠ settled (.error e) := by
      rintro e rfl
      cases hitem
    rw [List.nil_append, blamed_cons herror, hvalue]
    rfl
  | cons f front ih =>
    obtain ⟨hf, hfront⟩ := List.forall_mem_cons.1 hfront
    rw [List.cons_append, blamed_cons hf, ih hfront, ite_self]

end Future

namespace Deferred

variable {α : Type}

/-- In a course of events that ends with a poll, an item is the only one to have failed. -/
structure OnlyFailure (front : List (Deferred Id α)) (item : Deferred Id α) (back : List (Deferred Id α))
    (opened : List Nat) (events : List Event) (e : Error) : Prop where
  failed : item.after opened (events ++ [.polling]) = some (.error e)
  alone : ∀ other ∈ front ++ back, ∀ e', other.after opened (events ++ [.polling]) ≠ some (.error e')

/-- A combined deferred value fails as soon as one of its items has: once it is polled after that, it has
failed with the error of that item, and stays so. -/
def FailsFast (items : List (Deferred Id α)) (d : Deferred Id α) : Prop :=
  ∀ front item back, items = front ++ item :: back → ∀ opened events e,
    OnlyFailure front item back opened events e →
    ∀ later, d.after opened (events ++ .polling :: later) = some (.error e)

/-- A combined deferred value fails in turn: with the error of an item when all items before it have
values, and not while one of those has not settled. -/
def FailsInTurn (items : List (Deferred Id α)) (d : Deferred Id α) : Prop :=
  ∀ front item back, items = front ++ item :: back → ∀ opened events,
    (∀ e, item.after opened (events ++ [.polling]) = some (.error e) →
      (∀ other ∈ front, ∃ a, other.after opened (events ++ [.polling]) = some (.ok a)) →
      ∀ later, d.after opened (events ++ .polling :: later) = some (.error e)) ∧
    (item.after opened events = none →
      (∀ other ∈ front, ∀ e, other.after opened events ≠ some (.error e)) →
      d.after opened events = none)

/-- How the errors of items end what they are combined to. The first error counts at once just when the
items are few or all before it have values. -/
structure FailsWith (items : List (Deferred Id α)) (d : Deferred Id α) : Prop where
  short : items.length ≤ Future.shortJoin → FailsFast items d
  long : Future.shortJoin < items.length → FailsInTurn items d
  at_once_iff : ∀ front item back, items = front ++ item :: back → ∀ opened events e,
    OnlyFailure front item back opened events e →
    (d.after opened (events ++ [.polling]) = some (.error e) ↔
      items.length ≤ Future.shortJoin ∨
        ∀ other ∈ front, ∃ a, other.after opened (events ++ [.polling]) = some (.ok a))

section After

variable {d : Deferred Id α} {opened : List Nat} {events : List Event}

theorem after_append {r : Except Error α} (h : d.after opened events = some r)
    (later : List Event) : d.after opened (events ++ later) = some r := by
  rw [after, Future.follow_append_of_settled (Future.outcome?_eq_some h)]
  rfl

theorem after_polling {r : Except Error α} (h : d.after opened (events ++ [.polling]) = some r)
    (later : List Event) : d.after opened (events ++ .polling :: later) = some r := by
  rw [← List.singleton_append, ← List.append_assoc]
  exact after_append h later

end After

section All

variable {combine : List α → α} {items : List (Deferred Id α)} {opened : List Nat}
  {events : List Event} {e : Error}

/-- In a short list no error is left waiting. -/
theorem not_failed_of_waiting (hshort : items.length ≤ Future.shortJoin)
    (h : (all combine items).after opened (events ++ [.polling]) = none) {d : Deferred Id α}
    (hd : d ∈ items) : d.after opened (events ++ [.polling]) ≠ some (.error e) := by
  intro hfailed
  have hnone := (waiting_all h).1
  obtain ⟨front, back, rfl⟩ := List.append_of_mem hd
  rw [decide_eq_true hshort, List.map_append, List.map_cons, Future.outcome?_eq_some hfailed] at hnone
  obtain ⟨d, hsome⟩ := Future.exists_blamed_of_short
    (front.map fun d => d.toFuture.follow (events ++ [.polling]) opened) e
    (back.map fun d => d.toFuture.follow (events ++ [.polling]) opened)
  rw [hnone] at hsome
  cases hsome

/-- The error that ends a long list is the one that counts. -/
theorem blamed_of_all (hlong : Future.shortJoin < items.length)
    (h : (all combine items).after opened events = some (.error e)) :
    Future.blamed false (items.map fun d => d.toFuture.follow events opened) = some e := by
  have hjoining := joining_all combine items opened events
  rw [Future.outcome?_eq_some h, decide_eq_false (Nat.not_le.2 hlong)] at hjoining
  cases hjoining with
  | failed hblames =>
    obtain ⟨⟨back, hnow⟩, hbefore⟩ := hblames
    rw [hnow]
    exact Future.blamed_of_hasValue (hbefore rfl) e back

end All

theorem failsFast_all (combine : List α → α) {items : List (Deferred Id α)}
    (hshort : items.length ≤ Future.shortJoin) : FailsFast items (all combine items) := by
  rintro front item back heq opened events e ⟨he, hothers⟩ later
  have hmem : item ∈ items := heq ▸ List.mem_append_right front List.mem_cons_self
  apply after_polling
  cases hout : (all combine items).after opened (events ++ [.polling]) with
  | none => exact absurd he (not_failed_of_waiting hshort hout hmem)
  | some r =>
    cases r with
    | ok v =>
      obtain ⟨a, ha⟩ := exists_value_of_all hout hmem
      rw [ha] at he
      cases he
    | error e' =>
      -- Some item has failed with this error, and no other than this one has failed.
      obtain ⟨d, hd, hfailed⟩ := exists_failed_of_all hout
      rw [heq, List.mem_append, List.mem_cons, or_left_comm, ← List.mem_append] at hd
      rcases hd with rfl | hd
      · rw [← hfailed, he]
      · exact absurd hfailed (hothers d hd e')

theorem failsInTurn_all (combine : List α → α) {items : List (Deferred Id α)}
    (hlong : Future.shortJoin < items.length) : FailsInTurn items (all combine items) := by
  rintro front item back heq opened events
  have hmem : item ∈ items := heq ▸ List.mem_append_right front List.mem_cons_self
  constructor
  · intro e he hvalues later
    apply after_polling
    have hcounts : Future.blamed false
        (items.map fun d => d.toFuture.follow (events ++ [.polling]) opened) = some e := by
      rw [heq, List.map_append, List.map_cons, Future.outcome?_eq_some he]
      apply Future.blamed_of_hasValue
      intro f hf
      obtain ⟨d, hd, rfl⟩ := List.mem_map.1 hf
      obtain ⟨a, ha⟩ := hvalues d hd
      rw [Future.outcome?_eq_some ha]
      rfl
    cases hout : (all combine items).after opened (events ++ [.polling]) with
    | none =>
      have hnone := (waiting_all hout).1
      rw [decide_eq_false (Nat.not_le.2 hlong), hcounts] at hnone
      cases hnone
    | some r =>
      cases r with
      | ok v =>
        obtain ⟨a, ha⟩ := exists_value_of_all hout hmem
        rw [ha] at he
        cases he
      | error e' =>
        rw [blamed_of_all hlong hout] at hcounts
        rw [Option.some.inj hcounts]
  · intro hitem hfront
    cases hout : (all combine items).after opened events with
    | none => rfl
    | some r =>
      cases r with
      | ok v =>
        obtain ⟨a, ha⟩ := exists_value_of_all hout hmem
        rw [ha] at hitem
        cases hitem
      | error e =>
        have hcounts := blamed_of_all hlong hout
        rw [heq, List.map_append, List.map_cons, Future.blamed_of_unsettled _ hitem] at hcounts
        · cases hcounts
        · intro f hf e' herror
          obtain ⟨d, hd, rfl⟩ := List.mem_map.1 hf
          apply hfront d hd e'
          rw [after, herror]
          rfl

/-- An error that counts at once in a long list leaves no item before it unsettled. -/
theorem exists_value_of_failsInTurn {items front back : List (Deferred Id α)} {item d : Deferred Id α}
    {opened : List Nat} {events : List Event} {e : Error} (hd : FailsInTurn items d)
    (heq : items = front ++ item :: back) (hfailure : OnlyFailure front item back opened events e)
    (h : d.after opened (events ++ [.polling]) = some (.error e)) {other : Deferred Id α}
    (hother : other ∈ front) : ∃ a, other.after opened (events ++ [.polling]) = some (.ok a) := by
  obtain ⟨before, between, rfl⟩ := List.append_of_mem hother
  have hsplit : items = before ++ other :: (between ++ item :: back) := by
    rw [heq, List.append_assoc, List.cons_append]
  cases hout : other.after opened (events ++ [.polling]) with
  | none =>
    have hwaiting := (hd before other _ hsplit opened (events ++ [.polling])).2 hout fun f hf =>
      hfailure.alone f (List.mem_append_left _ (List.mem_append_left _ hf))
    rw [hwaiting] at h
    cases h
  | some r =>
    cases r with
    | error e' => exact absurd hout (hfailure.alone other (List.mem_append_left _ hother) e')
    | ok a => exact ⟨a, rfl⟩

theorem failsWith_all (combine : List α → α) (items : List (Deferred Id α)) :
    FailsWith items (all combine items) where
  short := failsFast_all combine
  long := failsInTurn_all combine
  at_once_iff := by
    intro front item back heq opened events e hfailure
    constructor
    · intro h
      rcases Nat.lt_or_ge Future.shortJoin items.length with hlong | hshort
      · exact .inr fun other hother =>
          exists_value_of_failsInTurn (failsInTurn_all combine hlong) heq hfailure h hother
      · exact .inl hshort
    · intro h
      rcases Nat.lt_or_ge Future.shortJoin items.length with hlong | hshort
      · have hvalues := h.resolve_left (Nat.not_le.2 hlong)
        have hturn := failsInTurn_all combine hlong front item back heq opened events
        exact hturn.1 e hfailure.failed hvalues []
      · exact failsFast_all combine hshort front item back heq opened events e hfailure []

theorem after_gate (id gate : Nat) (r : Except Error α) :
    (pending (.gate id r) : Deferred Id α).after [] [.opening gate, .polling] =
      if id = gate then some r else none := by
  have hcontains : [gate].contains id = decide (id = gate) := by simp
  rw [after, toFuture, Future.follow, Future.follow, Future.poll, hcontains]
  by_cases h : id = gate
  · rw [decide_eq_true h, if_pos h]
    rfl
  · rw [decide_eq_false h, if_neg h]
    rfl

end Deferred

namespace Iterate

theorem row_eq_all {nodes : List Node} (h : nodes.length ≠ 1) :
    row nodes = Deferred.all .array <$> DrawM.sequence (nodes.map fun n => n.source.draw) := by
  match nodes with
  | [] => rfl
  | [n] => exact absurd rfl h
  | _ :: _ :: _ => rfl

/-- How the error of a draw ends what it is combined to: deferred values of any kind, the draws of an
array or a repetition, and those of a row of several nodes. -/
theorem combined_draws_fail_with_first_error (α : Type) (combine : List α → α)
    (items : List (Deferred Id α)) :
    Deferred.FailsWith items (.all combine items) ∧
    (∀ sources s ds s', Returns (DrawM.sequence (Source.draws sources)) s ds s' →
      ∃ d, Returns (Source.array sources).draw s d s' ∧ Deferred.FailsWith ds d) ∧
    (∀ count inner s ds s', Returns (DrawM.repeated (Source.draw inner) count) s ds s' →
      ∃ d, Returns (Source.times count inner).draw s d s' ∧ Deferred.FailsWith ds d) ∧
    ∀ nodes : List Node, nodes.length ≠ 1 → ∀ s ds s',
      Returns (DrawM.sequence (nodes.map fun n => n.source.draw)) s ds s' →
      ∃ d, Returns (row nodes) s d s' ∧ Deferred.FailsWith ds d := by
  refine ⟨Deferred.failsWith_all combine items, ?_, ?_, ?_⟩
  · intro sources s ds s' h
    rw [Source.draw]
    exact ⟨_, returns_map.2 ⟨ds, h, rfl⟩, Deferred.failsWith_all _ ds⟩
  · intro count inner s ds s' h
    rw [Source.draw]
    exact ⟨_, returns_map.2 ⟨ds, h, rfl⟩, Deferred.failsWith_all _ ds⟩
  · intro nodes hnodes s ds s' h
    rw [row_eq_all hnodes]
    exact ⟨_, returns_map.2 ⟨ds, h, rfl⟩, Deferred.failsWith_all _ ds⟩

/-- The second of thirty-one draws has failed, and the array of them still waits for the first. -/
theorem thirty_one_draws_fail_late :
    let items : List Draw := (List.range 31).map fun id =>
      .pending (.gate id (if id = 1 then .error (.custom (.words "bad")) else .ok (.int 1)))
    ¬Deferred.FailsFast items (.all .array items) := by
  intro items hfast
  let item (id : Nat) : Draw :=
    .pending (.gate id (if id = 1 then .error (.custom (.words "bad")) else .ok (.int 1)))
  let back := (List.range' 2 29).map item
  have hitems : items = item 0 :: item 1 :: back := rfl
  have hothers : ∀ other ∈ [item 0] ++ back, ∀ e,
      other.after [] [.opening 1, .polling] ≠ some (.error e) := by
    intro other hother e
    have hid : ∃ id ≠ 1, item id = other := by
      rcases List.mem_append.1 hother with h | h
      · exact ⟨0, Nat.zero_ne_one, (List.mem_singleton.1 h).symm⟩
      · obtain ⟨id, hid, rfl⟩ := List.mem_map.1 h
        have hle := (List.mem_range'_1.1 hid).1
        exact ⟨id, by omega, rfl⟩
    obtain ⟨id, hne, rfl⟩ := hid
    rw [Deferred.after_gate, if_neg hne]
    intro h
    cases h
  have hfailed := hfast [item 0] (item 1) back hitems [] [.opening 1] (.custom (.words "bad"))
    ⟨Deferred.after_gate 1 1 _, hothers⟩ []
  have hlate := Deferred.failsInTurn_all .array (by decide) [] (item 0) (item 1 :: back) hitems []
    [.opening 1, .polling]
  have hwaiting := hlate.2 (Deferred.after_gate 0 1 _) fun _ h => absurd h List.not_mem_nil
  rw [List.singleton_append, hwaiting] at hfailed
  cases hfailed

end Iterate

end GenExpr
