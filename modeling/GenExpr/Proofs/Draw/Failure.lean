import GenExpr.Proofs.Deferred.Failure
import GenExpr.Proofs.Draw.Order
import GenExpr.Proofs.Iterate.Modes
import GenExpr.Proofs.Session.Registrations

/-!
# Draws that fail

Where several draws are made one after another, the first that fails ends them: those before it have been
made, those after it have not, and its error is the error of the whole. So an error passes as it is through
everything that combines draws, and what is drawn next goes on from the state that the failed draw left
behind. The error of a future is in the same way the error of what the future is combined to, if nothing
else fails.
-/

namespace GenExpr

open List (Forall₂)

/-- The error of an act that fails at once. -/
def Act.failure? : Act → Option Error
  | drew _ (.fail e) => some e
  | _ => none

/-- The last act is the draw of a leaf that fails with an error, and none fails before. -/
def Act.EndIn (acts : List Act) (e : Error) : Prop :=
  ∃ earlier id, acts = earlier ++ [.drew id (.fail e)] ∧ ∀ a ∈ earlier, a.failure? = none

theorem Act.EndIn.append {acts : List Act} {e : Error} (h : EndIn acts e) {earlier : List Act}
    (hearlier : ∀ a ∈ earlier, a.failure? = none) : EndIn (earlier ++ acts) e := by
  obtain ⟨before, id, rfl, hbefore⟩ := h
  exact ⟨earlier ++ before, id, (List.append_assoc ..).symm, List.forall_mem_append.2 ⟨hearlier, hbefore⟩⟩

/-- The error of the future that an act begins. -/
def Act.rejection? : Act → Option Error
  | drew _ (.settled (.error e)) => some e
  | drew _ (.gated (.error e)) => some e
  | _ => none

/-- The errors of the futures that acts begin, in order. -/
def Act.rejections (acts : List Act) : List Error := acts.filterMap rejection?

theorem Act.rejections_append (acts others : List Act) :
    rejections (acts ++ others) = rejections acts ++ rejections others := List.filterMap_append

namespace Source

/-- Of several draws the one at a place is the first that fails: those before it are made, then it fails,
and nothing more is done. -/
def StopsAt (items : List Source) (place : Nat) (s : DrawState) (acts : List Act) (e : Error)
    (s' : DrawState) : Prop :=
  ∃ src earlier last ds t, items[place]? = some src ∧
    PerformsAll (items.take place) s earlier (.ok ds) t ∧ src.Performs t last (.error e) s' ∧
    earlier ++ last = acts

/-- How a draw fails, by what its source is made of. -/
def FailsBy : Source → DrawState → List Act → Error → DrawState → Prop
  | text inner, s, acts, e, s' => inner.Performs s acts (.error e) s'
  | oneOf first others, s, acts, e, s' => ∃ (i : Fin (others.length + 1)) (t : DrawState) (rest : List Act),
    Returns (DrawM.sample (Sampling.index (others.length + 1) (Nat.succ_pos _))) s i t ∧
    ((first :: others).get i).Performs t rest (.error e) s' ∧ acts = .chose i :: rest
  | array items, s, acts, e, s' => ∃ place, StopsAt items place s acts e s'
  | times count inner, s, acts, e, s' => ∃ place, StopsAt (List.replicate count inner) place s acts e s'
  | leaf id l, s, acts, e, s' => acts = [.drew id (.fail e)] ∧ Ends (l.drawAs id) s (.error e) s'
  | adapted inner f, s, acts, e, s' => inner.Performs s acts (.error e) s' ∨
    ∃ d, inner.Performs s acts (.ok d) s' ∧ Deferred.andThen (m := Id) f d = .error e
  | _, _, _, _, _ => False

section Stops

variable {src : Source} {items rest : List Source} {s s' : DrawState} {acts : List Act} {e : Error}

theorem performsAll_cons_iff {q : Except Error (List Draw)} :
    PerformsAll (src :: rest) s acts q s' ↔
      (∃ e, src.Performs s acts (.error e) s' ∧ q = .error e) ∨
      ∃ as d t bs r, src.Performs s as (.ok d) t ∧ PerformsAll rest t bs r s' ∧ as ++ bs = acts ∧
        r.map (d :: ·) = q := by
  constructor
  · intro h
    cases h with
    | stop failed => exact .inl ⟨_, failed, rfl⟩
    | cons performed more => exact .inr ⟨_, _, _, _, _, performed, more, rfl, rfl⟩
  · rintro (⟨e, failed, rfl⟩ | ⟨as, d, t, bs, r, performed, more, rfl, rfl⟩)
    · exact .stop failed
    · exact .cons performed more

/-- Draws that are made one after another fail by the first of them that fails. -/
theorem performsAll_error_iff :
    PerformsAll items s acts (.error e) s' ↔ ∃ place, StopsAt items place s acts e s' := by
  induction items generalizing s acts with
  | nil =>
    constructor
    · intro h
      cases h
    · intro h
      obtain ⟨place, src, _, _, _, _, hsrc, -⟩ := h
      cases hsrc
  | cons src rest ih =>
    rw [performsAll_cons_iff]
    constructor
    · rintro (⟨d, failed, heq⟩ | ⟨as, d, t, bs, r, performed, more, rfl, heq⟩)
      · obtain rfl : e = d := Except.error.inj heq
        exact ⟨0, src, [], acts, [], s, rfl, .nil s, failed, rfl⟩
      · obtain rfl := Except.map_eq_error_iff.1 heq
        obtain ⟨place, src', earlier, last, ds, u, hsrc, hearlier, failed, rfl⟩ := ih.1 more
        exact ⟨place + 1, src', as ++ earlier, last, d :: ds, u, hsrc, .cons performed hearlier, failed,
          List.append_assoc ..⟩
    · intro h
      obtain ⟨place, src', earlier, last, ds, u, hsrc, hearlier, failed, rfl⟩ := h
      cases place with
      | zero =>
        obtain rfl : src = src' := Option.some.inj hsrc
        cases hearlier
        exact .inl ⟨e, failed, rfl⟩
      | succ place =>
        rw [List.take_succ_cons, performsAll_cons_iff] at hearlier
        rcases hearlier with ⟨_, -, heq⟩ | ⟨as, d, t, bs, r, performed, more, rfl, heq⟩
        · cases heq
        · obtain ⟨ds', rfl, -⟩ := Except.map_eq_ok_iff.1 heq
          refine .inr ⟨as, d, t, bs ++ last, .error e, performed, ?_, (List.append_assoc ..).symm, rfl⟩
          exact ih.2 ⟨place, src', bs, last, ds', u, hsrc, more, failed, rfl⟩

theorem performsAll_singleton_iff :
    PerformsAll [src] s acts (.error e) s' ↔ src.Performs s acts (.error e) s' := by
  rw [performsAll_cons_iff]
  constructor
  · rintro (⟨d, failed, heq⟩ | ⟨as, d, t, bs, r, performed, more, rfl, heq⟩)
    · obtain rfl := Except.error.inj heq
      exact failed
    · cases more
      cases heq
  · intro h
    exact .inl ⟨e, h, rfl⟩

/-- Draws that have not been made leave their leaves as they are. -/
theorem StopsAt.tally_eq {place : Nat} (h : StopsAt items place s acts e s') (hids : (idsOfAll items).Nodup)
    {item : Source} (hitem : item ∈ items.drop (place + 1)) {id : Nat} (hid : id ∈ item.ids) :
    s'.tally id = s.tally id := by
  obtain ⟨src, earlier, last, ds, t, hsrc, hearlier, failed, hacts⟩ := h
  have hmade : PerformsAll (items.take (place + 1)) s acts (.error e) s' := by
    refine performsAll_error_iff.2 ⟨place, src, earlier, last, ds, t, ?_, ?_, failed, hacts⟩
    · rw [List.getElem?_take_of_lt (Nat.lt_succ_self place), hsrc]
    · rwa [List.take_take, Nat.min_eq_left (Nat.le_succ place)]
  rw [← List.take_append_drop (place + 1) items, idsOfAll_append] at hids
  apply hmade.tally_eq
  intro hmem
  exact (List.nodup_append'.1 hids).2.2 hmem (mem_idsOfAll.2 ⟨item, hitem, hid⟩)

theorem performs_error_iff : src.Performs s acts (.error e) s' ↔ src.FailsBy s acts e s' := by
  constructor
  · intro h
    generalize hq : Except.error e = q at h
    cases h with
    | basic simple sampled =>
      obtain ⟨v, entropy, rfl, -⟩ := exists_of_basic simple sampled
      cases hq
    | leaf drawn =>
      subst hq
      rw [draw_eq_fail drawn]
      exact ⟨rfl, drawn⟩
    | text performed =>
      obtain rfl := Except.map_eq_error_iff.1 hq.symm
      exact performed
    | oneOf chosen performed =>
      subst hq
      exact ⟨_, _, _, chosen, performed, rfl⟩
    | array performed =>
      obtain rfl := Except.map_eq_error_iff.1 hq.symm
      exact performsAll_error_iff.1 performed
    | times performed =>
      obtain rfl := Except.map_eq_error_iff.1 hq.symm
      exact performsAll_error_iff.1 performed
    | @adapted _ _ _ _ _ r performed =>
      cases r with
      | error d =>
        obtain rfl : e = d := Except.error.inj hq
        exact .inl performed
      | ok d => exact .inr ⟨d, performed, hq.symm⟩
  · intro h
    cases src with
    | text inner => exact .text h
    | oneOf first others =>
      obtain ⟨i, t, rest, chosen, performed, rfl⟩ := h
      exact .oneOf chosen performed
    | array items => exact .array (performsAll_error_iff.2 h)
    | times count inner => exact .times (performsAll_error_iff.2 h)
    | leaf id l =>
      obtain ⟨rfl, drawn⟩ := h
      rw [← draw_eq_fail drawn]
      exact .leaf drawn
    | adapted inner f =>
      rcases h with performed | ⟨d, performed, hf⟩
      · exact .adapted performed
      · rw [← hf]
        exact .adapted performed
    | _ => cases h

end Stops

theorem adapts_get {first : Source} {others : List Source} (h : (oneOf first others).adapts = false)
    (i : Fin (others.length + 1)) : ((first :: others).get i).adapts = false := by
  have hall : anyPartOfAll isAdapted (first :: others) = false := h
  exact anyPartOfAll_eq_false_iff.1 hall _ (List.get_mem (first :: others) i)

mutual

theorem Performs.no_failure {src : Source} {s s' : DrawState} {acts : List Act} {r : Except Error Draw} :
    Performs src s acts r s' → r.isOk = true → ∀ a ∈ acts, a.failure? = none
  | .basic _ _, _ => List.forall_mem_singleton.2 rfl
  | .leaf drawn, hok => by
    refine List.forall_mem_singleton.2 ?_
    have hgives := (ends_drawAs drawn).1
    generalize Leaf.draw _ _ = what at hgives ⊢
    cases hgives with
    | fail e => cases hok
    | _ => rfl
  | .text performed, hok => performed.no_failure (by rwa [Except.isOk_map] at hok)
  | .oneOf _ performed, hok => List.forall_mem_cons.2 ⟨rfl, performed.no_failure hok⟩
  | .array performed, hok => performed.no_failure (by rwa [Except.isOk_map] at hok)
  | .times performed, hok => performed.no_failure (by rwa [Except.isOk_map] at hok)
  | .adapted performed, hok => performed.no_failure (Except.isOk_of_isOk_bind hok)

theorem PerformsAll.no_failure {items : List Source} {s s' : DrawState} {acts : List Act}
    {r : Except Error (List Draw)} :
    PerformsAll items s acts r s' → r.isOk = true → ∀ a ∈ acts, a.failure? = none
  | .nil _, _ => List.forall_mem_nil _
  | .stop _, hok => by cases hok
  | .cons performed more, hok =>
    List.forall_mem_append.2 ⟨performed.no_failure rfl, more.no_failure (by rwa [Except.isOk_map] at hok)⟩

end

mutual

/-- Where no function is handed draws, a draw fails with the error of the leaf that it draws last. -/
theorem Performs.endIn {src : Source} {s s' : DrawState} {acts : List Act} {r : Except Error Draw}
    {e : Error} : Performs src s acts r s' → r = .error e → src.adapts = false → Act.EndIn acts e
  | .basic simple sampled, hr, _ => by
    obtain ⟨v, entropy, rfl, -⟩ := exists_of_basic simple sampled
    cases hr
  | .leaf drawn, hr, _ => by
    subst hr
    rw [draw_eq_fail drawn]
    exact ⟨[], _, rfl, List.forall_mem_nil _⟩
  | .text performed, hr, hno => performed.endIn (Except.map_eq_error_iff.1 hr) hno
  | .oneOf (i := i) _ performed, hr, hno =>
    (performed.endIn hr (adapts_get hno i)).append (List.forall_mem_singleton.2 rfl)
  | .array performed, hr, hno => performed.endIn (Except.map_eq_error_iff.1 hr) hno
  | .times performed, hr, hno => by
    exact performed.endIn (Except.map_eq_error_iff.1 hr) (anyPartOfAll_replicate hno)
  | .adapted _, _, hno => by cases hno

theorem PerformsAll.endIn {items : List Source} {s s' : DrawState} {acts : List Act}
    {r : Except Error (List Draw)} {e : Error} :
    PerformsAll items s acts r s' → r = .error e → anyPartOfAll isAdapted items = false → Act.EndIn acts e
  | .nil _, hr, _ => by cases hr
  | .stop failed, hr, hno => by
    rw [anyPartOfAll, Bool.or_eq_false_iff] at hno
    obtain rfl := Except.error.inj hr
    exact failed.endIn rfl hno.1
  | .cons performed more, hr, hno => by
    rw [anyPartOfAll, Bool.or_eq_false_iff] at hno
    exact (more.endIn (Except.map_eq_error_iff.1 hr) hno.2).append (performed.no_failure rfl)

end

end Source

/-- A draw that is there, or a future that promises a value. -/
def Draw.Sound (d : Draw) : Prop := ∃ v, d.toFuture.Promises v

/-- Without errors of futures a draw is sound, and with one error alone it fails with it. -/
def Draw.Expected (e : Error) (errors : List Error) (d : Draw) : Prop :=
  (errors = [] → d.Sound) ∧ (errors ≠ [] → d.RejectsWith e)

/-- As `Expected`, for draws that are made one after another. -/
def Draw.AllExpected (e : Error) (errors : List Error) (ds : List Draw) : Prop :=
  (errors = [] → ∀ d ∈ ds, d.Sound) ∧
    (errors ≠ [] → (∃ d ∈ ds, d.RejectsWith e) ∧ ∀ d ∈ ds, d.RejectsWith e ∨ d.Sound)

namespace Draw

variable {e : Error} {errors others : List Error} {d : Draw} {ds : List Draw}

theorem Expected.map (h : Expected e errors d) (f : Value → Value) : Expected e errors (d.map f) := by
  refine ⟨fun hnone => ?_, fun hsome => (h.2 hsome).map f⟩
  obtain ⟨v, hv⟩ := h.1 hnone
  exact ⟨f v, Deferred.promises_map hv f⟩

theorem sound_all (h : ∀ d ∈ ds, d.Sound) (combine : List Value → Value) :
    Sound (.all combine ds) := by
  have hvs : ∃ vs, Forall₂ (fun d v => d.toFuture.Promises v) ds vs := by
    induction ds with
    | nil => exact ⟨[], .nil⟩
    | cons d rest ih =>
      obtain ⟨⟨v, hv⟩, hrest⟩ := List.forall_mem_cons.1 h
      obtain ⟨vs, hvs⟩ := ih hrest
      exact ⟨v :: vs, .cons hv hvs⟩
  obtain ⟨vs, hvs⟩ := hvs
  exact ⟨combine vs, Deferred.promises_all hvs combine⟩

theorem AllExpected.all (h : AllExpected e errors ds) (combine : List Value → Value) :
    Expected e errors (.all combine ds) := by
  refine ⟨fun hnone => sound_all (h.1 hnone) combine, fun hsome => ?_⟩
  obtain ⟨hfails, hall⟩ := h.2 hsome
  exact Deferred.rejectsWith_all hfails hall combine

theorem AllExpected.cons (h : Expected e errors d) (h' : AllExpected e others ds) :
    AllExpected e (errors ++ others) (d :: ds) := by
  have heither : d.RejectsWith e ∨ d.Sound := (em (errors = [])).symm.imp h.2 h.1
  have hothers : ∀ d ∈ ds, d.RejectsWith e ∨ d.Sound := by
    by_cases hnone : others = []
    · exact fun d hd => .inr (h'.1 hnone d hd)
    · exact (h'.2 hnone).2
  constructor
  · intro hnone
    obtain ⟨herrors, hnone⟩ := List.append_eq_nil_iff.1 hnone
    exact List.forall_mem_cons.2 ⟨h.1 herrors, h'.1 hnone⟩
  · intro hsome
    refine ⟨?_, List.forall_mem_cons.2 ⟨heither, hothers⟩⟩
    by_cases herrors : errors = []
    · rw [herrors, List.nil_append] at hsome
      obtain ⟨d', hd', hfails⟩ := (h'.2 hsome).1
      exact ⟨d', List.mem_cons_of_mem d hd', hfails⟩
    · exact ⟨d, List.mem_cons_self, h.2 herrors⟩

theorem expected_of_gives {id : Nat} {what : LeafDraw} (h : what.Gives (.ok d))
    (herrors : ∀ d ∈ Act.rejections [.drew id what], d = e) :
    Expected e (Act.rejections [.drew id what]) d := by
  have hsound : ∀ {d : Draw} {v : Value}, d.toFuture.Promises v → Expected e [] d :=
    fun hv => ⟨fun _ => ⟨_, hv⟩, fun hsome => absurd rfl hsome⟩
  cases h with
  | ready v => exact hsound (v := v) rfl
  | settled outcome =>
    cases outcome with
    | ok v => exact hsound (v := v) rfl
    | error e' =>
      obtain rfl : e' = e := herrors e' List.mem_cons_self
      exact ⟨fun hnone => absurd hnone (List.cons_ne_nil _ _), fun _ => Deferred.rejectsWith_settled e'⟩
  | gated outcome gate =>
    cases outcome with
    | ok v => exact hsound (v := v) rfl
    | error e' =>
      obtain rfl : e' = e := herrors e' List.mem_cons_self
      exact ⟨fun hnone => absurd hnone (List.cons_ne_nil _ _), fun _ => Deferred.rejectsWith_gate gate e'⟩

end Draw

namespace Source

mutual

/-- Where no function is handed draws, a future that fails is the only reason for a draw to fail later. -/
theorem Performs.expected {src : Source} {s s' : DrawState} {acts : List Act} {r : Except Error Draw}
    {e : Error} : Performs src s acts r s' → ∀ d, r = .ok d → src.adapts = false →
      (∀ e' ∈ Act.rejections acts, e' = e) → Draw.Expected e (Act.rejections acts) d
  | .basic simple sampled, d, hr, _, _ => by
    obtain ⟨v, entropy, hv, -⟩ := exists_of_basic simple sampled
    obtain rfl : d = .ready v := Except.ok.inj (hr.symm.trans hv)
    exact ⟨fun _ => ⟨v, rfl⟩, fun hsome => absurd rfl hsome⟩
  | .leaf drawn, d, hr, _, herrors => by
    subst hr
    exact Draw.expected_of_gives (ends_drawAs drawn).1 herrors
  | .text performed, d, hr, hno, herrors => by
    obtain ⟨d', hd', rfl⟩ := Except.map_eq_ok_iff.1 hr
    exact (performed.expected d' hd' hno herrors).map _
  | .oneOf (i := i) _ performed, d, hr, hno, herrors => performed.expected d hr (adapts_get hno i) herrors
  | .array performed, d, hr, hno, herrors => by
    obtain ⟨ds, hds, rfl⟩ := Except.map_eq_ok_iff.1 hr
    exact (performed.expected ds hds hno herrors).all _
  | .times performed, d, hr, hno, herrors => by
    obtain ⟨ds, hds, rfl⟩ := Except.map_eq_ok_iff.1 hr
    exact (performed.expected ds hds (anyPartOfAll_replicate hno) herrors).all _
  | .adapted _, _, _, hno, _ => by cases hno

theorem PerformsAll.expected {items : List Source} {s s' : DrawState} {acts : List Act}
    {r : Except Error (List Draw)} {e : Error} : PerformsAll items s acts r s' → ∀ ds, r = .ok ds →
      anyPartOfAll isAdapted items = false → (∀ e' ∈ Act.rejections acts, e' = e) →
      Draw.AllExpected e (Act.rejections acts) ds
  | .nil _, ds, hr, _, _ => by
    obtain rfl := Except.ok.inj hr
    exact ⟨fun _ => List.forall_mem_nil _, fun hsome => absurd rfl hsome⟩
  | .stop _, _, hr, _, _ => by cases hr
  | .cons performed more, ds, hr, hno, herrors => by
    rw [anyPartOfAll, Bool.or_eq_false_iff] at hno
    rw [Act.rejections_append] at herrors ⊢
    obtain ⟨hfirst, hmore⟩ := List.forall_mem_append.1 herrors
    obtain ⟨ds', hds', rfl⟩ := Except.map_eq_ok_iff.1 hr
    exact .cons (performed.expected _ rfl hno.1 hfirst) (more.expected ds' hds' hno.2 hmore)

end

end Source

namespace Iterate

theorem raises_row_iff {ns : List Node} {s s' : DrawState} {e : Error} : Raises (row ns) s e s' ↔
    ∃ place acts, Source.StopsAt (ns.map Node.source) place s acts e s' := by
  have hends : Raises (row ns) s e s' ↔ ∃ acts, (rowSource ns).Performs s acts (.error e) s' := by
    rw [row_eq_draw]
    exact Source.ends_draw_iff
  have hrow : ∀ acts, (rowSource ns).Performs s acts (.error e) s' ↔
      Source.PerformsAll (ns.map Node.source) s acts (.error e) s' := by
    intro acts
    have harray : ∀ items, (Source.array items).Performs s acts (.error e) s' ↔
        Source.PerformsAll items s acts (.error e) s' := by
      intro items
      rw [Source.performs_error_iff, Source.FailsBy, Source.performsAll_error_iff]
    rcases ns with _ | ⟨n, _ | ⟨n', rest⟩⟩
    · exact harray []
    · exact Source.performsAll_singleton_iff.symm
    · exact harray _
  simp only [hends, hrow, Source.performsAll_error_iff]
  exact exists_comm

theorem run_drawing_of_raises {action : DrawM Draw} {session : Session} {e : Error} {s' : DrawState}
    (h : Raises action session.draws e s') :
    (Session.drawing action).run session = (.error e, { session with draws := s' }) := by
  have hdrawing : (Session.drawing action).run session = ((action.run.run session.draws).run.1,
      { session with draws := (action.run.run session.draws).run.2 }) := rfl
  rw [hdrawing, h]

variable {r : Registry} {o : Options} {es : List String} {b b' : BuildState} {ns : List Node}

/-- A draw that fails ends the draws around it at its place. Those before it have been made and those
after it have not, so that their leaves stay as they are. Unless a function is handed draws, the error is
the one of the leaf that was drawn last. What is resolved next goes on from the state left behind. If one
future alone fails, then so does what it is combined to, and with the same error. An error that user code
hands on stays as it is. -/
theorem failures_stop_in_place (built : (es.mapM (Node.build r o)).run.run b = (.ok ns, b')) :
    (∀ src s e s', Raises (Source.draw src) s e s' ↔ ∃ acts, src.FailsBy s acts e s') ∧
    row ns = (rowSource ns).draw ∧
    (∀ s e s', Raises (row ns) s e s' ↔
      ∃ place acts, Source.StopsAt (ns.map Node.source) place s acts e s') ∧
    (∀ items, (items = ns.map Node.source ∨ ∃ n ∈ ns, n.source.Has (.array items)) →
      ∀ place s acts e s', Source.StopsAt items place s acts e s' →
        ∀ item ∈ items.drop (place + 1), ∀ id ∈ item.ids, s'.tally id = s.tally id) ∧
    (∀ src s acts e s', Source.adapts src = false → src.FailsBy s acts e s' → Act.EndIn acts e) ∧
    (∀ (n : Node) f (session : Session) e s', Raises (Session.handed n f).draw session.draws e s' →
      ∀ count,
        let later := (Session.resolve n f count).run { session with draws := s' }
        (Session.resolve n f (count + 1)).run session = (.error e :: later.1, later.2)) ∧
    (∀ src s acts d s' e, Source.adapts src = false → src.Performs s acts (.ok d) s' →
      Act.rejections acts = [e] → d.RejectsWith e) ∧
    (∀ (d : Draw) f e, d.RejectsWith e →
      ∃ d', Deferred.andThen (m := Id) f d = .ok d' ∧ d'.RejectsWith e) ∧
    ∀ e k, (fun e => Error.custom (.error e))^[k] e = e := by
  have hids : (Source.idsOfAll (ns.map Node.source)).Nodup :=
    (Node.numbers_mapM_build r o es b ns b' built).nodup
  refine ⟨?_, row_eq_draw ns, fun _ _ _ => raises_row_iff, ?_, ?_, ?_, ?_,
    fun _ f _ h => h.andThen f, ?_⟩
  · intro src s e s'
    simp only [← Source.performs_error_iff]
    exact Source.ends_draw_iff
  · intro items hitems place s acts e s' hstops item hitem id hid
    refine hstops.tally_eq ?_ hitem hid
    rcases hitems with rfl | ⟨n, hn, hhas⟩
    · exact hids
    · rw [Source.idsOfAll_eq_flatMap, List.nodup_flatMap] at hids
      exact hhas.nodup (hids.1 _ (List.mem_map_of_mem hn))
  · intro src s acts e s' hno hfails
    exact (Source.performs_error_iff.2 hfails).endIn rfl hno
  · intro n f session e s' hraises count
    rw [Session.run_resolve_succ]
    simp only [run_drawing_of_raises hraises]
  · intro src s acts d s' e hno hperforms herrors
    have hall : ∀ e' ∈ Act.rejections acts, e' = e := by
      rw [herrors]
      exact List.forall_mem_singleton.2 rfl
    refine (hperforms.expected d rfl hno hall).2 ?_
    rw [herrors]
    exact List.cons_ne_nil e []
  · intro e k
    exact Function.iterate_fixed rfl k

theorem failure_in_nested_repetition :
    let stop := Error.raised "stop"
    let r := (Registry.standard.register "tick" (.scripted "tick" true [.count, .settledCount])).register
      "flaky" (.scripted "flaky" false [.ready (.int 1), .fail stop])
    let es := ["tick", "array:tick:(3*(string:(oneOf:flaky))):tick", "tick"]
    let s : DrawState := ⟨⟨fun _ => 7, 0⟩, 0, fun _ => 0⟩
    ∃ ns b', (es.mapM (Node.build r .standard)).run.run ⟨[], 0⟩ = (.ok ns, b') ∧
      ∃ place acts s', Source.StopsAt (ns.map Node.source) place s acts stop s' ∧
        (∀ item ∈ (ns.map Node.source).drop (place + 1), ∀ id ∈ item.ids, s'.tally id = 0) ∧
        [0, 1, 2, 3, 4].map s'.tally = [1, 1, 2, 0, 0] := by
  intro stop r es s
  have hnodes : ((es.mapM (Node.build r .standard)).run.run ⟨[], 0⟩).run.1.toOption.map (fun ns =>
      (((row ns).run.run s).run.1.map Deferred.isReady,
        [0, 1, 2, 3, 4].map ((row ns).run.run s).run.2.tally)) =
        some (.error stop, [1, 1, 2, 0, 0]) := by
    decide +kernel
  obtain ⟨ns, b', built, hns⟩ := exists_returns_of_toOption hnodes
  obtain ⟨herror, htallies⟩ := Prod.mk.inj hns
  rcases hrow : ((row ns).run.run s).run with ⟨e | d, s'⟩
  · rw [hrow] at herror htallies
    have hraises : Raises (row ns) s stop s' := Except.error.inj herror ▸ hrow
    obtain ⟨-, -, hrows, hlater, -⟩ := failures_stop_in_place built
    obtain ⟨place, acts, hstops⟩ := (hrows s stop s').1 hraises
    have huntouched := hlater _ (.inl rfl) place s acts stop s' hstops
    exact ⟨ns, b', built, place, acts, s', hstops, huntouched, htallies⟩
  · rw [hrow] at herror
    cases herror

end Iterate

end GenExpr
