import GenExpr.Proofs.Deferred.Join
import GenExpr.Proofs.Deferred.Lift
import GenExpr.Proofs.Action

/-!
# Chains of adapters

Functions attached to a deferred value one after another, some of which can fail. At a value that is there
they are called at once; attached to a future they are called when it settles. In both cases they are
called one after another up to the first that fails, so that both come to the same.
-/

namespace GenExpr

/-- A function to be attached to a deferred value, which acts in a monad when it is called. -/
inductive Adapter (m : Type → Type) (α : Type) where
  | map (f : α → m α)
  | andThen (f : α → m (Except Error α))

section Monad

variable {m : Type → Type} [Monad m] {α : Type}

namespace Deferred

/-- As `map`, with a function that acts when it is called. -/
def mapping (f : α → m α) : Deferred m α → m (Deferred m α)
  | ready a => do return ready (← f a)
  | pending source => pure (pending (.andThen source fun a => do return .ok (← f a)))

/-- Attaches functions one after another, unless one of them is called at once and fails. -/
def adapt : List (Adapter m α) → Deferred m α → m (Except Error (Deferred m α))
  | [], d => pure (.ok d)
  | .map f :: rest, d => do adapt rest (← d.mapping f)
  | .andThen f :: rest, d => do
    match ← d.andThen f with
    | .ok d => adapt rest d
    | .error e => return .error e

/-- Goes on with what has been resolved, if anything has. -/
def resolveWith (resolve : m (Except Error (Deferred m α))) (f : α → m (Except Error α)) :
    m (Except Error (Deferred m α)) := do
  match ← resolve with
  | .ok d => d.andThen f
  | .error e => return .error e

end Deferred

namespace Adapter

/-- Calls functions one after another, each with what the one before came to, up to the first that
fails. -/
def call : List (Adapter m α) → α → m (Except Error α)
  | [], a => pure (.ok a)
  | .map f :: rest, a => do call rest (← f a)
  | .andThen f :: rest, a => do
    match ← f a with
    | .ok b => call rest b
    | .error e => return .error e

/-- Goes on with an outcome: functions are called with a value, and none is at an error. -/
def conclude (chain : List (Adapter m α)) : Except Error α → m (Except Error α)
  | .ok a => call chain a
  | .error e => pure (.error e)

/-- A future with functions attached to it. -/
def postponed : List (Adapter m α) → Future m α → Future m α
  | [], source => source
  | .map f :: rest, source => postponed rest (.andThen source fun a => do return .ok (← f a))
  | .andThen f :: rest, source => postponed rest (.andThen source f)

end Adapter

namespace Adapter

@[simp] theorem conclude_nil (r : Except Error α) : conclude ([] : List (Adapter m α)) r = pure r := by
  cases r <;> rfl

theorem conclude_map (f : α → m α) (rest : List (Adapter m α)) (r : Except Error α) :
    conclude (.map f :: rest) r = (do
      match r with
      | .ok a => conclude rest (.ok (← f a))
      | .error e => conclude rest (.error e)) := by
  cases r <;> rfl

theorem conclude_andThen (f : α → m (Except Error α)) (rest : List (Adapter m α)) (r : Except Error α) :
    conclude (.andThen f :: rest) r = (do
      match r with
      | .ok a => conclude rest (← f a)
      | .error e => conclude rest (.error e)) := by
  cases r with
  | error e => rfl
  | ok a => exact bind_congr fun r => by cases r <;> rfl

theorem outcome?_postponed {chain : List (Adapter m α)} {source : Future m α}
    (h : source.outcome? = none) : (postponed chain source).outcome? = none := by
  induction chain generalizing source with
  | nil => exact h
  | cons step rest ih =>
    cases step with
    | map f => exact ih rfl
    | andThen f => exact ih rfl

end Adapter

variable [LawfulMonad m]

theorem Deferred.mapping_pure (f : α → α) (d : Deferred m α) :
    d.mapping (fun a => pure (f a)) = pure (d.map f) := by
  cases d with
  | ready a => rw [mapping, pure_bind, map]
  | pending source => simp only [mapping, pure_bind, map]

theorem Deferred.resolveWith_adapt (chain : List (Adapter m α)) (d : Deferred m α)
    (f : α → m (Except Error α)) :
    resolveWith (adapt chain d) f = adapt (chain ++ [.andThen f]) d := by
  induction chain generalizing d with
  | nil =>
    have hadapt : resolveWith (adapt [] d) f = d.andThen f := by rw [resolveWith, adapt, pure_bind]
    rw [hadapt, List.nil_append, adapt]
    refine (bind_pure _).symm.trans (bind_congr fun r => ?_)
    cases r <;> rfl
  | cons step rest ih =>
    cases step with
    | map g =>
      rw [List.cons_append, adapt, adapt, resolveWith, bind_assoc]
      exact bind_congr fun d => ih d
    | andThen g =>
      rw [List.cons_append, adapt, adapt, resolveWith, bind_assoc]
      apply bind_congr
      intro r
      cases r with
      | error e => simp only [pure_bind]
      | ok d => exact ih d

theorem Deferred.adapt_ready (chain : List (Adapter m α)) (a : α) :
    adapt chain (ready a) = (do return (← Adapter.call chain a).map ready) := by
  induction chain generalizing a with
  | nil => simp only [adapt, Adapter.call, pure_bind, Except.map]
  | cons step rest ih =>
    cases step with
    | map f => simp only [adapt, mapping, Adapter.call, bind_assoc, pure_bind, ih]
    | andThen f =>
      simp only [adapt, andThen, Adapter.call, bind_assoc]
      apply bind_congr
      intro r
      cases r with
      | error e => simp only [pure_bind, Except.map]
      | ok b => simp only [pure_bind, ih]

theorem Deferred.adapt_pending (chain : List (Adapter m α)) (source : Future m α) :
    adapt chain (pending source) = pure (.ok (pending (Adapter.postponed chain source))) := by
  induction chain generalizing source with
  | nil => rfl
  | cons step rest ih =>
    cases step with
    | map f => rw [adapt, mapping, pure_bind, ih, Adapter.postponed]
    | andThen f => rw [adapt, andThen, pure_bind, Adapter.postponed]; exact ih _

namespace Adapter

/-- A poll of a future with functions attached to it polls the future, and goes on once it has settled. -/
theorem poll_postponed (opened : Nat → Bool) (chain : List (Adapter m α)) (source : Future m α) :
    (postponed chain source).poll opened = (do
      match ← source.poll opened with
      | .settled r => return .settled (← conclude chain r)
      | source => return postponed chain source) := by
  induction chain generalizing source with
  | nil =>
    refine (bind_pure _).symm.trans (bind_congr fun polled => ?_)
    cases polled <;> simp [postponed]
  | cons step rest ih =>
    cases step with
    | map f =>
      rw [postponed, ih, Future.poll, bind_assoc]
      apply bind_congr
      intro polled
      rcases polled with (e | a) | _ | _ | _ <;> simp [conclude_map, postponed]
    | andThen f =>
      rw [postponed, ih, Future.poll, bind_assoc]
      apply bind_congr
      intro polled
      rcases polled with (e | a) | _ | _ | _ <;> simp [conclude_andThen, postponed]

theorem force_postponed (chain : List (Adapter m α)) (source : Future m α) :
    (postponed chain source).force = source.force >>= conclude chain := by
  induction chain generalizing source with
  | nil =>
    refine (bind_pure _).symm.trans (bind_congr fun r => ?_)
    rw [conclude_nil]
  | cons step rest ih =>
    cases step with
    | map f =>
      rw [postponed, ih, Future.force, bind_assoc]
      apply bind_congr
      intro r
      cases r <;> simp [conclude_map]
    | andThen f =>
      rw [postponed, ih, Future.force, bind_assoc]
      apply bind_congr
      intro r
      cases r <;> simp [conclude_andThen]

end Adapter

end Monad

section Calls

variable {σ α β : Type}

/-- A world, with the calls that have been made in it: the place of the function in its chain, and the
argument that it was handed. -/
structure Called (σ α : Type) where
  world : σ
  calls : List (Nat × α)

namespace Adapter

/-- The function at a place of a chain, whose calls are written down. -/
def noting (place : Nat) (f : α → StateM σ β) (a : α) : StateM (Called σ α) β :=
  fun w => (((f a).run w.world).1, ⟨((f a).run w.world).2, w.calls ++ [(place, a)]⟩)

def noted (place : Nat) : Adapter (StateM σ) α → Adapter (StateM (Called σ α)) α
  | .map f => .map (noting place f)
  | .andThen f => .andThen (noting place f)

/-- The functions of a chain from a place on, whose calls are written down. -/
def notedFrom : Nat → List (Adapter (StateM σ) α) → List (Adapter (StateM (Called σ α)) α)
  | _, [] => []
  | place, step :: rest => step.noted place :: notedFrom (place + 1) rest

/-- Functions are called one after another, from a place in their chain on, up to the first that fails:
the calls, what they come to, and the world that they leave behind. -/
inductive Passes : Nat → List (Adapter (StateM σ) α) → α → σ → List (Nat × α) → Except Error α → σ → Prop
  | done (place : Nat) (a : α) (w : σ) : Passes place [] a w [] (.ok a) w
  | map {place : Nat} {f : α → StateM σ α} {rest : List (Adapter (StateM σ) α)} {a b : α} {w w₁ w' : σ}
      {calls : List (Nat × α)} {result : Except Error α} (called : (f a).run w = (b, w₁))
      (others : Passes (place + 1) rest b w₁ calls result w') :
      Passes place (.map f :: rest) a w ((place, a) :: calls) result w'
  | andThen {place : Nat} {f : α → StateM σ (Except Error α)} {rest : List (Adapter (StateM σ) α)}
      {a b : α} {w w₁ w' : σ} {calls : List (Nat × α)} {result : Except Error α}
      (called : (f a).run w = (.ok b, w₁)) (others : Passes (place + 1) rest b w₁ calls result w') :
      Passes place (.andThen f :: rest) a w ((place, a) :: calls) result w'
  | fails {place : Nat} {f : α → StateM σ (Except Error α)} {rest : List (Adapter (StateM σ) α)} {a : α}
      {w w' : σ} {e : Error} (called : (f a).run w = (.error e, w')) :
      Passes place (.andThen f :: rest) a w [(place, a)] (.error e) w'

theorem Passes.places {place : Nat} {chain : List (Adapter (StateM σ) α)} {a : α} {w w' : σ}
    {calls : List (Nat × α)} {result : Except Error α} (h : Passes place chain a w calls result w') :
    calls.map Prod.fst = List.range' place calls.length := by
  induction h with
  | done => rfl
  | map _ _ ih => rw [List.map_cons, ih, List.length_cons, List.range'_succ]
  | andThen _ _ ih => rw [List.map_cons, ih, List.length_cons, List.range'_succ]
  | fails => rfl

theorem notedFrom_concat (place : Nat) (chain : List (Adapter (StateM σ) α)) (step : Adapter (StateM σ) α) :
    notedFrom place (chain ++ [step]) = notedFrom place chain ++ [step.noted (place + chain.length)] := by
  induction chain generalizing place with
  | nil => rfl
  | cons first rest ih =>
    rw [List.cons_append, notedFrom, ih, notedFrom, List.length_cons, List.cons_append,
      Nat.add_right_comm, Nat.add_assoc]

theorem run_call_map (f : α → StateM σ α) (rest : List (Adapter (StateM σ) α)) (a : α) (w : σ) :
    (call (.map f :: rest) a).run w = (call rest ((f a).run w).1).run ((f a).run w).2 := rfl

theorem run_call_andThen (f : α → StateM σ (Except Error α)) (rest : List (Adapter (StateM σ) α)) (a : α)
    (w : σ) : (call (.andThen f :: rest) a).run w = match (f a).run w with
      | (.ok b, w₁) => (call rest b).run w₁
      | (.error e, w₁) => (.error e, w₁) := by
  have hcall : (call (.andThen f :: rest) a).run w = (match ((f a).run w).1 with
      | .ok b => call rest b
      | .error e => pure (.error e) : StateM σ (Except Error α)).run ((f a).run w).2 := rfl
  rw [hcall]
  rcases (f a).run w with ⟨e | b, w₁⟩ <;> rfl

theorem run_noting (place : Nat) (f : α → StateM σ β) (a : α) (w : Called σ α) :
    (noting place f a).run w =
      (((f a).run w.world).1, ⟨((f a).run w.world).2, w.calls ++ [(place, a)]⟩) := rfl

/-- Functions whose calls are written down are called as they are otherwise. -/
theorem exists_passes (chain : List (Adapter (StateM σ) α)) (place : Nat) (a : α) (w : Called σ α) :
    ∃ calls result w', Passes place chain a w.world calls result w' ∧
      (call (notedFrom place chain) a).run w = (result, ⟨w', w.calls ++ calls⟩) := by
  induction chain generalizing place a w with
  | nil =>
    refine ⟨[], .ok a, w.world, .done place a w.world, ?_⟩
    rw [List.append_nil]
    rfl
  | cons step rest ih =>
    cases step with
    | map f =>
      rcases hf : (f a).run w.world with ⟨b, w₁⟩
      obtain ⟨calls, result, w', hpasses, hrun⟩ := ih (place + 1) b ⟨w₁, w.calls ++ [(place, a)]⟩
      refine ⟨_, result, w', .map hf hpasses, ?_⟩
      rw [notedFrom, noted, run_call_map, run_noting, hf, hrun, List.append_assoc]
      rfl
    | andThen f =>
      rcases hf : (f a).run w.world with ⟨e | b, w₁⟩
      · refine ⟨_, .error e, w₁, .fails hf, ?_⟩
        rw [notedFrom, noted, run_call_andThen, run_noting, hf]
      · obtain ⟨calls, result, w', hpasses, hrun⟩ := ih (place + 1) b ⟨w₁, w.calls ++ [(place, a)]⟩
        refine ⟨_, result, w', .andThen hf hpasses, ?_⟩
        rw [notedFrom, noted, run_call_andThen, run_noting, hf]
        simp only []
        rw [hrun, List.append_assoc]
        rfl

end Adapter

namespace Future

section Pursue

variable (chain : List (Adapter (StateM σ) α)) (source : Future Id α) (w : σ)

theorem run_pursue_settled (r : Except Error α) (events : List Event) (opened : List Nat) :
    (pursue events opened (settled r : Future (StateM σ) α)).run w = (settled r, w) := by
  induction events generalizing opened with
  | nil => rfl
  | cons event rest ih =>
    cases event with
    | opening gate => exact ih _
    | polling =>
      rw [pursue, poll]
      exact ih opened

theorem run_pursue_polling (events : List Event) (opened : List Nat) :
    (pursue (.polling :: events) opened (Adapter.postponed chain source.lift)).run w =
      match (source.poll opened.contains).run with
      | settled r => (settled ((Adapter.conclude chain r).run w).1, ((Adapter.conclude chain r).run w).2)
      | source => (pursue events opened (Adapter.postponed chain source.lift)).run w := by
  rw [pursue, Adapter.poll_postponed, poll_lift, pure_bind]
  rcases (source.poll opened.contains).run with r | _ | _ | _
  case settled => exact run_pursue_settled _ _ events opened
  all_goals rfl

/-- As long as a future has not settled, polling it calls none of the functions attached to it. -/
theorem run_pursue_of_unsettled {events : List Event} {opened : List Nat}
    (h : (source.follow events opened).outcome? = none) :
    (pursue events opened (Adapter.postponed chain source.lift)).run w =
      (Adapter.postponed chain (source.follow events opened).lift, w) := by
  induction events generalizing source opened with
  | nil => rfl
  | cons event rest ih =>
    cases event with
    | opening gate => exact ih source h
    | polling =>
      rw [follow] at h
      rw [run_pursue_polling]
      rcases hpolled : (source.poll opened.contains).run with r | _ | _ | _
      case settled => 
        rw [hpolled, settled_follow] at h
        cases h
      all_goals
        rw [hpolled] at h
        rw [follow, hpolled]
        exact ih _ h

/-- When a future has settled, the functions attached to it are called at the next poll, and what they
come to stays. -/
theorem run_pursue_of_settled {events : List Event} {opened : List Nat} {r : Except Error α}
    (h : (source.follow (events ++ [.polling]) opened).outcome? = some r) :
    (pursue (events ++ [.polling]) opened (Adapter.postponed chain source.lift)).run w =
      (settled ((Adapter.conclude chain r).run w).1, ((Adapter.conclude chain r).run w).2) := by
  induction events generalizing source opened with
  | nil =>
    rw [List.nil_append] at h ⊢
    rw [run_pursue_polling]
    obtain hsettled : (source.poll opened.contains).run = settled r := outcome?_eq_some h
    rw [hsettled]
  | cons event rest ih =>
    cases event with
    | opening gate => exact ih source h
    | polling =>
      rw [List.cons_append, follow] at h
      rw [List.cons_append, run_pursue_polling]
      rcases hpolled : (source.poll opened.contains).run with r' | _ | _ | _
      case settled =>
        rw [hpolled, settled_follow] at h
        obtain rfl : r' = r := Option.some.inj h
        rfl
      all_goals
        rw [hpolled] at h
        exact ih _ h

end Pursue

end Future

/-- A future goes on when another one has settled: to what comes of its value, in the world that this
leaves behind, or with its error. Until then it leaves the world as it is. -/
structure Future.Continues (f : Future (StateM (Called σ α)) α) (source : Future Id α)
    (comes : α → Except Error α × Called σ α) (w : Called σ α) : Prop where
  unsettled : ∀ opened events, (source.follow events opened).outcome? = none →
    ∃ f', (f.pursue events opened).run w = (f', w) ∧ f'.outcome? = none
  value : ∀ opened events v, (source.follow (events ++ [.polling]) opened).outcome? = some (.ok v) →
    (f.pursue (events ++ [.polling]) opened).run w = (.settled (comes v).1, (comes v).2)
  error : ∀ opened events e, (source.follow (events ++ [.polling]) opened).outcome? = some (.error e) →
    (f.pursue (events ++ [.polling]) opened).run w = (.settled (.error e), w)
  waited_value : ∀ v, source.force.run = .ok v → (Deferred.pending f).wait.run w = comes v
  waited_error : ∀ e, source.force.run = .error e → (Deferred.pending f).wait.run w = (.error e, w)

theorem Adapter.continues_postponed (steps : List (Adapter (StateM (Called σ α)) α)) (source : Future Id α)
    (w : Called σ α) :
    (postponed steps source.lift).Continues source (fun v => (call steps v).run w) w where
  unsettled opened events h := by
    refine ⟨_, Future.run_pursue_of_unsettled steps source w h, ?_⟩
    apply outcome?_postponed
    rw [Future.outcome?_lift, h]
  value opened events v h := Future.run_pursue_of_settled steps source w h
  error opened events e h := Future.run_pursue_of_settled steps source w h
  waited_value v h := by
    rw [Deferred.wait, force_postponed, Future.force_lift, pure_bind, h]
    rfl
  waited_error e h := by
    rw [Deferred.wait, force_postponed, Future.force_lift, pure_bind, h]
    rfl

/-- A draw handed to a function is the draw, gone on with by the function. -/
theorem Source.run_draw_adapted (inner : Source) (f : Value → Except Error Value) (s : DrawState) :
    ((adapted inner f).draw.run.run s).run =
      ((Deferred.resolveWith (m := Id) (inner.draw.run.run s).run.1 f).run,
        (inner.draw.run.run s).run.2) := by
  rw [draw, run_run_bind]
  rcases (inner.draw.run.run s).run with ⟨e | d, s'⟩
  · rfl
  · have hresolve : (Deferred.resolveWith (m := Id) (Except.ok d) f).run = (d.andThen (m := Id) f).run := rfl
    simp only [hresolve]
    rcases d.andThen (m := Id) f with e | d' <;> rfl

namespace Deferred

variable (chain : List (Adapter (StateM σ) α)) (f : α → StateM σ (Except Error α))

/-- Attaches the functions of a chain to a deferred value and hands it on with one more function, and
writes down the calls of them all. -/
def handOn (d : Deferred (StateM (Called σ α)) α) :
    StateM (Called σ α) (Except Error (Deferred (StateM (Called σ α)) α)) :=
  resolveWith (adapt (Adapter.notedFrom 0 chain) d) (Adapter.noting chain.length f)

theorem handOn_eq (d : Deferred (StateM (Called σ α)) α) :
    handOn chain f d = adapt (Adapter.notedFrom 0 (chain ++ [.andThen f])) d := by
  rw [handOn, resolveWith_adapt, Adapter.notedFrom_concat, Nat.zero_add]
  rfl

/-- The functions of a chain, of which the last is handed what a node resolves to, come to the same at a
value that is there and at a future that settles to it: the same outcome, after the same calls in the
order of the chain. No function is called before the future has settled, and none if that is to an error.
A function that only computes is attached by `map`, and what a source draws is handed on by `adapted`. -/
theorem chains_do_not_see_readiness (w : σ) :
    (∃ comes : α → Except Error α × Called σ α,
      (∀ v, Adapter.Passes 0 (chain ++ [.andThen f]) v w (comes v).2.calls (comes v).1 (comes v).2.world ∧
        (comes v).2.calls.map Prod.fst = List.range (comes v).2.calls.length ∧
        (handOn chain f (.ready v)).run ⟨w, []⟩ = ((comes v).1.map .ready, (comes v).2)) ∧
      ∀ source : Future Id α, ∃ p, p.Continues source comes ⟨w, []⟩ ∧
        (handOn chain f (.pending source.lift)).run ⟨w, []⟩ = (.ok (.pending p), ⟨w, []⟩)) ∧
    (∀ (g : α → α) (d : Deferred (StateM σ) α), d.mapping (fun a => pure (g a)) = pure (d.map g)) ∧
    ∀ inner g s, ((Source.adapted inner g).draw.run.run s).run =
      ((resolveWith (m := Id) (inner.draw.run.run s).run.1 g).run, (inner.draw.run.run s).run.2) := by
  refine ⟨⟨fun v => (Adapter.call (Adapter.notedFrom 0 (chain ++ [.andThen f])) v).run ⟨w, []⟩, ?_, ?_⟩,
    mapping_pure, Source.run_draw_adapted⟩
  · intro v
    obtain ⟨calls, result, w', hpasses, hrun⟩ :=
      Adapter.exists_passes (chain ++ [.andThen f]) 0 v (⟨w, []⟩ : Called σ α)
    have hplaces : calls.map Prod.fst = List.range calls.length := by
      rw [hpasses.places, List.range_eq_range']
    simp only [hrun]
    refine ⟨hpasses, hplaces, ?_⟩
    rw [handOn_eq, adapt_ready, StateT.run_bind, hrun]
    rfl
  · intro source
    refine ⟨_, Adapter.continues_postponed _ source ⟨w, []⟩, ?_⟩
    rw [handOn_eq, adapt_pending]
    rfl

end Deferred

end Calls

end GenExpr
