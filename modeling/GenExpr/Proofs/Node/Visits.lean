import GenExpr.Proofs.Node.Descent

/-!
# The order of building

An expression and those nested in it are a tree. Building goes through the tree depth first: a node is
entered before those nested in it are built from left to right, and it is completed after them. It goes
as far as the first node that cannot be entered, and ends with what was wrong there.
-/

namespace GenExpr

open List (Forall₂)

/-- An expression with those nested in it. A node that cannot be entered has nothing nested in it. -/
inductive Tree where
  | refused (e : String) (d : Error)
  | sound (e kind : String) (ownAsync : Bool) (inner : List Tree)

/-- A step of going through a tree. -/
inductive Visit where
  /-- A node is entered, or that fails. -/
  | enter (e : String) (failure : Option Error)
  | complete (kind e : String) (asynchronous : Bool)

namespace Visit

def failure? : Visit → Option Error
  | enter _ failure => failure
  | complete _ _ _ => none

def built? : Visit → Option Record
  | enter _ _ => none
  | complete kind e asynchronous => some (.built kind e asynchronous)

/-- What a visit leaves in the journal, with marks for the expressions that are entered. -/
def records (marks : String → List Record) : Visit → List Record
  | enter e _ => marks e ++ Node.expansion e
  | complete kind e asynchronous => [.built kind e asynchronous]

end Visit

def Record.isBuilt : Record → Bool
  | built _ _ _ => true
  | _ => false

theorem Visit.filter_isBuilt_records (vs : List Visit) :
    (vs.flatMap (records fun _ => [])).filter Record.isBuilt = vs.filterMap built? := by
  induction vs with
  | nil => rfl
  | cons v vs ih =>
    rw [List.flatMap_cons, List.filter_append, ih]
    cases v with
    | enter e failure =>
      have hexpansion : (Node.expansion e).filter Record.isBuilt = [] := by
        rw [Node.expansion]
        split
        next => rfl
        next => rfl
      rw [records, List.nil_append, hexpansion]
      rfl
    | complete kind e asynchronous => rfl

namespace Tree

mutual

def isAsync : Tree → Bool
  | refused _ _ => false
  | sound _ _ ownAsync inner => ownAsync || anyAsync inner

def anyAsync : List Tree → Bool
  | [] => false
  | t :: ts => isAsync t || anyAsync ts

end

mutual

def visits : Tree → List Visit
  | refused e d => [.enter e (some d)]
  | sound e kind ownAsync inner =>
    .enter e none :: (visitsAll inner ++ [.complete kind e (ownAsync || anyAsync inner)])

def visitsAll : List Tree → List Visit
  | [] => []
  | t :: ts => visits t ++ visitsAll ts

end

mutual

/-- The nodes that can be entered, each after those nested in it. -/
def postorder : Tree → List Record
  | refused _ _ => []
  | sound e kind ownAsync inner =>
    postorderAll inner ++ [.built kind e (ownAsync || anyAsync inner)]

def postorderAll : List Tree → List Record
  | [] => []
  | t :: ts => postorder t ++ postorderAll ts

end

mutual

theorem built_visits (t : Tree) : t.visits.filterMap Visit.built? = t.postorder := by
  cases t with
  | refused e d => rfl
  | sound e kind ownAsync inner =>
    rw [visits, postorder, List.filterMap_cons, List.filterMap_append, built_visitsAll inner]
    rfl

theorem built_visitsAll (ts : List Tree) :
    (visitsAll ts).filterMap Visit.built? = postorderAll ts := by
  cases ts with
  | nil => rfl
  | cons t ts =>
    rw [visitsAll, postorderAll, List.filterMap_append, built_visits t, built_visitsAll ts]

end

end Tree

/-- The tree of an expression under a registry. -/
inductive Grows (r : Registry) (o : Options) : String → Tree → Prop
  | refused {e : String} {d : Error} (entered : Node.enter r o e = .error d) :
      Grows r o e (.refused e d)
  | sound {e : String} {i : Invocation} {k : Kind} {inner : List Tree}
      (entered : Node.enter r o e = .ok (i, k))
      (grown : Forall₂ (Grows r o) (k.nested o i.arguments) inner) :
      Grows r o e (.sound e i.kind (k.ownAsync o i.arguments) inner)

section Takes

variable {marks : String → List Record} {α β : Type}

/-- An action goes through visits in their order. It succeeds, with a value of a kind, if none of them
fails, and else it ends with the first that fails, with its error. -/
def Takes (marks : String → List Record) (x : BuildM α) (vs : List Visit) (P : α → Prop) : Prop :=
  ∀ b, (∃ a b', Returns x b a b' ∧ P a ∧ (∀ v ∈ vs, v.failure? = none) ∧
      b'.journal = b.journal ++ vs.flatMap (Visit.records marks)) ∨
    ∃ d b' done v rest, Raises x b d b' ∧ vs = done ++ v :: rest ∧
      (∀ v ∈ done, v.failure? = none) ∧ v.failure? = some d ∧
      b'.journal = b.journal ++ (done ++ [v]).flatMap (Visit.records marks)

namespace Takes

theorem bind {x : BuildM α} {f : α → BuildM β} {vs ws : List Visit} {P : α → Prop} {Q : β → Prop}
    (hx : Takes marks x vs P) (hf : ∀ a, P a → Takes marks (f a) ws Q) :
    Takes marks (x >>= f) (vs ++ ws) Q := by
  intro b
  rcases hx b with ⟨a, b₁, ha, hP, hvs, hjournal⟩ | ⟨d, b₁, done, v, rest, hd, rfl, hdone, hv, hjournal⟩
  · rcases hf a hP b₁ with ⟨c, b₂, hc, hQ, hws, hjournal'⟩ |
      ⟨d, b₂, done, w, rest, hd, rfl, hdone, hw, hjournal'⟩
    · refine .inl ⟨c, b₂, returns_bind.2 ⟨a, b₁, ha, hc⟩, hQ, List.forall_mem_append.2 ⟨hvs, hws⟩, ?_⟩
      rw [hjournal', hjournal, List.flatMap_append, List.append_assoc]
    · refine .inr ⟨d, b₂, vs ++ done, w, rest, raises_bind.2 (.inr ⟨a, b₁, ha, hd⟩), ?_,
        List.forall_mem_append.2 ⟨hvs, hdone⟩, hw, ?_⟩
      · rw [List.append_assoc]
      · have hvisits : (vs ++ (done ++ [w])).flatMap (Visit.records marks) =
            vs.flatMap (Visit.records marks) ++ (done ++ [w]).flatMap (Visit.records marks) :=
          List.flatMap_append
        rw [hjournal', hjournal, List.append_assoc vs, hvisits, List.append_assoc]
  · refine .inr ⟨d, b₁, done, v, rest ++ ws, raises_bind.2 (.inl hd), ?_, hdone, hv, hjournal⟩
    rw [List.append_assoc, List.cons_append]

theorem pure {a : α} {P : α → Prop} (h : P a) : Takes marks (Pure.pure a) [] P := by
  intro b
  refine .inl ⟨a, b, returns_pure.2 ⟨rfl, rfl⟩, h, List.forall_mem_nil _, ?_⟩
  rw [List.flatMap_nil, List.append_nil]

theorem map {x : BuildM α} {f : α → β} {vs : List Visit} {P : α → Prop} {Q : β → Prop}
    (hx : Takes marks x vs P) (hf : ∀ a, P a → Q (f a)) : Takes marks (f <$> x) vs Q := by
  rw [map_eq_pure_bind, ← List.append_nil vs]
  exact hx.bind fun a ha => Takes.pure (hf a ha)

/-- Several expressions are built from left to right. -/
theorem nestAll {nest : String → BuildM Node} {args : List String} {ts : List Tree}
    (h : Forall₂ (fun a t => Takes marks (nest a) t.visits fun n => n.isAsync = t.isAsync) args ts) :
    Takes marks (Builtin.nestAll nest args) (Tree.visitsAll ts) fun ss =>
      ss.length = args.length ∧ Source.anyAsync ss = Tree.anyAsync ts := by
  induction h with
  | nil => exact .pure ⟨rfl, rfl⟩
  | cons ha _ ih =>
    rw [Builtin.nestAll, Tree.visitsAll]
    apply ha.bind
    intro n hn
    apply ih.map
    rintro ss ⟨hlength, hasync⟩
    refine ⟨congrArg (· + 1) hlength, ?_⟩
    rw [Source.anyAsync, Tree.anyAsync, hasync, ← hn, Node.isAsync]

end Takes

end Takes

namespace BuildM

def noteAll (rs : List Record) : BuildM Unit := modify fun s => { s with journal := s.journal ++ rs }

theorem returns_noteAll (rs : List Record) (b : BuildState) :
    Returns (noteAll rs) b () { b with journal := b.journal ++ rs } := rfl

theorem noteAll_nil : noteAll [] = pure () := by
  have hid : (fun s : BuildState => { s with journal := s.journal ++ [] }) = id := by
    funext s
    rw [List.append_nil]
    rfl
  rw [noteAll, hid]
  rfl

theorem noteAll_append (rs rs' : List Record) :
    noteAll (rs ++ rs') = noteAll rs >>= fun _ => noteAll rs' := by
  funext b
  have hrun : noteAll (rs ++ rs') b = (.ok (), { b with journal := b.journal ++ (rs ++ rs') }) := rfl
  rw [hrun, ← List.append_assoc]
  rfl

end BuildM

namespace Node

variable {r : Registry} {o : Options} {marks : String → List Record}

theorem buildFrom_eq (nest : String → BuildM Node) (e : String) :
    buildFrom nest r o e = BuildM.noteAll (expansion e) >>= fun _ => construct nest r o e := by
  rw [buildFrom, expansion]
  split
  next => rfl
  next => rw [BuildM.noteAll_nil, pure_bind]

/-- As `buildWithin`, with marks in the journal for every expression that is read. -/
def buildMarked (marks : String → List Record) (r : Registry) (o : Options) : Nat → String → BuildM Node
  | 0, e => throw (.endless e)
  | depth + 1, e => do
    BuildM.noteAll (marks e)
    buildFrom (buildMarked marks r o depth) r o e

theorem buildMarked_none (depth : Nat) : buildMarked (fun _ => []) r o depth = buildWithin r o depth := by
  induction depth with
  | zero => rfl
  | succ depth ih =>
    funext e
    rw [buildMarked, BuildM.noteAll_nil, pure_bind, ih, buildWithin_succ]

theorem takes_enter (e : String) : Takes marks (BuildM.noteAll (marks e ++ expansion e))
    [.enter e none] fun _ => True := by
  intro b
  refine .inl ⟨(), _, BuildM.returns_noteAll _ b, trivial, by simp [Visit.failure?], ?_⟩
  simp [Visit.records]

theorem takes_refused (e : String) (d : Error) (P : Node → Prop) :
    Takes marks (BuildM.noteAll (marks e ++ expansion e) >>= fun _ => throw d)
      [.enter e (some d)] P := by
  intro b
  refine .inr ⟨d, _, [], .enter e (some d), [],
    raises_bind.2 (.inr ⟨(), _, BuildM.returns_noteAll _ b, raises_throw.2 ⟨rfl, rfl⟩⟩), rfl,
    List.forall_mem_nil _, rfl, ?_⟩
  simp [Visit.records]

theorem buildMarked_succ (depth : Nat) (e : String) : buildMarked marks r o (depth + 1) e =
    BuildM.noteAll (marks e ++ expansion e) >>= fun _ =>
      construct (buildMarked marks r o depth) r o e := by
  rw [buildMarked, buildFrom_eq, BuildM.noteAll_append, bind_assoc]

theorem takes_completes {e : String} {i : Invocation} {k : Kind} {f : List Source → BuildM Node}
    (hf : Completes r o e i k f) {ss : List Source} {inner : List Tree}
    (hlength : ss.length = (k.nested o i.arguments).length)
    (hasync : Source.anyAsync ss = Tree.anyAsync inner) :
    Takes marks (f ss)
      [.complete i.kind e (k.ownAsync o i.arguments || Tree.anyAsync inner)] fun n =>
        n.isAsync = (k.ownAsync o i.arguments || Tree.anyAsync inner) := by
  intro b
  obtain ⟨n, b', hn, hown, hjournal⟩ := hf.returns hlength b
  rw [hasync] at hown
  refine .inl ⟨n, b', hn, hown, by simp [Visit.failure?], ?_⟩
  simp [hjournal, hown, Visit.records]

/-- A node is built by going through its tree. -/
theorem takes_buildMarked (marks : String → List Record) (hr : r.AddsLeaves) {depth : Nat} {e : String}
    {t : Tree} (hdepth : e.length < depth) (ht : Grows r o e t) :
    Takes marks (buildMarked marks r o depth e) t.visits fun n => n.isAsync = t.isAsync := by
  induction depth generalizing e t with
  | zero => omega
  | succ depth ih =>
    rw [buildMarked_succ]
    cases ht with
    | refused entered =>
      rw [construct_of_enter_error entered]
      exact takes_refused e _ _
    | @sound _ i k inner entered grown =>
      obtain ⟨f, hf⟩ := exists_completes_of_enter hr.isPlain entered
      rw [hf.construct_eq, Tree.visits, ← List.singleton_append]
      refine (takes_enter e).bind fun _ _ => (Takes.nestAll ?_).bind fun ss hss =>
        takes_completes hf hss.1 hss.2
      -- What is nested is shorter, so the depth that is left is enough for it.
      have hshort : ∀ a ∈ k.nested o i.arguments, a.length < depth := fun a ha =>
        Nat.lt_of_lt_of_le (length_lt_of_enter hr.descends entered ha) (Nat.le_of_lt_succ hdepth)
      exact ((List.forall₂_and_left _ _).2 ⟨hshort, grown⟩).imp fun a t h => ih h.1 h.2

theorem exists_forall₂ {α β : Type} {R : α → β → Prop} {as : List α} (h : ∀ a ∈ as, ∃ b, R a b) :
    ∃ bs, Forall₂ R as bs := by
  induction as with
  | nil => exact ⟨[], .nil⟩
  | cons a as ih =>
    obtain ⟨⟨b, hb⟩, hrest⟩ := List.forall_mem_cons.1 h
    obtain ⟨bs, hbs⟩ := ih hrest
    exact ⟨b :: bs, .cons hb hbs⟩

theorem exists_grows (hr : r.AddsLeaves) (o : Options) (e : String) : ∃ t, Grows r o e t := by
  induction hlength : e.length using Nat.strongRecOn generalizing e with
  | ind n ih =>
    cases entered : enter r o e with
    | error d => exact ⟨_, .refused entered⟩
    | ok p =>
      obtain ⟨i, k⟩ := p
      obtain ⟨inner, grown⟩ := exists_forall₂ (R := Grows r o) fun a ha =>
        ih a.length (hlength ▸ length_lt_of_enter hr.descends entered ha) a rfl
      exact ⟨_, .sound entered grown⟩

/-- A node is built by entering and completing the nodes of its tree in this order: first the node itself
is entered, then what is nested in it is built from left to right, then the node is completed and noted.
The first node that cannot be entered ends this, with its error as it is, and no expression after it is
read: what marks would be left at expressions that are read are left up to there, and no further. -/
theorem built_in_order (hr : r.AddsLeaves) (o : Options) (e : String) :
    (∃ t, Grows r o e t) ∧ ∀ t, Grows r o e t →
      (t.visits.flatMap (Visit.records fun _ => [])).filter Record.isBuilt = t.postorder ∧
      buildMarked (fun _ => []) r o (depthLimit r e) e = build r o e ∧
      ∀ marks b,
        let run := (buildMarked marks r o (depthLimit r e) e).run.run b
        (∃ n b', run = (.ok n, b') ∧ (∀ v ∈ t.visits, v.failure? = none) ∧
          b'.journal = b.journal ++ t.visits.flatMap (Visit.records marks)) ∨
        ∃ d b' done v rest, run = (.error d, b') ∧ t.visits = done ++ v :: rest ∧
          (∀ w ∈ done, w.failure? = none) ∧ v.failure? = some d ∧
          b'.journal = b.journal ++ (done ++ [v]).flatMap (Visit.records marks) := by
  refine ⟨exists_grows hr o e, ?_⟩
  intro t ht
  refine ⟨by rw [Visit.filter_isBuilt_records, t.built_visits], ?_, ?_⟩
  · rw [buildMarked_none, build]
  · intro marks b
    have hdepth : e.length < depthLimit r e := by
      rw [depthLimit]
      omega
    rcases takes_buildMarked marks hr hdepth ht b with
      ⟨n, b', hn, -, hsound, hjournal⟩ | hraises
    · exact .inl ⟨n, b', hn, hsound, hjournal⟩
    · exact .inr hraises

theorem refused_among_siblings :
    let late : Registry := Registry.standard.register "late" (.scripted "late" true [.count])
    let r := late.register "fail" (.refusing "fail" (.raised "no"))
    let e := "array:late:(oneOf:(2*(int:1-2)):(repeat:x:fail)):fail"
    let noted : List Record := [.built "late" "late" true, .expanding "2*(int:1-2)",
      .built "int" "int:1-2" false, .built "repeat" "2*(int:1-2)" false]
    r.AddsLeaves ∧ ∃ t b' done v rest, Grows r .standard e t ∧
      (build r .standard e).run.run ⟨[], 0⟩ =
        (.error (.invalidArgument "repeat" (.notACount "x")), b') ∧
      t.visits = done ++ v :: rest ∧ (∀ w ∈ done, w.failure? = none) ∧
      v.failure? = some (.invalidArgument "repeat" (.notACount "x")) ∧
      (done ++ [v]).flatMap (Visit.records fun _ => []) = noted := by
  intro late r e noted
  have hlate : late.AddsLeaves := Registry.standard_addsLeaves.register
    (fun b => by cases b <;> decide) fun _ _ => .inl ⟨_, rfl⟩
  have hr : r.AddsLeaves := hlate.register
    (fun b => by cases b <;> decide) fun _ _ => .inr ⟨_, rfl⟩
  have herror : ((build r .standard e).run.run ⟨[], 0⟩).1.map isAsync =
      .error (.invalidArgument "repeat" (.notACount "x")) := by
    decide +kernel
  have hnoted : ((build r .standard e).run.run ⟨[], 0⟩).2.journal = noted := by
    decide +kernel
  obtain ⟨⟨t, ht⟩, hall⟩ := built_in_order hr .standard e
  obtain ⟨-, hbuild, hruns⟩ := hall t ht
  rcases hruns (fun _ => []) ⟨[], 0⟩ with
    ⟨n, b', hrun, -, -⟩ | ⟨d, b', done, v, rest, hrun, hvisits, hdone, hv, hjournal⟩
  · rw [hbuild] at hrun
    rw [hrun] at herror
    cases herror
  · rw [hbuild] at hrun
    rw [hrun] at herror hnoted
    obtain rfl := Except.error.inj herror
    refine ⟨hr, t, b', done, v, rest, ht, hrun, hvisits, hdone, hv, ?_⟩
    rw [← hnoted, hjournal, List.nil_append]

end Node

end GenExpr
