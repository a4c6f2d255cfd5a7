import GenExpr.Proofs.Entries
import GenExpr.Proofs.Iterate.Watched
import GenExpr.Proofs.Node.Reach
import GenExpr.Proofs.Text.ByteOrder
import GenExpr.Session.Basic

/-!
# Registering kinds in a session

After any calls that register kinds, each name stands for the kind that was registered last under it, or
for the builtin kind of that name. Nodes keep what they were built with: registering kinds and drawing
from a node do not touch one another.
-/

namespace GenExpr

/-- The calls that register kinds. -/
inductive Registration where
  | register (name : String) (k : Kind)
  | registerNamed (k : Kind)
  | registerAll (kinds : List (String × Kind))

namespace Registration

/-- The names and kinds that a call registers, in order. -/
def pairs : Registration → List (String × Kind)
  | register name k => [(name, k)]
  | registerNamed k => [(k.name, k)]
  | registerAll kinds => kinds

def perform : Registration → StateM Session Unit
  | register name k => Session.register name k
  | registerNamed k => Session.registerNamed k
  | registerAll kinds => Session.registerAll kinds

def performAll (calls : List Registration) : StateM Session Unit := calls.forM perform

end Registration

open Registration (pairs performAll)

namespace Registry

theorem ascending_standard : Entries.Ascending standard :=
  Entries.ascending_ofList (Builtin.all.map fun b : Builtin => (b.name, Kind.builtin b))

end Registry

namespace Session

/-- A session after several kinds have been registered. -/
def registered (s : Session) (ps : List (String × Kind)) : Session :=
  { s with
    registry := Entries.insertAll ps s.registry
    journal := s.journal ++ ps.map fun p => .registering p.1 }

theorem registered_nil (s : Session) : s.registered [] = s := by
  simp [registered, Entries.insertAll]

theorem registered_append (s : Session) (ps qs : List (String × Kind)) :
    (s.registered ps).registered qs = s.registered (ps ++ qs) := by
  simp [registered, Entries.insertAll, List.foldl_append]

theorem run_registerAll (kinds : List (String × Kind)) (s : Session) :
    (registerAll kinds).run s = ((), s.registered kinds) := by
  induction kinds generalizing s with
  | nil =>
    rw [registered_nil]
    rfl
  | cons p kinds ih =>
    have hstep : (registerAll (p :: kinds)).run s = (registerAll kinds).run (s.registered [p]) := rfl
    rw [hstep, ih, registered_append, List.singleton_append]

theorem run_perform (call : Registration) (s : Session) :
    call.perform.run s = ((), s.registered call.pairs) := by
  cases call with
  | register name k => rfl
  | registerNamed k => rfl
  | registerAll kinds => exact run_registerAll kinds s

theorem run_performAll (calls : List Registration) (s : Session) :
    (performAll calls).run s = ((), s.registered (calls.flatMap pairs)) := by
  induction calls generalizing s with
  | nil =>
    rw [List.flatMap_nil, registered_nil]
    rfl
  | cons call calls ih =>
    have hstep : (performAll (call :: calls)).run s =
        (performAll calls).run (call.perform.run s).2 := rfl
    rw [hstep, run_perform, ih, registered_append, List.flatMap_cons]

theorem run_node? (id : String) (s : Session) :
    (node? id).run s = (Entries.find? id s.nodes, s) := rfl

theorem run_drawing_registered {α : Type} (action : DrawM α) (s : Session)
    (ps : List (String × Kind)) :
    (drawing action).run (s.registered ps) =
      (((drawing action).run s).1, ((drawing action).run s).2.registered ps) := rfl

section Resolve

variable (n : Node) (f : Option (Value → Except Error Value)) (count : Nat) (s : Session)

/-- What a node is drawn from when its draws are handed to a function. -/
def handed (n : Node) : Option (Value → Except Error Value) → Source
  | some f => .adapted n.source f
  | none => n.source

theorem run_resolve_succ :
    (resolve n f (count + 1)).run s =
      (((drawing (handed n f).draw).run s).1 ::
        ((resolve n f count).run ((drawing (handed n f).draw).run s).2).1,
        ((resolve n f count).run ((drawing (handed n f).draw).run s).2).2) := by
  cases f <;> rfl

theorem nodes_resolve : ((resolve n f count).run s).2.nodes = s.nodes := by
  induction count generalizing s with
  | zero => rfl
  | succ count ih =>
    rw [run_resolve_succ]
    exact ih _

/-- Drawing from a node comes to the same before and after kinds are registered. -/
theorem run_resolve_registered (ps : List (String × Kind)) :
    (resolve n f count).run (s.registered ps) =
      (((resolve n f count).run s).1, ((resolve n f count).run s).2.registered ps) := by
  induction count generalizing s with
  | zero => rfl
  | succ count ih =>
    rw [run_resolve_succ, run_resolve_succ, run_drawing_registered, ih]

end Resolve

/-- What was built is kept under its name, and its leaves are those that its expression reached then. -/
theorem node_of_buildAs {s s' : Session} {id e : String} {o : Options} {n : Node}
    (built : (buildAs id o e).run s = (.ok n, s')) :
    Entries.find? id s'.nodes = some n ∧ s'.registry = s.registry ∧
      ∀ l, l ∈ n.source.leaves ↔ Reaches s.registry o e l := by
  have hrun : (buildAs id o e).run s = match (build o e).run s with
      | (.ok n, t) => (.ok n, { t with nodes := Entries.insert id n t.nodes })
      | (.error e, t) => (.error e, t) := by
    rw [buildAs, Iterate.run_bind]
    rcases (build o e).run s with ⟨_ | _, t⟩ <;> rfl
  rw [hrun] at built
  have hbuild : (build o e).run s = match (Node.build s.registry o e).run.run ⟨s.journal, s.leaves⟩ with
      | (result, b) => (result, { s with journal := b.journal, leaves := b.leaves }) := rfl
  rw [hbuild] at built
  rcases hnode : (Node.build s.registry o e).run.run ⟨s.journal, s.leaves⟩ with ⟨d | m, b⟩
  · rw [hnode] at built
    cases built
  · rw [hnode] at built
    cases built
    refine ⟨?_, rfl, Node.mem_leaves_iff hnode⟩
    rw [Entries.find?_insert, if_pos rfl]

/-- In a session that starts with the standard registry and registers kinds, the last registration of a
name counts, and where there is none the builtin kind of that name. The names are listed once each, in
the order of their bytes. What is then built draws from the leaves that its expression reached when it
was built, and the same values whatever is registered between its draws. -/
theorem last_registration_counts (entropy : Entropy) (calls : List Registration) :
    let s := ((performAll calls).run (fresh entropy)).2
    (∀ name k, s.registry.lookup? name = some k ↔
      Entries.Last name k (calls.flatMap pairs) ∨
      (∀ p ∈ calls.flatMap pairs, p.1 ≠ name) ∧ ∃ b : Builtin, b.name = name ∧ k = .builtin b) ∧
    (∀ name, name ∈ s.registry.names ↔ ∃ k, s.registry.lookup? name = some k) ∧
    s.registry.names.Nodup ∧ s.registry.names.Pairwise (fun a b => Text.bytes a < Text.bytes b) ∧
    ∀ id o e n s₁, (buildAs id o e).run s = (.ok n, s₁) →
      (∀ l, l ∈ n.source.leaves ↔ Reaches s.registry o e l) ∧
      ∀ later f before count,
        let t := ((resolve n f before).run s₁).2
        let t' := ((performAll later).run t).2
        (node? id).run t' = (some n, t') ∧
          ((resolve n f count).run t').1 = ((resolve n f count).run t).1 ∧
          ((resolve n f count).run t').2.draws = ((resolve n f count).run t).2.draws := by
  intro s
  have hs : s.registry = Entries.insertAll (calls.flatMap pairs) Registry.standard := by
    simp only [s, run_performAll]
    rfl
  have hascending : s.registry.names.Pairwise (· < ·) := by
    rw [hs]
    exact Entries.keys_ascending (Entries.ascending_insertAll Registry.ascending_standard)
  refine ⟨?_, ?_, ?_, hascending.imp Text.bytes_lt_bytes, ?_⟩
  · intro name k
    rw [hs, Registry.lookup?, Entries.find?_insertAll, ← Registry.lookup?_standard_iff]
    rfl
  · exact fun name => Entries.mem_keys_iff
  · exact hascending.imp String.ne_of_lt
  · intro id o e n s₁ built
    obtain ⟨hnode, -, hleaves⟩ := node_of_buildAs built
    refine ⟨hleaves, ?_⟩
    intro later f before count t t'
    have ht' : t' = t.registered (later.flatMap pairs) := by
      simp only [t', run_performAll]
    have hfind : Entries.find? id t'.nodes = some n := by
      rw [ht', registered, nodes_resolve, hnode]
    refine ⟨by rw [run_node?, hfind], ?_⟩
    rw [ht', run_resolve_registered]
    exact ⟨rfl, rfl⟩

theorem replaced_after_building :
    let w : Entropy := ⟨fun _ => 7, 0⟩
    let script := Kind.scripted "count" false [.ready (.str "x"), .count]
    let calls : List Registration := [.registerAll [("int", .echoing "e"), ("é", .builtin .int)],
      .register "int" script, .registerNamed (.scripted "late" true [.gated (.ok (.int 1))])]
    let s := ((performAll calls).run (fresh w)).2
    let e := "array:int:(oneOf:(é:3-4)):late:(2*(int))"
    s.registry.names = ["array", "boolean", "char", "entry", "int", "late", "literal", "number",
      "oneOf", "repeat", "string", "é"] ∧
    ∃ n s₁, (buildAs "n" .standard e).run s = (.ok n, s₁) ∧
      (∀ l, l ∈ n.source.leaves ↔ Reaches s.registry .standard e l) ∧
      let t := ((resolve n none 2).run s₁).2
      let t' := ((performAll [.register "int" (.builtin .int), .registerAll [("array", script)]]).run
        t).2
      (node? "n").run t' = (some n, t') ∧
        ((resolve n none 3).run t').1 = ((resolve n none 3).run t).1 ∧
        ((resolve n none 3).run t').2.draws = ((resolve n none 3).run t).2.draws := by
  intro w script calls s e
  have hnames : s.registry.names = ["array", "boolean", "char", "entry", "int", "late", "literal",
      "number", "oneOf", "repeat", "string", "é"] := by decide +kernel
  have hok : ((buildAs "n" .standard e).run s).1.isOk = true := by decide +kernel
  obtain ⟨n, s₁, built⟩ := exists_eq_ok_of_isOk hok
  obtain ⟨-, -, -, -, hnodes⟩ := last_registration_counts w calls
  obtain ⟨hleaves, hdraws⟩ := hnodes "n" .standard e n s₁ built
  exact ⟨hnames, n, s₁, built, hleaves, hdraws _ none 2 3⟩

end Session

end GenExpr
