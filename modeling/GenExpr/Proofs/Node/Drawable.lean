import GenExpr.Options.Document
import GenExpr.Proofs.Draw.Checked
import GenExpr.Proofs.Node.Drawn

/-!
# Nodes that build can be drawn

Under the standard registry no draw of a node fails or is pending, and none samples an empty interval or
goes beyond the end of a list.
-/

namespace GenExpr

open CheckedM (unchecked)

theorem CheckedM.unchecked_eq_of_returns {α : Type} {x : DrawM α} {s s' : DrawState} {a : α}
    (h : Returns x s a s') : (unchecked x).run.run s = (.ok a, s') := by
  rw [Returns, Ends] at h
  have hrun : (unchecked x).run.run s = unchecked x s := rfl
  simp only [hrun, unchecked, h]

theorem Source.exists_values_of_draws {s : Source} {P : Value → Prop} (hs : s.Draws P) (count : Nat)
    (state : DrawState) :
    ∃ (vs : List Value) (state' : DrawState), vs.length = count ∧
      Returns (DrawM.repeated s.draw count) state (vs.map .ready) state' := by
  obtain ⟨ds, state', hreturns, hlength, hds⟩ := Always.repeated hs count state
  obtain ⟨vs, rfl, -⟩ := Deferred.exists_ready_of_forall hds
  rw [List.length_map] at hlength
  exact ⟨vs, state', hlength, hreturns⟩

namespace Node

variable {o : Options} {e : String} {n : Node} {b b' : BuildState}

/-- However often a node is drawn, every draw succeeds at once, and drawing with checks comes to the
same. -/
theorem always_drawable (built : (build .standard o e).run.run b = (.ok n, b')) (state : DrawState)
    (count : Nat) :
    ∃ (vs : List Value) (state' : DrawState), vs.length = count ∧
      (DrawM.repeated n.source.draw count).run.run state = (.ok (vs.map .ready), state') ∧
      (CheckedM.repeated n.source.checkedDraw count).run.run state =
        (.ok (vs.map .ready), state') := by
  have hdraws : n.source.Draws (Denotes o e) := draws_of_buildWithin _ e b n b' built
  obtain ⟨vs, state', hlength, hreturns⟩ := Source.exists_values_of_draws hdraws count state
  refine ⟨vs, state', hlength, hreturns, ?_⟩
  rw [Source.checkedDraw_eq, CheckedM.repeated_eq]
  exact CheckedM.unchecked_eq_of_returns hreturns

theorem always_drawable_entries_of_document :
    let document := "\x7b\"letters\": \"\u00e4b\", \"pets\": \x7b\"a\": \"cat\", \"b\": [1, null]\x7d\x7d"
    let e := "oneOf:(3*(string:0-2)):(array:(entry:pets):char:(int:-1-5))"
    let state : DrawState := ⟨⟨fun i => 11 * i.toUInt64, 4⟩, 0, fun _ => 2⟩
    ∃ o n b', Options.ofJson document = .ok o ∧
      (build .standard o e).run.run ⟨[], 0⟩ = (.ok n, b') ∧
      ∃ (vs : List Value) (state' : DrawState), vs.length = 9 ∧
        (DrawM.repeated n.source.draw 9).run.run state = (.ok (vs.map .ready), state') ∧
        (CheckedM.repeated n.source.checkedDraw 9).run.run state =
          (.ok (vs.map .ready), state') := by
  intro document e state
  have hok : (match Options.ofJson document with
      | .ok o => ((build .standard o e).run.run ⟨[], 0⟩).1.isOk
      | .error _ => false) = true := by
    decide +kernel
  cases ho : Options.ofJson document with
  | error fault =>
    rw [ho] at hok
    cases hok
  | ok o =>
    rw [ho] at hok
    obtain ⟨n, b', built⟩ := exists_eq_ok_of_isOk hok
    exact ⟨o, n, b', rfl, built, always_drawable built state 9⟩

end Node

end GenExpr
