import GenExpr.Node.Build
import GenExpr.Proofs.Draw.Sampling
import GenExpr.Proofs.Expression.Shape
import Mathlib.Data.List.Forall2

/-!
# What expressions mean

The values that an expression stands for under given options, by recursion on the expression as it is
parsed. An argument that is missing or empty stands for the default of its kind. Lengths and whole
numbers are bounded by the floors of the bounds of their ranges, as signed words of 64 bits.
-/

namespace GenExpr

open List (Forall₂)

/-- A text writes two numbers with a hyphen between them. -/
def Spans (text : String) (lo hi : Binary64) : Prop :=
  ∃ l r, Expression.IsBound Range.isBoundChar l ∧ Expression.IsBound Range.isBoundChar r ∧
    text.toList = l ++ '-' :: r ∧ Decimal.finite? l = some lo ∧ Decimal.finite? r = some hi

/-- The first argument, or a default if it is missing or empty. -/
def orDefault (default : String) : List String → String
  | [] => default
  | a :: _ => if a = "" then default else a

/-- A value is one of those that an expression stands for. -/
inductive Denotes (o : Options) : String → Value → Prop where
  | int {e args lo hi i} (parsed : Expression.parse e = .ok ⟨"int", args⟩)
      (spans : Spans (orDefault "0-10" args) lo hi)
      (lower : Binary64.clampInt64 lo.floor ≤ i) (upper : i ≤ Binary64.clampInt64 hi.floor) :
      Denotes o e (.int i)
  | char {e args a b c} (parsed : Expression.parse e = .ok ⟨"char", args⟩)
      (bounds : (orDefault "A-Z" args).toList = [a, '-', b]) (lower : a ≤ c) (upper : c ≤ b) :
      Denotes o e (.str (String.singleton c))
  | letters {e args lo hi} {s : String} (parsed : Expression.parse e = .ok ⟨"string", args⟩)
      (shape : Expression.IsNumberSpan (orDefault "10-20" args).toList)
      (spans : Spans (orDefault "10-20" args) lo hi)
      (lower : max 0 (Binary64.clampInt64 lo.floor) ≤ s.length)
      (upper : s.length ≤ max 0 (Binary64.clampInt64 hi.floor))
      (letters : ∀ c ∈ s.toList, o.letters.Has c) :
      Denotes o e (.str s)
  | text {e args v} (parsed : Expression.parse e = .ok ⟨"string", args⟩)
      (shape : ¬Expression.IsNumberSpan (orDefault "10-20" args).toList)
      (inner : Denotes o (orDefault "10-20" args) v) :
      Denotes o e (.str v.text)
  | number {e args x} (parsed : Expression.parse e = .ok ⟨"number", args⟩) : Denotes o e (.float x)
  | boolean {e args b} (parsed : Expression.parse e = .ok ⟨"boolean", args⟩) : Denotes o e (.bool b)
  | oneOf {e args a v} (parsed : Expression.parse e = .ok ⟨"oneOf", args⟩) (mem : a ∈ args)
      (choice : Denotes o a v) :
      Denotes o e v
  | array {e args vs} (parsed : Expression.parse e = .ok ⟨"array", args⟩)
      (items : Forall₂ (Denotes o) args vs) :
      Denotes o e (.array vs)
  | repetition {e count n inner rest} {vs : List Value}
      (parsed : Expression.parse e = .ok ⟨"repeat", count :: inner :: rest⟩)
      (counts : Decimal.count? count.toList = some n) (length_eq : vs.length = n)
      (items : ∀ v ∈ vs, Denotes o inner v) :
      Denotes o e (.str (String.join (vs.map Value.text)))
  | literal {e args v} (parsed : Expression.parse e = .ok ⟨"literal", args⟩)
      (reads : Json.read (orDefault "" args) = .ok v) :
      Denotes o e v
  | item {e args vs v} (parsed : Expression.parse e = .ok ⟨"entry", args⟩)
      (option : o.get? (orDefault "collection" args) = some (.array vs)) (mem : v ∈ vs) :
      Denotes o e v
  | member {e args members k v} (parsed : Expression.parse e = .ok ⟨"entry", args⟩)
      (option : o.get? (orDefault "collection" args) = some (.map members))
      (mem : (k, v) ∈ members) :
      Denotes o e v
  | character {e args s c} (parsed : Expression.parse e = .ok ⟨"entry", args⟩)
      (option : o.get? (orDefault "collection" args) = some (.str s)) (mem : c ∈ s.toList) :
      Denotes o e (.str (String.singleton c))

theorem Builtin.firstArgument_eq (b : Builtin) (args : List String) :
    b.firstArgument args = orDefault b.defaultArgument args := by
  cases args <;> rfl

section Range

theorem Range.read?_eq_some_iff {cs : List Char} {r : Range} :
    Range.read? cs = some r ↔ ∃ lo hi, Expression.IsBound isBoundChar lo ∧
      Expression.IsBound isBoundChar hi ∧ cs = lo ++ '-' :: hi ∧ ofBounds? lo hi = some r := by
  have hhyphen : isBoundChar '-' = false := rfl
  constructor
  · intro h
    rw [read?] at h
    split at h
    next => cases h
    next lo hi hbounds =>
      obtain ⟨hlo, hhi, hcs⟩ := (Expression.splitRange_eq_some_iff hhyphen).1 hbounds
      exact ⟨lo, hi, hlo, hhi, hcs, h⟩
  · intro hx
    obtain ⟨lo, hi, hlo, hhi, hcs, h⟩ := hx
    have hbounds := (Expression.splitRange_eq_some_iff hhyphen).2 ⟨hlo, hhi, hcs⟩
    rw [read?, bounds?, hbounds]
    exact h

theorem NumberRange.bounds_of_ofBounds? {min max : Binary64} {r : NumberRange}
    (h : NumberRange.ofBounds? min max = some r) : r.min = min ∧ r.max = max := by
  rw [ofBounds?] at h
  split at h
  next =>
    obtain rfl := Option.some.inj h
    exact ⟨rfl, rfl⟩
  next => cases h

theorem CharRange.bounds_of_ofBounds? {min max : Char} {r : CharRange}
    (h : CharRange.ofBounds? min max = some r) : r.min = min ∧ r.max = max := by
  rw [ofBounds?] at h
  split at h
  next =>
    obtain rfl := Option.some.inj h
    exact ⟨rfl, rfl⟩
  next => cases h

/-- Bounds of numbers are written as numerals, and bounds of characters as they are. -/
def Range.HasBounds : Range → List Char → List Char → Prop
  | number r, lo, hi => Decimal.finite? lo = some r.min ∧ Decimal.finite? hi = some r.max
  | char r, lo, hi => lo = [r.min] ∧ hi = [r.max]

theorem Range.hasBounds_of_ofBounds? {lo hi : List Char} {r : Range}
    (h : ofBounds? lo hi = some r) : r.HasBounds lo hi := by
  rw [ofBounds?.eq_def] at h
  split at h
  next min max hlo hhi =>
    obtain ⟨r', hr', rfl⟩ := Option.map_eq_some_iff.1 h
    obtain ⟨rfl, rfl⟩ := NumberRange.bounds_of_ofBounds? hr'
    exact ⟨hlo, hhi⟩
  next =>
    split at h
    next =>
      obtain ⟨r', hr', rfl⟩ := Option.map_eq_some_iff.1 h
      obtain ⟨rfl, rfl⟩ := CharRange.bounds_of_ofBounds? hr'
      exact ⟨rfl, rfl⟩
    next => cases h

theorem NumberRange.spans_of_parse {text : String} {r : NumberRange}
    (h : NumberRange.parse text = .ok r) : Spans text r.min r.max := by
  rw [parse] at h
  split at h
  next hread =>
    obtain rfl := Except.ok.inj h
    obtain ⟨lo, hi, hlo, hhi, htext, hbounds⟩ := Range.read?_eq_some_iff.1 hread
    exact ⟨lo, hi, hlo, hhi, htext, Range.hasBounds_of_ofBounds? hbounds⟩
  next => cases h

theorem CharRange.toList_of_parse {text : String} {r : CharRange}
    (h : CharRange.parse text = .ok r) : text.toList = [r.min, '-', r.max] := by
  rw [parse] at h
  split at h
  next hread =>
    obtain rfl := Except.ok.inj h
    obtain ⟨lo, hi, -, -, htext, hbounds⟩ := Range.read?_eq_some_iff.1 hread
    obtain ⟨rfl, rfl⟩ := Range.hasBounds_of_ofBounds? hbounds
    exact htext
  next => cases h

end Range

end GenExpr
