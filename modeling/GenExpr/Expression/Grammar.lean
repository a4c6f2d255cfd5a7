import GenExpr.Text.Place

/-!
# The general form of an expression

An expression is a kind followed by arguments, separated by colons. Parentheses protect colons: a
group gives its contents to the segment it stands in, without its own parentheses and with those
inside it. This module reads the general form and says where and why a text is not of that form. The
shorthands are not read here.
-/

namespace GenExpr

/-- A kind to look up and the raw texts it is given. -/
structure Invocation where
  kind : String
  arguments : List String
  deriving DecidableEq, Repr

namespace Expression

inductive Misfit where
  /-- A parenthesis is never closed. -/
  | unclosed
  /-- The first segment is empty. -/
  | noKind
  /-- A parenthesis closes nothing. -/
  | strayClose
  deriving DecidableEq, Repr

def Misfit.expected : Misfit → String
  | .unclosed => "one of \"(\", \")\", [^ '(' | ')']"
  | .noKind => "one of \"(\", [^ ':' | '(' | ')'], generator kind"
  | .strayClose => "one of \"(\", \":\", [^ ':' | '(' | ')']"

/-- A text that is not of the general form, how far it could be read, and what is wrong there. -/
structure Failure where
  text : String
  position : Nat
  misfit : Misfit
  deriving DecidableEq, Repr

/-- The line and column of the first character that could not be read. -/
def Failure.place (f : Failure) : Text.Place := .following (f.text.toList.take f.position)

def Failure.message (f : Failure) : String :=
  "error at " ++ toString f.place.line ++ ":" ++ toString f.place.column ++ ": expected " ++
    f.misfit.expected

/-- The text after the parenthesis that closes a group, from inside the group. -/
def afterGroup : Nat → List Char → Option (List Char)
  | 0, _ => none
  | _ + 1, [] => none
  | n + 1, c :: r =>
    if c = ')' then some r
    else if c = '(' then
      match afterGroup n r with
      | none => none
      | some r₁ => afterGroup n r₁
    else afterGroup n r

theorem afterGroup_suffix {n : Nat} {cs rest : List Char} (h : afterGroup n cs = some rest) :
    ∃ inner, cs = inner ++ ')' :: rest := by
  induction n generalizing cs rest with
  | zero => simp [afterGroup] at h
  | succ n ih =>
    cases cs with
    | nil => simp [afterGroup] at h
    | cons c r =>
      simp only [afterGroup] at h
      split at h
      · rename_i hc
        obtain rfl : r = rest := by simpa using h
        exact ⟨[], by simp [hc]⟩
      · split at h
        · cases hr : afterGroup n r with
          | none => simp [hr] at h
          | some r₁ =>
            obtain ⟨first, rfl⟩ := ih hr
            obtain ⟨more, rfl⟩ := ih (by simpa [hr] using h)
            exact ⟨c :: (first ++ ')' :: more), by simp⟩
        · obtain ⟨inner, rfl⟩ := ih h
          exact ⟨c :: inner, rfl⟩

/-- Reads the rest of an open group: its contents as they stand, and the text after the parenthesis
that closes it. -/
def enclosed (r : List Char) : Option (List Char × List Char) :=
  match afterGroup r.length r with
  | none => none
  | some rest => some (r.take (r.length - rest.length - 1), rest)

theorem eq_of_enclosed {r inner rest : List Char} (h : enclosed r = some (inner, rest)) :
    r = inner ++ ')' :: rest := by
  unfold enclosed at h
  cases hr : afterGroup r.length r with
  | none => simp [hr] at h
  | some after =>
    obtain ⟨first, hfirst⟩ := afterGroup_suffix hr
    obtain ⟨rfl, rfl⟩ : r.take (r.length - after.length - 1) = inner ∧ after = rest := by
      simpa [hr] using h
    have hlen : r.length - after.length - 1 = first.length := by
      simp [hfirst]
      omega
    rw [hlen]
    simp [hfirst]

/-- Reads one segment: its contents, and the text from the colon or stray parenthesis that ends it. -/
def segment : Nat → List Char → Option (List Char × List Char)
  | 0, r => some ([], r)
  | _ + 1, [] => some ([], [])
  | n + 1, c :: r =>
    if c = ':' ∨ c = ')' then some ([], c :: r)
    else if c = '(' then
      match enclosed r with
      | none => none
      | some (inner, r₁) =>
        match segment n r₁ with
        | none => none
        | some (more, r₂) => some (inner ++ more, r₂)
    else
      match segment n r with
      | none => none
      | some (more, r₁) => some (c :: more, r₁)

/-- Reads the segments that follow the kind. A misfit comes with the text from where it was noticed. -/
def arguments : Nat → List Char → Except (Misfit × List Char) (List (List Char))
  | _, [] => .ok []
  | 0, r => .error (.strayClose, r)
  | n + 1, c :: r =>
    if c = ':' then
      match segment r.length r with
      | none => .error (.unclosed, [])
      | some (first, r₁) =>
        match arguments n r₁ with
        | .error e => .error e
        | .ok more => .ok (first :: more)
    else .error (.strayClose, c :: r)

def segments (cs : List Char) : Except (Misfit × List Char) (List Char × List (List Char)) :=
  match segment cs.length cs with
  | none => .error (.unclosed, [])
  | some (kind, r) =>
    if kind = [] then .error (.noKind, r)
    else
      match arguments r.length r with
      | .error e => .error e
      | .ok rest => .ok (kind, rest)

def general (text : String) : Except Failure Invocation :=
  match segments text.toList with
  | .error (misfit, rest) => .error ⟨text, text.toList.length - rest.length, misfit⟩
  | .ok (kind, rest) => .ok ⟨String.ofList kind, rest.map String.ofList⟩

end Expression

end GenExpr
