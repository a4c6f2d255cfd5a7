/-!
# Entropy

Random words of 64 bits, taken one after another from a fixed stream. Everything random in this library
takes its words from here, so that equal entropy means equal draws. Streams are a list of given words
followed by a generator that is determined by its seed.
-/

namespace GenExpr

/-- A stream of words and how many were taken from it. -/
structure Entropy where
  stream : Nat → UInt64
  taken : Nat

namespace Entropy

/-- The word at an index of the stream of a seed: the state advances by a fixed odd step and is mixed
by two rounds of shifts and products. -/
def splitMix (seed : UInt64) (index : Nat) : UInt64 :=
  let z := seed + (UInt64.ofNat (index + 1)) * 0x9e3779b97f4a7c15
  let z := (z ^^^ (z >>> 30)) * 0xbf58476d1ce4e5b9
  let z := (z ^^^ (z >>> 27)) * 0x94d049bb133111eb
  z ^^^ (z >>> 31)

/-- Fresh entropy: the given words, then those of a seed. -/
def ofWords (words : Array UInt64) (seed : UInt64) : Entropy where
  stream n := if h : n < words.size then words[n] else splitMix seed (n - words.size)
  taken := 0

def next : StateM Entropy UInt64 := fun e => (e.stream e.taken, { e with taken := e.taken + 1 })

@[simp] theorem next_run (e : Entropy) :
    next e = (e.stream e.taken, { e with taken := e.taken + 1 }) := rfl

end Entropy

end GenExpr
