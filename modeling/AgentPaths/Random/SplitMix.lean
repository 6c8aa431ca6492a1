/-!
A generator of random words: every draw advances a counter of 64 bits and mixes it.
-/
namespace AgentPaths

structure SplitMix where
  state : UInt64

namespace SplitMix

def next (g : SplitMix) : UInt64 × SplitMix :=
  let state := g.state + 0x9e3779b97f4a7c15
  let z := (state ^^^ (state >>> 30)) * 0xbf58476d1ce4e5b9
  let z := (z ^^^ (z >>> 27)) * 0x94d049bb133111eb
  (z ^^^ (z >>> 31), ⟨state⟩)

/-- The next word of 32 bits, as a number. -/
def draw (g : SplitMix) : Nat × SplitMix :=
  let (z, g) := g.next
  ((z >>> 32).toNat, g)

end SplitMix

end AgentPaths
