/-!
Bounds of machine words. Node numbers, counts and times are numbers of any size here; the bounds
matter where a text is read, a table is laid out, or a step leaves the numbers at one end.
-/
namespace AgentPaths

/-- The first number that does not fit into a word of 64 bits. -/
def wordBound : Nat := 0x10000000000000000

/-- The first number that does not fit into half a word. -/
def halfBound : Nat := 0x100000000

/-- The first number of bytes that cannot be addressed. -/
def addressBound : Nat := 0x8000000000000000

end AgentPaths
