/-!
A byte for every number below a bound; all bytes are 0 at first.
-/
namespace AgentPaths.Sat

structure Marks where
  bytes : ByteArray

namespace Marks

def start (n : Nat) : Marks := ⟨⟨Array.replicate n 0⟩⟩

@[inline] def get (m : Marks) (i : Nat) : UInt8 := if h : i < m.bytes.size then m.bytes[i] else 0

@[inline] def put (m : Marks) (i : Nat) (x : UInt8) : Marks := ⟨m.bytes.set! i x⟩

@[simp] theorem get_start (n i : Nat) : (start n).get i = 0 := by
  unfold get start
  split
  next h => exact Array.getElem_replicate ..
  next => rfl

@[simp] theorem size_put (m : Marks) (i : Nat) (x : UInt8) :
    (m.put i x).bytes.size = m.bytes.size := ByteArray.size_set! ..

theorem get_put_self {m : Marks} {i : Nat} (x : UInt8) (h : i < m.bytes.size) :
    (m.put i x).get i = x := by
  rw [get, dif_pos (by simpa using h)]
  exact ByteArray.getElem_set!_self _ _ _ h

theorem get_put_of_ne {m : Marks} {i j : Nat} (x : UInt8) (h : i ≠ j) :
    (m.put i x).get j = m.get j := by
  by_cases hj : j < m.bytes.size
  · rw [get, dif_pos (by simpa using hj), get, dif_pos hj]
    exact ByteArray.getElem_set!_ne _ _ _ _ h hj
  · rw [get, dif_neg (by simpa using hj), get, dif_neg hj]

end Marks

end AgentPaths.Sat
