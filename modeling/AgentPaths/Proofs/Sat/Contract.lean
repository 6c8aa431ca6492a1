import AgentPaths.Sat.Oracle

/-!
The contract of an oracle. It always answers, and what it answers is right unless the token became
set during the call; then it may answer anything. An oracle that tries all assignments keeps the
contract.
-/
namespace AgentPaths

/-- A token that is set stays set. -/
def Poll.Lasting (poll : Poll) : Prop := ∀ i j, i ≤ j → poll i = true → poll j = true

/-- What an answer has to be for clauses over the variables below `n`. -/
def Answer.Right (n : Nat) (cs : List Clause) : Answer → Prop
  | .satisfiable model => model.size = n ∧ satisfied? model cs = some true
  | .unsatisfiable => ∀ model : Assignment, model.size = n → satisfied? model cs ≠ some true

namespace Oracle

variable {σ : Type}

/-- Calls with these clauses keep the contract. -/
def Decides (oracle : Oracle σ) (n : Nat) (cs : List Clause) : Prop :=
  ∀ (s : σ) (poll : Poll), poll.Lasting → ∃ answer, (oracle.solve s poll n cs).1 = .ok answer ∧
    ((∀ look, poll look = false) → answer.Right n cs)

/-- All calls keep the contract whose clauses name no other variables than they should. -/
def Keeps (oracle : Oracle σ) : Prop :=
  ∀ (n : Nat) (cs : List Clause), (∀ c ∈ cs, ∀ l ∈ c, l.var < n) → oracle.Decides n cs

/-- With a clear token the oracle cannot even take these clauses in. -/
def Declines (oracle : Oracle σ) (n : Nat) (cs : List Clause) : Prop :=
  ∀ s, (oracle.solve s (fun _ => false) n cs).1 = .error (.misuse .tooLarge)

/-- All assignments of `n` variables. -/
def assignments : Nat → List Assignment
  | 0 => [#[]]
  | n + 1 => (assignments n).flatMap fun a => [a.push false, a.push true]

/-- The oracle that tries all assignments, unless the token is set when it begins. -/
def exhaustive : Oracle Unit where
  solve _ poll n cs :=
    let answer := if poll 0 then .unsatisfiable else
      match (assignments n).find? fun a => satisfied? a cs == some true with
      | none => .unsatisfiable
      | some model => .satisfiable model
    (.ok answer, ())

theorem mem_assignments {n : Nat} {a : Assignment} : a ∈ assignments n ↔ a.size = n := by
  induction n generalizing a with
  | zero => simp [assignments]
  | succ n ih =>
    simp only [assignments, List.mem_flatMap, List.mem_cons, List.not_mem_nil, or_false, ih]
    constructor
    · intro h
      obtain ⟨b, hb, rfl | rfl⟩ := h
      · simp [hb]
      · simp [hb]
    · intro h
      obtain ⟨b, last, rfl⟩ := Array.exists_push_of_size_eq_add_one h
      refine ⟨b, by simpa using h, ?_⟩
      cases last
      · exact Or.inl rfl
      · exact Or.inr rfl

theorem exhaustive_keeps : exhaustive.Keeps := by
  intro n cs _ s poll _
  refine ⟨_, rfl, fun hclear => ?_⟩
  rw [hclear 0, if_neg (by decide)]
  split
  next hnone =>
    intro model hsize hsat
    have hnot := List.find?_eq_none.mp hnone model (mem_assignments.mpr hsize)
    exact hnot (by simp [hsat])
  next model hsome =>
    have hsat := List.find?_some hsome
    exact ⟨mem_assignments.mp (List.mem_of_find?_eq_some hsome), beq_iff_eq.mp hsat⟩

end Oracle

end AgentPaths
