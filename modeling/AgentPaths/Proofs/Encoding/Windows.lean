import AgentPaths.Proofs.Encoding.Allotment
import AgentPaths.Proofs.Graph.Distance
import Mathlib.Order.Bounds.Defs
import Mathlib.Order.CompletePartialOrder

/-!
What windows decide about a formula. They stop it for the first agent that cannot arrive in time,
and otherwise they admit the places on the journeys of the agents; of the windows themselves nothing
else is left, so that windows kept from earlier makespans serve as well as new ones.
-/
namespace AgentPaths

/-- A path of at most `m` edges leads the agent to its goal. -/
def Agent.InTime (g : Graph) (m : Nat) (a : Agent) : Prop := ∃ d ≤ m, g.Path a.initial d a.goal

namespace Problem

/-- The agents, by number, that cannot arrive within `m` steps. -/
def late (p : Problem) (m : Nat) : Set Nat :=
  {i | ∃ a, p.agents[i]? = some a ∧ ¬a.InTime p.graph m}

/-- The greatest of the distances that the agents have to go, infinite if one cannot arrive. -/
noncomputable def farthest (p : Problem) : ℕ∞ :=
  ⨆ a ∈ p.agents, p.graph.distance a.initial a.goal

theorem farthest_le_iff {p : Problem} {m : Nat} :
    p.farthest ≤ m ↔ ∀ a ∈ p.agents, a.InTime p.graph m := by
  simp only [farthest, iSup_le_iff, Graph.distance_le_iff, Graph.walk_iff_path, Agent.InTime]

theorem lt_farthest_of_late {p : Problem} {m i : Nat} (h : i ∈ p.late m) : m < p.farthest := by
  obtain ⟨a, ha, hlate⟩ := h
  rw [← not_le, farthest_le_iff]
  exact fun hall => hlate (hall a (List.mem_of_getElem? ha))

end Problem

namespace Encoding

variable {p : Problem} {m : Nat} {ws ws' : List (Window p.graph)}

/-- The first window that reaches nothing is the one of the first agent that is late. -/
theorem WindowsPast.isLeast_late (h : WindowsPast p m ws) {w : Window p.graph} {a : Nat}
    (hfind : (ws.zipIdx.find? fun (w, _) => !w.reaches m) = some (w, a)) :
    IsLeast (p.late m) a := by
  have hreaches {i : Nat} {agent : Agent} (hi : p.agents[i]? = some agent) (hlt : i < ws.length) :
      ws[i].reaches m = true ↔ agent.InTime p.graph m :=
    (h.reaches_iff hi (List.getElem?_eq_getElem hlt)).trans Graph.walk_iff_path
  obtain ⟨hw, i, hi, hat, hbefore⟩ := List.find?_eq_some_iff_getElem.mp hfind
  rw [List.length_zipIdx] at hi
  rw [List.getElem_zipIdx, Nat.zero_add, Prod.mk.injEq] at hat
  obtain ⟨rfl, rfl⟩ := hat
  constructor
  · have hagent : i < p.agents.length := h.perAgent ▸ hi
    refine ⟨p.agents[i], List.getElem?_eq_getElem hagent, fun hintime => ?_⟩
    dsimp only at hw
    rw [(hreaches (List.getElem?_eq_getElem hagent) hi).mpr hintime] at hw
    cases hw
  · intro j hj
    obtain ⟨agent, hagent, hlate⟩ := hj
    apply Nat.le_of_not_lt
    intro hlt
    have hpassed := hbefore j hlt
    rw [List.getElem_zipIdx, Bool.not_not] at hpassed
    exact hlate ((hreaches hagent (Nat.lt_trans hlt hi)).mp hpassed)

theorem build_eq_unreachable [Memory] (h : WindowsPast p m ws) {a : Nat}
    (hb : build p m (some ws) = .ok (.unreachable a)) : IsLeast (p.late m) a := by
  unfold build at hb
  rw [h.prepared.any_length_ne, if_neg (by decide)] at hb
  split at hb
  next => cases hb
  next =>
    dsimp only at hb
    split at hb
    next => cases hb
    next w i hfind =>
      split at hb
      next => cases hb
      next =>
        cases hb
        exact h.isLeast_late hfind

/-- Windows stop a formula for the first agent that is late, if there is one. -/
theorem build_eq_unreachable_iff [Memory] (h : WindowsPast p m ws)
    (hfits : KeyTable.Fits m p.agents.length p.graph.size) {a : Nat} :
    build p m (some ws) = .ok (.unreachable a) ↔ IsLeast (p.late m) a := by
  refine ⟨build_eq_unreachable h, fun hleast => ?_⟩
  obtain ⟨e, he⟩ := exists_build h.prepared hfits
  cases e with
  | unreachable b => rw [he, hleast.unique (build_eq_unreachable h he)]
  | built f =>
    obtain ⟨agent, hagent, hlate⟩ := hleast.1
    have hall := ((build_eq_built_iff h.prepared).mp he).2.2 (by simp)
    exact absurd (Graph.walk_iff_path.mp (hall agent (List.mem_of_getElem? hagent))) hlate

/-- Without windows there is always a formula, and with them if no agent is late. -/
theorem exists_built_iff [Memory] {windows : Option (List (Window p.graph))}
    (h : Prepared p m windows) (hfits : KeyTable.Fits m p.agents.length p.graph.size) :
    (∃ f, build p m windows = .ok (.built f)) ↔
      (windows ≠ none → ∀ a ∈ p.agents, a.InTime p.graph m) := by
  simp only [build_eq_built_iff h, Graph.walk_iff_path, hfits, true_and, exists_eq_left,
    Agent.InTime]

theorem WindowsPast.admission_eq (h : WindowsPast p m ws) (h' : WindowsPast p m ws') :
    admission m ws.toArray = admission m ws'.toArray := by
  funext i t v
  by_cases hi : i < p.agents.length
  · have hagent := List.getElem?_eq_getElem hi
    rw [Bool.eq_iff_iff, h.admission_iff hagent, h'.admission_iff hagent]
  · have hnone : ∀ {us : List (Window p.graph)}, WindowsPast p m us → us[i]? = none :=
      fun hus => List.getElem?_eq_none (hus.perAgent ▸ Nat.not_lt.mp hi)
    simp [admission, hnone h, hnone h']

/-- Windows that have ticked past a makespan make the same of it, however far each of them has come
and by whichever calls. -/
theorem build_eq_of_windowsPast [Memory] (h : WindowsPast p m ws) (h' : WindowsPast p m ws') :
    build p m (some ws) = build p m (some ws') ∧
      (KeyTable.Fits m p.agents.length p.graph.size → ∃ e, build p m (some ws) = .ok e) := by
  refine ⟨?_, exists_build h.prepared⟩
  by_cases hfits : KeyTable.Fits m p.agents.length p.graph.size
  · obtain ⟨e, he⟩ := exists_build h.prepared hfits
    rw [he]
    cases e with
    | unreachable a =>
      exact ((build_eq_unreachable_iff h' hfits).mpr (build_eq_unreachable h he)).symm
    | built f =>
      obtain ⟨_, hf, hall⟩ := (build_eq_built_iff h.prepared).mp he
      have hformula := hf.trans (congrArg (ofAdmission p m) (h.admission_eq h'))
      exact ((build_eq_built_iff h'.prepared).mpr ⟨hfits, hformula, fun _ => hall (by simp)⟩).symm
  · obtain ⟨misuse, hlack⟩ := KeyTable.exists_lack?_of_not_fits hfits
    rw [build_of_lack h.prepared hlack, build_of_lack h'.prepared hlack]

/-- A line of four nodes, on which the second agent has three edges to go. -/
def relay : Problem where
  graph := (((Graph.empty 4).join 0 1).join 1 2).join 2 3
  agents := [⟨1, 0⟩, ⟨0, 3⟩]
  admissible := ⟨by decide, by decide, by decide⟩

def relayWindows : List (Window relay.graph) :=
  (relay.agents.map (Window.start relay.graph)).map (Window.extend · 3)

theorem windowsPast_relay : WindowsPast relay 3 relayWindows := windowsFor_start.extend 3

/-- Windows of the relay from a search that has gone on: seven ticks for the first agent, and five
for the second, one of them by itself. -/
def laterWindows : List (Window relay.graph) :=
  [(Window.start relay.graph ⟨1, 0⟩).extend 6, ((Window.start relay.graph ⟨0, 3⟩).extend 3).tick]

theorem windowsPast_later : WindowsPast relay 3 laterWindows := by
  constructor
  · constructor
    · rfl
    · intro i a w ha hw
      have hfirst : ((Window.start relay.graph ⟨1, 0⟩).extend 6).Advanced ⟨1, 0⟩ :=
        Window.Advanced.start.extend (by decide) 6
      have hsecond : ((Window.start relay.graph ⟨0, 3⟩).extend 3).Advanced ⟨0, 3⟩ :=
        Window.Advanced.start.extend (by decide) 3
      rcases i with _ | _ | i
      · cases ha
        cases hw
        exact hfirst
      · cases ha
        cases hw
        exact hsecond.step (if_pos (by decide))
      · cases ha
  · decide

section

attribute [local instance] Memory.ample

theorem build_eq_of_windowsPast_relay : WindowsPast relay 3 relayWindows ∧
    WindowsPast relay 3 laterWindows ∧ KeyTable.Fits 3 2 4 ∧
    build relay 3 (some relayWindows) = build relay 3 (some laterWindows) ∧
    ∃ e, build relay 3 (some relayWindows) = .ok e := by
  have hsame := build_eq_of_windowsPast windowsPast_relay windowsPast_later
  exact ⟨windowsPast_relay, windowsPast_later, by decide, hsame.1, hsame.2 (by decide)⟩

end

end Encoding

end AgentPaths
