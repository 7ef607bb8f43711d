import CollectiveLabeling.Proofs.Course.Memory
import CollectiveLabeling.Proofs.Session.Course

namespace CollectiveLabeling.Session

variable {s₀ s : Session Apprentice}

-- Whether the apprentice learns or is being tested, and whatever went on before, what it remembers
-- and the labels of the nodes agree at every decision.
theorem memory_in_accord (opened : s₀.Opened) (steps : s₀.Steps s) (place : Option Nat) :
    ∀ d ∈ s.reached place,
      ∃ near es, d.Accord s.scene.labeling.labels s.scene.labeling.plan near es := by
  intro d hd
  have ⟨_, _, started⟩ := opened.started
  have sound := steps.sound started.sound
  have ⟨_, _, accepted⟩ := accepted_of_reached sound hd
  rw [accepted.reached] at hd
  exact Course.accord_of_run accepted.idle accepted.sound_graph rfl accepted.order_perm
    accepted.scratch sound.structured rfl hd

-- An apprentice that learns.
theorem memory_in_accord_sample :
    let s : Session Apprentice := sample { mind := {
      policy := { labels := 2, space := .standard, rate := 1.0, learners := #[.zero] } } }
    s.reached (some 0) ≠ [] ∧
      ∀ d ∈ s.reached (some 0), ∃ near es, d.Accord 2 .standard near es := by
  intro s
  have opened : s.Opened := opened_sample _
  have ⟨_, _, started⟩ := opened.started
  have ⟨order, accepted⟩ : ∃ order, s.Accepted (some 0) _ order :=
    accepted_of_graph started.sound rfl rfl
  have visits : (s.scene.labeling.plan.schedule order).length = 4 := by
    rw [Plan.length_schedule, accepted.order_perm.length_eq]
    rfl
  refine ⟨?_, memory_in_accord opened .refl (some 0)⟩
  rw [accepted.reached]
  exact Course.decisions_ne_nil fun he => by simp [he] at visits

end CollectiveLabeling.Session
