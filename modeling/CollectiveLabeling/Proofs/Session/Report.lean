import CollectiveLabeling.Proofs.LabelLine
import CollectiveLabeling.Proofs.Session.Life

namespace CollectiveLabeling

open Step

-- Where the success of a run can be seen: the losses that the host was told, the text that was written
-- for it, and the loss that is held as the last one.
structure Standing where
  losses   : Array Float
  output   : Option String
  lastLoss : Option Float

namespace Standing

-- The labels of a successful run and its loss are entered together.
def enter (st : Standing) (entry : Array Int × Float) : Standing where
  losses   := st.losses.push entry.2
  output   := st.output.map (· ++ (labelLine entry.1.toList ++ "\n"))
  lastLoss := some entry.2

theorem foldl_enter (st : Standing) (entries : List (Array Int × Float)) :
    (entries.foldl enter st).losses.toList = st.losses.toList ++ entries.map Prod.snd ∧
    (entries.foldl enter st).output =
      st.output.map (· ++ report ((entries.map Prod.fst).map Array.toList)) := by
  induction entries generalizing st
  case nil => simp [report]
  case cons entry entries hi =>
    obtain ⟨losses, output⟩ := hi (st.enter entry)
    rw [List.foldl_cons, losses, output]
    simp [enter, report, Function.comp_def, String.append_assoc]

end Standing

namespace Session

section Accounted

variable {σ : Type}

def standing (s : Session σ) : Standing where
  losses   := s.scene.host.losses
  output   := s.scene.host.output
  lastLoss := s.scene.labeling.lastLoss

@[simp]
theorem standing_shelve (s : Session σ) : s.shelve.standing = s.standing := by
  simp only [standing, shelve_scene]

variable [Decider σ] {s : Session σ}

-- A run is accounted for in full, with a label for every node and the loss of the counts that it leaves,
-- or not at all.
inductive Accounted (s : Session σ) : Prop
  | done {f : Frame} {pred : Array Int} {k : Confusion} {t : Session σ} : run s = .ok pred t →
      s.scene.labeling.frame = some f → pred.size = f.graph.nodes.size →
      t.scene.labeling.confusion = some k → t.standing = s.standing.enter (pred, k.loss) → Accounted s
  | failed {e : Fault} {t : Session σ} : run s = .error e t → t.standing = s.standing → Accounted s

theorem accounted (sound : s.scene.labeling.Sound) : s.Accounted := by
  cases Scene.ended sound
  case refused hr => exact .failed (run_error hr) (standing_shelve _)
  case ran f _ hf _ ran =>
    cases ran
    case failed hr => exact .failed (run_error hr) (standing_shelve _)
    case done c k _ _ hw _ _ _ hr =>
      have idle : (s.scene.opening f).Idle := sound.idle
      have size : c.pred.size = f.graph.nodes.size := (Course.completes idle hw).left.size_pred rfl
      exact .done (k := k) (run_ok hr) hf size (by rw [shelve_scene]; rfl) (standing_shelve _)

theorem standing_setup (sound : s.scene.labeling.Sound) (place : Option Nat) :
    (outcome (setup place) s).2.standing = s.standing := by
  simp only [standing, outcome_setup_scene]
  cases Scene.setUp sound (s.episode place)
  case refused hs => rw [outcome_error.mpr hs]; rfl
  case accepted hs => rw [outcome_ok.mpr hs]; rfl

end Accounted

variable {σ : Type} [Decider σ] {s t : Session σ} {es : List (Event σ)}

-- What a successful run answers with, and the loss of the counts that it leaves.
def Event.result? (e : Event σ) : Option (Array Int × Float) :=
  e.labels?.bind fun pred => e.after.scene.labeling.confusion.map fun k => (pred, k.loss)

-- What is reported of a move: the result of a successful run, and of no other move anything.
structure Event.Reported (e : Event σ) : Prop where
  result   : e.result?.map Prod.fst = e.labels?
  standing : e.after.standing = e.result?.toList.foldl Standing.enter e.before.standing

theorem Event.reported_of_silent {e : Event σ} (silent : e.labels? = none)
    (same : e.after.standing = e.before.standing) : e.Reported where
  result   := by simp [result?, silent]
  standing := by simpa [result?, silent] using same

theorem reported_move (sound : s.scene.labeling.Sound) (m : Move) : Event.Reported ⟨m, s⟩ := by
  cases m
  case takedown => exact Event.reported_of_silent rfl rfl
  case finish => exact Event.reported_of_silent rfl rfl
  case setup place =>
    refine Event.reported_of_silent (Event.labels?_setup place s) ?_
    rw [Event.after, outcome_move]
    exact standing_setup sound place
  case run =>
    cases accounted sound
    case failed hr same =>
      have failed := move_run_error hr
      refine Event.reported_of_silent (Event.labels?_failed failed) ?_
      rw [Event.after, outcome_error.mpr failed]
      exact same
    case done pred k t hr _ _ hk entered =>
      have labels := Event.labels?_run hr
      have after : Event.after ⟨.run, s⟩ = t := congrArg Prod.snd (outcome_ok.mpr (move_run_ok hr))
      have result : Event.result? ⟨.run, s⟩ = some (pred, k.loss) := by
        simp [Event.result?, labels, after, hk]
      exact {
        result   := by rw [result, labels]; rfl
        standing := by
          rw [result, after]
          exact entered }

theorem Life.reported (life : s.Life es t) (sound : s.scene.labeling.Sound) :
    (es.filterMap Event.result?).map Prod.fst = es.filterMap Event.labels? ∧
    t.standing = (es.filterMap Event.result?).foldl Standing.enter s.standing := by
  have singleton {α : Type} (f : Event σ → Option α) (e : Event σ) : [e].filterMap f = (f e).toList := by
    cases h : f e <;> simp [h]
  induction life
  case refl => exact ⟨rfl, rfl⟩
  case surroundings hi => exact hi
  case move es t m life hi =>
    have ⟨results, standing⟩ := hi
    have reported := reported_move (life.sound sound) m
    rw [List.filterMap_append, List.filterMap_append, List.map_append, results, List.foldl_append,
      ← standing]
    refine ⟨?labels, ?standing⟩
    case labels => rw [singleton, singleton, ← reported.result, Option.toList_map]
    case standing => rw [singleton, reported.standing]

end Session
end CollectiveLabeling
