import CollectiveLabeling.Proofs.Course.Run

namespace CollectiveLabeling

open Step

namespace Clock

theorem read_ok (c : Clock) : ∃ x c', read c = .ok x c' := by
  cases h : c.coming <;> simp [read, h]

theorem elapsed_ok (started : Float) (c : Clock) : ∃ x c', elapsed started c = .ok x c' := by
  have ⟨x, c', h⟩ := c.read_ok
  exact ⟨x - started, c', by simp [elapsed, h]⟩

end Clock

namespace Scene

variable {σ : Type} {s : Scene σ} {frame : Frame} {k : Confusion}

-- The course of an episode, as it stands.
def courseOf (s : Scene σ) (frame : Frame) : Course σ where
  bench := ⟨frame.graph, s.labeling.augmenter⟩
  pred  := frame.pred
  mind  := s.host.mind

-- The course of an episode when a run begins.
def opening (s : Scene σ) (frame : Frame) : Course σ :=
  { s.courseOf frame with pred := Array.replicate frame.graph.nodes.size s.labeling.undecided }

def resume (s : Scene σ) (frame : Frame) (c : Course σ) : Scene σ :=
  { s with
    labeling := { s.labeling with
      augmenter := c.bench.augmenter
      frame := some { frame with graph := c.bench.graph, pred := c.pred } }
    host := { s.host with mind := c.mind } }

-- The clock and the log take no part in a labeling. They are set to whatever they have become.
def noted (s : Scene σ) (clock : Clock) (entries : Array Entry) : Scene σ :=
  { s with labeling := { s.labeling with entries }, clock }

def withConfusion (s : Scene σ) (k : Confusion) : Scene σ :=
  { s with labeling := { s.labeling with confusion := some k } }

def withReport (s : Scene σ) (k : Confusion) (pred : Array Int) : Scene σ :=
  { s with
    labeling := { s.labeling with lastLoss := some k.loss }
    host := (s.host.reportLoss k.loss).write (labelLine pred.toList ++ "\n") }

theorem resume_courseOf (h : s.labeling.frame = some frame) :
    s.resume frame (s.courseOf frame) = s := by
  simp [resume, courseOf, ← h]

theorem onClock_ok {α : Type} {x : Step Clock α} {a : α} {clock : Clock}
    (h : x s.clock = .ok a clock) : onClock x s = .ok a { s with clock } :=
  within_ok h

theorem logDefect_ok {α : Type} {x : Step (Scene σ) α} {a : α} {t : Scene σ} (h : x s = .ok a t) :
    logDefect x s = .ok a t := by
  simp [logDefect, onFault, h]

theorem logDefect_error {α : Type} {x : Step (Scene σ) α} {e : Fault} {t : Scene σ}
    (h : x s = .error e t) : ∃ entries, logDefect x s = .error e (t.noted t.clock entries) := by
  simp only [logDefect, onFault, h]
  split
  case h_1 => exact ⟨_, rfl⟩
  case h_2 => exact ⟨t.labeling.entries, rfl⟩

theorem currentFrame_ok (h : s.labeling.frame = some frame) :
    currentFrame s = .ok frame s := by
  simp [currentFrame, h]

theorem currentConfusion_ok (h : s.labeling.confusion = some k) :
    currentConfusion s = .ok k s := by
  simp [currentConfusion, h]

section OnCourse

variable {α : Type} {x : Step (Course σ) α} {c : Course σ}

theorem onCourse_ok {a : α} (h : s.labeling.frame = some frame)
    (hx : x (s.courseOf frame) = .ok a c) : onCourse x s = .ok a (s.resume frame c) := by
  simp only [onCourse, h]
  exact within_ok hx

theorem onCourse_error {e : Fault} (h : s.labeling.frame = some frame)
    (hx : x (s.courseOf frame) = .error e c) : onCourse x s = .error e (s.resume frame c) := by
  simp only [onCourse, h]
  exact within_error hx

end OnCourse

section Decider

variable [Decider σ]

theorem pass_apply (i : Nat) (h : s.labeling.frame = some frame) : ∃ clock entries,
    pass i s = match Course.pass s.labeling.labels s.labeling.plan frame.order i (s.courseOf frame) with
      | .ok _ c => .ok ⟨⟩ ((s.resume frame c).noted clock entries)
      | .error e c => .error e ((s.resume frame c).noted clock entries) := by
  have ⟨started, clock, hr⟩ := s.clock.read_ok
  have ⟨x, clock', he⟩ := clock.elapsed_ok started
  have hf : currentFrame { s with clock } = .ok frame { s with clock } := currentFrame_ok h
  cases hp : Course.pass s.labeling.labels s.labeling.plan frame.order i (s.courseOf frame)
  case error e c =>
    have hc := onCourse_error (s := { s with clock }) h hp
    refine ⟨clock, s.labeling.entries, (bind_ok (onClock_ok hr)).trans ?_⟩
    exact (bind_ok rfl).trans <| (bind_ok hf).trans <| bind_error hc
  case ok u c =>
    have hc := onCourse_ok (s := { s with clock }) h hp
    refine ⟨clock', ?_⟩
    apply Exists.intro
    refine (bind_ok (onClock_ok hr)).trans <| (bind_ok rfl).trans <| (bind_ok hf).trans ?_
    exact (bind_ok hc).trans <| (bind_ok (onClock_ok he)).trans rfl

theorem forM_pass_apply (is : List Nat) (h : s.labeling.frame = some frame) : ∃ clock entries,
    is.forM pass s = match is.forM
        (Course.pass s.labeling.labels s.labeling.plan frame.order) (s.courseOf frame) with
      | .ok _ c => .ok ⟨⟩ ((s.resume frame c).noted clock entries)
      | .error e c => .error e ((s.resume frame c).noted clock entries) := by
  induction is generalizing s frame
  case nil =>
    refine ⟨s.clock, s.labeling.entries, ?_⟩
    simp only [List.forM_eq_forM, List.forM_nil, pure_apply, resume_courseOf h]
    rfl
  case cons i is hi =>
    have ⟨clock, entries, hp⟩ := pass_apply i h
    simp only [List.forM_eq_forM, List.forM_cons, bind_apply, hp] at hi ⊢
    cases Course.pass s.labeling.labels s.labeling.plan frame.order i (s.courseOf frame)
    case error e c => exact ⟨clock, entries, rfl⟩
    case ok u c =>
      have ⟨clock', entries', hs⟩ := hi (s := (s.resume frame c).noted clock entries) rfl
      exact ⟨clock', entries', hs⟩

-- A scene at the beginning of a run, with no labels and no counts of an earlier one.
def readied (s : Scene σ) (frame : Frame) (k : Confusion) : Scene σ :=
  { s with labeling := { s.labeling with
    confusion := some k.clear
    frame := some { frame with
      pred := Array.replicate frame.graph.nodes.size s.labeling.undecided } } }

theorem passes_apply (s : Scene σ) (frame : Frame) (k : Confusion) : ∃ clock entries,
    (List.range s.labeling.plan.passes).forM pass (s.readied frame k) =
    match Course.follow s.labeling.labels s.labeling.plan (s.labeling.plan.schedule frame.order)
        (s.opening frame) with
      | .ok _ c => .ok ⟨⟩ (((s.withConfusion k.clear).resume frame c).noted clock entries)
      | .error e c => .error e (((s.withConfusion k.clear).resume frame c).noted clock entries) := by
  have ⟨clock, entries, hp⟩ := forM_pass_apply (s := s.readied frame k)
    (List.range s.labeling.plan.passes) rfl
  refine ⟨clock, entries, hp.trans ?_⟩
  rw [Course.forM_pass, Plan.schedule_eq_rounds]
  rfl

section Run

variable (hf : s.labeling.frame = some frame) (hk : s.labeling.confusion = some k)
include hf hk

omit [Decider σ] in
theorem reset_ok : reset s = .ok ⟨⟩ (s.readied frame k) :=
  (bind_ok (currentFrame_ok hf)).trans <| (bind_ok (currentConfusion_ok hk)).trans rfl

theorem run_error {e : Fault} {c : Course σ}
    (h : Course.follow s.labeling.labels s.labeling.plan (s.labeling.plan.schedule frame.order)
      (s.opening frame) = .error e c) : ∃ clock entries,
    run s = .error e (((s.withConfusion k.clear).resume frame c).noted clock entries) := by
  have ⟨clock, entries, hp⟩ := passes_apply s frame k
  rw [h] at hp
  have hb : (reset >>= fun _ => get >>= fun t => (List.range t.labeling.plan.passes).forM pass >>=
      fun _ => score >>= fun _ => report) s = .error e _ :=
    (bind_ok (reset_ok hf hk)).trans <| (bind_ok rfl).trans <| bind_error hp
  have ⟨entries', hl⟩ := logDefect_error hb
  exact ⟨clock, entries', hl⟩

-- A run that takes all its decisions and can be scored.
theorem run_ok {c : Course σ} {k' : Confusion}
    (h : Course.follow s.labeling.labels s.labeling.plan (s.labeling.plan.schedule frame.order)
      (s.opening frame) = .ok ⟨⟩ c)
    (hs : countFrame ⟨c.bench.graph, frame.order, c.pred⟩ k.clear = .ok ⟨⟩ k') :
    ∃ clock entries, run s = .ok c.pred
      ((((s.withConfusion k').resume frame c).withReport k' c.pred).noted clock entries) := by
  have ⟨clock, entries, hp⟩ := passes_apply s frame k
  rw [h] at hp
  have hc : score (((s.withConfusion k.clear).resume frame c).noted clock entries) =
      .ok ⟨⟩ (((s.withConfusion k').resume frame c).noted clock entries) :=
    (bind_ok (currentFrame_ok rfl)).trans <| (bind_ok (currentConfusion_ok rfl)).trans <|
      within_ok hs
  have hr : ∃ entries', report (((s.withConfusion k').resume frame c).noted clock entries) =
      .ok c.pred ((((s.withConfusion k').resume frame c).withReport k' c.pred).noted clock
        entries') := by
    apply Exists.intro
    exact (bind_ok (currentFrame_ok rfl)).trans <| (bind_ok (currentConfusion_ok rfl)).trans rfl
  have ⟨entries', hr⟩ := hr
  refine ⟨clock, entries', logDefect_ok ?_⟩
  exact (bind_ok (reset_ok hf hk)).trans <| (bind_ok rfl).trans <| (bind_ok hp).trans <|
    (bind_ok hc).trans hr

end Run

theorem run_unset (h : s.labeling.frame = none) : run s = .error (.misuse .notSetUp) s := by
  have hr : currentFrame s = .error (.misuse .notSetUp) s := by simp [currentFrame, h]
  simp [run, logDefect, onFault, reset, hr]

theorem run_finished (hf : s.labeling.frame = some frame) (hk : s.labeling.confusion = none) :
    run s = .error .finished s := by
  have hc : currentConfusion s = .error .finished s := by simp [currentConfusion, hk]
  simp [run, logDefect, onFault, reset, currentFrame_ok hf, hc]

end Decider
end Scene
end CollectiveLabeling
