import CollectiveLabeling.Proofs.Scene.Sound

namespace CollectiveLabeling

open Step

namespace Scene

variable {σ : Type} [Decider σ] {s t : Scene σ} {frame : Frame} {k : Confusion} {c : Course σ}

-- What the steps of a labeling's life keep of a scene. Of the host's mind they keep whatever all its
-- answers keep.
structure Kept (s t : Scene σ) : Prop where
  sound  : t.labeling.Sound
  labels : t.labeling.labels = s.labeling.labels
  plan   : t.labeling.plan = s.labeling.plan
  space  : t.labeling.augmenter.space = s.labeling.augmenter.space
  mind   : ∀ I : σ → Prop, (∀ q, Keeps I (Decider.decide q)) → I s.host.mind → I t.host.mind

theorem Kept.refl (h : s.labeling.Sound) : s.Kept s :=
  ⟨h, rfl, rfl, rfl, fun _ _ hi => hi⟩

namespace Kept

theorem noted (h : s.Kept t) (clock : Clock) (entries : Array Entry) : s.Kept (t.noted clock entries) where
  sound  := { h.sound with }
  labels := h.labels
  plan   := h.plan
  space  := h.space
  mind   := h.mind

theorem withReport (h : s.Kept t) (k : Confusion) (pred : Array Int) : s.Kept (t.withReport k pred) where
  sound  := { h.sound with }
  labels := h.labels
  plan   := h.plan
  space  := h.space
  mind   := h.mind

theorem resume (h : s.labeling.Sound) (hf : s.labeling.frame = some frame)
    (hk : s.labeling.confusion.isSome) (same : (s.opening frame).bench.Same c.bench)
    (hs : k.side = s.labeling.labels + 1)
    (mind : ∀ I : σ → Prop, (∀ q, Keeps I (Decider.decide q)) → I s.host.mind → I c.mind) :
    s.Kept ((s.withConfusion k).resume frame c) where
  sound := {
    idle       := same.active.trans h.idle
    structured := same.structured.trans h.structured
    prior      := h.prior
    side       := by simpa [Scene.resume, withConfusion] using hs
    scratch    := fun _ => same.scratch.trans (h.scratch hk)
    frame      := fun f he => by cases he; exact (h.frame frame hf).resume same c.pred }
  labels := rfl
  plan   := rfl
  space  := same.space
  mind   := mind

theorem accept {g : Hypergraph} {order : List Nat} (h : s.labeling.Sound)
    (hg : g.Sound s.labeling.labels) (ho : Sweep.order g = .ok order) :
    s.Kept ((s.withPrior (s.bookedPrior g)).withFrame (s.labeling.frameOf g order)) where
  sound := { h with
    prior := h.prior.foldl_note _
    frame := fun f he => by cases he; exact ⟨hg, ho⟩ }
  labels := rfl
  plan   := rfl
  space  := rfl
  mind   := fun _ _ hi => hi

end Kept

-- What comes of setting an episode up.
inductive SetUp (s : Scene σ) (records : List Record) : Prop
  | refused {d : Defect} {clock : Clock} {entries : Array Entry} :
      Episode.toGraph (some s.labeling.labels) records = .error d →
      setup records s = .error (Fault.raised (.defect d)) (s.noted clock entries) → SetUp s records
  | accepted {g : Hypergraph} {order : List Nat} {clock : Clock} {entries : Array Entry} :
      Episode.toGraph (some s.labeling.labels) records = .ok g → Sweep.order g = .ok order →
      s.Kept ((s.withPrior (s.bookedPrior g)).withFrame (s.labeling.frameOf g order)) →
      setup records s = .ok ⟨⟩
        (((s.withPrior (s.bookedPrior g)).withFrame (s.labeling.frameOf g order)).noted clock
          entries) →
      SetUp s records

theorem setUp (h : s.labeling.Sound) (records : List Record) : s.SetUp records := by
  cases hg : Episode.toGraph (some s.labeling.labels) records
  case error d =>
    have ⟨_, _, hs⟩ := setup_error hg
    exact .refused hg hs
  case ok g =>
    have ⟨_, _, _, ho, hs⟩ := setup_ok h.prior hg
    exact .accepted hg ho (.accept h (Episode.sound_toGraph hg) ho) hs

theorem kept_setup (h : s.labeling.Sound) (records : List Record) :
    s.Kept (outcome (setup records) s).2 := by
  cases setUp h records
  case refused hs => exact outcome_error.mpr hs ▸ (Kept.refl h).noted ..
  case accepted hk hs => exact outcome_ok.mpr hs ▸ hk.noted ..

theorem kept_run (h : s.labeling.Sound) : s.Kept (outcome run s).2 := by
  cases ended h
  case refused hr => exact outcome_error.mpr hr ▸ .refl h
  case ran frame k hf hk ran =>
    have unfinished : s.labeling.confusion.isSome := by simp [hk]
    have mind (I : σ → Prop) (hI : ∀ q, Keeps I (Decider.decide q)) (hi : I s.host.mind) :
        (s.opening frame).Idle ∧ I (s.opening frame).mind := ⟨h.idle, hi⟩
    cases ran
    case failed hw same hr =>
      have kept := Kept.resume (k := k.clear) h hf unfinished same (h.side k hk) fun I hI hi =>
        (Course.keeps_mind_follow hI _).of_error (mind I hI hi) hw |>.right
      exact outcome_error.mpr hr ▸ kept.noted ..
    case done hw same side _ hr =>
      have kept := Kept.resume h hf unfinished same side fun I hI hi =>
        (Course.keeps_mind_follow hI _).of_ok (mind I hI hi) hw |>.right
      exact outcome_ok.mpr hr ▸ (kept.withReport ..).noted ..

-- Only the end of a labeling takes its tables away.
theorem confusion_setup (h : s.labeling.Sound) (records : List Record) :
    (outcome (setup records) s).2.labeling.confusion = s.labeling.confusion := by
  cases setUp h records
  case refused hs => rw [outcome_error.mpr hs]; rfl
  case accepted hs => rw [outcome_ok.mpr hs]; rfl

theorem unfinished_run (h : s.labeling.Sound) (unfinished : s.labeling.confusion.isSome) :
    (outcome run s).2.labeling.confusion.isSome := by
  cases ended h
  case refused hr => exact outcome_error.mpr hr ▸ unfinished
  case ran ran =>
    cases ran
    case failed hr => rw [outcome_error.mpr hr]; rfl
    case done hr => rw [outcome_ok.mpr hr]; rfl

theorem kept_takedown (h : s.labeling.Sound) : s.Kept (outcome takedown s).2 where
  sound  := { h with frame := fun _ he => nomatch he }
  labels := rfl
  plan   := rfl
  space  := rfl
  mind   := fun _ _ hi => hi

theorem kept_finish (h : s.labeling.Sound) : s.Kept (outcome finish s).2 where
  sound  := { h with
    idle    := rfl
    side    := fun _ he => nomatch he
    scratch := fun he => nomatch he }
  labels := rfl
  plan   := rfl
  space  := rfl
  mind   := fun _ _ hi => hi

end Scene
end CollectiveLabeling
