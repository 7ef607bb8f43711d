import CollectiveLabeling.Proofs.Course.Part

namespace CollectiveLabeling.Course

open Step

section Chain

variable {σ : Type} [Decider σ] {c c' : Course σ} {labels n : Nat} {plan : Plan}
  {ds : List (Decision σ)}

theorem Chain.getElem?_pred_of_ne (h : Chain labels plan c ds c') (hn : ∀ d ∈ ds, d.node ≠ n) :
    c'.pred[n]? = c.pred[n]? := by
  induction h
  case nil => rfl
  case cons i m label ds hd _ hi =>
    have ⟨_, _, _, _, hc⟩ := hd.answer
    have ne : m ≠ n := hn ⟨i, m, _⟩ List.mem_cons_self
    rw [hi fun d hm => hn d (List.mem_cons_of_mem _ hm), hc]
    exact Array.getElem?_setIfInBounds_ne ne

end Chain

variable {c c' c'' x x' : Course Apprentice} {labels n i j : Nat} {plan plan' : Plan} {label : Int}

-- Two courses between which no decision can tell the difference.
structure Twin (labels : Nat) (c x : Course Apprentice) : Prop where
  ready      : c.Ready labels
  ready'     : x.Ready labels
  graph      : x.bench.graph.plain = c.bench.graph.plain
  space      : x.bench.augmenter.space = c.bench.augmenter.space
  structured : x.bench.augmenter.useStructure = c.bench.augmenter.useStructure
  pred       : x.pred = c.pred
  memory     : ∀ tag : Int, x.mind.memory[tag]? = c.mind.memory[tag]?
  like       : c.mind.Like x.mind

namespace Twin

theorem refl (ready : c.Ready labels) : Twin labels c c :=
  ⟨ready, ready, rfl, rfl, rfl, rfl, fun _ => rfl, .refl _⟩

theorem symm (h : Twin labels c x) : Twin labels x c where
  ready      := h.ready'
  ready'     := h.ready
  graph      := h.graph.symm
  space      := h.space.symm
  structured := h.structured.symm
  pred       := h.pred.symm
  memory     := fun tag => (h.memory tag).symm
  like       := h.like.symm

theorem trans (h : Twin labels c c') (h' : Twin labels c' c'') : Twin labels c c'' where
  ready      := h.ready
  ready'     := h'.ready'
  graph      := h'.graph.trans h.graph
  space      := h'.space.trans h.space
  structured := h'.structured.trans h.structured
  pred       := h'.pred.trans h.pred
  memory     := fun tag => (h'.memory tag).trans (h.memory tag)
  like       := h.like.trans h'.like

theorem part (h : Twin labels c x) : c.Part labels 0 0 x where
  ready      := h.ready
  ready'     := h.ready'
  graph      := .of_plain h.graph
  space      := h.space
  structured := h.structured
  pred       := fun n _ => congrArg (·[n]?) h.pred
  memory     := fun n _ => h.memory (n + 1)
  like       := h.like

theorem size (h : Twin labels c x) : x.bench.graph.nodes.size = c.bench.graph.nodes.size :=
  Hypergraph.size_of_plain h.graph

theorem remembers (h : Twin labels c x) (hr : Remembers labels c.pred c.mind.memory) :
    Remembers labels x.pred x.mind.memory := by
  intro tag label
  rw [h.memory, h.pred]
  exact hr tag label

-- What is decided in one of them is decided in the other.
theorem decided (h : Twin labels c x) (hn : n < c.bench.graph.nodes.size)
    (learner : plan'.learnerFor j = plan.learnerFor i) (hd : Decided labels plan i n c c' label) :
    ∃ x', Decided labels plan' j n x x' label ∧ Twin labels c' x' := by
  have ⟨x', hd'⟩ := h.part.decided hn learner hd
  have moved := hd.moved h.ready.testing
  have moved' := hd'.moved h.ready'.testing
  refine ⟨x', hd', ?_⟩
  exact {
    ready      := h.ready.decided hd
    ready'     := h.ready'.decided hd'
    graph      := moved'.plain.trans (h.graph.trans moved.plain.symm)
    space      := moved'.same.space.trans (h.space.trans moved.same.space.symm)
    structured := moved'.same.structured.trans (h.structured.trans moved.same.structured.symm)
    pred       := by rw [moved.pred, moved'.pred, h.pred]; rfl
    memory     := fun tag => by
      rw [moved.memory, moved'.memory, Std.TreeMap.getElem?_insert, Std.TreeMap.getElem?_insert,
        h.memory tag]
      rfl
    like       := (moved.like.symm.trans h.like).trans moved'.like }

theorem follow (h : Twin labels c x) {schedule : List (Nat × Nat)}
    (hn : ∀ key ∈ schedule, key.2 < c.bench.graph.nodes.size)
    (learner : ∀ i, plan'.learnerFor i = plan.learnerFor i)
    (hf : Course.follow labels plan schedule c = .ok ⟨⟩ c') :
    ∃ x', Course.follow labels plan' schedule x = .ok ⟨⟩ x' ∧ Twin labels c' x' := by
  have step : ∀ i n, (i, n) ∈ schedule → ∀ c₁ c₂ w label,
      (Twin labels c₁ w ∧ c₁.bench.graph.nodes.size = c.bench.graph.nodes.size) →
      Decided labels plan i n c₁ c₂ label → ∃ w', decideNode labels plan' i n w = .ok ⟨⟩ w' ∧
        Twin labels c₂ w' ∧ c₂.bench.graph.nodes.size = c.bench.graph.nodes.size := by
    intro i n hk c₁ c₂ w label ⟨twin, size⟩ hd
    have ⟨w', hd', twin'⟩ := twin.decided (size ▸ hn (i, n) hk) (learner i) hd
    exact ⟨w', hd'.decideNode_eq twin.ready'.idle, twin', (hd.moved twin.ready.testing).size.trans size⟩
  have ⟨x', hx, twin, _⟩ := follow_lift (f := id) (fun _ _ h => h.left.ready.idle) step ⟨h, rfl⟩ hf
  exact ⟨x', by simpa using hx, twin⟩

-- A decision that gives a node the label that it has already makes no difference.
theorem of_held (ready : c.Ready labels) (hd : Decided labels plan i n c c' label)
    (held : c.pred[n]? = some label) (hr : Remembers labels c.pred c.mind.memory) :
    Twin labels c c' := by
  have moved := hd.moved ready.testing
  exact {
    ready      := ready
    ready'     := ready.decided hd
    graph      := moved.plain
    space      := moved.same.space
    structured := moved.same.structured
    pred       := by
      rw [moved.pred]
      refine Array.ext_getElem? fun m => ?_
      rw [Array.getElem?_setIfInBounds]
      split
      case isFalse => rfl
      case isTrue he =>
        subst he
        have lt := (Array.getElem?_eq_some_iff.mp held).1
        rw [if_pos lt, held]
    memory     := fun tag => by
      rw [moved.memory, Std.TreeMap.getElem?_insert]
      split
      case isFalse => rfl
      case isTrue he =>
        rw [← Std.LawfulEqCmp.eq_of_compare he]
        exact ((hr _ _).mpr ⟨n, rfl, held, hd.le⟩).symm
    like       := moved.like }

end Twin

-- A node that gets the label that it has already when it is decided.
def Steady (labels : Nat) (plan : Plan) (c : Course Apprentice) (n : Nat) : Prop :=
  ∃ c' label, Decided labels plan 0 n c c' label ∧ Twin labels c c'

theorem learnerFor_of_single (single : plan.separateLearners = false) (i : Nat) :
    plan.learnerFor i = none := by
  simp [Plan.learnerFor, single]

section Fixed

variable (single : plan.separateLearners = false)
include single

-- Steady nodes can be decided as often as one likes, and in whatever order.
theorem Twin.follow_steady (h : Twin labels c x) {schedule : List (Nat × Nat)}
    (hs : ∀ key ∈ schedule, key.2 < c.bench.graph.nodes.size ∧ c.Steady labels plan key.2) :
    ∃ x', Course.follow labels plan schedule x = .ok ⟨⟩ x' ∧ Twin labels c x' := by
  induction schedule generalizing x
  case nil => exact ⟨x, rfl, h⟩
  case cons key schedule hi =>
    obtain ⟨i, n⟩ := key
    have ⟨lt, c₁, label, hd, twin⟩ := hs (i, n) (by simp)
    have learner : plan.learnerFor i = plan.learnerFor 0 := by
      rw [learnerFor_of_single single, learnerFor_of_single single]
    have ⟨x₁, hd', twin'⟩ := h.decided lt learner hd
    have ⟨x', hf, twin''⟩ := hi (twin.trans twin') fun key hk => hs key (by simp [hk])
    exact ⟨x', by rw [follow_cons, hd'.decideNode_eq h.ready'.idle]; exact hf, twin''⟩

-- In a pass every node is decided once. If all labels are the same at the end of it, none has changed
-- in between.
theorem steady_of_follow {ns : List Nat} (nodup : ns.Nodup)
    (hn : ∀ n ∈ ns, n < c.bench.graph.nodes.size) (h : Twin labels c x)
    (hr : Remembers labels c.pred c.mind.memory)
    (hf : Course.follow labels plan (ns.map (i, ·)) x = .ok ⟨⟩ x') (same : x'.pred = c.pred) :
    ∀ n ∈ ns, c.Steady labels plan n := by
  induction ns generalizing x
  case nil => simp
  case cons n ns hi =>
    have lt := hn n (by simp)
    rw [List.map_cons, follow_cons] at hf
    cases ha : decideNode labels plan i n x <;> simp only [ha] at hf
    case error => cases hf
    case ok u x₁ =>
      have ⟨label, hd⟩ := decideNode_ok h.ready'.idle ha
      have ⟨chain, keys⟩ := completes (hd.idle h.ready'.idle) hf
      have later : ∀ d ∈ decisions labels plan (ns.map (i, ·)) x₁, d.node ≠ n := by
        intro d hd he
        have hk := keys ▸ List.mem_map_of_mem (f := Decision.key) hd
        have ⟨m, hm, hk⟩ := List.mem_map.mp hk
        cases hk
        exact (List.nodup_cons.mp nodup).left (he ▸ hm)
      have moved := hd.moved h.ready'.testing
      have held : x.pred[n]? = some label := by
        rw [h.pred, ← same, chain.getElem?_pred_of_ne later, moved.pred]
        simp [h.ready'.labeled.size, h.size, lt]
      have still := Twin.of_held h.ready' hd held (h.remembers hr)
      intro m hm
      cases List.mem_cons.mp hm
      case inl he =>
        have learner : plan.learnerFor 0 = plan.learnerFor i := by
          rw [learnerFor_of_single single, learnerFor_of_single single]
        have ⟨c₁, hd', twin⟩ := h.symm.decided (h.size.symm ▸ lt) learner hd
        exact he ▸ ⟨c₁, label, hd', (h.trans still).trans twin⟩
      case inr hm =>
        exact hi (List.nodup_cons.mp nodup).right (fun n hn' => hn n (by simp [hn'])) (h.trans still)
          hf m hm

-- A pass that changes no label leaves nothing for later passes to change, in either direction.
theorem fixed_point {order : List Nat} (ready : c.Ready labels)
    (perm : order.Perm (List.range c.bench.graph.nodes.size))
    (hr : Remembers labels c.pred c.mind.memory) (hf : pass labels plan order i c = .ok ⟨⟩ c')
    (same : c'.pred = c.pred) (is : List Nat) :
    ∃ c'', is.forM (pass labels plan order) c' = .ok ⟨⟩ c'' ∧ Twin labels c c'' := by
  have visits {j n : Nat} (hn : n ∈ Sweep.direct order (j : Int)) : n ∈ order :=
    (Sweep.direct_perm order j).mem_iff.mp hn
  have range {n : Nat} (hn : n ∈ order) : n < c.bench.graph.nodes.size :=
    List.mem_range.mp (perm.mem_iff.mp hn)
  have nodup : (Sweep.direct order (i : Int)).Nodup :=
    ((Sweep.direct_perm order i).trans perm).nodup_iff.mpr List.nodup_range
  rw [pass_eq_follow] at hf
  have steady : ∀ n ∈ order, c.Steady labels plan n := fun n hn =>
    steady_of_follow single nodup (fun n hn => range (visits hn)) (.refl ready) hr hf same n
      ((Sweep.direct_perm order i).mem_iff.mpr hn)
  have keys (j : Nat) : ∀ key ∈ (Sweep.direct order (j : Int)).map (j, ·),
      key.2 < c.bench.graph.nodes.size ∧ c.Steady labels plan key.2 := by
    intro key hk
    have ⟨n, hn, he⟩ := List.mem_map.mp hk
    exact he ▸ ⟨range (visits hn), steady n (visits hn)⟩
  have ⟨c₁, hf₁, twin⟩ := (Twin.refl ready).follow_steady single (keys i)
  cases hf₁.symm.trans hf
  rw [forM_pass]
  refine twin.follow_steady single fun key hk => ?_
  have ⟨j, _, hk⟩ := List.mem_flatMap.mp hk
  exact keys j key hk

end Fixed

section Ready

variable {schedule : List (Nat × Nat)} {ds : List (Decision Apprentice)}

theorem Chain.ready (h : Chain labels plan c ds c') (ready : c.Ready labels) : c'.Ready labels := by
  induction h
  case nil => exact ready
  case cons hd _ hi => exact hi (ready.decided hd)

theorem Ready.follow (ready : c.Ready labels) (hf : Course.follow labels plan schedule c = .ok ⟨⟩ c') :
    c'.Ready labels :=
  (completes ready.idle hf).left.ready ready

theorem Ready.size (ready : c.Ready labels) (hf : Course.follow labels plan schedule c = .ok ⟨⟩ c') :
    c'.bench.graph.nodes.size = c.bench.graph.nodes.size :=
  (completes ready.idle hf).left.same.size

theorem Ready.remembers (ready : c.Ready labels)
    (hn : ∀ key ∈ schedule, key.2 < c.bench.graph.nodes.size)
    (hr : Remembers labels c.pred c.mind.memory)
    (hf : Course.follow labels plan schedule c = .ok ⟨⟩ c') :
    Remembers labels c'.pred c'.mind.memory := by
  have ⟨chain, keys⟩ := completes ready.idle hf
  refine chain.remembers (fun d hd => ?_) hr
  rw [ready.labeled.size]
  exact hn d.key (keys ▸ List.mem_map_of_mem hd)

end Ready
end CollectiveLabeling.Course
