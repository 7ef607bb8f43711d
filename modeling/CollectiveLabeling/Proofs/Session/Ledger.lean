import CollectiveLabeling.Proofs.Session.Intact
import CollectiveLabeling.Proofs.Session.Life
import Mathlib

namespace CollectiveLabeling

open Step

namespace Record

-- A record with a single cost is a node with a label.
def isLabeled (r : Record) : Bool :=
  r.costs.length = 1

def carries (label : Nat) (r : Record) : Bool :=
  r.costs.map Prod.fst = [(label : Int)]

theorem costs_of_node {r : Record} (h : r.isEdge = false) :
    r.costs = [] ∨ ∃ label weight, r.costs = [(label, weight)] := by
  match hc : r.costs with
  | [] => exact .inl rfl
  | [(label, weight)] => exact .inr ⟨label, weight, rfl⟩
  | _ :: _ :: _ => simp [isEdge, hc] at h

theorem countP_filter_node {p : Record → Bool} (hp : ∀ r, p r = true → r.isEdge = false)
    (records : List Record) : (records.filter (!·.isEdge)).countP p = records.countP p := by
  rw [List.countP_filter]
  refine List.countP_congr fun r _ => ?_
  simpa using hp r

theorem isEdge_of_isLabeled {r : Record} (h : r.isLabeled = true) : r.isEdge = false := by
  simp only [isLabeled, decide_eq_true_eq] at h
  simp [isEdge, h]

theorem isEdge_of_carries {r : Record} {label : Nat} (h : r.carries label = true) :
    r.isEdge = false := by
  have length := congrArg List.length (of_decide_eq_true h)
  simp only [List.length_map, List.length_singleton] at length
  simp [isEdge, length]

end Record

namespace Prior

variable {p : Prior} {labels : Nat} {records : List Record}

theorem sum_modify_succ {counts : List Nat} {place : Nat} (h : place < counts.length) :
    (counts.modify place (· + 1)).sum = counts.sum + 1 := by
  induction counts generalizing place
  case nil => cases h
  case cons count counts hi =>
    cases place
    case zero =>
      rw [List.modify_zero_cons, List.sum_cons, List.sum_cons, Nat.add_right_comm]
    case succ place =>
      rw [List.modify_succ_cons, List.sum_cons, List.sum_cons, hi (Nat.lt_of_succ_lt_succ h),
        Nat.add_assoc]

-- What a prior has counted after it took note of some records.
structure Books (p : Prior) (labels : Nat) (records : List Record) : Prop where
  size  : p.counts.size = labels + 1
  count : ∀ k ≤ labels, p.counts[k]? = some (1 + records.countP (Record.carries k))
  total : p.total = labels + 1 + records.countP Record.isLabeled
  sum   : p.counts.sum = p.total

theorem books_ofLabels (h : ofLabels (labels : Int) = .ok p) : p.Books labels [] := by
  have size : ((labels : Int) + 1).toNat = labels + 1 := by omega
  have nonneg : ¬(labels : Int) < -1 := by omega
  simp only [ofLabels, nonneg, if_false, Except.ok.injEq, size] at h
  subst h
  refine ⟨Array.size_replicate, fun k hk => ?_, rfl, ?_⟩
  case refine_1 => rw [Array.getElem?_replicate, if_pos (Nat.lt_succ_of_le hk)]; rfl
  case refine_2 => simp [← Array.sum_toList]

namespace Books

theorem note (h : p.Books labels records) {r : Record} (node : r.isEdge = false)
    (range : 0 ≤ r.label ∧ r.label ≤ labels) : (p.note r).Books labels (records ++ [r]) := by
  obtain costs | ⟨label, weight, costs⟩ := Record.costs_of_node node
  case inl =>
    have same : p.note r = p := by simp [Prior.note, Record.isUnlabeled, costs]
    have labeled : r.isLabeled = false := by simp [Record.isLabeled, costs]
    have carries (k : Nat) : r.carries k = false := by simp [Record.carries, costs]
    rw [same]
    exact ⟨h.size, by simpa [carries] using h.count, by simpa [labeled] using h.total, h.sum⟩
  case inr =>
    have is : r.label = label := by simp [Record.label, costs]
    obtain ⟨l, rfl⟩ := Int.eq_ofNat_of_zero_le (is ▸ range.left)
    have lt : l < p.counts.size := by
      have := h.size
      omega
    have bumped : p.note r = p.bump l := by simp [Prior.note, Record.isUnlabeled, Record.label, costs]
    have labeled : r.isLabeled = true := by simp [Record.isLabeled, costs]
    have carries (k : Nat) : r.carries k = decide (l = k) := by
      simp [Record.carries, costs]
    rw [bumped]
    refine ⟨?_, fun k hk => ?_, ?_, ?_⟩
    case refine_1 => simpa [bump] using h.size
    case refine_2 =>
      simp only [bump, Array.getElem?_modify, h.count k hk, List.countP_append, List.countP_singleton,
        carries, decide_eq_true_eq]
      split <;> rfl
    case refine_3 => simp [bump, h.total, labeled, Nat.add_assoc]
    case refine_4 =>
      rw [← Array.sum_toList, bump, Array.toList_modify, sum_modify_succ (by simpa using lt),
        Array.sum_toList, h.sum]

theorem foldl_note (h : p.Books labels records) {nodes : List Record}
    (node : ∀ r ∈ nodes, r.isEdge = false) (range : ∀ r ∈ nodes, 0 ≤ r.label ∧ r.label ≤ labels) :
    (nodes.foldl Prior.note p).Books labels (records ++ nodes) := by
  induction nodes generalizing p records
  case nil => simpa using h
  case cons r nodes hi =>
    have first := h.note (node r (by simp)) (range r (by simp))
    have rest := hi first (fun r hm => node r (by simp [hm])) fun r hm => range r (by simp [hm])
    simpa using rest

-- Of an episode that is accepted the nodes count, and the edges do not.
theorem accept (h : p.Books labels records) {more : List Record} {g : Hypergraph}
    (accepted : Episode.toGraph (some labels) more = .ok g) :
    (g.nodes.toList.foldl Prior.note p).Books labels (records ++ more) := by
  have ⟨s, hs, _, hg⟩ := Episode.toGraph_eq_ok.mp accepted
  have holds := Episode.holds_of_sort hs
  have nodes : g.nodes.toList = more.filter (!·.isEdge) := hg ▸ holds.nodes_eq
  have node : ∀ r ∈ g.nodes.toList, r.isEdge = false := by simp [nodes]
  have books := h.foldl_note node fun r hr =>
    (Episode.sound_toGraph accepted).label r (Array.mem_toList_iff.mp hr)
  refine ⟨books.size, fun k hk => ?_, ?_, books.sum⟩
  case refine_1 =>
    rw [books.count k hk, nodes, List.countP_append, List.countP_append,
      Record.countP_filter_node fun _ => Record.isEdge_of_carries]
  case refine_2 =>
    rw [books.total, nodes, List.countP_append, List.countP_append,
      Record.countP_filter_node fun _ => Record.isEdge_of_isLabeled]

end Books
end Prior

namespace Session

variable {σ : Type} [Decider σ] {s t : Session σ} {es : List (Event σ)}

def prior (s : Session σ) : Prior :=
  s.scene.labeling.prior

theorem prior_run (sound : s.scene.labeling.Sound) : (outcome run s).2.prior = s.prior := by
  rw [outcome_run, prior, shelve_scene]
  cases Scene.ended sound
  case refused hr => rw [outcome_error.mpr hr]; rfl
  case ran ran =>
    cases ran
    case failed hr => rw [outcome_error.mpr hr]; rfl
    case done hr => rw [outcome_ok.mpr hr]; rfl

-- What a move does to the prior: the one that sets up an episode enters its nodes there, and no other
-- changes it.
inductive Entered (m : Move) (s : Session σ) : Prop
  | accepted {place : Option Nat} {t : Session σ} {g : Hypergraph} : m = .setup place →
      setup place s = .ok ⟨⟩ t →
      Episode.toGraph (some s.scene.labeling.labels) (s.episode place) = .ok g →
      (Event.after ⟨m, s⟩).prior = g.nodes.toList.foldl Prior.note s.prior → Entered m s
  | idle : Event.Idle ⟨m, s⟩ → (Event.after ⟨m, s⟩).prior = s.prior → Entered m s

theorem entered (sound : s.scene.labeling.Sound) (m : Move) : Entered m s := by
  cases m
  case setup place =>
    cases Scene.setUp sound (s.episode place)
    case refused hs =>
      have failed := outcome_error.mpr (move_setup_error (setup_error hs))
      refine .idle (fun _ _ => ⟨_, congrArg Prod.fst failed⟩) ?_
      rw [Event.after, failed]
      rfl
    case accepted hg _ _ hs =>
      refine .accepted rfl (setup_ok hs) hg ?_
      rw [Event.after, outcome_ok.mpr (move_setup_ok (setup_ok hs))]
      rfl
  case run =>
    refine .idle (fun _ h => nomatch h) ?_
    rw [Event.after, outcome_move]
    exact prior_run sound
  case takedown => exact .idle (fun _ h => nomatch h) rfl
  case finish => exact .idle (fun _ h => nomatch h) rfl

theorem Opened.books (opened : s.Opened) : s.prior.Books s.scene.labeling.labels [] := by
  have ⟨_, _, started⟩ := opened.started
  exact Prior.books_ofLabels started.prior

theorem Life.books (life : s.Life es t) (opened : s.Opened) :
    t.prior.Books s.scene.labeling.labels (es.flatMap Event.accepted) := by
  have ⟨_, _, started⟩ := opened.started
  induction life
  case refl => exact opened.books
  case surroundings hi => exact hi
  case move m life hi =>
    rw [List.flatMap_append, List.flatMap_singleton]
    cases entered (life.sound started.sound) m
    case idle idle same =>
      rw [Event.accepted_of_idle idle, same, List.append_nil]
      exact hi
    case accepted hm hs hg entered =>
      subst hm
      rw [life.labels started.sound] at hg
      rw [Event.accepted_setup hs, entered]
      exact hi.accept hg

-- At any time the prior has counted every label once, and once more for each node that carries it in
-- the episodes that were set up so far. A setup that is refused leaves it alone, and so does every
-- other move.
theorem prior_is_ledger (opened : s.Opened) (life : s.Life es t) :
    t.prior.counts.size = s.scene.labeling.labels + 1 ∧
    (∀ k ≤ s.scene.labeling.labels,
      t.prior.counts[k]? = some (1 + (es.flatMap Event.accepted).countP (Record.carries k))) ∧
    t.prior.total =
      s.scene.labeling.labels + 1 + (es.flatMap Event.accepted).countP Record.isLabeled ∧
    t.prior.counts.sum = t.prior.total ∧
    ∀ m, Event.Idle ⟨m, t⟩ → (Event.after ⟨m, t⟩).prior = t.prior := by
  have ⟨_, _, started⟩ := opened.started
  have books := life.books opened
  refine ⟨books.size, books.count, books.total, books.sum, fun m idle => ?_⟩
  cases entered (life.sound started.sound) m
  case idle same => exact same
  case accepted hm hs _ _ =>
    subst hm
    have ⟨_, failed⟩ := idle _ rfl
    cases (congrArg Prod.fst (outcome_ok.mpr (move_setup_ok hs))).symm.trans failed

-- An episode is set up whose run fails.
theorem prior_is_ledger_sample :
    let host : Host Scripted :=
      { mind := { space := none, wantsInput := true, script := ⟨.oracle 1, some 1⟩ } }
    ∃ es t, (sample host).Life es t ∧ es.length = 2 ∧ t.prior.counts[0]? = some 1 ∧
      t.prior.counts[1]? = some 2 ∧ t.prior.counts[2]? = some 2 ∧ t.prior.total = 5 := by
  intro host
  have ⟨_, _, started⟩ := (opened_sample host).started
  have ⟨t, _, hs, _⟩ := setup_of_toGraph started.sound (some 0) rfl
  have life := (Life.refl (s := sample host)).move (.setup (some 0)) |>.move .run
  have ⟨_, counts, total, _⟩ := prior_is_ledger (opened_sample host) life
  have accepted (u : Session Scripted) :
      ([] ++ [Event.mk (.setup (some 0)) (sample host)] ++ [Event.mk .run u]).flatMap Event.accepted =
        sampleEpisode 1 2 := by
    rw [List.nil_append, List.flatMap_append, List.flatMap_singleton, Event.accepted_setup hs]
    rfl
  rw [accepted] at total
  refine ⟨_, _, life, rfl, ?zero, ?one, ?two, total⟩
  case zero => rw [counts 0 (by decide), accepted]; rfl
  case one => rw [counts 1 (by decide), accepted]; rfl
  case two => rw [counts 2 (by decide), accepted]; rfl

end Session
end CollectiveLabeling
