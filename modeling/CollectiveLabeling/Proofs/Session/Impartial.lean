import CollectiveLabeling.Proofs.Session.Episode

namespace CollectiveLabeling

open Step

-- What is left of a record when it does not tell a true label. An edge has none to tell; its costs
-- name its members.
def Record.blind (r : Record) : Record :=
  if r.isEdge then r else r.bare

namespace Record

variable {r : Record}

theorem blind_of_edge (h : r.isEdge = true) : r.blind = r := by
  simp [blind, h]

theorem blind_of_node (h : r.isEdge = false) : r.blind = r.bare := by
  simp [blind, h]

theorem isEdge_bare (r : Record) : r.bare.isEdge = false :=
  rfl

theorem filter_edges (rs : List Record) :
    rs.filter isEdge = (rs.map blind).filter isEdge := by
  induction rs
  case nil => rfl
  case cons r rs hi =>
    cases h : r.isEdge
    case true => simp [blind_of_edge h, h, hi]
    case false => simp [blind_of_node h, isEdge_bare, h, hi]

theorem filter_nodes (rs : List Record) :
    (rs.filter (!·.isEdge)).map bare = (rs.map blind).filter (!·.isEdge) := by
  induction rs
  case nil => rfl
  case cons r rs hi =>
    cases h : r.isEdge
    case true => simp [blind_of_edge h, h, hi]
    case false => simp [blind_of_node h, isEdge_bare, h, hi]

end Record

namespace Episode

variable {bound : Option Int} {rs rs' : List Record} {g g' : Hypergraph}

-- Without the true labels the graph of an episode only depends on the episode without them.
theorem bare_toGraph (hg : toGraph bound rs = .ok g) (hg' : toGraph bound rs' = .ok g')
    (h : rs'.map Record.blind = rs.map Record.blind) : g'.bare = g.bare := by
  have ⟨s, hs, _, he⟩ := toGraph_eq_ok.mp hg
  have ⟨s', hs', _, he'⟩ := toGraph_eq_ok.mp hg'
  subst he he'
  have holds := holds_of_sort hs
  have holds' := holds_of_sort hs'
  have edges : s'.edges = s.edges := by
    apply Array.toList_inj.mp
    rw [holds'.edges_eq, holds.edges_eq, Record.filter_edges, Record.filter_edges rs, h]
  have nodes : s'.nodes.map Record.bare = s.nodes.map Record.bare := by
    apply Array.toList_inj.mp
    rw [Array.toList_map, Array.toList_map, holds'.nodes_eq, holds.nodes_eq,
      Record.filter_nodes, Record.filter_nodes, h]
  have size : s'.nodes.size = s.nodes.size := by simpa using congrArg Array.size nodes
  simp only [graphOf, Hypergraph.bare, adjacency, edges, nodes, size]

end Episode

-- What comes of an episode apart from its score: the order of the visit, the decisions that are
-- taken, and the labels or the fault that the run ends with.
structure Account where
  order  : List Nat
  sights : List Sight
  labels : Except Fault (Array Int)

namespace Session

variable {s₀ s : Session Apprentice} {p q : Option Nat}

def account (place : Option Nat) (s : Session Apprentice) : Except Fault Account :=
  match setup place s.forgotten with
  | .error e _ => .error e
  | .ok _ t => match t.scene.labeling.frame with
    | none => .error (.misuse .notSetUp)
    | some f => .ok {
        order  := f.order
        sights := if t.scene.labeling.confusion.isSome then
          (t.scene.decisions f).map (Decision.sight t.scene.labeling.plan) else []
        labels := (outcome run t).1 }

theorem account_eq {t : Session Apprentice} {f : Frame} (hs : setup p s.forgotten = .ok ⟨⟩ t)
    (hf : t.scene.labeling.frame = some f) : s.account p = .ok {
      order  := f.order
      sights := if t.scene.labeling.confusion.isSome then
        (t.scene.decisions f).map (Decision.sight t.scene.labeling.plan) else []
      labels := (outcome run t).1 } := by
  simp [account, hs, hf]

-- What an apprentice that is being tested makes of two episodes that only differ in their true labels.
structure Impartial (s : Session Apprentice) (p q : Option Nat) : Prop where
  account : ∃ a, s.account p = .ok a ∧ s.account q = .ok a
  fault   : (fun _ => ()) <$> (outcome (runEpisode q) s).1 = (fun _ => ()) <$> (outcome (runEpisode p) s).1
  mind    : (outcome (runEpisode q) s).2.scene.host.mind = (outcome (runEpisode p) s).2.scene.host.mind
  output  : (outcome (runEpisode q) s).2.scene.host.output = (outcome (runEpisode p) s).2.scene.host.output
  policy  : (outcome (runEpisode p) s).2.scene.host.mind.policy = s.scene.host.mind.policy

theorem true_labels_do_not_leak (opened : s₀.Opened) (steps : s₀.Steps s)
    (testing : s.scene.host.mind.training = false) (hp : ∃ t, setup p s = .ok ⟨⟩ t)
    (hq : ∃ t, setup q s = .ok ⟨⟩ t)
    (alike : (s.episode q).map Record.blind = (s.episode p).map Record.blind) : s.Impartial p q := by
  have ⟨_, _, started⟩ := opened.started
  have sound := steps.sound started.sound
  have ⟨_, hp⟩ := hp
  have ⟨_, hq⟩ := hq
  have ⟨g, hg⟩ := toGraph_of_setup sound hp
  have ⟨g', hg'⟩ := toGraph_of_setup sound hq
  have same : s.forgotten.scene.Alike s.forgotten.scene := .refl sound testing
  have ⟨t, t', f, f', hs, hs', paired, _, _, host, host'⟩ :=
    setup_alike same hg hg' (Episode.bare_toGraph hg hg' alike)
  have same : t'.scene.host.output = t.scene.host.output := by rw [host, host']
  have policy : (outcome (runEpisode p) s).2.scene.host.mind.policy = s.scene.host.mind.policy :=
    (testing_runEpisode testing p s ⟨sound, rfl, rfl, rfl, .refl _⟩).like.policy
  have account (hl : (outcome run t').1 = (outcome run t).1) :
      ∃ a, s.account p = .ok a ∧ s.account q = .ok a := by
    refine ⟨_, account_eq hs paired.frame, ?_⟩
    rw [account_eq hs' paired.frame', paired.order, paired.alike.unfinished, paired.sights, hl]
  cases paired.run
  case failed hr hr' mind output =>
    have he := runEpisode_failed hs (run_error hr)
    have he' := runEpisode_failed hs' (run_error hr')
    refine { account := account ?result, fault := ?fault, mind := ?mind, output := ?output, policy }
    case result => simp only [outcome, run_error hr, run_error hr']
    case fault => simp [outcome, he, he']
    case mind => simp [outcome, he, he', mind]
    case output => simp [outcome, he, he', output same]
  case done hr hr' mind output _ _ _ _ _ =>
    have he := runEpisode_done hs (run_ok hr)
    have he' := runEpisode_done hs' (run_ok hr')
    refine { account := account ?result, fault := ?fault, mind := ?mind, output := ?output, policy }
    case result => simp only [outcome, run_ok hr, run_ok hr']
    case fault => simp [outcome, he, he']
    case mind => simp [outcome, he, he', mind]
    case output => simp [outcome, he, he', output same]

theorem true_labels_do_not_leak_sample : sampleTest.Impartial (some 0) (some 1) := by
  have ⟨_, _, hp, _⟩ := setup_of_toGraph sound_sampleTest (some 0) rfl
  have ⟨_, _, hq, _⟩ := setup_of_toGraph sound_sampleTest (some 1) rfl
  exact true_labels_do_not_leak opened_sampleTest .refl rfl ⟨_, hp⟩ ⟨_, hq⟩ rfl

end Session
end CollectiveLabeling
