import CollectiveLabeling.Neighborhood
import CollectiveLabeling.Proofs.Step

namespace CollectiveLabeling

namespace Keyed

variable {α : Type}

theorem erase_of_get?_none {m : Keyed α} {key : String} (h : m.get? key = none) :
    m.erase key = m := by
  induction m
  case nil => rfl
  case cons entry rest hi =>
    by_cases hk : entry.1 = key
    case pos => simp [get?, hk] at h
    case neg =>
      simp only [get?, hk, if_false] at h
      simp [erase, hk, hi h]

theorem erase_put (m : Keyed α) (key : String) (value : α) :
    (m.put key value).erase key = m.erase key := by
  induction m
  case nil => simp [put, erase]
  case cons entry rest hi => by_cases hk : entry.1 = key <;> simp [put, erase, hk, hi]

theorem isSome_get?_put (m : Keyed α) (key other : String) (value : α) :
    ((m.put key value).get? other).isSome = (other = key ∨ (m.get? other).isSome) := by
  by_cases h : other = key
  case pos => simp [h, get?_put_self]
  case neg => simp [h, get?_put_ne m value h]

end Keyed

namespace Record

-- What holds of a record without features, and still does with one more namespace that was read, holds
-- of every record that is read from a source.
theorem ofSource_induction {space : FeatureSpace} {P : Record → Prop} (plain : ∀ costs, P { costs })
    (extend : ∀ r name entries fs, P r → List.mapM (readFeature space) entries = .ok fs →
      P (r.extend name fs))
    {source : Source} {r : Record} (h : ofSource space source = .ok r) : P r := by
  have read (entries : List (String × List (Written Int × Written Float))) {r r' : Record} (hp : P r)
      (hr : entries.foldlM (readNamespace space) r = .ok r') : P r' := by
    induction entries generalizing r
    case nil => cases hr; exact hp
    case cons entry entries hi =>
      rw [List.foldlM_cons] at hr
      have ⟨r₁, h₁, hr⟩ := Attempt.bind_eq_ok.mp hr
      refine hi ?_ hr
      simp only [readNamespace] at h₁
      split at h₁ <;> try contradiction
      have ⟨fs, hm, he⟩ := Attempt.bind_eq_ok.mp h₁
      cases he
      exact extend r _ _ fs hp hm
  have ⟨costs, _, hr⟩ := Attempt.bind_eq_ok.mp h
  exact read _ (plain costs) hr

theorem ofSource_single {space : FeatureSpace} {source : Source} {name : String}
    {entries : List (Written Int × Written Float)} {costs : List (Int × Float)} {fs : List Feature}
    (hc : source.costs.mapM readCost = .ok costs) (hs : source.features = [(name, entries)])
    (single : name.length = 1) (hf : entries.mapM (readFeature space) = .ok fs) :
    ofSource space source = .ok (extend { costs } name fs) := by
  have read : readNamespace space { costs } (name, entries) = .ok (extend { costs } name fs) := by
    simp [readNamespace, single, hf]
  simp only [ofSource, hc, hs, Attempt.ok_bind, List.foldlM_cons, List.foldlM_nil, read]
  rfl

-- A record whose features are filed under the names under which it keeps their squares. Records that
-- are put together by hand may lack this, those that are read from a source never do.
def Filed (r : Record) : Prop :=
  ∀ name, (r.features.get? name).isSome = (r.squares.get? name).isSome

theorem Filed.extend {r : Record} (h : r.Filed) (name : String) (fs : List Feature) :
    (r.extend name fs).Filed := by
  intro other
  have := h other
  rw [Bool.eq_iff_iff] at this ⊢
  simp [Record.extend, Keyed.isSome_get?_put, this]

theorem filed_of_ofSource {space : FeatureSpace} {source : Source} {r : Record}
    (h : ofSource space source = .ok r) : r.Filed :=
  ofSource_induction (fun _ _ => rfl) (fun _ name _ fs hr _ => hr.extend name fs) h

-- A record whose features all sit where the layout places them.
def Placed (space : FeatureSpace) (r : Record) : Prop :=
  ∀ name, ∀ f ∈ r.featuresOf name, ∃ id, f.bucket = space.place id

theorem Placed.extend {space : FeatureSpace} {r : Record} (h : r.Placed space) (name : String)
    {fs : List Feature} (hf : ∀ f ∈ fs, ∃ id, f.bucket = space.place id) :
    (r.extend name fs).Placed space := by
  intro other f hm
  by_cases he : other = name
  case pos =>
    subst he
    exact hf f (by simpa [featuresOf, Record.extend, Keyed.get?_put_self] using hm)
  case neg =>
    exact h other f (by simpa [featuresOf, Record.extend, Keyed.get?_put_ne _ _ he] using hm)

theorem placed_of_ofSource {space : FeatureSpace} {source : Source} {r : Record}
    (h : ofSource space source = .ok r) : r.Placed space := by
  refine ofSource_induction (fun _ _ _ hf => nomatch hf) (fun r name entries fs hr hm => ?_) h
  refine hr.extend name (Attempt.forall_of_mapM_eq_ok (fun entry f he => ?_) hm)
  have ⟨_, _, he⟩ := Attempt.bind_eq_ok.mp he
  have ⟨id, _, he⟩ := Attempt.bind_eq_ok.mp he
  cases he
  exact ⟨id, rfl⟩

theorem Placed.visits {space : FeatureSpace} {r : Record} (h : r.Placed space) :
    ∀ f ∈ r.visits, ∃ id, f.bucket = space.place id := by
  intro f hf
  have ⟨name, _, hm⟩ := List.mem_flatMap.mp hf
  exact h name f hm

-- The record as it is left when an augmentation is taken back. Only squares that are kept without
-- features are lost.
def settled (r : Record) : Record :=
  if r.features.get? neighborNamespace = none then
    { r with squares := r.squares.erase neighborNamespace }
  else r

theorem Filed.settled_eq {r : Record} (h : r.Filed) : r.settled = r := by
  simp only [settled]
  split
  case isFalse => rfl
  case isTrue hn =>
    have hs : r.squares.get? neighborNamespace = none := by
      simpa [hn] using h neighborNamespace
    rw [Keyed.erase_of_get?_none hs]

@[simp]
theorem settled_costs (r : Record) : r.settled.costs = r.costs := by
  simp only [settled]
  split <;> rfl

-- Everything that taking an augmentation back does not overwrite.
structure Remains (r r' : Record) (fs : List Feature) (sum : Float) : Prop where
  costs    : r'.costs = r.costs
  features : r'.features = r.features.put neighborNamespace fs
  squares  : r'.squares = r.squares.put neighborNamespace sum

theorem remains_receive (r : Record) (fs : List Feature) :
    ∃ sum, Remains r (r.receive fs) (r.featuresOf neighborNamespace ++ fs) sum :=
  ⟨_, rfl, rfl, rfl⟩

theorem Remains.foldl_cross {r r' : Record} {fs : List Feature} {sum : Float}
    (h : Remains r r' fs sum) (pairs : List (String × String)) :
    Remains r (pairs.foldl cross r') fs sum := by
  induction pairs generalizing r'
  case nil => exact h
  case cons pair pairs hi => exact hi ⟨h.costs, h.features, h.squares⟩

-- What an augmentation holds on to so that the record can be restored.
structure Saves (t : Augmentation) (r : Record) : Prop where
  active   : t.active = r.active
  features : t.features = r.features.get? neighborNamespace
  squares  : t.squares = r.squares.get? neighborNamespace
  total    : t.total = r.total
  count    : t.count = r.count

theorem Saves.restore_self {t : Augmentation} {r : Record} (h : Saves t r) :
    r.restore t = r.settled := by
  simp only [restore, settled, h.active, h.features, h.squares, h.total, h.count]
  cases hf : r.features.get? neighborNamespace
  case none => simp [Keyed.erase_of_get?_none hf]
  case some fs =>
    cases hs : r.squares.get? neighborNamespace
    case none => simp [Keyed.put_get?_self hf, Keyed.erase_of_get?_none hs]
    case some x => simp [Keyed.put_get?_self hf, Keyed.put_get?_self hs]

theorem Saves.restore_of_remains {t : Augmentation} {r r' : Record} {fs : List Feature} {sum : Float}
    (h : Saves t r) (hr : Remains r r' fs sum) : r'.restore t = r.settled := by
  rw [← h.restore_self]
  simp only [restore, hr.costs, hr.features, hr.squares, Keyed.erase_put, Keyed.put_put_self]

theorem Saves.restore_augmented {t : Augmentation} {r : Record} (h : Saves t r)
    (pairs : List (String × String)) (fs : List Feature) :
    (pairs.foldl cross (r.receive fs)).restore t = r.settled :=
  have ⟨_, hr⟩ := r.remains_receive fs
  h.restore_of_remains (hr.foldl_cross pairs)

end Record
end CollectiveLabeling
