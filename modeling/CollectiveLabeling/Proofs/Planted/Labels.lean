import CollectiveLabeling.Planted
import Mathlib.Algebra.GroupWithZero.Nat

namespace CollectiveLabeling.Planted

section Sizes

variable {nodes labels k : Nat}

theorem length_groupSizes : (groupSizes nodes labels).length = labels := by
  simp [groupSizes]

theorem getElem?_groupSizes (nodes : Nat) (hk : k < labels) :
    (groupSizes nodes labels)[k]? = some (nodes / labels + if k < nodes % labels then 1 else 0) := by
  simp [groupSizes, hk]

-- The remainder is less than the number of groups, so there is a group for each part of it.
theorem sum_groupSizes (pos : 0 < labels) : (groupSizes nodes labels).sum = nodes := by
  have sum (quotient remainder count : Nat) :
      ((List.range count).map fun g => quotient + if g < remainder then 1 else 0).sum =
        count * quotient + min count remainder := by
    induction count
    case zero => simp
    case succ count hi =>
      rw [List.range_succ, List.map_append, List.sum_append, hi, Nat.succ_mul]
      simp only [List.map_cons, List.map_nil, List.sum_singleton]
      split <;> omega
  have rest := Nat.mod_lt nodes pos
  have whole := Nat.div_add_mod nodes labels
  rw [groupSizes, sum, Nat.min_eq_right (Nat.le_of_lt rest)]
  exact whole

end Sizes

section Renumbered

variable {perm : List Nat} {n u v : Nat} (h : perm.Perm (List.range n))
include h

theorem getElem?_renumbered (hu : u < n) : perm[u]? = some (renumbered perm u) := by
  have length : u < perm.length := by simpa [h.length_eq] using hu
  simp [renumbered, length]

theorem renumbered_lt (hu : u < n) : renumbered perm u < n :=
  List.mem_range.mp (h.mem_iff.mp (List.mem_of_getElem? (getElem?_renumbered h hu)))

theorem renumbered_inj (hu : u < n) (hv : v < n) : renumbered perm u = renumbered perm v ↔ u = v := by
  refine ⟨fun same => ?_, congrArg _⟩
  have nodup : perm.Nodup := h.nodup_iff.mpr List.nodup_range
  have length : u < perm.length := by simpa [h.length_eq] using hu
  refine (List.getElem?_inj length nodup).mp ?_
  rw [getElem?_renumbered h hu, getElem?_renumbered h hv, same]

theorem map_renumbered_range : (List.range n).map (renumbered perm) = perm := by
  have length : perm.length = n := by simpa using h.length_eq
  refine List.ext_getElem? fun u => ?_
  by_cases hu : u < n
  case pos => simp [hu, getElem?_renumbered h hu]
  case neg => simp [hu, length]

end Renumbered

-- A row of writes to an array, each with the place it is for.
section Writes

variable {α : Type} {writes : List (Nat × α)} {xs : Array α} {n : Nat} {x : α}

theorem size_foldl_set (writes : List (Nat × α)) (xs : Array α) :
    (writes.foldl (fun xs (n, x) => xs.setIfInBounds n x) xs).size = xs.size := by
  induction writes generalizing xs
  case nil => rfl
  case cons w writes hi => rw [List.foldl_cons, hi, Array.size_setIfInBounds]

theorem getElem?_foldl_set_of_not_mem (apart : n ∉ writes.map Prod.fst) :
    (writes.foldl (fun xs (n, x) => xs.setIfInBounds n x) xs)[n]? = xs[n]? := by
  induction writes generalizing xs
  case nil => rfl
  case cons w writes hi =>
    have ⟨first, rest⟩ := not_or.mp (mt List.mem_cons.mpr apart)
    rw [List.foldl_cons, hi rest, Array.getElem?_setIfInBounds_ne (Ne.symm first)]

theorem getElem?_foldl_set (nodup : (writes.map Prod.fst).Nodup) (hw : (n, x) ∈ writes)
    (lt : n < xs.size) : (writes.foldl (fun xs (n, x) => xs.setIfInBounds n x) xs)[n]? = some x := by
  induction writes generalizing xs
  case nil => cases hw
  case cons w writes hi =>
    have ⟨apart, nodup⟩ := List.nodup_cons.mp nodup
    rw [List.foldl_cons]
    cases List.mem_cons.mp hw
    case inl same =>
      subst same
      rw [getElem?_foldl_set_of_not_mem apart, Array.getElem?_setIfInBounds_self_of_lt lt]
    case inr later => exact hi nodup later (by simpa using lt)

-- Where every place is written to once, the array holds what is written.
theorem foldl_set_perm (places : (writes.map Prod.fst).Perm (List.range n)) (blank : α) :
    (writes.foldl (fun xs (n, x) => xs.setIfInBounds n x) (Array.replicate n blank)).toList.Perm
      (writes.map Prod.snd) := by
  have size := size_foldl_set writes (Array.replicate n blank)
  have nodup := places.nodup_iff.mpr List.nodup_range
  have found (w : Nat × α) (hw : w ∈ writes) :
      (writes.foldl (fun xs (n, x) => xs.setIfInBounds n x) (Array.replicate n blank))[w.1]? = some w.2 := by
    have lt := List.mem_range.mp (places.mem_iff.mp (List.mem_map_of_mem hw))
    exact getElem?_foldl_set nodup hw (by simpa using lt)
  generalize writes.foldl _ (Array.replicate n blank) = filled at size found ⊢
  have read : filled.toList = (List.range n).map fun i => filled[i]?.getD blank := by
    refine List.ext_getElem (by simp [size]) fun i hi _ => ?_
    simp at hi
    simp [hi]
  have written : writes.map Prod.snd = (writes.map Prod.fst).map fun i => filled[i]?.getD blank := by
    rw [List.map_map]
    exact List.map_congr_left fun w hw => by simp [found w hw]
  rw [read, written]
  exact (places.map _).symm

end Writes

-- A graph without loops on the nodes from zero on, with groups of the given sizes into which all its
-- nodes fall.
structure Drawing.Parted (d : Drawing) (sizes : List Nat) : Prop where
  nodes  : d.nodes.Perm (List.range sizes.sum)
  edges  : ∀ e ∈ d.edges, e.1 < sizes.sum ∧ e.2 < sizes.sum ∧ e.1 ≠ e.2
  groups : d.groups.flatten.Perm (List.range sizes.sum)
  sizes  : d.groups.map List.length = sizes

section Labels

variable {perm : List Nat} {groups : List (List Nat)} {n : Nat}

theorem map_fst_labeledNodes : (labeledNodes perm groups).map Prod.fst =
    groups.flatten.map (renumbered perm) := by
  have start (k : Nat) : ((groups.zipIdx k).flatMap fun x =>
      x.1.map fun u => (renumbered perm u, x.2 + 1)).map Prod.fst = groups.flatten.map (renumbered perm) := by
    induction groups generalizing k
    case nil => rfl
    case cons group groups hi => simp [hi, Function.comp_def]
  exact start 0

theorem map_snd_labeledNodes : (labeledNodes perm groups).map Prod.snd =
    groups.zipIdx.flatMap fun x => List.replicate x.1.length (x.2 + 1) := by
  simp [labeledNodes, List.map_flatMap, Function.comp_def, List.map_const']

theorem count_labels (groups : List (List Nat)) (start k : Nat) :
    ((groups.zipIdx start).flatMap fun x =>
      List.replicate x.1.length (x.2 + 1)).count (start + k + 1) = (groups.getD k []).length := by
  induction groups generalizing start k
  case nil => simp
  case cons group groups hi =>
    rw [List.zipIdx_cons, List.flatMap_cons, List.count_append]
    cases k
    case zero =>
      have later : start + 0 + 1 ∉ (groups.zipIdx (start + 1)).flatMap fun x =>
          List.replicate x.1.length (x.2 + 1) := by
        intro mem
        have ⟨x, hx, hm⟩ := List.mem_flatMap.mp mem
        have above := List.le_snd_of_mem_zipIdx hx
        have same := (List.mem_replicate.mp hm).right
        omega
      simp [List.count_eq_zero_of_not_mem later]
    case succ k =>
      have shift : start + (k + 1) + 1 = start + 1 + k + 1 := by omega
      rw [shift, hi, List.count_replicate, if_neg (by simp; omega)]
      simp

end Labels

section Parted

variable {d : Drawing} {sizes perm : List Nat} {k u label : Nat} {group : List Nat} (h : d.Parted sizes)
  (hp : perm.Perm (List.range sizes.sum))
include h

theorem Drawing.Parted.lt_of_mem_group (hg : d.groups[k]? = some group) (hu : u ∈ group) : u < sizes.sum :=
  List.mem_range.mp (h.groups.mem_iff.mp (List.mem_flatten_of_mem (List.mem_of_getElem? hg) hu))

include hp

theorem places_labeledNodes : ((labeledNodes perm d.groups).map Prod.fst).Perm (List.range sizes.sum) := by
  rw [map_fst_labeledNodes]
  have all := h.groups.map (renumbered perm)
  rw [map_renumbered_range hp] at all
  exact all.trans hp

theorem renumberedLabels_perm : (renumberedLabels sizes.sum perm d.groups).toList.Perm
    ((labeledNodes perm d.groups).map Prod.snd) :=
  foldl_set_perm (places_labeledNodes h hp) 0

-- There are as many nodes with a label as its group is large.
theorem count_renumberedLabels :
    (renumberedLabels sizes.sum perm d.groups).toList.count (k + 1) = sizes.getD k 0 := by
  have count := count_labels d.groups 0 k
  rw [Nat.zero_add] at count
  rw [(renumberedLabels_perm h hp).count_eq, map_snd_labeledNodes, count, ← h.sizes]
  cases found : d.groups[k]? <;> simp [List.getD, found]

-- A node has the label of the group that it was in before.
theorem renumberedLabels_of_group (hg : d.groups[k]? = some group) (hu : u ∈ group) :
    (renumberedLabels sizes.sum perm d.groups)[renumbered perm u]? = some (k + 1) := by
  have known := h.lt_of_mem_group hg hu
  have labeled : (renumbered perm u, k + 1) ∈ labeledNodes perm d.groups :=
    List.mem_flatMap.mpr ⟨(group, k), List.mem_zipIdx_iff_getElem?.mpr hg, List.mem_map.mpr ⟨u, hu, rfl⟩⟩
  have places := (places_labeledNodes h hp).nodup_iff.mpr List.nodup_range
  exact getElem?_foldl_set places labeled (by simpa using renumbered_lt hp known)

theorem mem_renumberedLabels (hl : label ∈ (renumberedLabels sizes.sum perm d.groups).toList) :
    1 ≤ label ∧ label ≤ sizes.length := by
  have written := (renumberedLabels_perm h hp).mem_iff.mp hl
  rw [map_snd_labeledNodes] at written
  have ⟨⟨group, g⟩, hg, hm⟩ := List.mem_flatMap.mp written
  have inside := List.getElem?_eq_some_iff.mp (List.mem_zipIdx_iff_getElem?.mp hg) |>.choose
  have same := (List.mem_replicate.mp hm).right
  have length : sizes.length = d.groups.length := by simp [← h.sizes]
  simp only at same inside
  omega

omit h hp in
theorem size_renumberedLabels (count : Nat) (perm : List Nat) (groups : List (List Nat)) :
    (renumberedLabels count perm groups).size = count :=
  (size_foldl_set _ _).trans Array.size_replicate

end Parted

end CollectiveLabeling.Planted
