/-!
Values filed under names, in the order of filing.

A name keeps its place when its value is replaced and loses it when it is removed.
-/

namespace CollectiveLabeling

abbrev Keyed (α : Type) := List (String × α)

namespace Keyed

variable {α : Type}

def get? : Keyed α → String → Option α
  | [], _ => none
  | (k, v) :: rest, key => if k = key then some v else get? rest key

def put : Keyed α → String → α → Keyed α
  | [], key, value => [(key, value)]
  | (k, v) :: rest, key, value =>
    if k = key then (k, value) :: rest else (k, v) :: put rest key value

def erase : Keyed α → String → Keyed α
  | [], _ => []
  | (k, v) :: rest, key => if k = key then rest else (k, v) :: erase rest key

def keys (m : Keyed α) : List String :=
  m.map Prod.fst

theorem get?_put_self (m : Keyed α) (key : String) (value : α) :
    (m.put key value).get? key = some value := by
  induction m
  case nil => simp [put, get?]
  case cons entry rest hi => by_cases h : entry.1 = key <;> simp [put, get?, h, hi]

theorem get?_put_ne (m : Keyed α) {key other : String} (value : α) (h : other ≠ key) :
    (m.put key value).get? other = m.get? other := by
  induction m
  case nil => simp [put, get?, Ne.symm h]
  case cons entry rest hi =>
    by_cases hk : entry.1 = key
    case pos => simp [put, get?, hk, Ne.symm h]
    case neg => simp [put, get?, hk, hi]

theorem put_of_get?_none {m : Keyed α} {key : String} (h : m.get? key = none) (value : α) :
    m.put key value = m ++ [(key, value)] := by
  induction m
  case nil => rfl
  case cons entry rest hi =>
    by_cases hk : entry.1 = key
    case pos => simp [get?, hk] at h
    case neg =>
      simp only [get?, hk, if_false] at h
      simp [put, hk, hi h]

theorem put_put_self (m : Keyed α) (key : String) (first second : α) :
    (m.put key first).put key second = m.put key second := by
  induction m
  case nil => simp [put]
  case cons entry rest hi => by_cases h : entry.1 = key <;> simp [put, h, hi]

theorem put_get?_self {m : Keyed α} {key : String} {value : α} (h : m.get? key = some value) :
    m.put key value = m := by
  induction m
  case nil => simp [get?] at h
  case cons entry rest hi =>
    by_cases hk : entry.1 = key
    case pos =>
      simp only [get?, hk, if_true, Option.some.injEq] at h
      subst hk h
      simp [put]
    case neg =>
      simp only [get?, hk, if_false] at h
      simp [put, hk, hi h]

end Keyed
end CollectiveLabeling
