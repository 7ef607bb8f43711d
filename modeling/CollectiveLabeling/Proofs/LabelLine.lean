import CollectiveLabeling.Confusion
import Mathlib

namespace CollectiveLabeling

-- The words of a line, parted by any number of spaces.
def words (line : String) : List String :=
  ((line.split ' ').toList.map (·.copy)).filter (· ≠ "")

-- Reads a line of labels. There may be none on it.
def readLabels (line : String) : Option (List Int) :=
  (words line).mapM String.toInt?

-- The lines of a text in which every line is ended by a line feed.
def linesOf (text : String) : List String :=
  ((text.split '\n').toList.map (·.copy)).dropLast

-- What is written for several rows of labels, in this order.
def report (rows : List (List Int)) : String :=
  String.join (rows.map (labelLine · ++ "\n"))

section Numeral

variable {label : Int}

theorem toString_ne_empty (label : Int) : toString label ≠ "" := by
  change label.repr ≠ ""
  rw [Int.repr_eq_if]
  split <;> simp

theorem mem_toString {c : Char} (h : c ∈ (toString label).toList) : c = '-' ∨ c.isDigit = true := by
  have digit {n : Nat} (h : c ∈ n.repr.toList) : c.isDigit = true := by
    rw [Nat.repr_eq_ofList_toDigits, String.toList_ofList] at h
    exact Nat.isDigit_of_mem_toDigits (by decide) (by decide) h
  change c ∈ label.repr.toList at h
  rw [Int.repr_eq_if] at h
  split at h
  case isTrue => exact .inr (digit h)
  case isFalse =>
    obtain h | h := List.mem_append.mp (String.toList_append ▸ h)
    case inl => exact .inl (by simpa using h)
    case inr => exact .inr (digit h)

theorem blank_not_mem {c : Char} (h : c = ' ' ∨ c = '\n') : c ∉ (toString label).toList := by
  intro hm
  obtain rfl | rfl := h <;> obtain h | h := mem_toString hm <;> simp at h

end Numeral

theorem words_labelLine (labels : List Int) : words (labelLine labels) = labels.map toString := by
  have space : " " = String.singleton ' ' := rfl
  have parted := String.toList_split_intercalate (c := ' ') (l := labels.map toString) <| by
    simpa using fun label _ => blank_not_mem (.inl rfl)
  rw [words, labelLine, space, parted]
  split
  case isTrue none => rw [none]; rfl
  case isFalse => simpa using fun label _ => toString_ne_empty label

-- The labels of a line are read back from it, an empty line being that of no labels.
theorem readLabels_labelLine (labels : List Int) : readLabels (labelLine labels) = some labels := by
  have numeral (label : Int) : (toString label).toInt? = some label := Int.toInt?_repr label
  rw [readLabels, words_labelLine]
  induction labels
  case nil => rfl
  case cons label labels hi => rw [List.map_cons, List.mapM_cons, numeral, hi]; rfl

-- The labels of a line are read back from it, one line after the other.
theorem mapM_readLabels (rows : List (List Int)) : (rows.map labelLine).mapM readLabels = some rows := by
  induction rows
  case nil => rfl
  case cons labels rows hi => rw [List.map_cons, List.mapM_cons, readLabels_labelLine, hi]; rfl

theorem labelLine_eq_empty {labels : List Int} : labelLine labels = "" ↔ labels = [] := by
  refine ⟨fun h => ?_, fun h => h ▸ rfl⟩
  have read := readLabels_labelLine labels
  rw [h, show "" = labelLine [] from rfl, readLabels_labelLine] at read
  exact (Option.some.inj read).symm

theorem newline_not_mem (labels : List Int) : '\n' ∉ (labelLine labels).toList := by
  have numeral (label : Int) : '\n' ∉ (toString label).toList := blank_not_mem (.inr rfl)
  induction labels
  case nil => simp [labelLine]
  case cons label labels hi =>
    rw [labelLine, List.map_cons]
    cases labels
    case nil => simpa using numeral label
    case cons next rest =>
      rw [List.map_cons, String.intercalate_cons_cons, ← List.map_cons, ← labelLine,
        String.toList_append, String.toList_append, List.mem_append, List.mem_append]
      rintro ((h | h) | h)
      case inl.inl => exact numeral label h
      case inl.inr => simp at h
      case inr => exact hi h

theorem report_eq (rows : List (List Int)) :
    report rows = "\n".intercalate (rows.map labelLine ++ [""]) := by
  induction rows
  case nil => rfl
  case cons labels rows hi =>
    have more : rows.map labelLine ++ [""] ≠ [] := by simp
    rw [List.map_cons, List.cons_append, String.intercalate_cons_of_ne_nil more, ← hi]
    simp [report]

-- Every row of labels makes one line.
theorem linesOf_report (rows : List (List Int)) : linesOf (report rows) = rows.map labelLine := by
  have newline : "\n" = String.singleton '\n' := rfl
  have parted := String.toList_split_intercalate (c := '\n') (l := rows.map labelLine ++ [""]) <| by
    intro line hm
    obtain hm | hm := List.mem_append.mp hm
    case inl =>
      obtain ⟨labels, _, rfl⟩ := List.mem_map.mp hm
      exact newline_not_mem labels
    case inr => simp [List.mem_singleton.mp hm]
  rw [linesOf, report_eq, newline, parted]
  simp

end CollectiveLabeling
