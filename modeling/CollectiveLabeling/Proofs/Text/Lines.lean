import CollectiveLabeling.Text.Lines

namespace CollectiveLabeling.Text

-- No line ends within it.
def Unbroken (line : List Char) : Prop :=
  ∀ c ∈ line, isBoundary c = false

instance (line : List Char) : Decidable (Unbroken line) :=
  List.decidableBAll (isBoundary · = false) line

-- Its last line is ended, if it has any.
def Closed (text : List Char) : Prop :=
  ∀ c ∈ text.getLast?, isBoundary c = true

-- What ends a line.
inductive Ending : List Char → Prop
  | single {c : Char} : isBoundary c = true → Ending [c]
  | pair : Ending ['\r', '\n']

-- A text and its lines. No line feed is left over by a carriage return before it, and only the last line
-- can do without an ending, if there is anything on it.
inductive Parted : List Char → List (List Char) → Prop
  | nil : Parted [] []
  | last {line : List Char} : line ≠ [] → Unbroken line → Parted line [line]
  | line {line ending rest : List Char} {lines : List (List Char)} : Unbroken line → Ending ending →
      (ending = ['\r'] → rest.head? ≠ some '\n') → Parted rest lines →
      Parted (line ++ ending ++ rest) (line :: lines)

section Characters

variable {c : Char} {line text added rest ending : List Char} {lines lines' : List (List Char)}

@[simp]
theorem unbroken_nil : Unbroken [] :=
  nofun

@[simp]
theorem unbroken_cons : Unbroken (c :: line) ↔ isBoundary c = false ∧ Unbroken line :=
  List.forall_mem_cons

@[simp]
theorem unbroken_append : Unbroken (line ++ rest) ↔ Unbroken line ∧ Unbroken rest :=
  List.forall_mem_append

theorem splitLines_boundary (h : isBoundary c = true) (alone : c = '\r' → rest.head? ≠ some '\n') :
    splitLines (c :: rest) = [] :: splitLines rest := by
  rw [splitLines, if_pos h]
  rintro rest' rfl rfl
  exact alone rfl rfl

theorem splitLines_inner (h : isBoundary c = false) :
    splitLines (c :: rest) = extendFirst c (splitLines rest) := by
  rw [splitLines, if_neg (by simp [h])]
  rintro rest' rfl rfl
  cases h

theorem splitLines_unbroken (h : Unbroken line) (some : line ≠ []) : splitLines line = [line] := by
  induction line
  case nil => exact absurd rfl some
  case cons c line hi =>
    obtain ⟨first, more⟩ := unbroken_cons.mp h
    rw [splitLines_inner first]
    cases line
    case nil => rfl
    case cons => rw [hi more (List.cons_ne_nil _ _)]; rfl

theorem splitLines_line (h : Unbroken line) (ends : Ending ending)
    (alone : ending = ['\r'] → rest.head? ≠ some '\n') :
    splitLines (line ++ ending ++ rest) = line :: splitLines rest := by
  induction line
  case nil =>
    cases ends
    case single c boundary => exact splitLines_boundary boundary fun h => alone (h ▸ rfl)
    case pair => rfl
  case cons c line hi =>
    obtain ⟨first, more⟩ := unbroken_cons.mp h
    rw [List.cons_append, List.cons_append, splitLines_inner first, hi more]
    rfl

namespace Parted

theorem extendFirst (h : Parted text lines) (inner : isBoundary c = false) :
    Parted (c :: text) (Text.extendFirst c lines) := by
  cases h
  case nil => exact .last (List.cons_ne_nil _ _) (unbroken_cons.mpr ⟨inner, unbroken_nil⟩)
  case last unbroken => exact .last (List.cons_ne_nil _ _) (unbroken_cons.mpr ⟨inner, unbroken⟩)
  case line unbroken ends alone h => exact .line (unbroken_cons.mpr ⟨inner, unbroken⟩) ends alone h

theorem splitLines (text : List Char) : Parted text (splitLines text) := by
  fun_induction Text.splitLines text
  case case1 => exact .nil
  case case2 rest hi => exact .line unbroken_nil .pair nofun hi
  case case3 c rest pair boundary hi =>
    refine .line unbroken_nil (.single boundary) (fun carriage feed => ?_) hi
    have ⟨rest', follows⟩ := List.head?_eq_some_iff.mp feed
    exact pair rest' (List.singleton_inj.mp carriage) follows
  case case4 c rest pair inner hi => exact hi.extendFirst (by simpa using inner)

theorem iff_splitLines : Parted text lines ↔ Text.splitLines text = lines := by
  constructor
  case mpr => exact fun h => h ▸ splitLines text
  case mp =>
    intro h
    induction h
    case nil => rfl
    case last some unbroken => exact splitLines_unbroken unbroken some
    case line unbroken ends alone _ hi => rw [splitLines_line unbroken ends alone, hi]

theorem unbroken (h : Parted text lines) : ∀ line ∈ lines, Unbroken line := by
  induction h
  case nil => exact nofun
  case last unbroken => exact List.forall_mem_singleton.mpr unbroken
  case line unbroken _ _ _ hi => exact List.forall_mem_cons.mpr ⟨unbroken, hi⟩

-- What is added to a text that is closed leaves its lines as they are.
theorem append (h : Parted text lines) (closed : Closed text) (h' : Parted added lines')
    (first : added.head? ≠ some '\n') : Parted (text ++ added) (lines ++ lines') := by
  induction h
  case nil => exact h'
  case last line some unbroken =>
    have boundary := closed (line.getLast some) (List.getLast?_eq_some_getLast some)
    rw [unbroken _ (line.getLast_mem some)] at boundary
    cases boundary
  case line line ending rest lines unbroken ends alone _ hi =>
    have closed' : Closed rest := fun c hc => closed c (by simp [List.getLast?_append, Option.mem_def.mp hc])
    rw [List.append_assoc]
    refine .line unbroken ends (fun he => ?_) (hi closed')
    cases rest
    case nil => exact first
    case cons => exact alone he

end Parted
end Characters

section Strings

variable {s t : String} {ls : List String}

theorem parted_lines (s : String) : Parted s.toList ((lines s).map String.toList) := by
  have same : (splitLines s.toList).map (String.toList ∘ String.ofList) = splitLines s.toList := by
    simp [Function.comp_def]
  rw [lines, List.map_map, same]
  exact .splitLines s.toList

theorem lines_eq (h : Parted s.toList (ls.map String.toList)) : lines s = ls := by
  rw [lines, Parted.iff_splitLines.mp h, List.map_map]
  simp [Function.comp_def]

theorem unbroken_of_mem_lines {line : String} (h : line ∈ lines s) : Unbroken line.toList :=
  (parted_lines s).unbroken _ (List.mem_map_of_mem h)

theorem lines_append (closed : Closed s.toList) (first : t.toList.head? ≠ some '\n') :
    lines (s ++ t) = lines s ++ lines t := by
  refine lines_eq ?_
  rw [String.toList_append, List.map_append]
  exact (parted_lines s).append closed (parted_lines t) first

-- Lines that are each ended by a line feed are the lines of the text.
theorem lines_join (h : ∀ line ∈ ls, Unbroken line.toList) :
    lines (String.join (ls.map (· ++ "\n"))) = ls := by
  refine lines_eq ?_
  induction ls
  case nil => exact .nil
  case cons line ls hi =>
    obtain ⟨first, more⟩ := List.forall_mem_cons.mp h
    have parted := Parted.line first (.single (c := '\n') rfl) (by simp) (hi more)
    simpa [String.toList_join] using parted

theorem lines_append_join (closed : Closed s.toList) (unbroken : ∀ line ∈ ls, Unbroken line.toList)
    (some : ∀ line ∈ ls, line ≠ "") :
    lines (s ++ String.join (ls.map (· ++ "\n"))) = lines s ++ ls := by
  suffices first : (String.join (ls.map (· ++ "\n"))).toList.head? ≠ .some '\n' by
    rw [lines_append closed first, lines_join unbroken]
  cases ls
  case nil => simp
  case cons line ls =>
    have ⟨c, rest, hc⟩ := List.exists_cons_of_ne_nil (mt String.toList_eq_nil_iff.mp (some line (by simp)))
    have inner := unbroken line (by simp) c (by simp [hc])
    have other : c ≠ '\n' := by
      rintro rfl
      cases inner
    simpa [String.toList_join, hc] using other

end Strings
end CollectiveLabeling.Text
