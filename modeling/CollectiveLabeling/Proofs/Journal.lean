import CollectiveLabeling.Journal
import CollectiveLabeling.Proofs.LabelLine
import CollectiveLabeling.Proofs.Text.Lines

namespace CollectiveLabeling

open Text

theorem isBoundary_of_isDigit {c : Char} (h : c.isDigit = true) : isBoundary c = false := by
  have range : 48 ≤ c.toNat ∧ c.toNat ≤ 57 := by
    simpa [Char.isDigit, UInt32.le_iff_toNat_le] using h
  simp [isBoundary]
  omega

theorem unbroken_toString (n : Nat) : Unbroken (toString n).toList := by
  intro c hc
  obtain rfl | digit := @mem_toString n c hc
  case inl => rfl
  case inr => exact isBoundary_of_isDigit digit

theorem unbroken_intercalate {separator : String} {parts : List String}
    (separator_unbroken : Unbroken separator.toList) (h : ∀ part ∈ parts, Unbroken part.toList) :
    Unbroken (separator.intercalate parts).toList := by
  induction parts
  case nil => exact unbroken_nil
  case cons part parts hi =>
    obtain ⟨first, more⟩ := List.forall_mem_cons.mp h
    cases parts
    case nil => simpa using first
    case cons =>
      rw [String.intercalate_cons_cons]
      simpa [first, separator_unbroken] using hi more

namespace Date

theorem unbroken_twoDigits (n : Nat) : Unbroken (twoDigits n).toList := by
  simp only [twoDigits]
  split
  case isTrue =>
    rw [String.toList_append, unbroken_append]
    exact ⟨by decide, unbroken_toString n⟩
  case isFalse => exact unbroken_toString n

theorem unbroken_fields (d : Date) : ∀ field ∈ d.fields, Unbroken field.toList := by
  simp only [fields, List.forall_mem_cons]
  exact ⟨unbroken_toString _, unbroken_twoDigits _, unbroken_twoDigits _, unbroken_twoDigits _,
    unbroken_twoDigits _, unbroken_twoDigits _, nofun⟩

theorem unbroken_stamp (d : Date) : Unbroken d.stamp.toList := by
  have early : Unbroken ("-".intercalate (d.fields.take 3)).toList :=
    unbroken_intercalate (by decide) fun field hf => d.unbroken_fields field (List.mem_of_mem_take hf)
  have late : Unbroken (":".intercalate (d.fields.drop 3)).toList :=
    unbroken_intercalate (by decide) fun field hf => d.unbroken_fields field (List.mem_of_mem_drop hf)
  simp only [stamp, String.toList_append, unbroken_append]
  exact ⟨⟨early, by decide⟩, late⟩

end Date

namespace Entry

variable {date : Date} {tag : Option String} {e : Entry}

theorem unbroken_heading (h : ∀ t ∈ tag, Unbroken t.toList) : Unbroken (heading date tag).toList := by
  have brackets : isBoundary '[' = false ∧ isBoundary ']' = false := by decide
  cases tag
  case none => simp [heading, date.unbroken_stamp, brackets]
  case some t => simp [heading, date.unbroken_stamp, brackets, h t rfl]

theorem unbroken_textLines (s : String) : ∀ line ∈ textLines s, Unbroken line.toList := by
  intro line hm
  simp only [textLines] at hm
  split at hm
  case h_1 => simp [List.mem_singleton.mp hm, unbroken_nil]
  case h_2 => exact unbroken_of_mem_lines hm

-- The lines of an entry in a log.
def stamped (date : Date) (e : Entry) : List String :=
  (textLines e.text).map (heading date e.tag ++ " " ++ ·)

theorem written_eq (date : Date) (e : Entry) :
    e.written date = String.join ((e.stamped date).map (· ++ "\n")) := by
  rw [written, stamped, List.map_map]
  rfl

theorem unbroken_stamped (h : ∀ t ∈ e.tag, Unbroken t.toList) :
    ∀ line ∈ e.stamped date, Unbroken line.toList := by
  intro line hm
  obtain ⟨rest, hr, rfl⟩ := List.mem_map.mp hm
  have space : isBoundary ' ' = false := by decide
  simp [unbroken_heading h, space, unbroken_textLines _ rest hr]

theorem ne_empty_of_mem_stamped {line : String} (h : line ∈ e.stamped date) : line ≠ "" := by
  obtain ⟨rest, _, rfl⟩ := List.mem_map.mp h
  simp

end Entry
end CollectiveLabeling
