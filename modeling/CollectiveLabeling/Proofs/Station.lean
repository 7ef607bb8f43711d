import CollectiveLabeling.Proofs.Fault
import CollectiveLabeling.Proofs.Files.Opens
import CollectiveLabeling.Proofs.Journal
import CollectiveLabeling.Station

namespace CollectiveLabeling.Station

open Step Text

variable {s t : Station} {file : String}

-- What stands in a file, nothing if there is none.
def textIn (s : Station) (file : String) : String :=
  (s.files.text? (Files.place file)).getD ""

theorem record_eq (file : String) (e : Entry) (shown : Bool) : record (some file) e shown = (do
    within (Files.prepare file)
    let text := e.written (← get).clock.date
    within (Files.append file text)
    if shown then print text) := by
  simp only [record, Files.prepare]
  split <;> rfl

-- What comes of filing an entry. It is added to what stands in the file, or that is left as it is.
inductive Recorded (file : String) (e : Entry) (shown : Bool) (s : Station) : Prop
  | done {t : Station} : record (some file) e shown s = .ok ⟨⟩ t → s.files.Opens file → t.files.Opens file →
      t.textIn file = s.textIn file ++ e.written s.clock.date → Recorded file e shown s
  | failed {f : Fault} {t : Station} : record (some file) e shown s = .error f t → ¬s.files.Opens file →
      t.textIn file = s.textIn file → Recorded file e shown s

theorem recorded (file : String) (e : Entry) (shown : Bool) (s : Station) : Recorded file e shown s := by
  cases hp : Files.prepare file s.files
  case error f g =>
    have refused : record (some file) e shown s = .error f { s with files := g } := by
      rw [record_eq]
      exact bind_error (within_error hp)
    have same : g.text? = s.files.text? := (Files.text?_prepare file).of_error rfl hp
    refine .failed refused (fun ⟨_, prepared, _⟩ => ?_) (by simp only [textIn, same])
    cases prepared.symm.trans hp
  case ok u g =>
    have same : g.text? = s.files.text? := (Files.text?_prepare file).of_ok rfl hp
    cases ho : g.openable file
    case error f =>
      have refused : record (some file) e shown s = .error f { s with files := g } := by
        rw [record_eq]
        refine (bind_ok (within_ok hp)).trans <| (bind_ok (get_apply _)).trans <| bind_error (within_error ?_)
        simp [Files.append, ho, lift]
      refine .failed refused (fun ⟨_, prepared, opened⟩ => ?_) (by simp only [textIn, same])
      cases prepared.symm.trans hp
      cases opened.symm.trans ho
    case ok p =>
      cases Files.place_of_openable ho
      have written : record (some file) e shown s = .ok ⟨⟩ { s with
          files := g.setText (Files.place file)
            ((g.text? (Files.place file)).getD "" ++ e.written s.clock.date)
          screen := if shown then s.screen ++ e.written s.clock.date else s.screen } := by
        rw [record_eq]
        cases shown <;> simp [within, Step.within, hp, Files.append, ho, lift, print]
      refine .done written ⟨g, hp, ho⟩ (Files.opens_setText hp ho _) ?_
      rw [textIn, textIn, Files.text?_setText_self, same]
      rfl

section Fields

variable (file tag : String) {values : List (String × Shown)}

theorem recordFields_reserved (reserved : ∃ x ∈ values, x.1 ∈ reservedKeys) (s : Station) :
    recordFields (some file) tag values s = .error .reservedKey s := by
  have taken : (values.any fun x => reservedKeys.contains x.1) = true := by simpa using reserved
  exact congrFun (if_pos taken) s

variable (free : ∀ x ∈ values, x.1 ∉ reservedKeys)
include free

theorem recordFields_eq (written : ∀ x ∈ values, x.2.writable = true) :
    recordFields (some file) tag values = record (some file) (.ofFields tag values) false := by
  have free : ¬(values.any fun x => reservedKeys.contains x.1) = true := by simpa using free
  exact (if_neg free).trans (if_pos (List.all_eq_true.mpr written))

theorem recordFields_unwritable (long : ¬∀ x ∈ values, x.2.writable = true) (s : Station) :
    recordFields (some file) tag values s = .error (.invalid (.unwritable Decimal.digitLimit)) s := by
  have free : ¬(values.any fun x => reservedKeys.contains x.1) = true := by simpa using free
  have long : ¬(values.all fun x => x.2.writable) = true := fun all => long (List.all_eq_true.mp all)
  exact congrFun ((if_neg free).trans (if_neg long)) s

end Fields

-- A call that files an entry, or one made of fields.
inductive Call where
  | entry (e : Entry) (shown : Bool)
  | fields (tag : String) (values : List (String × Shown))

namespace Call

def step (file : String) : Call → Step Station Unit
  | entry e shown => record (some file) e shown
  | fields tag values => recordFields (some file) tag values

def filed : Call → Entry
  | entry e _ => e
  | fields tag values => .ofFields tag values

-- Some names cannot be given to a field, and there must be a text for its value.
def Permitted : Call → Prop
  | entry .. => True
  | fields _ values => ∀ x ∈ values, x.1 ∉ reservedKeys ∧ x.2.writable = true

-- The grounds on which a call is refused.
inductive Refuses : Call → Fault → Prop
  | name {tag : String} {values : List (String × Shown)} :
      (∃ x ∈ values, x.1 ∈ reservedKeys) → Refuses (fields tag values) .reservedKey
  | value {tag : String} {values : List (String × Shown)} : (∀ x ∈ values, x.1 ∉ reservedKeys) →
      (∃ x ∈ values, ¬x.2.writable = true) →
      Refuses (fields tag values) (.invalid (.unwritable Decimal.digitLimit))

end Call

-- A call and the station at which it is made.
structure Event where
  call   : Call
  before : Station

namespace Event

def after (file : String) (e : Event) : Station :=
  (outcome (e.call.step file) e.before).2

def answer (file : String) (e : Event) : Except Fault Unit :=
  (outcome (e.call.step file) e.before).1

-- The lines that a call files, none if it fails.
def lines (file : String) (e : Event) : List String :=
  match e.answer file with
  | .ok _ => e.call.filed.stamped e.before.clock.date
  | .error _ => []

-- What comes of a call.
inductive Answered (file : String) (e : Event) : Prop
  | done : e.answer file = .ok ⟨⟩ → e.call.Permitted → (e.after file).files.Opens file →
      (e.after file).textIn file = e.before.textIn file ++ e.call.filed.written e.before.clock.date →
      Answered file e
  | refused {f : Fault} : e.answer file = .error f → ¬e.call.Permitted → e.call.Refuses f →
      e.after file = e.before → Answered file e
  | failed {f : Fault} : e.answer file = .error f → ¬e.before.files.Opens file →
      (e.after file).textIn file = e.before.textIn file → Answered file e

theorem answered_of_record {e : Event} {x : Entry} {shown : Bool} (filed : e.call.filed = x)
    (step : e.call.step file = record (some file) x shown) (permitted : e.call.Permitted) :
    e.Answered file := by
  subst filed
  cases recorded file e.call.filed shown e.before
  case done t hr _ opens written =>
    have outcome : outcome (e.call.step file) e.before = (.ok ⟨⟩, t) := step ▸ outcome_ok.mpr hr
    have after : e.after file = t := congrArg Prod.snd outcome
    exact .done (congrArg Prod.fst outcome) permitted (after ▸ opens) (after ▸ written)
  case failed f t hr shut same =>
    have outcome : outcome (e.call.step file) e.before = (.error f, t) := step ▸ outcome_error.mpr hr
    have after : e.after file = t := congrArg Prod.snd outcome
    exact .failed (congrArg Prod.fst outcome) shut (after ▸ same)

theorem answered (file : String) (e : Event) : e.Answered file := by
  obtain ⟨call, before⟩ := e
  cases call
  case entry x shown => exact answered_of_record rfl rfl trivial
  case fields tag values =>
    by_cases reserved : ∃ x ∈ values, x.1 ∈ reservedKeys
    case pos =>
      have outcome := outcome_error.mpr (recordFields_reserved file tag reserved before)
      refine .refused (congrArg Prod.fst outcome) (fun permitted => ?_) (.name reserved) (congrArg Prod.snd outcome)
      have ⟨x, hx, hk⟩ := reserved
      exact (permitted x hx).left hk
    case neg =>
      have free : ∀ x ∈ values, x.1 ∉ reservedKeys := fun x hx hk => reserved ⟨x, hx, hk⟩
      by_cases written : ∀ x ∈ values, x.2.writable = true
      case pos =>
        exact answered_of_record rfl (recordFields_eq file tag free written) fun x hx => ⟨free x hx, written x hx⟩
      case neg =>
        have outcome := outcome_error.mpr (recordFields_unwritable file tag free written before)
        refine .refused (congrArg Prod.fst outcome) (fun permitted => ?_) (.value free ?_) (congrArg Prod.snd outcome)
        case refine_1 => exact written fun x hx => (permitted x hx).right
        case refine_2 => simpa using written

-- A line that a call files is a line of its entry.
theorem mem_stamped {line : String} {e : Event} (h : line ∈ e.lines file) :
    line ∈ e.call.filed.stamped e.before.clock.date := by
  simp only [lines] at h
  split at h
  case h_1 => exact h
  case h_2 => cases h

theorem textIn_after (file : String) (e : Event) : (e.after file).textIn file =
    e.before.textIn file ++ String.join ((e.lines file).map (· ++ "\n")) := by
  cases answered file e
  case done ha _ _ written => rw [written, Entry.written_eq, lines, ha]
  case refused ha _ _ same => simp [lines, ha, same]
  case failed ha _ same => simp [lines, ha, same]

end Event

-- The calls on one file, those that fail too. The clock and the screen may change in between.
inductive History (file : String) (s : Station) : List Event → Station → Prop
  | refl : History file s [] s
  | call {es : List Event} {t : Station} (c : Call) : History file s es t →
      History file s (es ++ [⟨c, t⟩]) (Event.after file ⟨c, t⟩)
  | surroundings {es : List Event} {t : Station} {screen : String} {clock : Clock} : History file s es t →
      History file s es { t with screen, clock }

namespace History

variable {es : List Event}

-- A call parts a history in what came before and what came after it.
theorem through (h : History file s es t) {e : Event} (hm : e ∈ es) :
    ∃ earlier later, es = earlier ++ e :: later ∧ History file s earlier e.before ∧
      History file (e.after file) later t := by
  induction h
  case refl => cases hm
  case call es t c h hi =>
    obtain hm | hm := List.mem_append.mp hm
    case inl =>
      obtain ⟨earlier, later, rfl, before, after⟩ := hi hm
      exact ⟨earlier, later ++ [⟨c, t⟩], by simp, before, after.call c⟩
    case inr =>
      cases List.mem_singleton.mp hm
      exact ⟨es, [], rfl, h, .refl⟩
  case surroundings hi =>
    obtain ⟨earlier, later, parts, before, after⟩ := hi hm
    exact ⟨earlier, later, parts, before, after.surroundings⟩

theorem opens (h : History file s es t) (ho : s.files.Opens file) : t.files.Opens file := by
  induction h
  case refl => exact ho
  case call c _ hi =>
    cases Event.answered file ⟨c, _⟩
    case done opens _ => exact opens
    case refused _ same => exact same ▸ hi
    case failed shut _ => exact absurd hi shut
  case surroundings hi => exact hi

-- What is filed is added line by line.
theorem textIn (h : History file s es t) : t.textIn file =
    s.textIn file ++ String.join ((es.flatMap (Event.lines file)).map (· ++ "\n")) := by
  induction h
  case refl => simp
  case call es t c h hi =>
    rw [Event.textIn_after, hi, List.flatMap_append, List.flatMap_singleton, List.map_append,
      String.join_append, String.append_assoc]
  case surroundings hi => exact hi

end History

-- A log after a number of calls: what stood in it before, and then the lines of every call that did not
-- fail, one after the other, each behind its heading. If the log can be opened to begin with, no call fails
-- but for the name or the value of a field.
structure Logged (file : String) (s : Station) (es : List Event) (t : Station) : Prop where
  lines    : Text.lines (t.textIn file) = Text.lines (s.textIn file) ++ es.flatMap (Event.lines file)
  headed   : ∀ e ∈ es, ∀ line ∈ e.lines file, ∃ rest ∈ Entry.textLines e.call.filed.text,
    line = Entry.heading e.before.clock.date e.call.filed.tag ++ " " ++ rest
  earlier  : ∀ e ∈ es, ∃ added, t.textIn file = e.before.textIn file ++ added
  answered : s.files.Opens file → ∀ e ∈ es,
    (e.call.Permitted → e.answer file = .ok ⟨⟩ ∧
      e.lines file = e.call.filed.stamped e.before.clock.date) ∧
    (¬e.call.Permitted → ∃ f, e.call.Refuses f ∧ e.answer file = .error f)

theorem log_holds_lines {es : List Event} (h : History file s es t)
    (tags : ∀ e ∈ es, ∀ tag ∈ e.call.filed.tag, Unbroken tag.toList)
    (closed : Closed (s.textIn file).toList) : Logged file s es t where
  lines    := by
    have stamped {line : String} (hm : line ∈ es.flatMap (Event.lines file)) :
        ∃ e ∈ es, line ∈ e.call.filed.stamped e.before.clock.date :=
      have ⟨e, he, hm⟩ := List.mem_flatMap.mp hm
      ⟨e, he, Event.mem_stamped hm⟩
    rw [h.textIn]
    refine lines_append_join closed (fun line hm => ?_) fun line hm => ?_
    case refine_1 =>
      have ⟨e, he, hm⟩ := stamped hm
      exact Entry.unbroken_stamped (tags e he) line hm
    case refine_2 =>
      have ⟨e, _, hm⟩ := stamped hm
      exact Entry.ne_empty_of_mem_stamped hm
  headed   := fun e _ line hm =>
    have ⟨rest, hr, he⟩ := List.mem_map.mp (Event.mem_stamped hm)
    ⟨rest, hr, he.symm⟩
  earlier  := fun e hm =>
    have ⟨_, _, _, _, later⟩ := h.through hm
    ⟨_, later.textIn.trans (by rw [Event.textIn_after, String.append_assoc])⟩
  answered := fun opens e hm => by
    have ⟨_, _, _, earlier, _⟩ := h.through hm
    have opens := earlier.opens opens
    cases e.answered file
    case done ha permitted _ _ =>
      exact ⟨fun _ => ⟨ha, by rw [Event.lines, ha]⟩, fun refused => absurd permitted refused⟩
    case refused f ha refused grounds _ =>
      exact ⟨fun permitted => absurd permitted refused, fun _ => ⟨f, grounds, ha⟩⟩
    case failed shut _ => exact absurd opens shut

theorem opens_sample : Files.Opens {} "d/l" := by
  let made : Files := { directories := [["d"]] }
  have prepared : Files.prepare "d/l" {} = .ok ⟨⟩ made := by
    have directory : Files.directoryOf "d/l" = "d" := by cbv
    have names : Path.names "d" = ["d"] := by cbv
    have start : Path.start "d" = [] := by cbv
    have fits : Files.Fits {} [] "d" := ⟨by cbv, rfl, by decide⟩
    have path : Files.makePath (Path.start "d") (Path.names "d") {} = .ok (["d"], true) made := by
      rw [start, names]
      exact bind_ok ((Files.makeUnder_of_fits fits).trans rfl)
    simp only [Files.prepare, directory]
    exact bind_ok path
  have names : Path.names "d/l" = ["d", "l"] := by cbv
  have start : Path.start "d/l" = [] := by cbv
  have opened : made.openable "d/l" = .ok ["d", "l"] :=
    Files.openable_eq_ok.mpr ⟨by cbv, by decide, by rw [names, start]; rfl, rfl, by cbv⟩
  exact ⟨made, prepared, Files.place_of_openable opened ▸ opened⟩

-- Of three calls the second is refused. The lines of the others stand in the log, in a directory that
-- was made for it.
theorem log_holds_lines_sample :
    let s : Station := { clock := { date := ⟨2001, 2, 3, 4, 5, 6⟩ } }
    ∃ es t, History "d/l" s es t ∧ es.length = 3 ∧ Text.lines (t.textIn "d/l") =
      ["[2001-02-03 04:05:06][T] one", "[2001-02-03 04:05:06][T] two",
        "[2001-02-03 23:05:59][KV] a=1 | b=x", "[2001-02-03 23:05:59][KV] y"] := by
  intro s
  let first : Event := ⟨.entry { tag := some "T", text := "one\r\ntwo\u2028" } true, s⟩
  let second : Event := ⟨.fields "KV" [("tag", .whole 1)], first.after "d/l"⟩
  let later : Station := { second.after "d/l" with clock := { date := ⟨2001, 2, 3, 23, 5, 59⟩ } }
  let third : Event := ⟨.fields "KV" [("a", .whole 1), ("b", .text "x\u0085y")], later⟩
  have history : History "d/l" s [first, second, third] (third.after "d/l") :=
    ((History.refl.call first.call).call second.call).surroundings.call third.call
  have nothing : s.textIn "d/l" = "" := rfl
  have tags : ∀ e ∈ [first, second, third], ∀ tag ∈ e.call.filed.tag, Unbroken tag.toList := by
    simp [first, second, third, Call.filed, Entry.ofFields, isBoundary]
  have logged := log_holds_lines history tags (by simp [nothing, Closed])
  have answered := logged.answered opens_sample
  obtain ⟨_, lines⟩ := (answered first (by simp)).left trivial
  obtain ⟨_, _, refused⟩ := (answered second (by simp)).right (by simp [second, Call.Permitted, reservedKeys])
  have one : Decimal.writable 1 = true := Decimal.writable_of_lt (by decide)
  obtain ⟨_, lines'⟩ := (answered third (by simp)).left
    (by simp [third, Call.Permitted, reservedKeys, Shown.writable, one])
  have none : second.lines "d/l" = [] := by rw [Event.lines, refused]
  refine ⟨_, _, history, rfl, ?_⟩
  rw [logged.lines, nothing, List.flatMap_cons, List.flatMap_cons, List.flatMap_singleton, lines, none, lines']
  cbv

end CollectiveLabeling.Station
