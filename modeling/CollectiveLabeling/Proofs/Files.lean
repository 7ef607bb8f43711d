import CollectiveLabeling.Proofs.Step
import CollectiveLabeling.Station

namespace CollectiveLabeling

open Step

namespace Files

variable {f f' f'' : Files} {p q : Path} {s text : String}

theorem lookup_map_set (texts : List (Path × String)) (p q : Path) (text : String) :
    (texts.map fun (q, t) => (q, if q = p then text else t)).lookup q =
      (texts.lookup q).map fun t => if q = p then text else t := by
  induction texts
  case nil => rfl
  case cons entry rest hi =>
    rw [List.map_cons, List.lookup_cons, List.lookup_cons, hi]
    cases hq : q == entry.1
    case false => rfl
    case true => simp [eq_of_beq hq]

@[simp]
theorem text?_setText_self : (f.setText p text).text? p = some text := by
  by_cases hf : f.isFile p
  case pos =>
    have ⟨old, ho⟩ := Option.isSome_iff_exists.mp hf
    rw [text?] at ho
    simp [text?, setText, hf, lookup_map_set, ho]
  case neg =>
    have none : f.texts.lookup p = none := Option.not_isSome_iff_eq_none.mp hf
    simp [text?, setText, hf, List.lookup_append, none]

theorem text?_setText_ne (h : q ≠ p) : (f.setText p text).text? q = f.text? q := by
  simp only [text?, setText]
  split
  case isTrue => simp [lookup_map_set, h]
  case isFalse =>
    have other : (q == p) = false := beq_false_of_ne h
    simp [List.lookup_append, List.lookup_cons, other]

theorem isFile_setText_ne (h : q ≠ p) : (f.setText p text).isFile q = f.isFile q := by
  rw [isFile, isFile, text?_setText_ne h]

-- What is a directory, and not a file too, stays so.
def Stays (f f' : Files) : Prop :=
  ∀ d, f.isDirectory d = true → f.isFile d = false → f'.isDirectory d = true ∧ f'.isFile d = false

theorem Stays.refl (f : Files) : f.Stays f :=
  fun _ directory file => ⟨directory, file⟩

theorem Stays.trans (h : f.Stays f') (h' : f'.Stays f'') : f.Stays f'' := fun d directory file =>
  have ⟨directory', file'⟩ := h d directory file
  h' d directory' file'

theorem stays_addDirectory (f : Files) (p : Path) :
    f.Stays { f with directories := f.directories ++ [p] } := by
  intro d directory file
  refine ⟨?_, file⟩
  simp only [isDirectory, Bool.or_eq_true, List.contains_append] at directory ⊢
  exact directory.imp_right .inl

theorem stays_setText (free : f.isDirectory p = false) (text : String) : f.Stays (f.setText p text) := by
  intro d directory file
  have ne : d ≠ p := fun he => by simp [he, free] at directory
  exact ⟨directory, (isFile_setText_ne ne).trans file⟩

-- What can become of a tree of files by filing at one place: directories stay directories and files
-- stay files, and only at that place is text added.
structure Filed (q : Path) (f f' : Files) : Prop where
  directory : ∀ p, f.isDirectory p = true → f.isFile p = false →
    f'.isDirectory p = true ∧ f'.isFile p = false
  file      : ∀ p, f.isFile p = true → f.isDirectory p = false → f'.isDirectory p = false
  text      : ∀ p text, f.text? p = some text →
    ∃ added, f'.text? p = some (text ++ added) ∧ (p ≠ q → added = "")

namespace Filed

theorem refl (q : Path) (f : Files) : f.Filed q f where
  directory := Stays.refl f
  file      := fun _ _ h => h
  text      := fun _ text h => ⟨"", by rw [h, String.append_empty], fun _ => rfl⟩

theorem isFile (h : f.Filed q f') (hp : f.isFile p = true) : f'.isFile p = true := by
  have ⟨text, ht⟩ := Option.isSome_iff_exists.mp hp
  have ⟨_, ht', _⟩ := h.text p text ht
  exact Option.isSome_iff_exists.mpr ⟨_, ht'⟩

theorem trans (h : f.Filed q f') (h' : f'.Filed q f'') : f.Filed q f'' where
  directory := Stays.trans h.directory h'.directory
  file      := fun p hf hd => h'.file p (h.isFile hf) (h.file p hf hd)
  text      := fun p text ht => by
    have ⟨added, ht', same⟩ := h.text p text ht
    have ⟨more, ht'', same'⟩ := h'.text p _ ht'
    refine ⟨added ++ more, by rw [ht'', String.append_assoc], fun ne => ?_⟩
    rw [same ne, same' ne, String.append_empty]

theorem addDirectory (h : f.isFile p = false) :
    f.Filed q { f with directories := f.directories ++ [p] } where
  directory := stays_addDirectory f p
  file      := fun p' hf hd => by
    have ne : p' ≠ p := fun he => by simp [he, h] at hf
    simpa [isDirectory, ne] using hd
  text      := (refl q f).text

theorem append (h : f.isDirectory q = false) (added : String) :
    f.Filed q (f.setText q ((f.text? q).getD "" ++ added)) where
  directory := stays_setText h _
  file      := fun _ _ hd => hd
  text      := fun p text ht => by
    by_cases he : p = q
    case pos =>
      subst he
      exact ⟨added, by rw [text?_setText_self, ht, Option.getD_some], fun ne => absurd rfl ne⟩
    case neg => exact ⟨"", by rw [text?_setText_ne he, ht, String.append_empty], fun _ => rfl⟩

end Filed

-- A name that a directory can be given here.
structure Fits (f : Files) (above : Path) (name : String) : Prop where
  null  : Path.holdsNull name = false
  above : f.isFile above = false
  short : name.utf8ByteSize ≤ Path.nameLimit

theorem makeUnder_of_fits {above : Path} {name : String} (h : f.Fits above name) : makeUnder above name f =
    if f.isFile (above.follow name) || f.isDirectory (above.follow name) then .ok false f
    else .ok true { f with directories := f.directories ++ [above.follow name] } := by
  by_cases file : f.isFile (above.follow name) <;>
    by_cases directory : f.isDirectory (above.follow name) <;>
    simp [makeUnder, h.null, h.above, Nat.not_lt.mpr h.short, file, directory]

-- What comes of making a directory: it is refused, or there is something already, or it is made.
inductive Making (above : Path) (name : String) (f : Files) : Prop
  | refused {e : Fault} : makeUnder above name f = .error e f → Making above name f
  | present : f.Fits above name → (f.isFile (above.follow name) || f.isDirectory (above.follow name)) = true →
      makeUnder above name f = .ok false f → Making above name f
  | made : f.Fits above name → f.isFile (above.follow name) = false →
      makeUnder above name f = .ok true { f with directories := f.directories ++ [above.follow name] } →
      Making above name f

theorem making (above : Path) (name : String) (f : Files) : Making above name f := by
  by_cases null : Path.holdsNull name
  case pos => exact .refused (by simp [makeUnder, null]; rfl)
  case neg =>
    by_cases blocked : f.isFile above
    case pos => exact .refused (by simp [makeUnder, null, blocked]; rfl)
    case neg =>
      by_cases long : Path.nameLimit < name.utf8ByteSize
      case pos => exact .refused (by simp [makeUnder, null, blocked, long]; rfl)
      case neg =>
        have fits : f.Fits above name := ⟨by simpa using null, by simpa using blocked, Nat.not_lt.mp long⟩
        by_cases there : f.isFile (above.follow name) || f.isDirectory (above.follow name)
        case pos => exact .present fits there ((makeUnder_of_fits fits).trans (if_pos there))
        case neg =>
          have absent : f.isFile (above.follow name) = false := by simp_all
          exact .made fits absent ((makeUnder_of_fits fits).trans (if_neg there))

section Keeps

variable {I : Files → Prop}
  (hI : ∀ f p, f.isFile p = false → I f → I { f with directories := f.directories ++ [p] })
include hI

theorem keeps_makeUnder (above : Path) (name : String) : Keeps I (makeUnder above name) := by
  intro f h
  cases making above name f
  case refused hm => exact (outcome_error.mpr hm) ▸ h
  case present hm => exact (outcome_ok.mpr hm) ▸ h
  case made absent hm => exact (outcome_ok.mpr hm) ▸ hI f _ absent h

theorem keeps_makePath (above : Path) (names : List String) : Keeps I (makePath above names) := by
  induction names generalizing above
  case nil => exact Keeps.pure _
  case cons name names hi =>
    refine (keeps_makeUnder hI above name).bind fun made => ?_
    exact (hi _).bind fun _ => Keeps.pure _

theorem keeps_makeDirectory (s : String) : Keeps I (makeDirectory s) := by
  refine (keeps_makePath hI _ _).bind fun (here, _) => ?_
  intro f h
  by_cases occupied : f.isFile here <;> simpa [outcome, occupied] using h

end Keeps

theorem stays_makePath {f₀ : Files} (above : Path) (names : List String) :
    Keeps f₀.Stays (makePath above names) :=
  keeps_makePath (fun f p _ h => h.trans (stays_addDirectory f p)) above names

theorem filed_makeDirectory {f₀ : Files} (s : String) : Keeps (f₀.Filed q) (makeDirectory s) :=
  keeps_makeDirectory (fun _ _ absent h => h.trans (Filed.addDirectory absent)) s

-- Where a path leads, whatever files there are.
def place (s : String) : Path :=
  (Path.names s).foldl Path.follow (Path.start s)

theorem walk_eq_ok {here : Path} {names : List String} (h : f.walk here names = .ok p) :
    p = names.foldl Path.follow here := by
  induction names generalizing here
  case nil => cases h; rfl
  case cons name names hi =>
    simp only [walk] at h
    split at h <;> try contradiction
    split at h <;> try contradiction
    split at h <;> try contradiction
    exact hi h

-- A way stays open as long as its directories stay.
theorem Stays.walk {here : Path} {names : List String} (stays : f.Stays f')
    (h : f.walk here names = .ok p) : f'.walk here names = .ok p := by
  induction names generalizing here
  case nil => exact h
  case cons name names hi =>
    simp only [Files.walk] at h
    split at h <;> try contradiction
    case isFalse file =>
      split at h <;> try contradiction
      case isFalse directory =>
        split at h <;> try contradiction
        case isFalse short =>
          have ⟨directory', file'⟩ := stays here (by simpa using directory) (by simpa using file)
          simp only [Files.walk, file', directory', short, Bool.not_true, Bool.false_eq_true, if_false]
          exact hi h

theorem openable_eq_ok : f.openable s = .ok p ↔ Path.holdsNull s = false ∧ s ≠ "" ∧
    f.walk (Path.start s) (Path.names s) = .ok p ∧ f.isDirectory p = false ∧
    s.endsWith Path.slash = false := by
  simp only [openable, Attempt.throw_eq, Attempt.error_bind]
  split
  case isTrue null => simp [null]
  case isFalse null =>
    split
    case isTrue empty => simp [empty]
    case isFalse empty =>
      cases f.walk (Path.start s) (Path.names s)
      case error => simp
      case ok p' =>
        rw [Attempt.ok_bind]
        split
        case isTrue taken =>
          simp only [Bool.or_eq_true] at taken
          simp only [reduceCtorEq, false_iff, not_and, Except.ok.injEq]
          rintro _ _ rfl directory
          simpa [directory] using taken
        case isFalse free =>
          simp only [Bool.or_eq_true, not_or, Bool.not_eq_true] at free
          simp only [Attempt.pure_eq, null, empty, Except.ok.injEq, ne_eq, not_false_eq_true, true_and]
          exact ⟨fun h => ⟨h, h ▸ free.left, free.right⟩, And.left⟩

theorem place_of_openable (h : f.openable s = .ok p) : p = place s :=
  have ⟨_, _, walked, _⟩ := openable_eq_ok.mp h
  walk_eq_ok walked

theorem Stays.openable (stays : f.Stays f') (h : f.openable s = .ok p) (free : f'.isDirectory p = false) :
    f'.openable s = .ok p := by
  obtain ⟨null, empty, walked, _, slash⟩ := openable_eq_ok.mp h
  exact openable_eq_ok.mpr ⟨null, empty, stays.walk walked, free, slash⟩

theorem filed_append {f₀ : Files} (s added : String) : Keeps (f₀.Filed (place s)) (append s added) := by
  intro f h
  cases ho : f.openable s
  case error e => simpa [append, outcome, ho, lift] using h
  case ok p =>
    obtain ⟨_, _, _, free, _⟩ := openable_eq_ok.mp ho
    cases place_of_openable ho
    simpa [append, outcome, ho, lift] using h.trans (Filed.append free added)

section Elsewhere

variable {standing : Option String} (ne : place s ≠ q)
include ne

-- Whatever is written to a file, what stands in another one stays there.
theorem keeps_write (content : Files → Path → String) : Keeps (fun f : Files => f.text? q = standing) (do
    let f ← get
    let p ← Step.lift (f.openable s)
    set (f.setText p (content f p))) := by
  intro f h
  cases ho : f.openable s
  case error => simpa [outcome, ho, lift] using h
  case ok =>
    cases place_of_openable ho
    simpa [outcome, ho, lift, text?_setText_ne ne.symm] using h

theorem keeps_truncate : Keeps (fun f => f.text? q = standing) (truncate s) :=
  keeps_write ne fun _ _ => ""

theorem keeps_overwrite (text : String) : Keeps (fun f => f.text? q = standing) (overwrite s text) :=
  keeps_write ne fun f p => text ++ String.ofList (((f.text? p).getD "").toList.drop text.length)

end Elsewhere

-- What is written to a file that was opened for writing stands at its start, whatever was filed in the
-- meantime, and it is all there is unless the filing was done in that very file.
theorem overwrite_of_truncate (opened : truncate s f = .ok ⟨⟩ f') (filed : f'.Filed q f'')
    (text : String) : ∃ rest g, overwrite s text f'' = .ok ⟨⟩ g ∧
      g.text? (place s) = some (text ++ rest) ∧ (place s ≠ q → rest = "") := by
  cases ho : f.openable s
  case error e => simp [truncate, ho, lift] at opened
  case ok p =>
    obtain ⟨_, _, _, free, _⟩ := openable_eq_ok.mp ho
    cases place_of_openable ho
    simp only [truncate, bind_apply, get_apply, ho, lift_ok, set_apply, EStateM.Result.ok.injEq,
      true_and] at opened
    subst opened
    obtain ⟨added, standing, same⟩ := filed.text (place s) "" text?_setText_self
    have file : (f.setText (place s) "").isFile (place s) = true := by simp [isFile]
    have stays : f.Stays f'' := (stays_setText free "").trans filed.directory
    have ho' : f''.openable s = .ok (place s) := stays.openable ho (filed.file _ file free)
    have written : overwrite s text f'' = .ok ⟨⟩ (f''.setText (place s)
        (text ++ String.ofList (("" ++ added).toList.drop text.length))) := by
      simp [overwrite, ho', lift, standing]
    exact ⟨_, _, written, text?_setText_self, fun ne => by simp [same ne]⟩

end Files
end CollectiveLabeling
