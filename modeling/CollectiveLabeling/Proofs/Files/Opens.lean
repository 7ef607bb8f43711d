import CollectiveLabeling.Proofs.Files

namespace CollectiveLabeling.Files

open Step

variable {f f' g : Files} {above here : Path} {name s : String} {names : List String} {made : Bool}

theorem stays_of_makePath (h : makePath above names f = .ok (here, made) f') : f.Stays f' :=
  (stays_makePath above names).of_ok (.refl f) h

theorem isFile_of_makePath (h : makePath above names f = .ok (here, made) f')
    (file : f'.isFile here = false) : f.isFile above = false := by
  cases names
  case nil => cases h; exact file
  case cons name names =>
    obtain ⟨_, _, hm, _⟩ := bind_eq_ok.mp h
    cases making above name f
    case refused he => cases he.symm.trans hm
    case present fits _ _ | made fits _ _ => exact fits.above

-- Where directories have been made, nothing is left to be made.
theorem Stays.makePath_again (stays : f'.Stays g) (directory : f.isDirectory above = true)
    (h : makePath above names f = .ok (here, made) f') (file : f'.isFile here = false) :
    makePath above names g = .ok (here, false) g ∧ g.isFile here = false := by
  induction names generalizing above f made
  case nil =>
    cases h
    exact ⟨rfl, (stays _ directory file).right⟩
  case cons name names hi =>
    have above' := (stays_of_makePath h).trans stays above directory (isFile_of_makePath h file)
    obtain ⟨_, f₁, hm, h⟩ := bind_eq_ok.mp h
    obtain ⟨⟨_, _⟩, _, h, he⟩ := bind_eq_ok.mp h
    cases he
    have next := isFile_of_makePath h file
    obtain ⟨fits, made⟩ : f.Fits above name ∧ f₁.isDirectory (above.follow name) = true := by
      cases making above name f
      case refused he => cases he.symm.trans hm
      case present fits there he =>
        cases he.symm.trans hm
        exact ⟨fits, by simpa [next] using there⟩
      case made fits _ he =>
        cases he.symm.trans hm
        exact ⟨fits, by simp [isDirectory]⟩
    have there := (stays_of_makePath h).trans stays _ made next
    have again := makeUnder_of_fits ⟨fits.null, above'.right, fits.short⟩
    rw [there.left, Bool.or_true, if_pos rfl] at again
    obtain ⟨onward, free⟩ := hi made h
    exact ⟨(bind_ok again).trans (bind_ok onward), free⟩

theorem Stays.makeDirectory_again (stays : f'.Stays g) (h : makeDirectory s f = .ok ⟨⟩ f') :
    makeDirectory s g = .ok ⟨⟩ g := by
  have start : f.isDirectory (Path.start s) = true := by
    simp only [Path.start]
    split <;> simp [isDirectory]
  obtain ⟨⟨here, made⟩, f₁, hm, checked⟩ := bind_eq_ok.mp h
  by_cases file : f₁.isFile here
  case pos => simp [file] at checked
  case neg =>
    have same : f₁ = f' := by simpa [file] using checked
    subst same
    obtain ⟨again, free⟩ := stays.makePath_again start hm (by simpa using file)
    exact (bind_ok again).trans (by simp [free])

-- Makes the directory that a file is to be in.
def prepare (s : String) : Step Files Unit := do
  if directoryOf s ≠ "" then makeDirectory (directoryOf s)

-- The directory of a file can be made if it is not there, and the file can be opened in it.
def Opens (f : Files) (s : String) : Prop :=
  ∃ f', prepare s f = .ok ⟨⟩ f' ∧ f'.openable s = .ok (place s)

theorem Stays.prepare_again (stays : f'.Stays g) (h : prepare s f = .ok ⟨⟩ f') :
    prepare s g = .ok ⟨⟩ g := by
  unfold prepare at h ⊢
  split
  case isTrue there => exact stays.makeDirectory_again (by simpa [there] using h)
  case isFalse => rfl

theorem text?_prepare (s : String) : Keeps (fun g => g.text? = f.text?) (prepare s) := by
  unfold prepare
  split
  case isTrue => exact keeps_makeDirectory (fun _ _ _ same => same) _
  case isFalse => exact Keeps.pure _

-- A file that has been written to can be opened again.
theorem opens_setText (prepared : prepare s f = .ok ⟨⟩ f') (opened : f'.openable s = .ok (place s))
    (text : String) : (f'.setText (place s) text).Opens s := by
  obtain ⟨_, _, _, free, _⟩ := openable_eq_ok.mp opened
  have stays := stays_setText free text
  exact ⟨_, stays.prepare_again prepared, stays.openable opened free⟩

end CollectiveLabeling.Files
