import CollectiveLabeling.Step

namespace CollectiveLabeling

namespace Attempt

variable {ε α β γ : Type}

@[simp]
theorem ok_bind (a : α) (f : α → Except ε β) : (Except.ok a >>= f) = f a :=
  rfl

@[simp]
theorem error_bind (e : ε) (f : α → Except ε β) :
    ((Except.error e : Except ε α) >>= f) = .error e :=
  rfl

@[simp]
theorem map_ok (f : α → β) (a : α) : f <$> (Except.ok a : Except ε α) = .ok (f a) :=
  rfl

@[simp]
theorem map_error (f : α → β) (e : ε) : f <$> (Except.error e : Except ε α) = .error e :=
  rfl

@[simp]
theorem pure_eq (a : α) : (pure a : Except ε α) = .ok a :=
  rfl

theorem throw_eq (e : ε) : (throw e : Except ε α) = .error e :=
  rfl

theorem bind_eq_ok {x : Except ε α} {f : α → Except ε β} {b : β} :
    (x >>= f) = .ok b ↔ ∃ a, x = .ok a ∧ f a = .ok b := by
  cases x <;> simp

theorem bind_eq_error {x : Except ε α} {f : α → Except ε β} {e : ε} :
    (x >>= f) = .error e ↔ x = .error e ∨ ∃ a, x = .ok a ∧ f a = .error e := by
  cases x <;> simp

theorem map_eq_error {f : α → β} {x : Except ε α} {e : ε} : f <$> x = .error e ↔ x = .error e := by
  cases x <;> simp

-- Attempts that look alike from some angle end alike.
theorem alike_of_map_eq {x y : Except ε α} {f : α → β} (h : f <$> x = f <$> y) :
    (∃ a b, x = .ok a ∧ y = .ok b ∧ f a = f b) ∨ ∃ e, x = .error e ∧ y = .error e := by
  cases x <;> cases y <;> simp_all

theorem forM_eq_ok {f : α → Except ε Unit} {xs : List α} :
    xs.forM f = .ok () ↔ ∀ x ∈ xs, f x = .ok () := by
  induction xs
  case nil => simp
  case cons x xs hi => cases h : f x <;> simp_all

-- What fails at an element has succeeded at all before it.
theorem forM_eq_error {f : α → Except ε Unit} {xs : List α} {e : ε} : xs.forM f = .error e ↔
    ∃ seen x rest, xs = seen ++ x :: rest ∧ (∀ y ∈ seen, f y = .ok ()) ∧ f x = .error e := by
  constructor
  case mp =>
    intro h
    induction xs
    case nil => cases h
    case cons x xs hi =>
      obtain hx | ⟨⟨⟩, hx, h⟩ := bind_eq_error.mp (h : f x >>= (fun _ => xs.forM f) = .error e)
      case inl => exact ⟨[], x, xs, rfl, by simp, hx⟩
      case inr =>
        obtain ⟨seen, y, rest, rfl, fine, hy⟩ := hi h
        exact ⟨x :: seen, y, rest, rfl, List.forall_mem_cons.mpr ⟨hx, fine⟩, hy⟩
  case mpr =>
    rintro ⟨seen, x, rest, rfl, fine, hx⟩
    induction seen
    case nil => exact bind_eq_error.mpr (.inl hx)
    case cons y seen hi =>
      have ⟨first, fine⟩ := List.forall_mem_cons.mp fine
      exact bind_eq_error.mpr (.inr ⟨⟨⟩, first, hi fine⟩)

theorem forM_flatMap {f : β → Except ε Unit} {g : α → List β} {xs : List α} :
    (xs.flatMap g).forM f = xs.forM fun x => (g x).forM f := by
  induction xs
  case nil => rfl
  case cons x xs hi =>
    simp only [List.forM_eq_forM, List.flatMap_cons, List.forM_append, List.forM_cons] at hi ⊢
    rw [hi]

theorem foldlM_eq_error {f : β → α → Except ε β} {xs : List α} {b : β} {e : ε} :
    xs.foldlM f b = .error e ↔
      ∃ seen x rest c, xs = seen ++ x :: rest ∧ seen.foldlM f b = .ok c ∧ f c x = .error e := by
  constructor
  case mp =>
    intro h
    induction xs generalizing b
    case nil => cases h
    case cons x xs hi =>
      rw [List.foldlM_cons] at h
      obtain hx | ⟨c, hx, h⟩ := bind_eq_error.mp h
      case inl => exact ⟨[], x, xs, b, rfl, rfl, hx⟩
      case inr =>
        obtain ⟨seen, y, rest, d, rfl, hs, hy⟩ := hi h
        exact ⟨x :: seen, y, rest, d, rfl, by rw [List.foldlM_cons, hx, ok_bind, hs], hy⟩
  case mpr =>
    rintro ⟨seen, x, rest, c, rfl, hs, hx⟩
    rw [List.foldlM_append, hs, ok_bind, List.foldlM_cons, hx, error_bind]

theorem exists_map_eq_ok {f : α → β} {x : Except ε α} (h : ∃ a, x = .ok a) : ∃ b, f <$> x = .ok b := by
  obtain ⟨a, rfl⟩ := h
  exact ⟨f a, rfl⟩

theorem exists_bind_eq_ok {P : α → Prop} {Q : β → Prop} {x : Except ε α} {f : α → Except ε β}
    (hx : ∃ a, x = .ok a ∧ P a) (hf : ∀ a, P a → ∃ b, f a = .ok b ∧ Q b) :
    ∃ b, x >>= f = .ok b ∧ Q b := by
  obtain ⟨a, rfl, ha⟩ := hx
  exact hf a ha

theorem exists_mapM_eq_ok_and {P : β → Prop} {f : α → Except ε β} {xs : List α}
    (h : ∀ x ∈ xs, ∃ y, f x = .ok y ∧ P y) : ∃ ys, xs.mapM f = .ok ys ∧ ∀ y ∈ ys, P y := by
  induction xs
  case nil => exact ⟨[], rfl, by simp⟩
  case cons x xs hi =>
    have ⟨y, hy, py⟩ := h x (by simp)
    have ⟨ys, hys, pys⟩ := hi fun x hx => h x (by simp [hx])
    exact ⟨y :: ys, by simp [List.mapM_cons, hy, hys], List.forall_mem_cons.mpr ⟨py, pys⟩⟩

theorem exists_mapM_eq_ok {f : α → Except ε β} {xs : List α} (h : ∀ x ∈ xs, ∃ y, f x = .ok y) :
    ∃ ys, xs.mapM f = .ok ys :=
  have ⟨ys, hys, _⟩ := exists_mapM_eq_ok_and (P := fun _ => True) fun x hx =>
    have ⟨y, hy⟩ := h x hx
    ⟨y, hy, trivial⟩
  ⟨ys, hys⟩

theorem exists_mapM_eq_ok_map {f : α → Except ε β} {g : β → γ} {k : α → γ} {xs : List α}
    (h : ∀ x ∈ xs, ∃ y, f x = .ok y ∧ g y = k x) : ∃ ys, xs.mapM f = .ok ys ∧ ys.map g = xs.map k := by
  induction xs
  case nil => exact ⟨[], rfl, rfl⟩
  case cons x xs hi =>
    have ⟨y, hy, gy⟩ := h x (by simp)
    have ⟨ys, hys, gys⟩ := hi fun x hx => h x (by simp [hx])
    exact ⟨y :: ys, by simp [List.mapM_cons, hy, hys], by simp [gy, gys]⟩

theorem mapM_eq_ok {f : α → Except ε β} {g : α → β} {xs : List α}
    (h : ∀ x ∈ xs, f x = .ok (g x)) : xs.mapM f = .ok (xs.map g) := by
  induction xs
  case nil => rfl
  case cons x xs hi =>
    rw [List.mapM_cons, h x (by simp), hi fun x hx => h x (by simp [hx])]
    rfl

theorem exists_of_mapM_eq_error {f : α → Except ε β} {xs : List α} {e : ε}
    (hm : xs.mapM f = .error e) : ∃ x ∈ xs, f x = .error e := by
  induction xs
  case nil => cases hm
  case cons x xs hi =>
    rw [List.mapM_cons] at hm
    obtain hx | ⟨_, _, hm⟩ := bind_eq_error.mp hm
    case inl => exact ⟨x, by simp, hx⟩
    case inr =>
      obtain hm | ⟨_, _, hm⟩ := bind_eq_error.mp hm
      case inr => cases hm
      case inl =>
        have ⟨y, hy, he⟩ := hi hm
        exact ⟨y, by simp [hy], he⟩

-- Where all failures are alike, it does not matter which comes first.
theorem mapM_eq_error {f : α → Except ε β} {xs : List α} {e : ε} (fails : ∃ x ∈ xs, f x = .error e)
    (alike : ∀ x ∈ xs, ∀ e', f x = .error e' → e' = e) : xs.mapM f = .error e := by
  induction xs
  case nil => simp at fails
  case cons x xs hi =>
    rw [List.mapM_cons]
    cases hx : f x
    case error e' =>
      rw [alike x (by simp) e' hx]
      rfl
    case ok y =>
      have later : ∃ x ∈ xs, f x = .error e := by simpa [hx] using fails
      rw [hi later fun x hm => alike x (by simp [hm])]
      rfl

theorem forall_of_mapM_eq_ok {P : β → Prop} {f : α → Except ε β} {xs : List α} {ys : List β}
    (h : ∀ x y, f x = .ok y → P y) (hm : xs.mapM f = .ok ys) : ∀ y ∈ ys, P y := by
  induction xs generalizing ys
  case nil => cases hm; simp
  case cons x xs hi =>
    rw [List.mapM_cons] at hm
    have ⟨y, hy, hm⟩ := bind_eq_ok.mp hm
    have ⟨ys', hys, he⟩ := bind_eq_ok.mp hm
    cases he
    exact List.forall_mem_cons.mpr ⟨h x y hy, hi hys⟩

end Attempt

namespace Step

variable {σ τ α β γ : Type}

section Apply

@[simp]
theorem bind_apply (x : Step σ α) (f : α → Step σ β) (s : σ) :
    (x >>= f) s = match x s with
      | .ok a t => f a t
      | .error e t => .error e t := by
  simp only [bind, EStateM.bind]
  cases x s <;> rfl

@[simp]
theorem map_apply (f : α → β) (x : Step σ α) (s : σ) :
    (f <$> x) s = match x s with
      | .ok a t => .ok (f a) t
      | .error e t => .error e t := by
  simp only [Functor.map, EStateM.map]
  cases x s <;> rfl

@[simp]
theorem pure_apply (a : α) (s : σ) : (pure a : Step σ α) s = .ok a s :=
  rfl

@[simp]
theorem get_apply (s : σ) : (get : Step σ σ) s = .ok s s :=
  rfl

@[simp]
theorem set_apply (s t : σ) : (set t : Step σ PUnit) s = .ok ⟨⟩ t :=
  rfl

@[simp]
theorem modify_apply (f : σ → σ) (s : σ) : (modify f : Step σ PUnit) s = .ok ⟨⟩ (f s) :=
  rfl

@[simp]
theorem throw_apply (e : Fault) (s : σ) : (throw e : Step σ α) s = .error e s :=
  rfl

theorem bind_ok {x : Step σ α} {f : α → Step σ β} {s t : σ} {a : α} (h : x s = .ok a t) :
    (x >>= f) s = f a t := by
  simp [h]

theorem bind_error {x : Step σ α} {f : α → Step σ β} {s t : σ} {e : Fault}
    (h : x s = .error e t) : (x >>= f) s = .error e t := by
  simp [h]

theorem bind_eq_ok {x : Step σ α} {f : α → Step σ β} {s u : σ} {b : β} :
    (x >>= f) s = .ok b u ↔ ∃ a t, x s = .ok a t ∧ f a t = .ok b u := by
  rw [bind_apply]
  cases x s <;> simp only [EStateM.Result.ok.injEq, reduceCtorEq, false_and, exists_false]
  case ok a t => exact ⟨fun h => ⟨a, t, ⟨rfl, rfl⟩, h⟩, fun ⟨_, _, ⟨rfl, rfl⟩, h⟩ => h⟩

theorem forM_append_eq_ok {f : α → Step σ PUnit} {xs ys : List α} {s u : σ} :
    (xs ++ ys).forM f s = .ok ⟨⟩ u ↔ ∃ t, xs.forM f s = .ok ⟨⟩ t ∧ ys.forM f t = .ok ⟨⟩ u := by
  simp only [List.forM_eq_forM, List.forM_append]
  rw [bind_eq_ok]
  exact ⟨fun ⟨_, t, h⟩ => ⟨t, h⟩, fun ⟨t, h⟩ => ⟨⟨⟩, t, h⟩⟩

theorem forM_singleton_eq_ok {f : α → Step σ PUnit} {x : α} {s u : σ} :
    [x].forM f s = .ok ⟨⟩ u ↔ f x s = .ok ⟨⟩ u := by
  simp only [List.forM_eq_forM, List.forM_cons, List.forM_nil, bind_apply]
  cases f x s <;> simp

theorem exists_mapM_eq_ok_map {f : α → Step σ β} {g : β → γ} {k : α → γ} {xs : List α}
    (h : ∀ x ∈ xs, ∀ s, ∃ y t, f x s = .ok y t ∧ g y = k x) (s : σ) :
    ∃ ys t, xs.mapM f s = .ok ys t ∧ ys.map g = xs.map k := by
  induction xs generalizing s
  case nil => exact ⟨[], s, rfl, rfl⟩
  case cons x xs hi =>
    have ⟨y, t, hy, gy⟩ := h x (by simp) s
    have ⟨ys, u, hys, gys⟩ := hi (fun x hx => h x (by simp [hx])) t
    exact ⟨y :: ys, u, by simp [List.mapM_cons, hy, hys], by simp [gy, gys]⟩

theorem lift_eq_ok {x : Except Fault α} {s t : σ} {a : α} :
    lift x s = .ok a t ↔ x = .ok a ∧ s = t := by
  cases x <;> simp [lift]

theorem within_ok {part : σ → τ} {withPart : τ → σ → σ} {x : Step τ α} {s : σ} {a : α} {t : τ}
    (h : x (part s) = .ok a t) : within part withPart x s = .ok a (withPart t s) := by
  simp [within, h]

theorem within_error {part : σ → τ} {withPart : τ → σ → σ} {x : Step τ α} {s : σ} {e : Fault}
    {t : τ} (h : x (part s) = .error e t) :
    within part withPart x s = .error e (withPart t s) := by
  simp [within, h]

theorem outcome_ensuring (x : Step σ α) (second : Step σ Unit) (s : σ) :
    ((ensuring x second).outcome s).2 = (second.outcome (x.outcome s).2).2 := by
  simp only [outcome, ensuring]
  cases x s <;> simp only [bind_apply] <;> cases second _ <;> rfl

theorem ensuring_error {x : Step σ α} {s t : σ} {e : Fault} (h : x s = .error e t)
    (second : Step σ Unit) : ∃ e' u, ensuring x second s = .error e' u := by
  simp only [ensuring, h, bind_apply]
  cases second t <;> exact ⟨_, _, rfl⟩

theorem outcome_ok {x : Step σ α} {s t : σ} {a : α} : x.outcome s = (.ok a, t) ↔ x s = .ok a t := by
  simp only [outcome]
  cases x s <;> simp

theorem outcome_error {x : Step σ α} {s t : σ} {e : Fault} :
    x.outcome s = (.error e, t) ↔ x s = .error e t := by
  simp only [outcome]
  cases x s <;> simp

end Apply

-- A step keeps a property if it leaves no state without it, however the step ends.
def Keeps (I : σ → Prop) (x : Step σ α) : Prop :=
  ∀ s, I s → I (x.outcome s).2

namespace Keeps

variable {I : σ → Prop}

theorem of_ok {x : Step σ α} {s t : σ} {a : α} (h : Keeps I x) (hs : I s) (hx : x s = .ok a t) :
    I t := by
  simpa [outcome, hx] using h s hs

theorem of_error {x : Step σ α} {s t : σ} {e : Fault} (h : Keeps I x) (hs : I s)
    (hx : x s = .error e t) : I t := by
  simpa [outcome, hx] using h s hs

theorem pure (a : α) : Keeps I (Pure.pure a) :=
  fun _ h => h

theorem throw (e : Fault) : Keeps I (MonadExcept.throw e : Step σ α) :=
  fun _ h => h

theorem lift (x : Except Fault α) : Keeps I (Step.lift x) := by
  intro s h
  cases x <;> exact h

theorem modify {f : σ → σ} (h : ∀ s, I s → I (f s)) : Keeps I (modify f) :=
  h

theorem bind {x : Step σ α} {f : α → Step σ β} (hx : Keeps I x) (hf : ∀ a, Keeps I (f a)) :
    Keeps I (x >>= f) := by
  intro s h
  have ht := hx s h
  simp only [outcome, bind_apply] at ht ⊢
  cases hr : x s <;> simp only [hr] at ht ⊢
  case ok a t => exact hf a t ht
  case error => exact ht

theorem forM {f : α → Step σ PUnit} {xs : List α} (h : ∀ a ∈ xs, Keeps I (f a)) :
    Keeps I (xs.forM f) := by
  induction xs
  case nil => exact Keeps.pure _
  case cons a xs hi =>
    have ha := h a (by simp)
    exact ha.bind fun _ => hi fun b hb => h b (by simp [hb])

theorem mapM {f : α → Step σ β} {xs : List α} (h : ∀ a ∈ xs, Keeps I (f a)) :
    Keeps I (xs.mapM f) := by
  induction xs
  case nil => exact Keeps.pure _
  case cons a xs hi =>
    rw [List.mapM_cons]
    refine (h a (by simp)).bind fun b => ?_
    refine (hi fun b hb => h b (by simp [hb])).bind fun bs => ?_
    exact Keeps.pure _

-- A step on a part keeps what holds of that part, and whatever does not depend on it.
theorem within {J : τ → Prop} {part : σ → τ} {withPart : τ → σ → σ} {x : Step τ α}
    (part_withPart : ∀ t s, part (withPart t s) = t) (hx : Keeps J x) :
    Keeps (fun s => J (part s)) (Step.within part withPart x) := by
  intro s h
  have ht := hx (part s) h
  simp only [outcome, Step.within] at ht ⊢
  cases hr : x (part s) <;> simpa only [hr, part_withPart] using ht

theorem within_other {part : σ → τ} {withPart : τ → σ → σ} {x : Step τ α}
    (other : ∀ t s, I s → I (withPart t s)) : Keeps I (Step.within part withPart x) := by
  intro s h
  simp only [outcome, Step.within]
  cases x (part s) <;> exact other _ s h

theorem ensuring {x : Step σ α} {second : Step σ Unit} (hx : Keeps I x) (hs : Keeps I second) :
    Keeps I (Step.ensuring x second) := by
  intro s h
  have ht := hx s h
  simp only [outcome, Step.ensuring] at ht ⊢
  cases hr : x s <;> simp only [hr] at ht ⊢
  case ok a t => exact (hs.bind fun _ => Keeps.pure a) t ht
  case error e t => exact (hs.bind fun _ => Keeps.throw e) t ht

end Keeps

-- What holds of every result of a step.
def Yields (P : α → Prop) (x : Step σ α) : Prop :=
  ∀ s a t, x s = .ok a t → P a

namespace Yields

variable {P : β → Prop}

theorem bind {x : Step σ α} {f : α → Step σ β} (h : ∀ a, Yields P (f a)) : Yields P (x >>= f) := by
  intro s b u hb
  have ⟨a, t, _, hb⟩ := bind_eq_ok.mp hb
  exact h a t b u hb

theorem lift_bind {x : Except Fault α} {f : α → Step σ β} (h : ∀ a, x = .ok a → Yields P (f a)) :
    Yields P (Step.lift x >>= f) := by
  cases x
  case error e => exact fun _ _ _ h => nomatch h
  case ok a => exact h a rfl

end Yields

-- The faults that a step can end in.
def Faults (P : Fault → Prop) (x : Step σ α) : Prop :=
  ∀ s e t, x s = .error e t → P e

namespace Faults

variable {P : Fault → Prop}

theorem pure (a : α) : Faults P (Pure.pure a : Step σ α) :=
  fun _ _ _ h => nomatch h

theorem throw {e : Fault} (h : P e) : Faults P (MonadExcept.throw e : Step σ α) := by
  intro _ _ _ ht
  cases ht
  exact h

theorem bind {x : Step σ α} {f : α → Step σ β} (hx : Faults P x) (hf : ∀ a, Faults P (f a)) :
    Faults P (x >>= f) := by
  intro s e t h
  rw [bind_apply] at h
  cases hr : x s <;> simp only [hr] at h
  case ok a t' => exact hf a t' e t h
  case error => cases h; exact hx s _ _ hr

theorem lift_bind {x : Except Fault α} {f : α → Step σ β} (hx : ∀ e, x = .error e → P e)
    (hf : ∀ a, x = .ok a → Faults P (f a)) : Faults P (Step.lift x >>= f) := by
  cases x
  case error e => exact fun _ _ _ h => by cases h; exact hx e rfl
  case ok a => exact hf a rfl

theorem lift {x : Except Fault α} (h : ∀ e, x = .error e → P e) : Faults P (Step.lift x : Step σ α) := by
  cases x
  case error e => exact Faults.throw (h e rfl)
  case ok a => exact Faults.pure a

theorem forM {f : α → Step σ PUnit} {xs : List α} (h : ∀ a ∈ xs, Faults P (f a)) :
    Faults P (xs.forM f) := by
  induction xs
  case nil => exact Faults.pure _
  case cons a xs hi =>
    have ha := h a (by simp)
    exact ha.bind fun _ => hi fun b hb => h b (by simp [hb])

theorem mapM {f : α → Step σ β} {xs : List α} (h : ∀ a ∈ xs, Faults P (f a)) :
    Faults P (xs.mapM f) := by
  induction xs
  case nil => exact Faults.pure _
  case cons a xs hi =>
    rw [List.mapM_cons]
    refine (h a (by simp)).bind fun b => ?_
    refine (hi fun b hb => h b (by simp [hb])).bind fun bs => ?_
    exact Faults.pure _

end Faults

-- Two steps go together under a relation of their states if they end alike and leave related
-- states behind.
def Together (R : σ → τ → Prop) (x : Step σ α) (y : Step τ α) : Prop :=
  ∀ s t, R s t → (x.outcome s).1 = (y.outcome t).1 ∧ R (x.outcome s).2 (y.outcome t).2

namespace Together

variable {R : σ → τ → Prop}

theorem pure (a : α) : Together R (Pure.pure a) (Pure.pure a) :=
  fun _ _ h => ⟨rfl, h⟩

-- Steps that go together both get through, or both fail.
theorem ends {x : Step σ α} {y : Step τ α} (h : Together R x y) {s : σ} {t : τ} (hr : R s t) :
    (∃ a s' t', x s = .ok a s' ∧ y t = .ok a t' ∧ R s' t') ∨
      ∃ e s' t', x s = .error e s' ∧ y t = .error e t' ∧ R s' t' := by
  have ⟨he, hr⟩ := h s t hr
  simp only [outcome] at he hr
  cases hs : x s <;> cases ht : y t <;> simp only [hs, ht] at he hr
  case ok.ok a s' b t' =>
    cases he
    exact .inl ⟨a, s', t', rfl, rfl, hr⟩
  case error.error e s' f t' =>
    cases he
    exact .inr ⟨e, s', t', rfl, rfl, hr⟩
  all_goals cases he

theorem bind {x : Step σ α} {y : Step τ α} {f : α → Step σ β} {g : α → Step τ β}
    (hx : Together R x y) (hf : ∀ a, Together R (f a) (g a)) :
    Together R (x >>= f) (y >>= g) := by
  intro s t h
  simp only [outcome, bind_apply]
  obtain ⟨a, s', t', hs, ht, hr⟩ | ⟨e, s', t', hs, ht, hr⟩ := hx.ends h
  case inl =>
    rw [hs, ht]
    exact hf a s' t' hr
  case inr =>
    rw [hs, ht]
    exact ⟨rfl, hr⟩

theorem forM {f : α → Step σ PUnit} {g : α → Step τ PUnit} {xs : List α}
    (h : ∀ a ∈ xs, Together R (f a) (g a)) : Together R (xs.forM f) (xs.forM g) := by
  induction xs
  case nil => exact Together.pure _
  case cons a xs hi =>
    have ha := h a (by simp)
    exact ha.bind fun _ => hi fun b hb => h b (by simp [hb])

end Together
end Step
end CollectiveLabeling
