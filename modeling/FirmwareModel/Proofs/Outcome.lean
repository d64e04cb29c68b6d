import Mathlib.Data.List.Forall2

/-!
# Outcomes

When a computation that can fail succeeds, so do its parts. When it fails, the first part that
fails tells why: a computation of several parts has a list of possible causes, in the order of the
parts, and it fails by the first of them that holds.
-/

namespace FirmwareModel

variable {ε ε' α β : Type}

/-- After a success, what follows goes on with the result. -/
theorem ok_bind (a : α) (f : α → Except ε β) : (Except.ok a >>= f) = f a := rfl

/-- A sequence of two computations succeeds exactly when both succeed. -/
theorem bind_eq_ok_iff {x : Except ε α} {f : α → Except ε β} {b : β} :
    x >>= f = .ok b ↔ ∃ a, x = .ok a ∧ f a = .ok b := by
  cases x with
  | error fault => simp [bind, Except.bind]
  | ok a => simp [bind, Except.bind]

/-- A sequence of two computations fails when the first one does, or the second one after it. -/
theorem bind_eq_error_iff {x : Except ε α} {f : α → Except ε β} {fault : ε} :
    x >>= f = .error fault ↔ x = .error fault ∨ ∃ a, x = .ok a ∧ f a = .error fault := by
  cases x with
  | error cause => simp [bind, Except.bind]
  | ok a => simp [bind, Except.bind]

/-- Rewording faults keeps successes as they are. -/
theorem mapError_eq_ok_iff {x : Except ε α} {f : ε → ε'} {a : α} :
    x.mapError f = .ok a ↔ x = .ok a := by
  cases x <;> simp [Except.mapError]

/-- Where faults are reworded, a fault is the new wording of one that was there before. -/
theorem mapError_eq_error_iff {x : Except ε α} {f : ε → ε'} {fault : ε'} :
    x.mapError f = .error fault ↔ ∃ cause, x = .error cause ∧ f cause = fault := by
  cases x <;> simp [Except.mapError]

/-- What has been computed to hold of a result holds of the result of a success. -/
theorem exists_ok_of {x : Except ε α} {p : α → Prop} [DecidablePred p]
    (h : x.toOption.any (fun a => p a) = true) : ∃ a, x = .ok a ∧ p a := by
  cases x with
  | error fault => cases h
  | ok a => exact ⟨a, rfl, of_decide_eq_true h⟩

/-- The fault can be forgotten before or after the result is changed. -/
theorem toOption_map {f : α → β} {x : Except ε α} :
    (x.map f).toOption = x.toOption.map f := by
  cases x <;> rfl

/-- Changing the result keeps faults as they are. -/
theorem map_eq_error_iff {x : Except ε α} {f : α → β} {fault : ε} :
    x.map f = .error fault ↔ x = .error fault := by
  cases x <;> simp [Except.map]

/-- A result that is returned is the result. -/
theorem pure_eq_ok_iff {a b : α} : (pure a : Except ε α) = .ok b ↔ a = b := by
  simp [pure, Except.pure]

/-- A computation along a list gives, for each item, the result of the computation there. -/
theorem forall₂_of_mapM_eq_ok {f : α → Except ε β} {items : List α} {results : List β}
    (h : items.mapM f = .ok results) : List.Forall₂ (fun a b => f a = .ok b) items results := by
  induction items generalizing results with
  | nil =>
    obtain rfl : [] = results := by simpa [pure_eq_ok_iff] using h
    exact .nil
  | cons item items ih =>
    rw [List.mapM_cons, bind_eq_ok_iff] at h
    obtain ⟨result, hresult, hrest⟩ := h
    obtain ⟨others, hothers, hcons⟩ := bind_eq_ok_iff.mp hrest
    obtain rfl := pure_eq_ok_iff.mp hcons
    exact .cons hresult (ih hothers)

/-! ## Failures -/

/-- The fault has a cause that holds, and none of the causes before it does. -/
def FirstCause (causes : List (ε → Prop)) (fault : ε) : Prop :=
  ∃ before cause after, causes = before ++ cause :: after ∧ cause fault ∧
    ∀ other ∈ before, ∀ fault, ¬ other fault

/-- A computation fails exactly if one of the causes holds, and then by the first that does. -/
structure FailsBy (x : Except ε α) (causes : List (ε → Prop)) : Prop where
  first : ∀ fault, x = .error fault → FirstCause causes fault
  fails : ∀ cause ∈ causes, ∀ fault, cause fault → ∃ fault, x = .error fault

namespace FailsBy

variable {causes further : List (ε → Prop)} {cause : ε → Prop}

/-- What cannot fail needs no cause. -/
theorem ok (a : α) : FailsBy (.ok a : Except ε α) [] where
  first := by simp
  fails := by simp

/-- A computation fails by a cause that all its faults have and that always makes it fail. -/
theorem single {x : Except ε α} (hfirst : ∀ fault, x = .error fault → cause fault)
    (hfails : ∀ fault, cause fault → ∃ fault, x = .error fault) : FailsBy x [cause] where
  first := fun fault hfault => ⟨[], cause, [], rfl, hfirst fault hfault, by simp⟩
  fails := by simpa using hfails

/-- A failure by the first cause needs no other. -/
theorem error {fault : ε} (hcause : cause fault) :
    FailsBy (.error fault : Except ε α) (cause :: further) where
  first := by
    intro fault' hfault
    obtain rfl := Except.error.inj hfault
    exact ⟨[], cause, further, rfl, hcause, by simp⟩
  fails := fun _ _ _ _ => ⟨fault, rfl⟩

/-- The cause of a failure with one possible cause. -/
theorem of_single {x : Except ε α} (h : FailsBy x [cause]) {fault : ε} (hx : x = .error fault) :
    cause fault := by
  obtain ⟨before, other, after, hcauses, hother, -⟩ := h.first fault hx
  obtain rfl : other = cause := by
    have hmem : other ∈ [cause] := by simp [hcauses]
    simpa using hmem
  exact hother

/-- A computation fails when one of its causes is there. -/
theorem exists_error_iff {x : Except ε α} (h : FailsBy x causes) :
    (∃ fault, x = .error fault) ↔ ∃ cause ∈ causes, ∃ fault, cause fault := by
  constructor
  · rintro ⟨fault, hfault⟩
    obtain ⟨before, cause, after, rfl, hcause, -⟩ := h.first fault hfault
    exact ⟨cause, by simp, fault, hcause⟩
  · rintro ⟨cause, hmem, fault, hcause⟩
    exact h.fails cause hmem fault hcause

/-- When a computation succeeds, none of its causes holds. -/
theorem not_of_ok {x : Except ε α} (h : FailsBy x causes) {a : α} (hx : x = .ok a) :
    ∀ cause ∈ causes, ∀ fault, ¬ cause fault := by
  intro cause hmem fault hcause
  obtain ⟨fault', hfault⟩ := h.fails cause hmem fault hcause
  cases hx.symm.trans hfault

/-- Where a computation succeeds, its one cause is not there. -/
theorem not_of_single {x : Except ε α} (h : FailsBy x [cause]) {a : α} (hx : x = .ok a) :
    ∀ fault, ¬ cause fault :=
  h.not_of_ok hx cause (List.mem_singleton_self cause)

/-- What succeeds fails by a cause that never holds. -/
theorem ok_of_not {a : α} (hcause : ∀ fault, ¬ cause fault) :
    FailsBy (.ok a : Except ε α) [cause] :=
  single (by simp) fun fault hfault => absurd hfault (hcause fault)

/-- A sequence of two computations fails by the causes of the first one, then by those of the
second one. -/
theorem bind {x : Except ε α} {f : α → Except ε β} (hx : FailsBy x causes)
    (hf : ∀ a, x = .ok a → FailsBy (f a) further) : FailsBy (x >>= f) (causes ++ further) := by
  cases x with
  | error fault =>
    refine ⟨fun fault' hfault => ?_, fun _ _ _ _ => ⟨fault, rfl⟩⟩
    obtain ⟨before, cause, after, rfl, hcause, hbefore⟩ :=
      hx.first fault' (by simpa [Bind.bind, Except.bind] using hfault)
    exact ⟨before, cause, after ++ further, by simp, hcause, hbefore⟩
  | ok a =>
    have hnone := hx.not_of_ok rfl
    have hrest := hf a rfl
    constructor
    · intro fault hfault
      obtain ⟨before, cause, after, rfl, hcause, hbefore⟩ := hrest.first fault hfault
      refine ⟨causes ++ before, cause, after, by simp, hcause, fun other hother => ?_⟩
      rcases List.mem_append.mp hother with hother | hother
      · exact hnone other hother
      · exact hbefore other hother
    · intro cause hmem fault hcause
      rcases List.mem_append.mp hmem with hmem | hmem
      · exact absurd hcause (hnone cause hmem fault)
      · exact hrest.fails cause hmem fault hcause

/-- A cause that never holds changes nothing. -/
theorem cons {x : Except ε α} (h : FailsBy x causes) (hcause : ∀ fault, ¬ cause fault) :
    FailsBy x (cause :: causes) :=
  bind (x := .ok ()) (ok_of_not hcause) fun _ _ => h

/-- What cannot fail adds no cause to what comes before it. -/
theorem bind_ok {x : Except ε α} {f : α → Except ε β} (hx : FailsBy x causes)
    (hf : ∀ a, ∃ b, f a = .ok b) : FailsBy (x >>= f) causes := by
  have hrest : ∀ a, x = .ok a → FailsBy (f a) [] := by
    intro a _
    obtain ⟨b, hb⟩ := hf a
    exact hb ▸ ok b
  simpa using hx.bind hrest

/-- Two causes of one failure can be taken together. -/
theorem merge {x : Except ε α} {other : ε → Prop} (h : FailsBy x ([cause] ++ [other])) :
    FailsBy x [fun fault => cause fault ∨ other fault] := by
  refine single (fun fault hfault => ?_) (fun fault hcause => ?_)
  · obtain ⟨before, found, after, hcauses, hfound, -⟩ := h.first fault hfault
    have hmem : found ∈ [cause] ++ [other] := by simp [hcauses]
    rcases List.mem_append.mp hmem with hmem | hmem
    · obtain rfl := List.mem_singleton.mp hmem
      exact Or.inl hfound
    · obtain rfl := List.mem_singleton.mp hmem
      exact Or.inr hfound
  · rcases hcause with hcause | hcause
    · exact h.fails cause (by simp) fault hcause
    · exact h.fails other (by simp) fault hcause

/-- With reworded faults, a computation fails by the same cause, reworded. -/
theorem mapError {x : Except ε α} (h : FailsBy x [cause]) (f : ε → ε') :
    FailsBy (x.mapError f) [fun fault => ∃ e, cause e ∧ f e = fault] := by
  refine single (fun fault hfault => ?_) ?_
  · obtain ⟨e, he, heq⟩ := mapError_eq_error_iff.mp hfault
    exact ⟨e, h.of_single he, heq⟩
  · rintro _ ⟨e, he, -⟩
    obtain ⟨e', he'⟩ := h.fails cause (by simp) e he
    exact ⟨f e', mapError_eq_error_iff.mpr ⟨e', he', rfl⟩⟩

/-- A computation along a list fails by a cause of one of the items. -/
theorem mapM {f : α → Except ε β} {cause : α → ε → Prop} (hf : ∀ a, FailsBy (f a) [cause a])
    (items : List α) : FailsBy (items.mapM f) [fun fault => ∃ a ∈ items, cause a fault] := by
  induction items with
  | nil => exact ok_of_not (by simp)
  | cons item items ih =>
    rw [List.mapM_cons]
    simp only [List.exists_mem_cons_iff]
    exact ((hf item).bind fun b _ => ih.bind_ok fun bs => ⟨b :: bs, rfl⟩).merge

/-- A computation along a list whose steps fail by causes of their items, whatever came before,
fails by a cause of one of the items. -/
theorem foldlM {f : β → α → Except ε β} {cause : α → ε → Prop}
    (hf : ∀ b a, FailsBy (f b a) [cause a]) (items : List α) (start : β) :
    FailsBy (items.foldlM f start) [fun fault => ∃ a ∈ items, cause a fault] := by
  induction items generalizing start with
  | nil => exact ok_of_not (by simp)
  | cons item items ih =>
    rw [List.foldlM_cons]
    simp only [List.exists_mem_cons_iff]
    exact ((hf start item).bind fun b _ => ih b).merge

end FailsBy

end FirmwareModel
