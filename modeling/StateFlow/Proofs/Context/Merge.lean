import StateFlow.Context
import StateFlow.Proofs.Json.Size
import StateFlow.Proofs.Path.Write

/-!
# Merging into contexts

A merge fails when its path cannot be written through, and else when the document would become
larger than its bound. A merge that fails leaves no trace in the context, although the write may
have changed the copy it worked on. So a document stays as it was until something is written to it,
and is within its bound from then on.
-/

namespace StateFlow

/-- A value that is to be written; without a path it is dropped. -/
structure Merge where
  path : Option Path
  value : Json

namespace Context

/-- The context behind a merge, whether it succeeds or not. -/
def after (context : Context) (merge : Merge) : Context :=
  match context.merge merge.path merge.value with
  | .ok written => written
  | .error _ => context

/-- The context behind some merges. -/
def afterAll (context : Context) (merges : List Merge) : Context :=
  merges.foldl after context

/-- A merge writes when it has a path and succeeds. -/
def IsWrittenBy (context : Context) (merge : Merge) : Prop :=
  merge.path ≠ none ∧ ∃ written, context.merge merge.path merge.value = .ok written

/-- Some of these merges writes in its place. -/
def IsWrittenByAny : Context → List Merge → Prop
  | _, [] => False
  | context, merge :: rest =>
    context.IsWrittenBy merge ∨ (context.after merge).IsWrittenByAny rest

variable {context written : Context} {path : Path} {value updated : Json} {cause : PathError}

/-! ## The ways of one merge -/

theorem merge_of_path (h : path.set value context.document = .error cause) :
    context.merge path value = .error (.path cause) := by
  rw [merge, h]

theorem merge_of_large (h : path.set value context.document = .ok updated)
    (hlarge : context.maxBytes < updated.byteCount) :
    context.merge path value = .error (.tooLarge updated.byteCount context.maxBytes) := by
  rw [← updated.size_eq_byteCount] at hlarge ⊢
  rw [merge, h]
  exact if_pos hlarge

theorem merge_of_fits (h : path.set value context.document = .ok updated)
    (hfits : updated.byteCount ≤ context.maxBytes) :
    context.merge path value = .ok ⟨updated, context.maxBytes⟩ := by
  rw [← updated.size_eq_byteCount] at hfits
  rw [merge, h]
  exact if_neg (Nat.not_lt.mpr hfits)

/-- A merge goes in one of three ways. -/
theorem merge_cases (context : Context) (path : Path) (value : Json) :
    (∃ cause, path.set value context.document = .error cause) ∨
      (∃ updated, path.set value context.document = .ok updated ∧
        context.maxBytes < updated.byteCount) ∨
      ∃ updated, path.set value context.document = .ok updated ∧
        updated.byteCount ≤ context.maxBytes := by
  cases hset : path.set value context.document with
  | error cause => exact .inl ⟨cause, rfl⟩
  | ok updated =>
      cases Nat.lt_or_ge context.maxBytes updated.byteCount with
      | inl hlarge => exact .inr (.inl ⟨updated, rfl, hlarge⟩)
      | inr hfits => exact .inr (.inr ⟨updated, rfl, hfits⟩)

theorem merge_eq_path_iff :
    context.merge path value = .error (.path cause) ↔
      path.set value context.document = .error cause := by
  constructor
  · intro h
    obtain ⟨other, hset⟩ | ⟨updated, hset, hlarge⟩ | ⟨updated, hset, hfits⟩ :=
      context.merge_cases path value
    · cases (merge_of_path hset).symm.trans h
      exact hset
    · cases (merge_of_large hset hlarge).symm.trans h
    · cases (merge_of_fits hset hfits).symm.trans h
  · exact merge_of_path

theorem merge_eq_tooLarge_iff {size max : Nat} :
    context.merge path value = .error (.tooLarge size max) ↔
      ∃ updated, path.set value context.document = .ok updated ∧ size = updated.byteCount ∧
        max = context.maxBytes ∧ context.maxBytes < updated.byteCount := by
  constructor
  · intro h
    obtain ⟨other, hset⟩ | ⟨updated, hset, hlarge⟩ | ⟨updated, hset, hfits⟩ :=
      context.merge_cases path value
    · cases (merge_of_path hset).symm.trans h
    · cases (merge_of_large hset hlarge).symm.trans h
      exact ⟨updated, hset, rfl, rfl, hlarge⟩
    · cases (merge_of_fits hset hfits).symm.trans h
  · rintro ⟨updated, hset, rfl, rfl, hlarge⟩
    exact merge_of_large hset hlarge

theorem merge_eq_ok_iff :
    context.merge path value = .ok written ↔
      ∃ updated, path.set value context.document = .ok updated ∧
        updated.byteCount ≤ context.maxBytes ∧ written = ⟨updated, context.maxBytes⟩ := by
  constructor
  · intro h
    obtain ⟨other, hset⟩ | ⟨updated, hset, hlarge⟩ | ⟨updated, hset, hfits⟩ :=
      context.merge_cases path value
    · cases (merge_of_path hset).symm.trans h
    · cases (merge_of_large hset hlarge).symm.trans h
    · cases (merge_of_fits hset hfits).symm.trans h
      exact ⟨updated, hset, hfits, rfl⟩
  · rintro ⟨updated, hset, hfits, rfl⟩
    exact merge_of_fits hset hfits

/-- A write through a name that is missing to an item below it fails, but has put the name into the
copy it worked on. -/
theorem merge_below_missing {name : String} (i : Nat) (rest : List Segment) (value : Json)
    (h : Entries.find? name context.document.members = none) :
    let path : Path := ⟨.key name :: .index i :: rest⟩
    (context.document.write path.segments value).document ≠ context.document ∧
      context.merge path value = .error (.path (.indexOutOfRange path i)) := by
  intro path
  have hchild : context.document.child name = .null := by
    rw [Json.child, h]
    rfl
  have hwrite : context.document.write path.segments value =
      ⟨.object (Entries.insert name .null context.document.members), some i⟩ := by
    change (⟨.object (Entries.insert name ((context.document.child name).write _ value).document _),
      ((context.document.child name).write _ value).missing⟩ : Json.Written) = _
    rw [hchild]
    rfl
  constructor
  · intro hsame
    rw [hwrite] at hsame
    -- The copy has a member of this name.
    have hmember := Entries.find?_insert_self name Json.null context.document.members
    rw [← hsame] at h
    cases hmember.symm.trans h
  · apply merge_of_path
    rw [Path.set, hwrite]

/-! ## Sequences of merges -/

theorem after_of_error {merge : Merge} {e : MergeError}
    (h : context.merge merge.path merge.value = .error e) : context.after merge = context := by
  rw [after, h]

theorem after_of_ok {merge : Merge} (h : context.merge merge.path merge.value = .ok written) :
    context.after merge = written := by
  rw [after, h]

theorem afterAll_append (front back : List Merge) :
    context.afterAll (front ++ back) = (context.afterAll front).afterAll back :=
  List.foldl_append

/-- A merge that fails can be left out. -/
theorem afterAll_of_error {front back : List Merge} {merge : Merge} {e : MergeError}
    (h : (context.afterAll front).merge merge.path merge.value = .error e) :
    context.afterAll (front ++ merge :: back) = context.afterAll (front ++ back) := by
  calc context.afterAll (front ++ merge :: back)
      = ((context.afterAll front).after merge).afterAll back := afterAll_append front _
    _ = (context.afterAll front).afterAll back := by rw [after_of_error h]
    _ = context.afterAll (front ++ back) := (afterAll_append front back).symm

/-- A merge that writes leaves the document within its bound. -/
theorem byteCount_after {merge : Merge} (h : context.IsWrittenBy merge) :
    (context.after merge).document.byteCount ≤ context.maxBytes := by
  obtain ⟨path, value⟩ := merge
  obtain ⟨hpath, written, hmerge⟩ := h
  cases path with
  | none => exact absurd rfl hpath
  | some path =>
      obtain ⟨updated, -, hfits, rfl⟩ := merge_eq_ok_iff.mp hmerge
      rw [after_of_ok hmerge]
      exact hfits

/-- Any other merge leaves the context as it was. -/
theorem after_of_not_isWrittenBy {merge : Merge} (h : ¬ context.IsWrittenBy merge) :
    context.after merge = context := by
  obtain ⟨path, value⟩ := merge
  cases path with
  | none => rfl
  | some path =>
      cases hmerge : context.merge path value with
      | error e => exact after_of_error hmerge
      | ok written => exact absurd ⟨nofun, written, hmerge⟩ h

theorem maxBytes_of_merge {path : Option Path} (h : context.merge path value = .ok written) :
    written.maxBytes = context.maxBytes := by
  cases path with
  | none =>
      cases h
      rfl
  | some path =>
      obtain ⟨updated, -, -, rfl⟩ := merge_eq_ok_iff.mp h
      rfl

theorem maxBytes_after (context : Context) (merge : Merge) :
    (context.after merge).maxBytes = context.maxBytes := by
  cases hmerge : context.merge merge.path merge.value with
  | error e => rw [after_of_error hmerge]
  | ok written =>
      rw [after_of_ok hmerge]
      exact maxBytes_of_merge hmerge

theorem maxBytes_afterAll (context : Context) (merges : List Merge) :
    (context.afterAll merges).maxBytes = context.maxBytes := by
  induction merges generalizing context with
  | nil => rfl
  | cons merge merges ih => exact (ih (context.after merge)).trans (context.maxBytes_after merge)

/-- A document within its bound stays so. -/
theorem byteCount_afterAll_of_le (merges : List Merge)
    (h : context.document.byteCount ≤ context.maxBytes) :
    (context.afterAll merges).document.byteCount ≤ context.maxBytes := by
  induction merges generalizing context with
  | nil => exact h
  | cons merge merges ih =>
      have hbound := context.maxBytes_after merge
      rw [← hbound]
      apply ih
      rw [hbound]
      by_cases hwrites : context.IsWrittenBy merge
      · exact byteCount_after hwrites
      · rwa [after_of_not_isWrittenBy hwrites]

/-- A document that is written to is within its bound from then on. -/
theorem byteCount_afterAll {merges : List Merge} (h : context.IsWrittenByAny merges) :
    (context.afterAll merges).document.byteCount ≤ context.maxBytes := by
  induction merges generalizing context with
  | nil => exact h.elim
  | cons merge merges ih =>
      have hbound := context.maxBytes_after merge
      rw [← hbound]
      cases h with
      | inl hnow =>
          have hfits := byteCount_after hnow
          rw [← hbound] at hfits
          exact byteCount_afterAll_of_le merges hfits
      | inr hlater => exact ih hlater

/-- Until then it is as it was. -/
theorem afterAll_of_not_isWrittenByAny {merges : List Merge}
    (h : ¬ context.IsWrittenByAny merges) : context.afterAll merges = context := by
  induction merges generalizing context with
  | nil => rfl
  | cons merge merges ih =>
      obtain ⟨hnow, hlater⟩ := not_or.mp h
      exact (ih hlater).trans (after_of_not_isWrittenBy hnow)

end Context

end StateFlow
