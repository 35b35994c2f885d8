import Mathlib.Data.List.Forall2
import StateFlow.Json.Decode

/-!
# Successful decoding

What is known when a decoder has succeeded, step by step, and the two ways in which a decoder is run
over a list: item by item, and member by member. Whatever else is run over a list, up to the first
failure, succeeds in the same way: exactly if it does on each item (`run_eq_ok_iff`).
-/

namespace StateFlow.Source

variable {α β : Type}

namespace Decoded

variable {ε : Type}

theorem bind_eq_ok {x : Except ε α} {f : α → Except ε β} {result : β} :
    x >>= f = .ok result ↔ ∃ value, x = .ok value ∧ f value = .ok result := by
  cases x <;> simp [bind, Except.bind]

theorem exists_error_iff {x : Except ε α} :
    (∃ e, x = .error e) ↔ ¬ ∃ value, x = .ok value := by
  cases x <;> simp

theorem bind_eq_error {x : Except ε α} {f : α → Except ε β} {e : ε} :
    x >>= f = .error e ↔ x = .error e ∨ ∃ value, x = .ok value ∧ f value = .error e := by
  cases x <;> simp [bind, Except.bind]

theorem map_eq_error {x : Except ε α} {f : α → β} {e : ε} :
    x.map f = .error e ↔ x = .error e := by
  cases x <;> simp [Except.map]

theorem map_eq_ok {x : Except ε α} {f : α → β} {result : β} :
    x.map f = .ok result ↔ ∃ value, x = .ok value ∧ f value = result := by
  cases x <;> simp [Except.map]

/-- What breaks off gives no result. -/
theorem whole_eq_ok {whole : Bool} {value result : α} :
    (if whole = true then pure value else .error .malformed : Decoded α) = .ok result ↔
      whole = true ∧ value = result := by
  cases whole <;> simp [pure, Except.pure]

/-- What is run over a list, up to the first failure, succeeds if it does so on each item. -/
theorem run_eq_ok_iff {step : α → Except ε β} (run : List α → Except ε (List β))
    (hnil : run [] = .ok [])
    (hcons : ∀ item rest, run (item :: rest) =
      step item >>= fun first => run rest >>= fun others => .ok (first :: others))
    {items : List α} {results : List β} :
    run items = .ok results ↔
      List.Forall₂ (fun item result => step item = .ok result) items results := by
  induction items generalizing results with
  | nil => rw [hnil, List.forall₂_nil_left_iff, Except.ok.injEq, eq_comm]
  | cons item rest ih =>
      rw [hcons, bind_eq_ok, List.forall₂_cons_left_iff]
      constructor
      · rintro ⟨first, hfirst, h⟩
        obtain ⟨others, hothers, h⟩ := bind_eq_ok.mp h
        cases h
        exact ⟨first, others, hfirst, ih.mp hothers, rfl⟩
      · rintro ⟨first, others, hfirst, hothers, rfl⟩
        exact ⟨first, hfirst, bind_eq_ok.mpr ⟨others, ih.mpr hothers, rfl⟩⟩

/-- What is run over a list fails as the first step that fails. -/
theorem exists_of_run_eq_error {step : α → Except ε β} (run : List α → Except ε (List β))
    (hnil : run [] = .ok [])
    (hcons : ∀ item rest, run (item :: rest) =
      step item >>= fun first => run rest >>= fun others => .ok (first :: others))
    {items : List α} {e : ε} (h : run items = .error e) :
    ∃ front item back, items = front ++ item :: back ∧ step item = .error e ∧
      ∀ other ∈ front, ∃ result, step other = .ok result := by
  induction items with
  | nil =>
      rw [hnil] at h
      cases h
  | cons item rest ih =>
      rw [hcons, bind_eq_error] at h
      obtain hitem | ⟨first, hfirst, h⟩ := h
      · exact ⟨[], item, rest, rfl, hitem, fun _ hother => absurd hother List.not_mem_nil⟩
      · obtain hrest | ⟨others, -, h⟩ := bind_eq_error.mp h
        · obtain ⟨front, failing, back, rfl, hfailing, hfront⟩ := ih hrest
          refine ⟨item :: front, failing, back, rfl, hfailing, ?_⟩
          exact List.forall_mem_cons.mpr ⟨⟨first, hfirst⟩, hfront⟩
        · cases h

end Decoded

open Decoded

variable {decode : Source → Decoded α}

theorem decodeAll_eq_ok_iff {items : List Source} {values : List α} :
    decodeAll decode items = .ok values ↔
      List.Forall₂ (fun item value => decode item = .ok value) items values :=
  run_eq_ok_iff (decodeAll decode) rfl fun _ _ => rfl

theorem asList_eq_ok_iff {source : Source} {values : List α} :
    asList decode source = .ok values ↔
      ∃ items, source = .list items true ∧ decodeAll decode items = .ok values := by
  constructor
  · intro h
    cases source with
    | list items whole =>
        rw [asList] at h
        obtain ⟨found, hfound, h⟩ := bind_eq_ok.mp h
        obtain ⟨rfl, rfl⟩ := whole_eq_ok.mp h
        exact ⟨items, rfl, hfound⟩
    | null | bool | number | text | plain | record | flawed => cases h
  · rintro ⟨items, rfl, h⟩
    rw [asList, h]
    rfl

theorem decodeEntries_eq_ok_iff {members : List (String × Source)} {entries : List (String × α)} :
    decodeEntries decode members = .ok entries ↔ List.Forall₂
      (fun member entry => member.1 = entry.1 ∧ decode member.2 = .ok entry.2) members entries := by
  induction members generalizing entries with
  | nil => simp [decodeEntries, eq_comm]
  | cons member rest ih =>
      obtain ⟨name, source⟩ := member
      rw [decodeEntries, bind_eq_ok, List.forall₂_cons_left_iff]
      constructor
      · rintro ⟨value, hvalue, h⟩
        obtain ⟨others, hothers, h⟩ := bind_eq_ok.mp h
        cases h
        exact ⟨(name, value), others, ⟨rfl, hvalue⟩, ih.mp hothers, rfl⟩
      · rintro ⟨⟨other, value⟩, others, ⟨rfl, hvalue⟩, hothers, rfl⟩
        exact ⟨value, hvalue, bind_eq_ok.mpr ⟨others, ih.mpr hothers, rfl⟩⟩

/-- In lists that are related, what stands in the second is related to something in the first. -/
theorem exists_of_forall₂ {r : α → β → Prop} {front : List α} {back : List β}
    (h : List.Forall₂ r front back) : ∀ y ∈ back, ∃ x ∈ front, r x y := by
  induction h with
  | nil => exact fun _ hy => absurd hy List.not_mem_nil
  | cons hfirst _ ih =>
      refine List.forall_mem_cons.mpr ⟨⟨_, List.mem_cons_self, hfirst⟩, fun y hy => ?_⟩
      obtain ⟨x, hx, hrelated⟩ := ih y hy
      exact ⟨x, List.mem_cons_of_mem _ hx, hrelated⟩

section

variable {γ : Type} {r : α → β → Prop} {q : β → γ → Prop} {t : α → γ → Prop}

theorem exists_forall₂_iff {front : List α} :
    (∃ back, List.Forall₂ r front back) ↔ ∀ x ∈ front, ∃ y, r x y := by
  induction front with
  | nil => simp
  | cons x front ih =>
      simp only [List.forall₂_cons_left_iff, List.forall_mem_cons, ← ih]
      constructor
      · rintro ⟨_, y, back, hfirst, hrest, rfl⟩
        exact ⟨⟨y, hfirst⟩, back, hrest⟩
      · rintro ⟨⟨y, hfirst⟩, back, hrest⟩
        exact ⟨y :: back, y, back, hfirst, hrest, rfl⟩

/-- What can be gone on to from each item can be gone on to from the whole list. -/
theorem exists_forall₂_trans {front : List α} {middle : List β} (h : List.Forall₂ r front middle)
    (hstep : ∀ x ∈ front, ∀ y, r x y → ∃ z, q y z ∧ t x z) :
    ∃ back, List.Forall₂ q middle back ∧ List.Forall₂ t front back := by
  induction h with
  | nil => exact ⟨[], .nil, .nil⟩
  | cons hfirst _ ih =>
      obtain ⟨hx, hothers⟩ := List.forall_mem_cons.mp hstep
      obtain ⟨z, hq, ht⟩ := hx _ hfirst
      obtain ⟨back, hqs, hts⟩ := ih hothers
      exact ⟨z :: back, .cons hq hqs, .cons ht hts⟩

end

end StateFlow.Source
