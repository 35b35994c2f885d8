import StateFlow.Definition.Encode

/-!
# Members of optional values

A value that may be absent is written as one member or none. So what is written of a record has the
names of the values that are there, each once and in the order of the fields.
-/

namespace StateFlow

/-- An optional value, where its name is one of those given. -/
def given {α : Type} (names : List String) (name : String) (value? : Option α) : Option α :=
  if name ∈ names then value? else none

namespace Definition

variable {α : Type} {name : String} {encode : α → Json} {value? : Option α}

theorem forall_mem_member {p : String × Json → Prop} :
    (∀ entry ∈ member name encode value?, p entry) ↔
      ∀ value, value? = some value → p (name, encode value) := by
  cases value? <;> simp [member]

theorem forall_mem_names_member {p : String → Prop} :
    (∀ other ∈ Entries.names (member name encode value?), p other) ↔
      (value?.isSome = true → p name) := by
  cases value? <;> simp [member, Entries.names]

theorem names_member_sublist : (Entries.names (member name encode value?)).Sublist [name] := by
  cases value? with
  | none => exact List.nil_sublist _
  | some value => exact List.Sublist.refl _

theorem given_cons_of_ne {other : String} (h : other ≠ name) (names : List String) :
    given (name :: names) other value? = given names other value? := by
  simp [given, h]

theorem given_eq_self {names : List String} (h : value?.isSome = true → name ∈ names) :
    given names name value? = value? := by
  cases value? with
  | none => exact ite_self none
  | some value => exact if_pos (h rfl)

end Definition

end StateFlow
