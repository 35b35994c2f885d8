import StateFlow.Definition.Decode
import StateFlow.Proofs.Choice.Members

/-!
# What the fields of a definition hold

For each field of a definition that shapes its machine, what it holds after the definition was read
from a JSON text: the text or the number that stands in the source of the field, or nothing where
there is no such source, or null.
-/

namespace StateFlow

open Source Source.Decoded

namespace Source

/-- The text that stands in a field. -/
def textIn? : Option Source → Option String
  | some (text s) => some s
  | _ => none

/-- The natural number that stands in a field. -/
def numberIn? : Option Source → Option Nat
  | some (number (.int n)) => some n.toNat
  | _ => none

theorem Literal.field? {source part : Source} (h : source.Literal) {names : List String}
    {name : String} (hpart : source.field? names name = some part) : part.Literal := by
  cases h with
  | list hitems => exact hitems part (List.mem_of_getElem? hpart)
  | record hmembers => exact hmembers _ (Entries.mem_of_find? hpart)
  | null | bool | number | text | flawed => cases hpart

theorem eq_of_asText {source : Source} {s : String} (hliteral : source.Literal)
    (h : asText source = .ok s) : source = .text s := by
  cases hliteral with
  | text =>
      cases h
      rfl
  | null | bool | number | list | record | flawed => cases h

theorem eq_of_asOption_asText {source : Source} {value : Option String}
    (hliteral : source.Literal) (h : asOption asText source = .ok value) :
    (source = .null ∧ value = none) ∨ ∃ s, source = .text s ∧ value = some s := by
  cases hliteral with
  | null =>
      cases h
      exact .inl ⟨rfl, rfl⟩
  | text =>
      cases h
      exact .inr ⟨_, rfl, rfl⟩
  | bool | number | list | record | flawed => cases h

theorem eq_text_of_holds {part? : Option Source} {start value : String}
    (hliteral : ∀ part, part? = some part → part.Literal) (hgiven : part? ≠ none)
    (h : Holds asText start part? value) : part? = some (.text value) := by
  cases part? with
  | none => exact absurd rfl hgiven
  | some part => rw [eq_of_asText (hliteral part rfl) h]

theorem eq_textIn? {part? : Option Source} {value : Option String}
    (hliteral : ∀ part, part? = some part → part.Literal)
    (h : Holds (asOption asText) none part? value) : value = textIn? part? := by
  cases part? with
  | none => exact h
  | some part =>
      obtain ⟨rfl, rfl⟩ | ⟨s, rfl, rfl⟩ := eq_of_asOption_asText (hliteral part rfl) h
      · rfl
      · rfl

theorem eq_numberIn? {part? : Option Source} {value : Option Nat}
    (hliteral : ∀ part, part? = some part → part.Literal)
    (h : Holds (asOption asWord64) none part? value) : value = numberIn? part? := by
  cases part? with
  | none => exact h
  | some part =>
      cases hliteral part rfl with
      | null =>
          cases h
          rfl
      | @number n =>
          obtain ⟨found, hfound, rfl⟩ := map_eq_ok.mp h
          cases n with
          | float x => cases hfound
          | int n =>
              rw [asWord64, asNat] at hfound
              split at hfound
              · cases hfound
                rfl
              · cases hfound
      | bool | text | list | record | flawed => cases h

end Source

/-! ## Rules -/

namespace Rule

/-- Where a rule leads is the text of its member `Next`. -/
theorem next_of_decode {source : Source} {rule : Rule} (hliteral : source.Literal)
    (h : decode source = .ok rule) : rule.next = textIn? (source.field? [] "Next") := by
  cases source with
  | record members whole =>
      rw [decode] at h
      obtain ⟨draft, hdraft, h⟩ := bind_eq_ok.mp h
      obtain ⟨-, rfl⟩ := whole_eq_ok.mp h
      exact eq_textIn? (fun part hpart => hliteral.field? hpart)
        (holds_decodeMembers field_next (by decide) hdraft)
  | null | bool | number | text | plain | list | flawed => cases h

end Rule

/-! ## Tasks -/

/-- A field that keeps null apart from nothing. -/
def asPresent (source : Source) : Decoded (Option (Option String)) :=
  (asOption asText source).map some

namespace TaskDefinition

/-- What the fields of a task say, by their names. -/
structure Reads (field? : String → Option Source) (task : TaskDefinition) : Prop where
  resource : field? "Resource" = some (.text task.resource)
  resultPath : Holds asPresent none (field? "ResultPath") task.resultPath
  timeout : task.timeoutSeconds = numberIn? (field? "TimeoutSeconds")
  next : task.next = textIn? (field? "Next")

theorem shows_resource :
    Shows fields (.needed "Resource" asText fun v d => { d with resource := v }) resource
      asText :=
  shows_of_leaves (by decide) (by simp [fields]) (fills_of_put fun _ _ _ h => h)
    (by simp [fields])

theorem shows_resultPath :
    Shows fields (.spare "ResultPath" (asOption asText) fun v d => { d with resultPath := some v })
      resultPath asPresent := by
  apply shows_of_leaves (by decide) (by simp [fields])
  · exact fills_of_put fun _ _ _ h => by rw [asPresent, h]; rfl
  · simp [fields]

theorem shows_timeout :
    Shows fields
      (.spare "TimeoutSeconds" (asOption asWord64) fun v d => { d with timeoutSeconds := v })
      timeoutSeconds (asOption asWord64) :=
  shows_of_leaves (by decide) (by simp [fields]) (fills_of_put fun _ _ _ h => h)
    (by simp [fields])

theorem shows_next :
    Shows fields (.spare "Next" (asOption asText) fun v d => { d with next := v }) next
      (asOption asText) :=
  shows_of_leaves (by decide) (by simp [fields]) (fills_of_put fun _ _ _ h => h)
    (by simp [fields])

theorem reads_of_asRecord {source : Source} {task : TaskDefinition} {surplus : DecodeError}
    (hliteral : source.Literal) (h : source.asRecord fields {} surplus = .ok task) :
    task.Reads (source.field? (fields.map RecordField.name)) := by
  have hparts {name : String} (part : Source)
      (hpart : source.field? (fields.map RecordField.name) name = some part) : part.Literal :=
    hliteral.field? hpart
  obtain ⟨hresource, hgiven⟩ := holds_asRecord shows_resource h
  constructor
  · exact eq_text_of_holds hparts (hgiven rfl) hresource
  · exact (holds_asRecord shows_resultPath h).1
  · exact eq_numberIn? hparts (holds_asRecord shows_timeout h).1
  · exact eq_textIn? hparts (holds_asRecord shows_next h).1

end TaskDefinition

/-! ## Passes -/

namespace PassDefinition

/-- What the fields of a pass say, by their names. -/
structure Reads (field? : String → Option Source) (pass : PassDefinition) : Prop where
  resultPath : Holds asPresent none (field? "ResultPath") pass.resultPath
  next : pass.next = textIn? (field? "Next")

theorem shows_resultPath :
    Shows fields (.spare "ResultPath" (asOption asText) fun v d => { d with resultPath := some v })
      resultPath asPresent := by
  apply shows_of_leaves (by decide) (by simp [fields])
  · exact fills_of_put fun _ _ _ h => by rw [asPresent, h]; rfl
  · simp [fields]

theorem shows_next :
    Shows fields (.spare "Next" (asOption asText) fun v d => { d with next := v }) next
      (asOption asText) :=
  shows_of_leaves (by decide) (by simp [fields]) (fills_of_put fun _ _ _ h => h)
    (by simp [fields])

theorem reads_of_asRecord {source : Source} {pass : PassDefinition} {surplus : DecodeError}
    (hliteral : source.Literal) (h : source.asRecord fields {} surplus = .ok pass) :
    pass.Reads (source.field? (fields.map RecordField.name)) := by
  constructor
  · exact (holds_asRecord shows_resultPath h).1
  · exact eq_textIn? (fun _ hpart => hliteral.field? hpart) (holds_asRecord shows_next h).1

end PassDefinition

/-! ## Choices -/

namespace ChoiceDefinition

/-- What the fields of a choice say, by their names. -/
structure Reads (field? : String → Option Source) (choice : ChoiceDefinition) : Prop where
  choices : Holds (asList Rule.decode) [] (field? "Choices") choice.choices
  fallback : choice.fallback = textIn? (field? "Default")

theorem shows_choices :
    Shows fields (.spare "Choices" (asList Rule.decode) fun v d => { d with choices := v }) choices
      (asList Rule.decode) :=
  shows_of_leaves (by decide) (by simp [fields]) (fills_of_put fun _ _ _ h => h)
    (by simp [fields])

theorem shows_fallback :
    Shows fields (.spare "Default" (asOption asText) fun v d => { d with fallback := v }) fallback
      (asOption asText) :=
  shows_of_leaves (by decide) (by simp [fields]) (fills_of_put fun _ _ _ h => h)
    (by simp [fields])

theorem reads_of_asRecord {source : Source} {choice : ChoiceDefinition} {surplus : DecodeError}
    (hliteral : source.Literal) (h : source.asRecord fields {} surplus = .ok choice) :
    choice.Reads (source.field? (fields.map RecordField.name)) := by
  constructor
  · exact (holds_asRecord shows_choices h).1
  · exact eq_textIn? (fun _ hpart => hliteral.field? hpart) (holds_asRecord shows_fallback h).1

/-- Rules that were read lead where their sources say, in the same order. -/
theorem next_of_decodeAll {items : List Source} {rules : List Rule}
    (hliteral : ∀ item ∈ items, item.Literal) (h : decodeAll Rule.decode items = .ok rules) :
    rules.map Rule.next = items.map fun item => textIn? (item.field? [] "Next") := by
  induction items generalizing rules with
  | nil =>
      cases h
      rfl
  | cons item rest ih =>
      obtain ⟨hitem, hrest⟩ := List.forall_mem_cons.mp hliteral
      rw [decodeAll] at h
      obtain ⟨rule, hrule, h⟩ := bind_eq_ok.mp h
      obtain ⟨others, hothers, h⟩ := bind_eq_ok.mp h
      cases h
      rw [List.map_cons, List.map_cons, Rule.next_of_decode hitem hrule, ih hrest hothers]

theorem next_of_asList {source : Source} {rules : List Rule} (hliteral : source.Literal)
    (h : asList Rule.decode source = .ok rules) :
    ∃ items, source = .list items true ∧
      rules.map Rule.next = items.map fun item => textIn? (item.field? [] "Next") := by
  obtain ⟨items, rfl, hfound⟩ := asList_eq_ok_iff.mp h
  cases hliteral with
  | list hitems => exact ⟨items, rfl, next_of_decodeAll hitems hfound⟩

end ChoiceDefinition

/-! ## Definitions -/

namespace Definition

/-- What the fields of a definition say, by their names. -/
structure Reads (field? : String → Option Source) (definition : Definition) : Prop where
  startAt : field? "StartAt" = some (.text definition.startAt)
  states : ∃ part, field? "States" = some part ∧ decodeTable part = .ok definition.states
  timeout : definition.timeoutSeconds = numberIn? (field? "TimeoutSeconds")

theorem shows_startAt :
    Shows fields (.needed "StartAt" asText fun v d => { d with startAt := v }) startAt asText :=
  shows_of_leaves (by decide) (by simp [fields]) (fills_of_put fun _ _ _ h => h)
    (by simp [fields])

theorem shows_states :
    Shows fields (.needed "States" decodeTable fun v d => { d with states := v }) states
      decodeTable :=
  shows_of_leaves (by decide) (by simp [fields]) (fills_of_put fun _ _ _ h => h)
    (by simp [fields])

theorem shows_timeout :
    Shows fields
      (.spare "TimeoutSeconds" (asOption asWord64) fun v d => { d with timeoutSeconds := v })
      timeoutSeconds (asOption asWord64) :=
  shows_of_leaves (by decide) (by simp [fields]) (fills_of_put fun _ _ _ h => h)
    (by simp [fields])

theorem reads_of_decode {source : Source} {definition : Definition} (hliteral : source.Literal)
    (h : decode source = .ok definition) :
    definition.Reads (source.field? (fields.map RecordField.name)) := by
  have hparts {name : String} (part : Source)
      (hpart : source.field? (fields.map RecordField.name) name = some part) : part.Literal :=
    hliteral.field? hpart
  obtain ⟨hstart, hstartGiven⟩ := holds_asRecord shows_startAt h
  obtain ⟨hstates, hstatesGiven⟩ := holds_asRecord shows_states h
  constructor
  · exact eq_text_of_holds hparts (hstartGiven rfl) hstart
  · cases hpart : source.field? (fields.map RecordField.name) "States" with
    | none => exact absurd hpart (hstatesGiven rfl)
    | some part =>
        refine ⟨part, rfl, ?_⟩
        change Holds _ _ (source.field? (fields.map RecordField.name) "States") _ at hstates
        rw [hpart] at hstates
        exact hstates
  · exact eq_numberIn? hparts (holds_asRecord shows_timeout h).1

end Definition

end StateFlow
