import StateFlow.Definition.Decode
import StateFlow.Proofs.Choice.Written
import StateFlow.Proofs.Json.Decode

/-!
# Definitions that were read

A definition that was read is tidy: its documents are, its times are numbers of 64 bits, its rules
keep the names of their own fields apart from operators, and where a null would stand for nothing it
has no null.
-/

namespace StateFlow

open Source (Keeps)
open Source.Decoded

/-! ## Tidy definitions -/

structure TaskDefinition.Tidy (task : TaskDefinition) : Prop where
  parameters : ∀ table, task.parameters = some table → ∀ entry ∈ table.entries, entry.2.Tidy
  timeout : ∀ seconds, task.timeoutSeconds = some seconds → seconds < Nat.pow 2 64
  retry : ∀ document, task.retry = some document → document.Tidy ∧ document.isNull = false
  catcher : ∀ document, task.catcher = some document → document.Tidy ∧ document.isNull = false

def PassDefinition.Tidy (pass : PassDefinition) : Prop :=
  ∀ document, pass.result = some document → document.Tidy

def ChoiceDefinition.Tidy (choice : ChoiceDefinition) : Prop :=
  ∀ rule ∈ choice.choices, rule.Tidy

def StateDefinition.Tidy : StateDefinition → Prop
  | task body => body.Tidy
  | choice body => body.Tidy
  | pass body => body.Tidy

structure Definition.Tidy (definition : Definition) : Prop where
  states : ∀ entry ∈ definition.states.entries, entry.2.Tidy
  timeout : ∀ seconds, definition.timeoutSeconds = some seconds → seconds < Nat.pow 2 64

theorem TaskDefinition.tidy_empty : Tidy {} :=
  ⟨nofun, nofun, nofun, nofun⟩

theorem PassDefinition.tidy_empty : Tidy {} :=
  nofun

theorem ChoiceDefinition.tidy_empty : Tidy {} :=
  List.forall_mem_nil _

theorem Definition.tidy_empty : Tidy {} :=
  ⟨List.forall_mem_nil _, nofun⟩

/-! ## Fields keep records tidy -/

theorem TaskDefinition.keeps_tidy {part : Source} (hplain : ¬ part.IsPlain) :
    ∀ field ∈ fields, Keeps Tidy part field := by
  simp only [fields, List.forall_mem_cons]
  refine ⟨?_, ?_, ?parameters, ?_, ?_, ?timeout, ?retry, ?catcher, ?_, ?_, nofun⟩
  case parameters =>
    refine Source.keeps_field fun value target hvalue h =>
      ⟨fun table htable entry hentry => ?_, h.timeout, h.retry, h.catcher⟩
    obtain ⟨-, hread⟩ := Source.eq_ok_of_asOption (hvalue.trans (congrArg Except.ok htable))
    obtain ⟨source, hsource⟩ := Source.exists_of_asTable hread entry hentry
    exact Source.tidy_of_toJson hsource
  case timeout =>
    refine Source.keeps_field fun value target hvalue h =>
      ⟨h.parameters, fun seconds hseconds => ?_, h.retry, h.catcher⟩
    obtain ⟨-, hread⟩ := Source.eq_ok_of_asOption (hvalue.trans (congrArg Except.ok hseconds))
    exact Source.lt_of_asNat hread
  case retry =>
    refine Source.keeps_field fun value target hvalue h =>
      ⟨h.parameters, h.timeout, fun document hdocument => ?_, h.catcher⟩
    exact Source.tidy_of_asOption hplain (hvalue.trans (congrArg Except.ok hdocument))
  case catcher =>
    refine Source.keeps_field fun value target hvalue h =>
      ⟨h.parameters, h.timeout, h.retry, fun document hdocument => ?_⟩
    exact Source.tidy_of_asOption hplain (hvalue.trans (congrArg Except.ok hdocument))
  all_goals
    exact Source.keeps_field fun _ _ _ h => ⟨h.parameters, h.timeout, h.retry, h.catcher⟩

theorem PassDefinition.keeps_tidy (part : Source) : ∀ field ∈ fields, Keeps Tidy part field := by
  simp only [fields, List.forall_mem_cons]
  refine ⟨?_, ?result, ?_, ?_, ?_, nofun⟩
  case result =>
    refine Source.keeps_field fun value target hvalue h document hdocument => ?_
    cases hdocument
    exact Source.tidy_of_toJson hvalue
  all_goals exact Source.keeps_field fun _ _ _ h => h

theorem ChoiceDefinition.keeps_tidy (part : Source) : ∀ field ∈ fields, Keeps Tidy part field := by
  simp only [fields, List.forall_mem_cons]
  refine ⟨?_, ?choices, ?_, nofun⟩
  case choices =>
    refine Source.keeps_field fun rules target hrules h rule hrule => ?_
    obtain ⟨item, hitem⟩ := Source.exists_of_asList hrules rule hrule
    exact Rule.tidy_of_decode hitem
  all_goals exact Source.keeps_field fun _ _ _ h => h

theorem StateDefinition.tidy_of_decode {source : Source} {state : StateDefinition}
    (h : decode source = .ok state) : state.Tidy := by
  obtain ⟨kind, body, hbody, hplain⟩ := Source.exists_of_asTagged h
  cases kind with
  | task =>
      obtain ⟨task, htask, rfl⟩ := map_eq_ok.mp hbody
      have htidy : task.Tidy := Source.keeps_asRecord
        (fun part hpart => TaskDefinition.keeps_tidy (hplain part hpart))
        TaskDefinition.tidy_empty htask
      exact htidy
  | choice =>
      obtain ⟨choice, hchoice, rfl⟩ := map_eq_ok.mp hbody
      have htidy : choice.Tidy := Source.keeps_asRecord
        (fun part _ => ChoiceDefinition.keeps_tidy part)
        ChoiceDefinition.tidy_empty hchoice
      exact htidy
  | pass =>
      obtain ⟨pass, hpass, rfl⟩ := map_eq_ok.mp hbody
      have htidy : pass.Tidy := Source.keeps_asRecord
        (fun part _ => PassDefinition.keeps_tidy part) PassDefinition.tidy_empty hpass
      exact htidy

namespace Definition

theorem tidy_of_decodeStates {members : List (String × Source)}
    {table result : NameTable StateDefinition}
    (htable : ∀ entry ∈ table.entries, entry.2.Tidy)
    (h : decodeStates members table = .ok result) : ∀ entry ∈ result.entries, entry.2.Tidy := by
  induction members generalizing table with
  | nil =>
      cases h
      exact htable
  | cons member rest ih =>
      obtain ⟨name, source⟩ := member
      rw [decodeStates] at h
      split at h
      · cases h
      · obtain ⟨state, hstate, h⟩ := bind_eq_ok.mp h
        refine ih (fun entry hentry => ?_) h
        rcases Entries.mem_of_mem_insert hentry with rfl | hentry
        · exact StateDefinition.tidy_of_decode hstate
        · exact htable entry hentry

theorem tidy_of_decodeTable {source : Source} {table : NameTable StateDefinition}
    (h : decodeTable source = .ok table) : ∀ entry ∈ table.entries, entry.2.Tidy := by
  unfold decodeTable at h
  split at h
  · cases h
    exact fun _ hentry => absurd hentry List.not_mem_nil
  · obtain ⟨found, hfound, h⟩ := bind_eq_ok.mp h
    obtain ⟨-, rfl⟩ := whole_eq_ok.mp h
    exact tidy_of_decodeStates (fun _ hentry => absurd hentry List.not_mem_nil) hfound
  · cases h

theorem keeps_tidy (part : Source) : ∀ field ∈ fields, Keeps Tidy part field := by
  simp only [fields, List.forall_mem_cons]
  refine ⟨?_, ?_, ?states, ?timeout, ?_, nofun⟩
  case states =>
    refine Source.keeps_field fun table target htable h => ⟨?_, h.timeout⟩
    exact tidy_of_decodeTable htable
  case timeout =>
    refine Source.keeps_field fun value target hvalue h => ⟨h.states, fun seconds hseconds => ?_⟩
    obtain ⟨-, hread⟩ := Source.eq_ok_of_asOption (hvalue.trans (congrArg Except.ok hseconds))
    exact Source.lt_of_asNat hread
  all_goals exact Source.keeps_field fun _ _ _ h => ⟨h.states, h.timeout⟩

/-- Every definition that is read is tidy, from a document of whatever form. -/
theorem tidy_of_decode {source : Source} {definition : Definition}
    (h : decode source = .ok definition) : definition.Tidy :=
  Source.keeps_asRecord (fun part _ => keeps_tidy part) tidy_empty h

end Definition

end StateFlow
