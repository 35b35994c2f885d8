import StateFlow.Proofs.Definition.Tidy

/-!
# Definitions written out and read again

A tidy definition is got back from the document that it is written as. Since every definition that
is read is tidy, reading, writing and reading again gives the same definition: nothing that it says
is lost or told in another way.
-/

namespace StateFlow

open Source (Restores SpellsMembers asRecord restores_field)
open Definition (ofTask ofPass ofChoice ofState given_eq_self names_member_sublist)

/-! ## Tasks -/

namespace TaskDefinition

/-- The fields of a task that have one of the names, and none of the others. -/
def only (task : TaskDefinition) (names : List String) : TaskDefinition where
  comment := given names "Comment" task.comment
  resource := if "Resource" ∈ names then task.resource else ""
  parameters := given names "Parameters" task.parameters
  inputPath := given names "InputPath" task.inputPath
  resultPath := given names "ResultPath" task.resultPath
  timeoutSeconds := given names "TimeoutSeconds" task.timeoutSeconds
  retry := given names "Retry" task.retry
  catcher := given names "Catch" task.catcher
  next := given names "Next" task.next
  ends := given names "End" task.ends

variable {task : TaskDefinition}

theorem only_nil : task.only [] = {} := by
  simp [only, given]

theorem only_eq_self {names : List String}
    (h : ∀ name ∈ Entries.names (ofTask task), name ∈ names) : task.only names = task := by
  simp only [ofTask, Entries.names_append, List.forall_mem_append,
    Definition.forall_mem_names_member] at h
  obtain ⟨⟨⟨⟨⟨⟨⟨⟨⟨hcomment, hresource⟩, hparameters⟩, hinput⟩, hresult⟩, htimeout⟩, hretry⟩,
    hcatch⟩, hnext⟩, hends⟩ := h
  rw [only, given_eq_self hcomment, if_pos (hresource _ List.mem_cons_self),
    given_eq_self hparameters, given_eq_self hinput, given_eq_self hresult,
    given_eq_self htimeout, given_eq_self hretry, given_eq_self hcatch, given_eq_self hnext,
    given_eq_self hends]

theorem names_sublist (task : TaskDefinition) :
    (Entries.names (ofTask task)).Sublist (fields.map Source.RecordField.name) := by
  simp only [ofTask, Entries.names_append]
  exact ((((((((names_member_sublist.append (.refl _)).append names_member_sublist).append
    names_member_sublist).append names_member_sublist).append names_member_sublist).append
    names_member_sublist).append names_member_sublist).append names_member_sublist).append
    names_member_sublist

theorem restores (h : task.Tidy) : ∀ entry ∈ ofTask task, Restores fields task.only entry := by
  simp only [ofTask, List.forall_mem_append, Definition.forall_mem_member,
    List.forall_mem_singleton]
  refine ⟨⟨⟨⟨⟨⟨⟨⟨⟨?_, ?_⟩, ?_⟩, ?_⟩, ?_⟩, ?_⟩, ?_⟩, ?_⟩, ?_⟩, ?_⟩
  · intro text htext
    exact restores_field rfl (fun _ h => h.asOption rfl h.asText) fun seen => by
      simp [only, given, htext]
  · exact restores_field rfl (fun _ h => h.asText) fun seen => by simp [only, given]
  · intro table htable
    exact restores_field rfl (fun _ h => h.asOption rfl h.asTable) fun seen => by
      simp [only, given, htable]
  · intro text htext
    exact restores_field rfl (fun _ h => h.asOption rfl h.asText) fun seen => by
      simp [only, given, htext]
  · rintro (- | text) hresult
    · exact restores_field rfl (fun _ h => h.asOption_null) fun seen => by
        simp [only, given, hresult]
    · exact restores_field rfl (fun _ h => h.asOption rfl h.asText) fun seen => by
        simp [only, given, hresult]
  · intro seconds hseconds
    have hbound := h.timeout seconds hseconds
    exact restores_field rfl (fun _ h => h.asOption rfl (h.asNat hbound)) fun seen => by
      simp [only, given, hseconds]
  · intro document hretry
    have hnull := (h.retry document hretry).2
    exact restores_field rfl (fun _ h => h.asOption hnull h.toJson) fun seen => by
      simp [only, given, hretry]
  · intro document hcatch
    have hnull := (h.catcher document hcatch).2
    exact restores_field rfl (fun _ h => h.asOption hnull h.toJson) fun seen => by
      simp [only, given, hcatch]
  · intro target hnext
    exact restores_field rfl (fun _ h => h.asOption rfl h.asText) fun seen => by
      simp [only, given, hnext]
  · intro truth hends
    exact restores_field rfl (fun _ h => h.asOption rfl h.asBool) fun seen => by
      simp [only, given, hends]

theorem asRecord_of_spells (h : task.Tidy) {members : List (String × Source)}
    (hmembers : SpellsMembers members (ofTask task)) :
    asRecord fields {} .invalidLength (.record members true) = .ok task := by
  refine Source.asRecord_of_spells hmembers only_nil (restores h) ?_ fun _ => only_eq_self
  simp [fields, Source.RecordField.spare, Source.RecordField.needed, ofTask, Entries.names]

end TaskDefinition

/-! ## Passes -/

namespace PassDefinition

/-- The fields of a pass that have one of the names, and none of the others. -/
def only (pass : PassDefinition) (names : List String) : PassDefinition where
  comment := given names "Comment" pass.comment
  result := given names "Result" pass.result
  resultPath := given names "ResultPath" pass.resultPath
  next := given names "Next" pass.next
  ends := given names "End" pass.ends

variable {pass : PassDefinition}

theorem only_nil : pass.only [] = {} := by
  simp [only, given]

theorem only_eq_self {names : List String}
    (h : ∀ name ∈ Entries.names (ofPass pass), name ∈ names) : pass.only names = pass := by
  simp only [ofPass, Entries.names_append, List.forall_mem_append,
    Definition.forall_mem_names_member] at h
  obtain ⟨⟨⟨⟨hcomment, hresult⟩, hpath⟩, hnext⟩, hends⟩ := h
  rw [only, given_eq_self hcomment, given_eq_self hresult, given_eq_self hpath,
    given_eq_self hnext, given_eq_self hends]

theorem names_sublist (pass : PassDefinition) :
    (Entries.names (ofPass pass)).Sublist (fields.map Source.RecordField.name) := by
  simp only [ofPass, Entries.names_append]
  exact (((names_member_sublist.append names_member_sublist).append names_member_sublist).append
    names_member_sublist).append names_member_sublist

theorem restores : ∀ entry ∈ ofPass pass, Restores fields pass.only entry := by
  simp only [ofPass, List.forall_mem_append, Definition.forall_mem_member]
  refine ⟨⟨⟨⟨?_, ?_⟩, ?_⟩, ?_⟩, ?_⟩
  · intro text htext
    exact restores_field rfl (fun _ h => h.asOption rfl h.asText) fun seen => by
      simp [only, given, htext]
  · intro document hresult
    exact restores_field rfl (fun _ h => h.toJson) fun seen => by simp [only, given, hresult]
  · rintro (- | text) hpath
    · exact restores_field rfl (fun _ h => h.asOption_null) fun seen => by
        simp [only, given, hpath]
    · exact restores_field rfl (fun _ h => h.asOption rfl h.asText) fun seen => by
        simp [only, given, hpath]
  · intro target hnext
    exact restores_field rfl (fun _ h => h.asOption rfl h.asText) fun seen => by
      simp [only, given, hnext]
  · intro truth hends
    exact restores_field rfl (fun _ h => h.asOption rfl h.asBool) fun seen => by
      simp [only, given, hends]

theorem asRecord_of_spells {members : List (String × Source)}
    (hmembers : SpellsMembers members (ofPass pass)) :
    asRecord fields {} .invalidLength (.record members true) = .ok pass := by
  refine Source.asRecord_of_spells hmembers only_nil restores ?_ fun _ => only_eq_self
  simp [fields, Source.RecordField.spare]

end PassDefinition

/-! ## Choices -/

namespace ChoiceDefinition

/-- The fields of a choice that have one of the names, and none of the others. -/
def only (choice : ChoiceDefinition) (names : List String) : ChoiceDefinition where
  comment := given names "Comment" choice.comment
  choices := if "Choices" ∈ names then choice.choices else []
  fallback := given names "Default" choice.fallback

variable {choice : ChoiceDefinition}

theorem only_nil : choice.only [] = {} := by
  simp [only, given]

theorem only_eq_self {names : List String}
    (h : ∀ name ∈ Entries.names (ofChoice choice), name ∈ names) :
    choice.only names = choice := by
  simp only [ofChoice, Entries.names_append, List.forall_mem_append,
    Definition.forall_mem_names_member] at h
  obtain ⟨⟨hcomment, hchoices⟩, hfallback⟩ := h
  rw [only, given_eq_self hcomment, if_pos (hchoices _ List.mem_cons_self),
    given_eq_self hfallback]

theorem names_sublist (choice : ChoiceDefinition) :
    (Entries.names (ofChoice choice)).Sublist (fields.map Source.RecordField.name) := by
  simp only [ofChoice, Entries.names_append]
  exact (names_member_sublist.append (.refl _)).append names_member_sublist

theorem restores (h : choice.Tidy) :
    ∀ entry ∈ ofChoice choice, Restores fields choice.only entry := by
  simp only [ofChoice, Rule.toJsonAll_eq_map, List.forall_mem_append,
    Definition.forall_mem_member, List.forall_mem_singleton]
  refine ⟨⟨?_, ?_⟩, ?_⟩
  · intro text htext
    exact restores_field rfl (fun _ h => h.asOption rfl h.asText) fun seen => by
      simp [only, given, htext]
  · have hrules : ∀ rule ∈ choice.choices, rule.IsRestored := fun rule hrule =>
      (h rule hrule).isRestored
    exact restores_field rfl (fun _ h => h.asList hrules) fun seen => by simp [only, given]
  · intro target hfallback
    exact restores_field rfl (fun _ h => h.asOption rfl h.asText) fun seen => by
      simp [only, given, hfallback]

theorem asRecord_of_spells (h : choice.Tidy) {members : List (String × Source)}
    (hmembers : SpellsMembers members (ofChoice choice)) :
    asRecord fields {} .invalidLength (.record members true) = .ok choice := by
  refine Source.asRecord_of_spells hmembers only_nil (restores h) ?_ fun _ => only_eq_self
  simp [fields, Source.RecordField.spare]

end ChoiceDefinition

/-! ## States -/

namespace StateDefinition

theorem decode_tagged {kind : StateKind} {body : List (String × Json)} {fields : List String}
    {state : StateDefinition} (hnames : (Entries.names body).Sublist fields)
    (hfields : ("Type" :: fields).Nodup)
    (hdecode : ∀ members : List (String × Source), SpellsMembers members body →
      decodeBody kind (.record members true) = .ok state)
    {source : Source} (h : source.Spells (.ofMembers (("Type", .string kind.name) :: body))) :
    decode source = .ok state := by
  have hkind : Entries.find? kind.name kinds = some kind := by cases kind <;> decide
  exact Source.asTagged_of_spells h hkind (hfields.sublist (hnames.cons_cons "Type")) hdecode

/-- A state is got back from its kind and its fields. -/
theorem decode_of_spells {state : StateDefinition} (htidy : state.Tidy) {source : Source}
    (h : source.Spells (ofState state)) : decode source = .ok state := by
  cases state with
  | task body =>
      refine decode_tagged body.names_sublist (by decide) (fun members hmembers => ?_) h
      exact congrArg (Except.map task) (TaskDefinition.asRecord_of_spells htidy hmembers)
  | choice body =>
      refine decode_tagged body.names_sublist (by decide) (fun members hmembers => ?_) h
      exact congrArg (Except.map choice) (ChoiceDefinition.asRecord_of_spells htidy hmembers)
  | pass body =>
      refine decode_tagged body.names_sublist (by decide) (fun members hmembers => ?_) h
      exact congrArg (Except.map pass) (PassDefinition.asRecord_of_spells hmembers)

end StateDefinition

/-! ## Definitions -/

namespace Definition

/-- The members of the table of states, each with its name. -/
def ofStates (states : NameTable StateDefinition) : List (String × Json) :=
  states.entries.map fun entry => (entry.1, ofState entry.2)

theorem names_ofStates (states : NameTable StateDefinition) :
    Entries.names (ofStates states) = states.names := by
  simp [ofStates, NameTable.names, Entries.names]

theorem decodeStates_of_spells {states : NameTable StateDefinition}
    (htidy : ∀ entry ∈ states.entries, entry.2.Tidy) {members : List (String × Source)}
    (names : List String)
    (hmembers : ∀ member ∈ members, ∃ state, (member.1, state) ∈ states.entries ∧
      member.2.Spells (ofState state))
    (hnodup : (Entries.names members).Nodup)
    (hfresh : ∀ name ∈ Entries.names members, name ∉ names) :
    ∃ names', decodeStates members (states.restrict names) = .ok (states.restrict names') ∧
      ∀ name, name ∈ Entries.names members ∨ name ∈ names → name ∈ names' := by
  induction members generalizing names with
  | nil => exact ⟨names, rfl, by simp [Entries.names]⟩
  | cons member rest ih =>
      obtain ⟨name, source⟩ := member
      obtain ⟨⟨state, hstate, hspells⟩, hrest⟩ := List.forall_mem_cons.mp hmembers
      obtain ⟨hname, hnodup, hfresh⟩ := Entries.fresh_of_cons hnodup hfresh
      have habsent : (states.restrict names).contains name = false := by
        rw [NameTable.contains, NameTable.find?_restrict, if_neg hname]
        rfl
      obtain ⟨names', hrun, hmem⟩ := ih (name :: names) hrest hnodup hfresh
      refine ⟨names', ?_, fun other hother => hmem other (Entries.mem_of_mem_cons hother)⟩
      rw [decodeStates, habsent, StateDefinition.decode_of_spells (htidy _ hstate) hspells]
      rw [← NameTable.insert_restrict (NameTable.find?_eq_some_iff.mpr hstate)] at hrun
      exact hrun

theorem decodeTable_of_spells {states : NameTable StateDefinition}
    (htidy : ∀ entry ∈ states.entries, entry.2.Tidy) {source : Source}
    (h : source.Spells (.object (ofStates states))) : decodeTable source = .ok states := by
  obtain ⟨members, rfl, hmembers⟩ := h.form
  have hstates : ∀ member ∈ members, ∃ state, (member.1, state) ∈ states.entries ∧
      member.2.Spells (ofState state) := by
    intro member hmember
    obtain ⟨document, hdocument, hspells⟩ := hmembers.spells member hmember
    obtain ⟨⟨name, state⟩, hstate, heq⟩ := List.mem_map.mp hdocument
    cases heq
    exact ⟨state, hstate, hspells⟩
  obtain ⟨names, hrun, hmem⟩ := decodeStates_of_spells htidy [] hstates hmembers.nodup
    fun _ _ => List.not_mem_nil
  have hall : states.restrict names = states := by
    refine NameTable.restrict_of_subset fun name hname => hmem name (Or.inl ?_)
    rw [hmembers.mem_names_iff, names_ofStates]
    exact hname
  rw [NameTable.restrict_nil, hall] at hrun
  rw [decodeTable, hrun]
  rfl

/-- The members that a definition is written as. -/
def body (definition : Definition) : List (String × Json) :=
  member "Comment" .string definition.comment
    ++ [("StartAt", .string definition.startAt), ("States", .object (ofStates definition.states))]
    ++ member "TimeoutSeconds" .ofNat definition.timeoutSeconds
    ++ member "Version" .string definition.version

theorem toJson_eq (definition : Definition) : definition.toJson = .ofMembers definition.body :=
  rfl

/-- The fields of a definition that have one of the names, and none of the others. -/
def only (definition : Definition) (names : List String) : Definition where
  comment := given names "Comment" definition.comment
  startAt := if "StartAt" ∈ names then definition.startAt else ""
  states := if "States" ∈ names then definition.states else ∅
  timeoutSeconds := given names "TimeoutSeconds" definition.timeoutSeconds
  version := given names "Version" definition.version

variable {definition : Definition}

theorem only_nil : definition.only [] = {} := by
  simp [only, given]

theorem only_eq_self {names : List String}
    (h : ∀ name ∈ Entries.names definition.body, name ∈ names) :
    definition.only names = definition := by
  simp only [body, Entries.names_append, List.forall_mem_append, forall_mem_names_member] at h
  obtain ⟨⟨⟨hcomment, hfixed⟩, htimeout⟩, hversion⟩ := h
  rw [only, given_eq_self hcomment, if_pos (hfixed "StartAt" List.mem_cons_self),
    if_pos (hfixed "States" (List.mem_cons_of_mem _ List.mem_cons_self)),
    given_eq_self htimeout, given_eq_self hversion]

theorem names_sublist (definition : Definition) :
    (Entries.names definition.body).Sublist (fields.map Source.RecordField.name) := by
  simp only [body, Entries.names_append]
  exact ((names_member_sublist.append (.refl _)).append names_member_sublist).append
    names_member_sublist

theorem restores (h : definition.Tidy) :
    ∀ entry ∈ definition.body, Restores fields definition.only entry := by
  simp only [body, List.forall_mem_append, forall_mem_member, List.forall_mem_cons]
  refine ⟨⟨⟨?_, ?_, ?_, nofun⟩, ?_⟩, ?_⟩
  · intro text htext
    exact restores_field rfl (fun _ h => h.asOption rfl h.asText) fun seen => by
      simp [only, given, htext]
  · exact restores_field rfl (fun _ h => h.asText) fun seen => by simp [only, given]
  · exact restores_field rfl (fun _ => decodeTable_of_spells h.states) fun seen => by
      simp [only, given]
  · intro seconds hseconds
    have hbound := h.timeout seconds hseconds
    exact restores_field rfl (fun _ h => h.asOption rfl (h.asNat hbound)) fun seen => by
      simp [only, given, hseconds]
  · intro text htext
    exact restores_field rfl (fun _ h => h.asOption rfl h.asText) fun seen => by
      simp [only, given, htext]

theorem nodup_names (definition : Definition) : (Entries.names definition.body).Nodup :=
  have hfields : (fields.map Source.RecordField.name).Nodup := by decide
  hfields.sublist (names_sublist definition)

/-- A tidy definition is got back from the document that it is written as. -/
theorem decode_of_spells (htidy : definition.Tidy) {source : Source}
    (h : source.Spells definition.toJson) : decode source = .ok definition := by
  rw [toJson_eq] at h
  obtain ⟨members, rfl, hmembers⟩ := h.exists_members (nodup_names definition)
  refine Source.asRecord_of_spells hmembers only_nil (restores htidy) ?_ fun _ => only_eq_self
  simp [fields, Source.RecordField.spare, Source.RecordField.needed, body, Entries.names]

end Definition

/-! ## Documents of definitions -/

theorem TaskDefinition.Tidy.ofTask {task : TaskDefinition} (h : task.Tidy) :
    ∀ entry ∈ ofTask task, entry.2.Tidy := by
  simp only [Definition.ofTask, List.forall_mem_append, Definition.forall_mem_member,
    List.forall_mem_singleton]
  refine ⟨⟨⟨⟨⟨⟨⟨⟨⟨fun _ _ => .string, .string⟩, ?_⟩, fun _ _ => .string⟩, ?_⟩, fun _ _ => .number⟩,
    fun document hretry => (h.retry document hretry).1⟩,
    fun document hcatch => (h.catcher document hcatch).1⟩, fun _ _ => .string⟩, fun _ _ => .bool⟩
  · intro table htable
    exact .object table.sorted (h.parameters table htable)
  · rintro (- | text) -
    · exact .null
    · exact .string

theorem PassDefinition.Tidy.ofPass {pass : PassDefinition} (h : pass.Tidy) :
    ∀ entry ∈ ofPass pass, entry.2.Tidy := by
  simp only [Definition.ofPass, List.forall_mem_append, Definition.forall_mem_member]
  refine ⟨⟨⟨⟨fun _ _ => .string, h⟩, ?_⟩, fun _ _ => .string⟩, fun _ _ => .bool⟩
  rintro (- | text) -
  · exact .null
  · exact .string

theorem ChoiceDefinition.Tidy.ofChoice {choice : ChoiceDefinition} (h : choice.Tidy) :
    ∀ entry ∈ ofChoice choice, entry.2.Tidy := by
  simp only [Definition.ofChoice, Rule.toJsonAll_eq_map, List.forall_mem_append,
    Definition.forall_mem_member, List.forall_mem_singleton]
  exact ⟨⟨fun _ _ => .string, .array (List.forall_mem_map.mpr fun rule hrule =>
    (h rule hrule).toJson)⟩, fun _ _ => .string⟩

theorem StateDefinition.Tidy.ofState {state : StateDefinition} (h : state.Tidy) :
    (ofState state).Tidy := by
  cases state with
  | task body =>
      exact .ofMembers (List.forall_mem_cons.mpr ⟨.string, TaskDefinition.Tidy.ofTask h⟩)
  | choice body =>
      exact .ofMembers (List.forall_mem_cons.mpr ⟨.string, ChoiceDefinition.Tidy.ofChoice h⟩)
  | pass body =>
      exact .ofMembers (List.forall_mem_cons.mpr ⟨.string, PassDefinition.Tidy.ofPass h⟩)

namespace Definition

/-- A tidy definition is written as a tidy document. -/
theorem Tidy.toJson {definition : Definition} (h : definition.Tidy) : definition.toJson.Tidy := by
  have hstates : Json.Tidy (.object (ofStates definition.states)) := by
    refine .object ?_ (List.forall_mem_map.mpr fun entry hentry => (h.states entry hentry).ofState)
    rw [names_ofStates]
    exact definition.states.sorted
  rw [toJson_eq]
  refine .ofMembers ?_
  simp only [body, List.forall_mem_append, forall_mem_member, List.forall_mem_cons]
  exact ⟨⟨⟨fun _ _ => .string, .string, hstates, nofun⟩, fun _ _ => .number⟩, fun _ _ => .string⟩

/-- A definition that was read is got back from the document that it is written as, and from every
form of that document. -/
theorem decode_written {source : Source} {definition : Definition}
    (h : decode source = .ok definition) :
    decode (Source.ofJson definition.toJson) = .ok definition ∧
      ∀ written : Source, written.Spells definition.toJson → decode written = .ok definition := by
  have htidy := tidy_of_decode h
  exact ⟨decode_of_spells htidy (Source.spells_ofJson htidy.toJson),
    fun _ => decode_of_spells htidy⟩

/-- A choice and a pass, with nulls that mean something and some that do not, unknown fields, and
the pass as a list of its fields. -/
def pickSource : Source :=
  .record [("Version", .null),
    ("States", .record [
      ("Pick", .record [("Choices", .list [.record [
          ("Not", .record [("IsNull", .bool true), ("Variable", .text "$.a")] true),
          ("Next", .text "Done")] true] true),
        ("Default", .text "Done"), ("Type", .text "Choice"), ("Color", .null)] true),
      ("Done", .list [.text "Pass", .null, .null, .null, .null, .bool true] true)] true),
    ("StartAt", .text "Pick"), ("Size", .number (.int 3))] true

def pick : Definition where
  startAt := "Pick"
  states := .ofList [
    ("Pick", .choice {
      choices := [⟨none, none, some "Done", none, none,
        some ⟨none, some "$.a", none, none, none, none, .ofList [("IsNull", .bool true)]⟩, ∅⟩],
      fallback := some "Done" }),
    ("Done", .pass { result := some .null, resultPath := some none, ends := some true })]

/-- The document of the definition, with its members in the order of the fields. -/
def pickWritten : Source :=
  .record [("StartAt", .text "Pick"),
    ("States", .record [
      ("Done", .record [("Type", .text "Pass"), ("Result", .null), ("ResultPath", .null),
        ("End", .bool true)] true),
      ("Pick", .record [("Type", .text "Choice"),
        ("Choices", .list [.record [("Next", .text "Done"),
          ("Not", .record [("Variable", .text "$.a"), ("IsNull", .bool true)] true)] true] true),
        ("Default", .text "Done")] true)] true)] true

theorem decode_pickWritten :
    decode pickSource = .ok pick ∧ pickWritten.Spells pick.toJson ∧
      decode (Source.ofJson pick.toJson) = .ok pick ∧ decode pickWritten = .ok pick := by
  have hread : decode pickSource = .ok pick := rfl
  have hspells : pickWritten.Spells pick.toJson := by
    refine ⟨?_, rfl⟩
    repeat' first
      | exact .text
      | exact .null
      | exact .bool
      | refine .list (List.forall_mem_singleton.mpr ?_)
      | refine .record (by decide) ?_
      | refine List.forall_mem_cons.mpr ⟨?_, ?_⟩
      | exact fun _ h => absurd h List.not_mem_nil
  obtain ⟨hsorted, hwritten⟩ := decode_written hread
  exact ⟨hread, hspells, hsorted, hwritten pickWritten hspells⟩

end Definition

end StateFlow
