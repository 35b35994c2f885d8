import StateFlow.Definition.Text
import StateFlow.Proofs.Definition.Fields
import StateFlow.Proofs.Machine.Compile

/-!
# From texts to machines

A machine that was compiled from a JSON text has one state for each member that the text has under
`States`, and what a state does is what the fields of its member say: nothing is read from the wrong
place, and no member takes the place of another.
-/

namespace StateFlow

open Source Source.Decoded

/-- Where a state writes its result, by its field `ResultPath`. -/
inductive WritesAt : Option Source → Option Path → Prop
  | absent : WritesAt none (some .root)
  | null : WritesAt (some .null) none
  | given {text : String} {path : Path} (h : Path.parse text = .ok path) :
      WritesAt (some (.text text)) (some path)

/-- The fields of a state, in the order of the list form. -/
def StateKind.fieldNames : StateKind → List String
  | task => "Type" :: TaskDefinition.fields.map RecordField.name
  | choice => "Type" :: ChoiceDefinition.fields.map RecordField.name
  | pass => "Type" :: PassDefinition.fields.map RecordField.name

/-- A compiled state does what the fields of its member say. -/
inductive Carries (field? : String → Option Source) : State → Prop
  | task {body : TaskState} (hresource : field? "Resource" = some (.text body.resource))
      (htimeout : body.timeoutSeconds = numberIn? (field? "TimeoutSeconds"))
      (hresult : WritesAt (field? "ResultPath") body.resultPath)
      (hsuccessors : (State.task body).successors = (textIn? (field? "Next")).toList) :
      Carries field? (.task body)
  | pass {body : PassState} (hresult : WritesAt (field? "ResultPath") body.resultPath)
      (hsuccessors : (State.pass body).successors = (textIn? (field? "Next")).toList) :
      Carries field? (.pass body)
  | choice {body : ChoiceState} {rules : List Source}
      (hrules : field? "Choices" = some (.list rules true))
      (hsuccessors : (State.choice body).successors.map some =
        (rules.map fun rule => textIn? (rule.field? [] "Next")) ++ [textIn? (field? "Default")]) :
      Carries field? (.choice body)

/-- The member `Type` says nothing more once the kind is known. -/
theorem Carries.congr {field? other? : String → Option Source} {state : State}
    (h : Carries field? state) (hsame : ∀ name, name ≠ "Type" → other? name = field? name) :
    Carries other? state := by
  cases h with
  | task hresource htimeout hresult hsuccessors =>
      rw [← hsame _ (by decide)] at hresource htimeout hresult hsuccessors
      exact .task hresource htimeout hresult hsuccessors
  | pass hresult hsuccessors =>
      rw [← hsame _ (by decide)] at hresult hsuccessors
      exact .pass hresult hsuccessors
  | choice hrules hsuccessors =>
      rw [← hsame _ (by decide)] at hrules hsuccessors
      exact .choice hrules hsuccessors

/-! ## Compiled states -/

namespace State

theorem writesAt_of_resultPath {name : String} {part? : Option Source}
    {given : Option (Option String)} {path : Option Path}
    (hliteral : ∀ part, part? = some part → part.Literal)
    (hholds : Holds asPresent none part? given)
    (h : resultPath name given = .ok path) : WritesAt part? path := by
  cases part? with
  | none =>
      have hgiven : given = none := hholds
      subst hgiven
      cases h
      exact .absent
  | some part =>
      obtain ⟨found, hfound, rfl⟩ := map_eq_ok.mp hholds
      obtain ⟨rfl, rfl⟩ | ⟨text, rfl, rfl⟩ := eq_of_asOption_asText (hliteral part rfl) hfound
      · cases h
        exact .null
      · obtain ⟨parsed, hparsed, rfl⟩ := map_eq_ok.mp h
        apply WritesAt.given
        rw [parsePath] at hparsed
        cases hparse : Path.parse text with
        | error cause =>
            rw [hparse] at hparsed
            cases hparsed
        | ok found =>
            rw [hparse] at hparsed
            cases hparsed
            rfl

theorem successors_task (body : TaskState) :
    (State.task body).successors = body.transition.target?.toList := by
  rw [successors, targets]
  cases body.transition.target? <;> rfl

theorem successors_pass (body : PassState) :
    (State.pass body).successors = body.transition.target?.toList := by
  rw [successors, targets]
  cases body.transition.target? <;> rfl

theorem successors_choice (body : ChoiceState) :
    (State.choice body).successors = body.branches.map Branch.next ++ [body.fallback] := by
  have hbranches : (body.branches.mapIdx fun i branch => (TargetField.rule i, branch.next)).map
      Prod.snd = body.branches.map Branch.next := by
    apply List.ext_getElem
    · simp
    · intro i _ _
      simp
  rw [successors, targets, List.map_append, hbranches]
  rfl

theorem eq_of_ofTask {name : String} {body : TaskDefinition} {compiled : TaskState}
    (h : ofTask name body = .ok compiled) :
    compiled.resource = body.resource ∧ compiled.timeoutSeconds = body.timeoutSeconds ∧
      resultPath name body.resultPath = .ok compiled.resultPath ∧
      compiled.transition.target? = body.next := by
  have hdecides := decides_ofTask name body
  rw [h] at hdecides
  rw [ofTask] at h
  split at h
  · cases h
  · split at h
    · cases h
    · split at h
      · cases h
      · obtain ⟨parameters, -, h⟩ := bind_eq_ok.mp h
        obtain ⟨inputPath, -, h⟩ := bind_eq_ok.mp h
        obtain ⟨path, hpath, h⟩ := bind_eq_ok.mp h
        obtain ⟨seconds, hseconds, h⟩ := bind_eq_ok.mp h
        obtain ⟨transition, -, h⟩ := bind_eq_ok.mp h
        cases h
        have htimeout := decides_timeout name body.timeoutSeconds
        rw [hseconds] at htimeout
        exact ⟨rfl, htimeout.2, hpath, hdecides.2⟩

theorem eq_of_ofPass {name : String} {body : PassDefinition} {compiled : PassState}
    (h : ofPass name body = .ok compiled) :
    resultPath name body.resultPath = .ok compiled.resultPath ∧
      compiled.transition.target? = body.next := by
  have hdecides := decides_ofPass name body
  rw [h] at hdecides
  rw [ofPass] at h
  obtain ⟨path, hpath, h⟩ := bind_eq_ok.mp h
  obtain ⟨transition, -, h⟩ := bind_eq_ok.mp h
  cases h
  exact ⟨hpath, hdecides.2⟩

variable {field? : String → Option Source} {name : String} {compiled : State}

theorem carries_task {body : TaskDefinition} (hreads : body.Reads field?)
    (hliteral : ∀ name part, field? name = some part → part.Literal)
    (h : ofDefinition name (.task body) = .ok compiled) : Carries field? compiled := by
  obtain ⟨compiled, htask, rfl⟩ := map_eq_ok.mp h
  obtain ⟨hresource, htimeout, hpath, htarget⟩ := eq_of_ofTask htask
  apply Carries.task
  · rw [hresource]
    exact hreads.resource
  · rw [htimeout]
    exact hreads.timeout
  · exact writesAt_of_resultPath (hliteral _) hreads.resultPath hpath
  · rw [successors_task, htarget, hreads.next]

theorem carries_pass {body : PassDefinition} (hreads : body.Reads field?)
    (hliteral : ∀ name part, field? name = some part → part.Literal)
    (h : ofDefinition name (.pass body) = .ok compiled) : Carries field? compiled := by
  obtain ⟨compiled, hpass, rfl⟩ := map_eq_ok.mp h
  obtain ⟨hpath, htarget⟩ := eq_of_ofPass hpass
  apply Carries.pass
  · exact writesAt_of_resultPath (hliteral _) hreads.resultPath hpath
  · rw [successors_pass, htarget, hreads.next]

theorem carries_choice {body : ChoiceDefinition} (hreads : body.Reads field?)
    (hliteral : ∀ name part, field? name = some part → part.Literal)
    (h : ofDefinition name (.choice body) = .ok compiled) : Carries field? compiled := by
  obtain ⟨compiled, hchoice, rfl⟩ := map_eq_ok.mp h
  have hdecides := decides_ofChoice name body
  rw [hchoice] at hdecides
  obtain ⟨hvalid, hfallback, hbranches⟩ := hdecides
  have hchoices := hreads.choices
  cases hpart : field? "Choices" with
  | none =>
      rw [hpart] at hchoices
      exact absurd hchoices hvalid.choices
  | some part =>
      rw [hpart] at hchoices
      obtain ⟨rules, rfl, hnext⟩ :=
        ChoiceDefinition.next_of_asList (hliteral _ _ hpart) hchoices
      apply Carries.choice hpart
      calc (State.choice compiled).successors.map some
          = compiled.branches.map (fun branch => some branch.next) ++ [some compiled.fallback] := by
            rw [successors_choice, List.map_append, List.map_map]
            rfl
        _ = rules.map (fun rule => textIn? (rule.field? [] "Next")) ++
              [textIn? (field? "Default")] := by
            rw [hbranches, hnext, ← hfallback, hreads.fallback]

theorem kind_eq {state : StateDefinition} (h : ofDefinition name state = .ok compiled) :
    compiled.kind = state.kind := by
  cases state <;> obtain ⟨body, -, rfl⟩ := map_eq_ok.mp h <;> rfl

/-- A state that was read and compiled is of the kind of its `Type` and does what its fields say. -/
theorem carries_of_decode {source : Source} {state : StateDefinition} (hliteral : source.Literal)
    (hdecode : StateDefinition.decode source = .ok state)
    (h : ofDefinition name state = .ok compiled) :
    source.field? compiled.kind.fieldNames "Type" = some (.text compiled.kind.name) ∧
      Carries (source.field? compiled.kind.fieldNames) compiled := by
  obtain ⟨text, kind, body, htag, hkind, hbody, hbodyLiteral, hfields⟩ :=
    body_of_asTagged hliteral hdecode
  have hname : text = kind.name := by
    have hmem := Entries.mem_of_find? hkind
    obtain ⟨other, -, hother⟩ := List.mem_map.mp hmem
    cases hother
    rfl
  rw [hname] at htag
  have hparts (names : List String) (name : String) (part : Source)
      (hpart : body.field? names name = some part) : part.Literal :=
    hbodyLiteral.field? hpart
  have hcompiled := kind_eq h
  cases kind with
  | task =>
      obtain ⟨task, htask, rfl⟩ := map_eq_ok.mp hbody
      have hreads := TaskDefinition.reads_of_asRecord hbodyLiteral htask
      rw [hcompiled]
      exact ⟨htag _, (carries_task hreads (hparts _) h).congr (hfields _)⟩
  | choice =>
      obtain ⟨choice, hchoice, rfl⟩ := map_eq_ok.mp hbody
      have hreads := ChoiceDefinition.reads_of_asRecord hbodyLiteral hchoice
      rw [hcompiled]
      exact ⟨htag _, (carries_choice hreads (hparts _) h).congr (hfields _)⟩
  | pass =>
      obtain ⟨pass, hpass, rfl⟩ := map_eq_ok.mp hbody
      have hreads := PassDefinition.reads_of_asRecord hbodyLiteral hpass
      rw [hcompiled]
      exact ⟨htag _, (carries_pass hreads (hparts _) h).congr (hfields _)⟩

end State

/-! ## The table of states -/

namespace Definition

/-- States that were read have different names, and each of them is found under its own. -/
theorem decodeStates_eq_ok {members : List (String × Source)}
    {table result : NameTable StateDefinition} (h : decodeStates members table = .ok result) :
    (Entries.names members).Nodup ∧ (∀ name ∈ Entries.names members, name ∉ table.names) ∧
      result.names.Perm (Entries.names members ++ table.names) ∧
      (∀ name, name ∉ Entries.names members → result.find? name = table.find? name) ∧
      ∀ member ∈ members, ∃ state, StateDefinition.decode member.2 = .ok state ∧
        result.find? member.1 = some state := by
  induction members generalizing table with
  | nil =>
      cases h
      exact ⟨.nil, fun _ hname => absurd hname List.not_mem_nil, .refl _, fun _ _ => rfl,
        fun _ hmember => absurd hmember List.not_mem_nil⟩
  | cons member rest ih =>
      obtain ⟨name, source⟩ := member
      rw [decodeStates] at h
      split at h
      · cases h
      · next hcontains =>
          obtain ⟨state, hstate, h⟩ := bind_eq_ok.mp h
          obtain ⟨hnodup, hfresh, hperm, hkept, hfound⟩ := ih h
          have hname : name ∉ table.names := fun hmem =>
            hcontains (NameTable.contains_iff.mpr hmem)
          have hrest : ∀ other ∈ Entries.names rest, other ≠ name ∧ other ∉ table.names := by
            intro other hother
            have hnew := hfresh other hother
            rw [NameTable.names, NameTable.insert, Entries.mem_names_insert, not_or] at hnew
            exact hnew
          have hself : name ∉ Entries.names rest := fun hmem => (hrest name hmem).1 rfl
          refine ⟨List.nodup_cons.mpr ⟨hself, hnodup⟩, ?_, ?_, ?_, ?_⟩
          · exact List.forall_mem_cons.mpr ⟨hname, fun other hother => (hrest other hother).2⟩
          · have hinsert : (table.insert name state).names.Perm (name :: table.names) :=
              (Entries.perm_insert hname).map Prod.fst
            exact (hperm.trans (hinsert.append_left _)).trans List.perm_middle
          · intro other hother
            rw [Entries.names, List.map_cons, List.mem_cons, not_or] at hother
            rw [hkept other hother.2]
            exact Entries.find?_insert_of_ne hother.1 _ _
          · refine List.forall_mem_cons.mpr ⟨⟨state, hstate, ?_⟩, hfound⟩
            rw [hkept name hself]
            exact Entries.find?_insert_self _ _ _

theorem members_of_decodeTable {source : Source} {table : NameTable StateDefinition}
    (hliteral : source.Literal) (h : decodeTable source = .ok table) :
    ∃ members, source = .record members true ∧ decodeStates members ∅ = .ok table := by
  cases hliteral with
  | record hmembers =>
      obtain ⟨found, hfound, h⟩ := bind_eq_ok.mp h
      obtain ⟨rfl, rfl⟩ := whole_eq_ok.mp h
      exact ⟨_, rfl, hfound⟩
  | null | bool | number | text | list | flawed => cases h

/-- The fields of a definition, in the order of the list form. -/
def fieldNames : List String :=
  fields.map RecordField.name

theorem decode_of_parse {text : String} {definition : Definition}
    (h : parse .json text = .ok definition) : decode (read text).1 = .ok definition := by
  change decodeText decode text = .ok definition at h
  rw [decodeText] at h
  obtain ⟨value, hvalue, h⟩ := bind_eq_ok.mp h
  obtain ⟨-, rfl⟩ := whole_eq_ok.mp h
  exact hvalue

/-- The states of a definition that was read from a text stand under different names. -/
theorem members_of_parse {text : String} {definition : Definition}
    (h : parse .json text = .ok definition) :
    ∃ members, (read text).1.field? fieldNames "States" = some (.record members true) ∧
      decodeStates members ∅ = .ok definition.states := by
  have hliteral := literal_read text
  obtain ⟨part, hpart, htable⟩ := (reads_of_decode hliteral (decode_of_parse h)).states
  obtain ⟨members, rfl, hstates⟩ := members_of_decodeTable (hliteral.field? hpart) htable
  exact ⟨members, hpart, hstates⟩

end Definition

namespace Machine

/-- A machine that was compiled from a JSON text has as many states as there are members under
`States`, each under the name of its member, of the kind of its `Type`, and doing what its fields
say; its first state and its time limit are those of the text. A text where two members under
`States` have the same name is not read. -/
theorem faithful (text : String) :
    let source := (read text).1
    let field? := source.field? Definition.fieldNames
    (∀ definition machine, Definition.parse .json text = .ok definition →
      compile definition = .ok machine →
        ∃ members, field? "States" = some (.record members true) ∧
          (Entries.names members).Nodup ∧ machine.states.names.Perm (Entries.names members) ∧
          (∀ member ∈ members, ∃ state, machine.states.find? member.1 = some state ∧
            member.2.field? state.kind.fieldNames "Type" = some (.text state.kind.name) ∧
            Carries (member.2.field? state.kind.fieldNames) state) ∧
          field? "StartAt" = some (.text machine.startAt) ∧
          machine.timeoutSeconds = numberIn? (field? "TimeoutSeconds")) ∧
    ∀ members whole, field? "States" = some (.record members whole) →
      ¬ (Entries.names members).Nodup → ∃ e, Definition.parse .json text = .error e := by
  intro source field?
  have hliteral : source.Literal := literal_read text
  constructor
  · intro definition machine hparse hcompile
    obtain ⟨members, hmembers, hstates⟩ := Definition.members_of_parse hparse
    have hreads := Definition.reads_of_decode hliteral (Definition.decode_of_parse hparse)
    obtain ⟨hnodup, -, hperm, -, hfound⟩ := Definition.decodeStates_eq_ok hstates
    obtain ⟨states, htraverse, -, rfl⟩ := eq_of_compile hcompile
    refine ⟨members, hmembers, hnodup, ?_, ?_, hreads.startAt, hreads.timeout⟩
    · rw [names_eq htraverse]
      exact hperm.trans (List.Perm.of_eq (List.append_nil _))
    · intro member hmember
      obtain ⟨state, hdecode, hstate⟩ := hfound member hmember
      obtain ⟨compiled, hcompiled, hfind⟩ := NameTable.find?_traverse htraverse hstate
      have hpart : member.2.Literal := by
        cases hliteral.field? hmembers with
        | record hparts => exact hparts member hmember
      exact ⟨compiled, hfind, State.carries_of_decode hpart hdecode hcompiled⟩
  · intro members whole hmembers hrepeated
    cases hparse : Definition.parse .json text with
    | error e => exact ⟨e, rfl⟩
    | ok definition =>
        obtain ⟨others, hothers, hstates⟩ := Definition.members_of_parse hparse
        cases hmembers.symm.trans hothers
        exact absurd (Definition.decodeStates_eq_ok hstates).1 hrepeated

end Machine

end StateFlow
