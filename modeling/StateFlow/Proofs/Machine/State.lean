import StateFlow.Proofs.Definition.Validity
import StateFlow.Proofs.Machine.Targets

/-!
# Compiling one state

A state compiles exactly when it is valid; the compiled state names the same targets, and an error
explains what is wrong. Each check of the compiler decides one condition; the checks are put
together by the way they follow each other.

## Implementation notes

`Decides` says of the outcome of a check all that the next check has to know. Where checks follow
each other, the conditions are joined and the value of the first check is known to be good in the
second one.
-/

namespace StateFlow

variable {α β ε ε' : Type}

/-- A check succeeds with a good value under a condition, and otherwise blames what is wrong. -/
def Decides (condition : Prop) (good : α → Prop) (blames : ε → Prop) : Except ε α → Prop
  | .ok value => condition ∧ good value
  | .error e => ¬ condition ∧ blames e

namespace Decides

variable {p q : Prop} {g h : α → Prop} {k : β → Prop} {b : ε → Prop}

theorem isOk_iff {x : Except ε α} (hx : Decides p g b x) : (∃ value, x = .ok value) ↔ p := by
  cases x with
  | ok value => exact ⟨fun _ => hx.1, fun _ => ⟨value, rfl⟩⟩
  | error e =>
      constructor
      · rintro ⟨value, hvalue⟩
        cases hvalue
      · intro hp
        exact absurd hp hx.1

theorem imp {c : ε → Prop} {x : Except ε α} (hx : Decides p g b x) (hpq : p ↔ q)
    (hgood : ∀ value, g value → h value) (hblames : ∀ e, b e → c e) : Decides q h c x := by
  cases x with
  | ok value => exact ⟨hpq.mp hx.1, hgood value hx.2⟩
  | error e => exact ⟨fun hq => hx.1 (hpq.mpr hq), hblames e hx.2⟩

theorem of_iff {x : Except ε α} (hx : Decides p g b x) (hpq : p ↔ q) : Decides q g b x :=
  hx.imp hpq (fun _ h => h) (fun _ h => h)

theorem blame {c : ε → Prop} {x : Except ε α} (hx : Decides p g b x)
    (hblames : ∀ e, b e → c e) : Decides p g c x :=
  hx.imp Iff.rfl (fun _ h => h) hblames

theorem ok {v : α} (hv : g v) : Decides True g b (.ok v) :=
  ⟨trivial, hv⟩

/-- What is wrong under one condition is told before what follows. -/
theorem guard {c : Prop} [Decidable c] {e : ε} {x : Except ε α} (he : c → b e)
    (hx : Decides p g b x) : Decides (¬ c ∧ p) g b (if c then .error e else x) := by
  by_cases hc : c
  · rw [if_pos hc]
    exact ⟨fun h => h.1 hc, he hc⟩
  · rw [if_neg hc]
    exact hx.of_iff (by simp [hc])

theorem bind {x : Except ε α} {f : α → Except ε β} (hx : Decides p g b x)
    (hf : ∀ value, g value → Decides q k b (f value)) : Decides (p ∧ q) k b (x >>= f) := by
  cases x with
  | error e => exact ⟨fun h => hx.1 h.1, hx.2⟩
  | ok value =>
      have hnext := hf value hx.2
      change Decides (p ∧ q) k b (f value)
      exact hnext.of_iff (by simp [hx.1])

theorem map {f : α → β} {x : Except ε α} (hx : Decides p g b x)
    (hf : ∀ value, g value → k (f value)) : Decides p k b (x.map f) := by
  cases x with
  | ok value => exact ⟨hx.1, hf value hx.2⟩
  | error e => exact hx

theorem mapError {c : ε' → Prop} {f : ε → ε'} {x : Except ε α} (hx : Decides p g b x)
    (hf : ∀ e, b e → c (f e)) : Decides p g c (x.mapError f) := by
  cases x with
  | ok value => exact hx
  | error e => exact ⟨hx.1, hf e hx.2⟩

end Decides

namespace State

open StateDefinition

/-! ## The checks -/

theorem decides_transition (name : String) (next : Option String) (ends : Option Bool) :
    Decides (OneWayOn next ends) (fun way => way.target? = next)
      (fun e => ∃ fault, e = .invalidState name fault ∧ WayFault next ends fault)
      (transition name next ends) := by
  rcases next with - | target <;> rcases ends with - | - | - <;>
    simp [transition, Decides, OneWayOn, WayFault, Transition.target?]

theorem decides_timeout (name : String) (seconds : Option Nat) :
    Decides (seconds ≠ some 0) (fun kept => kept = seconds)
      (fun e => e = .invalidState name .zeroTimeout ∧ seconds = some 0)
      (timeout name seconds) := by
  by_cases h : seconds = some 0 <;> simp [timeout, Decides, h]

theorem decides_parsePath (name field text : String) :
    Decides (Path.IsText text) (fun path => Path.parse text = .ok path)
      (fun e => ∃ cause, e = .invalidPath name field cause ∧ Path.parse text = .error cause)
      (parsePath name field text) := by
  unfold parsePath
  cases h : Path.parse text with
  | ok path => exact ⟨⟨path, h⟩, rfl⟩
  | error cause =>
      refine ⟨?_, cause, rfl, rfl⟩
      rintro ⟨path, hpath⟩
      rw [h] at hpath
      cases hpath

theorem decides_inputPath (name : String) (given : Option String) :
    Decides (∀ text, given = some text → Path.IsText text) (fun _ => True)
      (fun e => ∃ text cause, e = .invalidPath name "InputPath" cause ∧
        Path.parse text = .error cause ∧ given = some text)
      (inputPath name given) := by
  cases given with
  | none => simp [inputPath, Decides]
  | some text =>
      have hparse := (decides_parsePath name "InputPath" text).map (f := some)
        (k := fun _ => True) (fun _ _ => trivial)
      refine hparse.imp (by simp) (fun _ h => h) ?_
      rintro e ⟨cause, rfl, hcause⟩
      exact ⟨text, cause, rfl, hcause, rfl⟩

theorem decides_parameters (name : String) (given : Option (NameTable Json)) :
    Decides (∀ table, given = some table →
        ∃ template, Template.compile table.entries = .ok template)
      (fun _ => True)
      (fun e => ∃ table cause, e = .invalidState name (.badParameters cause) ∧
        Template.compile table.entries = .error cause ∧ given = some table)
      (parameters name given) := by
  cases given with
  | none => simp [parameters, Decides]
  | some table =>
      cases h : Template.compile table.entries <;> simp [parameters, Decides, h]

theorem decides_resultPath (name : String) (given : Option (Option String)) :
    Decides (∀ text, given = some (some text) → Path.IsText text) (fun _ => True)
      (fun e => ∃ text cause, e = .invalidPath name "ResultPath" cause ∧
        Path.parse text = .error cause ∧ given = some (some text))
      (resultPath name given) := by
  rcases given with - | - | text
  · simp [resultPath, Decides]
  · simp [resultPath, Decides]
  · refine ((decides_parsePath name "ResultPath" text).map (k := fun _ => True) ?_).imp ?_ ?_ ?_
    · simp
    · simp
    · simp
    · rintro e ⟨cause, rfl, hcause⟩
      exact ⟨text, cause, rfl, hcause, rfl⟩

theorem decides_ofRule (rule : Rule) :
    Decides rule.IsBranch (fun branch => rule.next = some branch.next) rule.HasFault
      (ofRule rule) := by
  cases hnext : rule.next with
  | none => simp [ofRule, Decides, Rule.IsBranch, Rule.HasFault, hnext]
  | some next =>
      cases hrule : Predicate.ofRule false rule <;>
        simp [ofRule, Decides, Rule.IsBranch, Rule.HasFault, hnext, hrule, Except.map]

/-- The rules are checked in order; the error counts the rules in front of the one it names. -/
theorem decides_ofRules (name : String) (index : Nat) (rules : List Rule) :
    Decides (∀ rule ∈ rules, rule.IsBranch)
      (fun branches => branches.map (fun branch => some branch.next) = rules.map Rule.next)
      (fun e => ∃ i rule cause, e = DefinitionError.invalidRule name (index + i) cause ∧
        rules[i]? = some rule ∧ rule.HasFault cause)
      (ofRules name index rules) := by
  induction rules generalizing index with
  | nil => simp [ofRules, Decides]
  | cons rule rest ih =>
      have hfirst := (decides_ofRule rule).mapError (f := DefinitionError.invalidRule name index)
        (c := fun e => ∃ i found cause, e = .invalidRule name (index + i) cause ∧
          (rule :: rest)[i]? = some found ∧ found.HasFault cause)
        (fun cause hcause => ⟨0, rule, cause, rfl, rfl, hcause⟩)
      refine (hfirst.bind fun branch hbranch => ?_).of_iff List.forall_mem_cons.symm
      have hrest := (ih (index + 1)).map (f := fun branches => branch :: branches)
        (k := fun branches =>
          branches.map (fun branch => some branch.next) = (rule :: rest).map Rule.next)
        (fun branches hbranches => by simp [hbranches, hbranch])
      refine hrest.blame ?_
      rintro e ⟨i, found, cause, rfl, hfound, hcause⟩
      exact ⟨i + 1, found, cause, by rw [Nat.add_right_comm, Nat.add_assoc], hfound, hcause⟩

/-! ## The kinds of state -/

theorem explains_of_wayFault {name : String} {body : TaskDefinition} {fault : StateFault}
    (h : WayFault body.next body.ends fault) :
    Explains name (.task body) (.invalidState name fault) := by
  cases fault with
  | nextAndEnd | endWithoutNext | noTransition => exact ⟨rfl, h⟩
  | _ => exact h.elim

theorem decides_ofTask (name : String) (body : TaskDefinition) :
    Decides body.Valid (fun compiled => compiled.transition.target? = body.next)
      (Explains name (.task body)) (ofTask name body) := by
  have hparameters := (decides_parameters name body.parameters).blame
    (c := Explains name (.task body)) (by
      rintro e ⟨table, cause, rfl, hcause, hgiven⟩
      exact ⟨rfl, table, hgiven, hcause⟩)
  have hinput := (decides_inputPath name body.inputPath).blame (c := Explains name (.task body)) (by
      rintro e ⟨text, cause, rfl, hcause, hgiven⟩
      exact ⟨rfl, text, hcause, Or.inl ⟨rfl, hgiven⟩⟩)
  have hresult := (decides_resultPath name body.resultPath).blame
    (c := Explains name (.task body)) (by
      rintro e ⟨text, cause, rfl, hcause, hgiven⟩
      exact ⟨rfl, text, hcause, Or.inr ⟨rfl, hgiven⟩⟩)
  have htimeout := (decides_timeout name body.timeoutSeconds).blame
    (c := Explains name (.task body)) (by
      rintro e ⟨rfl, hzero⟩
      exact ⟨rfl, hzero⟩)
  have hway := (decides_transition name body.next body.ends).blame
    (c := Explains name (.task body)) (by
      rintro e ⟨fault, rfl, hfault⟩
      exact explains_of_wayFault hfault)
  have hfields := hparameters.bind fun parameters _ =>
    hinput.bind fun inputPath _ => hresult.bind fun resultPath _ =>
      htimeout.bind fun timeoutSeconds _ => hway.bind fun transition hnext =>
        Decides.ok (g := fun compiled : TaskState => compiled.transition.target? = body.next)
          (v := { resource := body.resource, parameters, inputPath, resultPath, timeoutSeconds,
                  transition }) hnext
  have hall := Decides.guard (c := Text.isBlankText body.resource = true)
      (e := .invalidState name .emptyResource)
      (fun h => ⟨rfl, by simpa [Text.isBlankText, HasFault] using h⟩)
    (Decides.guard (c := body.retry.isSome = true) (e := .invalidState name .retryGiven)
      (fun h => ⟨rfl, h⟩)
    (Decides.guard (c := body.catcher.isSome = true) (e := .invalidState name .catchGiven)
      (fun h => ⟨rfl, h⟩) hfields))
  refine hall.of_iff ?_
  constructor
  · rintro ⟨hresource, hretry, hcatch, hparameters, hinput, hresultPath, hseconds, hwayOn, -⟩
    exact ⟨by simpa [Text.isBlankText] using hresource, by simpa using hretry,
      by simpa using hcatch, hparameters, hinput, hresultPath, hseconds, hwayOn⟩
  · intro h
    exact ⟨by simpa [Text.isBlankText] using h.resource, by simp [h.retry], by simp [h.catcher],
      h.parameters, h.inputPath, h.resultPath, h.timeout, h.wayOn, trivial⟩

theorem decides_ofPass (name : String) (body : PassDefinition) :
    Decides body.Valid (fun compiled => compiled.transition.target? = body.next)
      (Explains name (.pass body)) (ofPass name body) := by
  have hresult := (decides_resultPath name body.resultPath).blame
    (c := Explains name (.pass body)) (by
      rintro e ⟨text, cause, rfl, hcause, hgiven⟩
      exact ⟨rfl, text, hcause, rfl, hgiven⟩)
  have hway := (decides_transition name body.next body.ends).blame
    (c := Explains name (.pass body)) (by
      rintro e ⟨fault, rfl, hfault⟩
      exact ⟨rfl, hfault⟩)
  have hall := hresult.bind fun resultPath _ => hway.bind fun transition hnext =>
    Decides.ok (g := fun compiled : PassState => compiled.transition.target? = body.next)
      (v := { result := body.result, resultPath, transition }) hnext
  refine hall.of_iff ?_
  exact ⟨fun h => ⟨h.1, h.2.1⟩, fun h => ⟨h.resultPath, h.wayOn, trivial⟩⟩

/-- The compiled choice has the targets of the written one, in the same order. -/
def SameTargets (body : ChoiceDefinition) (compiled : ChoiceState) : Prop :=
  body.fallback = some compiled.fallback ∧
    compiled.branches.map (fun branch => some branch.next) = body.choices.map Rule.next

theorem decides_ofChoice (name : String) (body : ChoiceDefinition) :
    Decides body.Valid (SameTargets body)
      (Explains name (.choice body)) (ofChoice name body) := by
  cases hfallback : body.fallback with
  | none =>
      have hnone : Decides False (SameTargets body) (Explains name (.choice body))
          (.error (.invalidState name .noFallback)) :=
        ⟨not_false, rfl, hfallback⟩
      have hall := Decides.guard (c := body.choices.isEmpty = true)
        (e := .invalidState name .noChoices)
        (fun h => ⟨rfl, by simpa [HasFault] using h⟩) hnone
      simp only [ofChoice, hfallback] at hall ⊢
      refine hall.of_iff ?_
      simp only [and_false, false_iff]
      intro h
      simpa [hfallback] using h.fallback
  | some fallback =>
      have hrules := (decides_ofRules name 0 body.choices).blame
        (c := Explains name (.choice body)) (by
          rintro e ⟨i, rule, cause, rfl, hrule, hcause⟩
          exact ⟨rfl, rule, by simpa using hrule, hcause⟩)
      have hall := Decides.guard (c := body.choices.isEmpty = true)
        (e := .invalidState name .noChoices) (fun h => ⟨rfl, by simpa [HasFault] using h⟩)
        (hrules.bind fun branches hbranches =>
          Decides.ok (g := SameTargets body) (v := { branches, fallback })
            ⟨hfallback, hbranches⟩)
      simp only [ofChoice, hfallback]
      refine hall.of_iff ?_
      constructor
      · rintro ⟨hchoices, hbranches, -⟩
        exact ⟨by simpa using hchoices, by simp [hfallback], hbranches⟩
      · intro h
        exact ⟨by simpa using h.choices, h.rules, trivial⟩

/-- A state compiles exactly when it is valid, and the compiled state names the same targets. -/
theorem decides_ofDefinition (name : String) (state : StateDefinition) :
    Decides state.Valid
      (fun compiled => ∀ field target, (field, target) ∈ compiled.targets ↔
        state.Names field target)
      (Explains name state) (ofDefinition name state) := by
  cases state with
  | task body =>
      refine (decides_ofTask name body).map fun compiled hcompiled field target => ?_
      rw [mem_targets_task, hcompiled]
      cases field <;> simp [Names]
  | pass body =>
      refine (decides_ofPass name body).map fun compiled hcompiled field target => ?_
      rw [mem_targets_pass, hcompiled]
      cases field <;> simp [Names]
  | choice body =>
      refine (decides_ofChoice name body).map fun compiled hcompiled field target => ?_
      obtain ⟨hfallback, hbranches⟩ := hcompiled
      rw [mem_targets_choice]
      cases field with
      | next => simp [Names]
      | fallback => simp [Names, hfallback]
      | rule index =>
          have hat := congrArg (fun nexts => nexts[index]?) hbranches
          simp only [List.getElem?_map] at hat
          simp only [Names, TargetField.rule.injEq, reduceCtorEq, false_and, or_false]
          constructor
          · rintro ⟨i, branch, rfl, hbranch, rfl⟩
            rw [hbranch] at hat
            obtain ⟨rule, hrule, hnext⟩ := Option.map_eq_some_iff.mp hat.symm
            exact ⟨rule, hrule, hnext⟩
          · rintro ⟨rule, hrule, hnext⟩
            rw [hrule] at hat
            obtain ⟨branch, hbranch, hbranchNext⟩ := Option.map_eq_some_iff.mp hat
            exact ⟨index, branch, rfl, hbranch, by simpa [hnext] using hbranchNext⟩

end State

end StateFlow
