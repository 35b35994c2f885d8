import StateFlow.Invocation.Function

/-!
# What the responses of functions mean

A response means failure or a value by its status, by the presence of the header with which a
function says that it failed, and by its body. The header is looked at as a text, and a value with
bytes that are not visible has none: such a header counts as absent. Every other response means what
it should.
-/

namespace StateFlow.RemoteFunction

open Http (Network Response Status)

/-- The function says that it failed: the header stands in the response, whatever its value. -/
def Reports (response : Response) : Prop :=
  ∃ header ∈ response.headers, header.1.toLower = errorHeader.toLower

/-- The header stands in the response, and its first value is made of visible bytes. -/
def Legible (response : Response) : Prop :=
  ∃ bytes, response.header? errorHeader = some bytes ∧ bytes.all Http.isVisible = true

/-- The value that a body stands for: a blank one for null, any other for the document it is. -/
inductive Denotes (body : String) : Json → Prop
  | blank (hblank : Text.isBlankText body = true) : Denotes body .null
  | document {value} (hshows : Text.isBlankText body = false)
      (hvalue : Json.ofText? body = some value) : Denotes body value

/-- The outcome is the one that a response has by its status, by whether the function has reported
that it failed, and by its body. -/
structure Documented (resource : String) (response : Response) (reported : Prop)
    (outcome : Outcome) : Prop where
  ok_iff : ∀ value, outcome = .ok value ↔
    response.status.isSuccess = true ∧ ¬ reported ∧ Denotes response.body value
  throttled_iff : (∃ reason, outcome = .error (.throttled resource reason)) ↔
    response.status = .tooManyRequests
  failed_iff : (∃ message, outcome = .error (.functionError resource message)) ↔
    response.status.isSuccess = false ∧ response.status ≠ .tooManyRequests ∨
      response.status.isSuccess = true ∧ reported
  invalid_iff : (∃ reason, outcome = .error (.invalidResponse resource reason)) ↔
    response.status.isSuccess = true ∧ ¬ reported ∧ ¬ ∃ value, Denotes response.body value

variable {resource : String} {response : Response}

/-! ## The header -/

theorem toLower_errorHeader : errorHeader.toLower = "x-function-error" := by decide +kernel

theorem reports_iff : Reports response ↔ ∃ bytes, response.header? errorHeader = some bytes := by
  rw [Response.header?, ← Option.isSome_iff_exists, Option.isSome_map, List.find?_isSome, Reports]
  simp only [decide_eq_true_eq]

theorem Legible.reports (h : Legible response) : Reports response := by
  obtain ⟨bytes, hbytes, -⟩ := h
  exact reports_iff.mpr ⟨bytes, hbytes⟩

theorem headerText?_isSome_iff :
    (response.headerText? errorHeader).isSome = true ↔ Legible response := by
  rw [Response.headerText?, Legible]
  cases response.header? errorHeader with
  | none => simp
  | some bytes =>
      cases bytes.all Http.isVisible <;> simp

/-! ## The outcome -/

theorem Denotes.unique {body : String} {value other : Json} (h : Denotes body value)
    (hother : Denotes body other) : value = other := by
  cases h with
  | blank hblank =>
      cases hother with
      | blank => rfl
      | document hshows => cases hblank.symm.trans hshows
  | document hshows hvalue =>
      cases hother with
      | blank hblank => cases hblank.symm.trans hshows
      | document _ hother => exact Option.some.inj (hvalue.symm.trans hother)

@[simp] theorem isSuccess_tooManyRequests : Status.tooManyRequests.isSuccess = false := rfl

theorem outcome_of_throttled (h : response.status = .tooManyRequests) :
    outcome resource response =
      .error (.throttled resource (response.status.describe response.body)) :=
  if_pos h

theorem outcome_of_failed (h : response.status.isSuccess = false)
    (hstatus : response.status ≠ .tooManyRequests) :
    outcome resource response =
      .error (.functionError resource (response.status.describe response.body)) := by
  rw [outcome, if_neg hstatus, h]
  rfl

theorem status_ne_of_isSuccess (h : response.status.isSuccess = true) :
    response.status ≠ .tooManyRequests := by
  intro hstatus
  rw [hstatus, isSuccess_tooManyRequests] at h
  cases h

theorem outcome_of_legible (resource : String) (h : response.status.isSuccess = true)
    (hlegible : Legible response) :
    ∃ message, outcome resource response = .error (.functionError resource message) := by
  obtain ⟨kind, hkind⟩ := Option.isSome_iff_exists.mp (headerText?_isSome_iff.mpr hlegible)
  refine ⟨kind ++ ": " ++ response.body, ?_⟩
  rw [outcome, if_neg (status_ne_of_isSuccess h), h, hkind]
  rfl

/-- Without a header that can be read, a success means what its body stands for. -/
theorem outcome_of_not_legible (resource : String) (h : response.status.isSuccess = true)
    (hlegible : ¬ Legible response) :
    (∃ value, Denotes response.body value ∧ outcome resource response = .ok value) ∨
      (¬ ∃ value, Denotes response.body value) ∧
        ∃ reason, outcome resource response = .error (.invalidResponse resource reason) := by
  have hnone : response.headerText? errorHeader = none := by
    rw [← Option.not_isSome_iff_eq_none, headerText?_isSome_iff]
    exact hlegible
  rw [outcome, if_neg (status_ne_of_isSuccess h), h, hnone]
  cases hblank : Text.isBlankText response.body with
  | true => exact .inl ⟨.null, .blank hblank, rfl⟩
  | false =>
      cases hvalue : Json.ofText? response.body with
      | some value => exact .inl ⟨value, .document hblank hvalue, rfl⟩
      | none =>
          refine .inr ⟨?_, _, rfl⟩
          rintro ⟨value, hdenotes⟩
          cases hdenotes with
          | blank hshows => cases hshows.symm.trans hblank
          | document _ hfound => cases hfound.symm.trans hvalue

/-- Every response means what it should, if only a header that can be read is taken for a report. -/
theorem documented_legible (resource : String) (response : Response) :
    Documented resource response (Legible response) (outcome resource response) := by
  by_cases hthrottled : response.status = .tooManyRequests
  · rw [outcome_of_throttled hthrottled]
    constructor <;> simp [hthrottled]
  · cases hsuccess : response.status.isSuccess with
    | false =>
        rw [outcome_of_failed hsuccess hthrottled]
        constructor <;> simp [hsuccess, hthrottled]
    | true =>
        by_cases hlegible : Legible response
        · obtain ⟨message, houtcome⟩ := outcome_of_legible resource hsuccess hlegible
          rw [houtcome]
          constructor <;> simp [hsuccess, hthrottled, hlegible]
        · obtain ⟨value, hvalue, houtcome⟩ | ⟨hnone, reason, houtcome⟩ :=
            outcome_of_not_legible resource hsuccess hlegible
          · rw [houtcome]
            constructor
            · intro other
              simp only [hsuccess, hlegible, not_false_eq_true, true_and, Except.ok.injEq]
              exact ⟨fun h => h ▸ hvalue, hvalue.unique⟩
            · simp [hthrottled]
            · simp [hsuccess, hlegible]
            · simpa [hlegible] using fun _ => ⟨value, hvalue⟩
          · rw [houtcome]
            constructor
            · intro other
              simpa [hlegible] using fun _ hother => hnone ⟨other, hother⟩
            · simp [hthrottled]
            · simp [hsuccess, hlegible]
            · simpa [hsuccess, hlegible] using hnone

/-- Whatever response a function gives, its outcome is the one that the status, the body and a
readable header ask for. It is the one that they ask for with the header whatever its value exactly
if no success carries the header with a value that cannot be read. -/
theorem outcome_documented_iff {σ : Type} {network : Network σ} {address resource : String}
    {world : σ} {now : Nat} {input : Json} {response : Response}
    (hresponse : (network.send world now ⟨address, resource, input⟩).1.response = some response) :
    let outcome := ((invoker network address).reply world now resource input).1.outcome
    Documented resource response (Legible response) outcome ∧
      (Documented resource response (Reports response) outcome ↔
        (response.status.isSuccess = true → Reports response → Legible response)) := by
  intro outcome
  have houtcome : outcome = RemoteFunction.outcome resource response := by
    simp only [outcome, invoker, hresponse]
  have hread := documented_legible resource response
  rw [← houtcome] at hread
  refine ⟨hread, fun h hsuccess hreports => ?_, fun h => ?_⟩
  · -- Both descriptions say when the function has failed.
    have hfailed := h.failed_iff.mpr (.inr ⟨hsuccess, hreports⟩)
    simpa [hsuccess] using hread.failed_iff.mp hfailed
  · cases hsuccess : response.status.isSuccess with
    | true =>
        have hsame : Legible response ↔ Reports response := ⟨Legible.reports, h hsuccess⟩
        rwa [propext hsame] at hread
    | false =>
        constructor
        · simpa [hsuccess] using hread.ok_iff
        · exact hread.throttled_iff
        · simpa [hsuccess] using hread.failed_iff
        · simpa [hsuccess] using hread.invalid_iff

/-- A network on which every post gets this response at once. -/
def answering (response : Response) : Network Unit where
  exchange world _ _ := (⟨0, some response⟩, world)
  freshId world := (default, world)

/-- A function that failed, and says so under a name in small letters and behind another header. -/
def crashed : Response :=
  ⟨⟨200⟩, [("Date", [49]), ("x-function-error", [67, 114, 97, 115, 104])], "null"⟩

/-- The header can be read, so the failed function is not taken for a success, whatever its body. -/
theorem outcome_documented_iff_of_crashed :
    ∃ message, ((invoker (answering crashed) "/f").reply () 0 "fn:resize" .null).1.outcome =
      .error (.functionError "fn:resize" message) := by
  have hresponse :
      ((answering crashed).send () 0 ⟨"/f", "fn:resize", .null⟩).1.response = some crashed := rfl
  obtain ⟨-, hiff⟩ := outcome_documented_iff hresponse
  have hheader : crashed.header? errorHeader = some [67, 114, 97, 115, 104] := by
    have hdate : "Date".toLower = "date" := by decide +kernel
    have hself : "x-function-error".toLower = "x-function-error" := by decide +kernel
    rw [Response.header?, toLower_errorHeader]
    simp [crashed, hdate, hself]
  have hlegible : Legible crashed := ⟨_, hheader, by decide⟩
  exact (hiff.mpr fun _ _ => hlegible).failed_iff.mpr (.inr ⟨rfl, hlegible.reports⟩)

/-- A failed function that says so in letters that are not ASCII: `é` in two bytes. -/
def accented : Response :=
  ⟨⟨200⟩, [("X-Function-Error", [0xC3, 0xA9])], "5"⟩

/-- The failed function is taken for a success. -/
theorem ok_of_accented :
    Reports accented ∧
      ((invoker (answering accented) "/f").reply () 0 "fn:resize" .null).1.outcome =
        .ok (.number (.int 5)) ∧
      ¬ Documented "fn:resize" accented (Reports accented)
        ((invoker (answering accented) "/f").reply () 0 "fn:resize" .null).1.outcome := by
  have hreports : Reports accented := ⟨_, List.mem_singleton_self _, rfl⟩
  have hheader : accented.headerText? errorHeader = none := by decide +kernel
  have houtcome : ((invoker (answering accented) "/f").reply () 0 "fn:resize" .null).1.outcome =
      .ok (.number (.int 5)) := by
    show outcome "fn:resize" accented = _
    rw [outcome, hheader]
    rfl
  refine ⟨hreports, houtcome, fun h => ?_⟩
  exact ((h.ok_iff _).mp houtcome).2.1 hreports

end StateFlow.RemoteFunction
