import StateFlow.Proofs.Choice.Predicate

/-!
# Where choices lead

A compiled choice takes the way that the choice takes as it is written: to where the first true rule
leads, and to the fallback if no rule is true.
-/

namespace StateFlow

/-- The branch leads where the rule does, and its predicate has the truth of the rule. -/
def Branch.Follows (rule : Rule) (branch : Branch) : Prop :=
  rule.next = some branch.next ∧ Predicate.Means rule branch.rule

theorem Predicate.means_of_ofRule {nested : Bool} {rule : Rule} {predicate : Predicate}
    (h : ofRule nested rule = .ok predicate) : Means rule predicate := by
  have hdecides := decides_ofRule nested rule
  rw [h] at hdecides
  exact hdecides.2

namespace State

theorem follows_of_ofRule {rule : Rule} {branch : Branch} (h : ofRule rule = .ok branch) :
    Branch.Follows rule branch := by
  cases hnext : rule.next with
  | none =>
      rw [ofRule, hnext] at h
      cases h
  | some target =>
      cases hpredicate : Predicate.ofRule false rule with
      | error cause =>
          rw [ofRule, hnext, hpredicate] at h
          cases h
      | ok predicate =>
          rw [ofRule, hnext, hpredicate] at h
          cases h
          exact ⟨hnext, Predicate.means_of_ofRule hpredicate⟩

theorem follows_of_ofRules {name : String} {index : Nat} {rules : List Rule}
    {branches : List Branch} (h : ofRules name index rules = .ok branches) :
    List.Forall₂ Branch.Follows rules branches := by
  induction rules generalizing index branches with
  | nil =>
      cases h
      exact .nil
  | cons rule rest ih =>
      rw [ofRules] at h
      cases hbranch : ofRule rule with
      | error cause =>
          rw [hbranch] at h
          cases h
      | ok branch =>
          cases hrest : ofRules name (index + 1) rest with
          | error cause =>
              rw [hbranch, hrest] at h
              cases h
          | ok others =>
              rw [hbranch, hrest] at h
              cases h
              exact .cons (follows_of_ofRule hbranch) (ih hrest)

theorem follows_of_ofChoice {name : String} {body : ChoiceDefinition} {choice : ChoiceState}
    (h : ofChoice name body = .ok choice) :
    body.fallback = some choice.fallback ∧
      List.Forall₂ Branch.Follows body.choices choice.branches := by
  rw [ofChoice] at h
  split at h
  · cases h
  · cases hfallback : body.fallback with
    | none =>
        rw [hfallback] at h
        cases h
    | some fallback =>
        cases hbranches : ofRules name 0 body.choices with
        | error cause =>
            rw [hfallback, hbranches] at h
            cases h
        | ok branches =>
            rw [hfallback, hbranches] at h
            cases h
            exact ⟨rfl, follows_of_ofRules hbranches⟩

end State

namespace Branch

variable {rules : List Rule} {branches : List Branch} {i : Nat}

theorem exists_rule (h : List.Forall₂ Follows rules branches) {branch : Branch}
    (hbranch : branches[i]? = some branch) :
    ∃ rule, rules[i]? = some rule ∧ Follows rule branch := by
  obtain ⟨hi, rfl⟩ := List.getElem?_eq_some_iff.mp hbranch
  have hlength := List.Forall₂.length_eq h
  exact ⟨rules[i], List.getElem?_eq_getElem (hlength ▸ hi), h.get (hlength ▸ hi) hi⟩

theorem exists_branch (h : List.Forall₂ Follows rules branches) {rule : Rule}
    (hrule : rules[i]? = some rule) :
    ∃ branch, branches[i]? = some branch ∧ Follows rule branch := by
  obtain ⟨hi, rfl⟩ := List.getElem?_eq_some_iff.mp hrule
  have hlength := List.Forall₂.length_eq h
  exact ⟨branches[i], List.getElem?_eq_getElem (hlength ▸ hi), h.get hi (hlength ▸ hi)⟩

/-- A rule is not true where its branch is not. -/
theorem Follows.not_truth {rule : Rule} {branch : Branch} {document : Json}
    (h : Follows rule branch) (heval : branch.rule.eval document = false) :
    ¬ rule.Truth document true := by
  intro htruth
  rw [(h.2 document true).mp htruth] at heval
  cases heval

end Branch

/-- The way that a compiled choice takes is the way of the choice as it is written. -/
theorem ChoiceState.Takes.of_follows {body : ChoiceDefinition} {choice : ChoiceState}
    (hfallback : body.fallback = some choice.fallback)
    (hfollows : List.Forall₂ Branch.Follows body.choices choice.branches)
    {document : Json} {resolution : Resolution} (h : choice.Takes document resolution) :
    body.Takes document resolution := by
  obtain ⟨taken, target⟩ := resolution
  cases taken with
  | none =>
      obtain ⟨rfl, hfalse⟩ := h
      refine ⟨hfallback, fun rule hrule => ?_⟩
      obtain ⟨i, hi⟩ := List.mem_iff_getElem?.mp hrule
      obtain ⟨branch, hbranch, hfollow⟩ := Branch.exists_branch hfollows hi
      exact hfollow.not_truth (hfalse branch (List.mem_of_getElem? hbranch))
  | some i =>
      obtain ⟨branch, hbranch, heval, rfl, hearlier⟩ := h
      obtain ⟨rule, hrule, hnext, hmeans⟩ := Branch.exists_rule hfollows hbranch
      refine ⟨rule, hrule, (hmeans document true).mpr heval, hnext, fun j hj earlier hat => ?_⟩
      obtain ⟨other, hother, hfollow⟩ := Branch.exists_branch hfollows hat
      exact hfollow.not_truth (hearlier j hj other hother)

/-- A rule compiles if and only if it can be tested, and has then the truth of its predicate; and a
compiled choice takes the first of its rules that is true, else the fallback. -/
theorem Rule.compiles_iff_and_takes :
    (∀ (nested : Bool) (rule : Rule),
      (∃ predicate, Predicate.ofRule nested rule = .ok predicate) ↔ rule.Testable nested) ∧
    (∀ nested rule predicate, Predicate.ofRule nested rule = .ok predicate →
      ∀ document truth, rule.Truth document truth ↔ predicate.eval document = truth) ∧
    ∀ name body choice, State.ofChoice name body = .ok choice →
      ∀ document, body.Takes document (choice.resolve document) := by
  refine ⟨fun nested rule => (Predicate.decides_ofRule nested rule).isOk_iff,
    fun _ _ _ => Predicate.means_of_ofRule, ?_⟩
  intro name body choice hchoice document
  obtain ⟨hfallback, hfollows⟩ := State.follows_of_ofChoice hchoice
  exact (choice.takes_resolve document).of_follows hfallback hfollows

/-- Orders over their limit that are not settled are for review, those of gold customers are
fast. -/
def orders : ChoiceDefinition where
  choices :=
    [⟨none, none, some "Review",
      some [⟨none, some "$.amount", none, none, none, none,
          .ofList [("NumericGreaterThanPath", .string "$.limit")]⟩,
        ⟨none, none, none, none, none,
          some ⟨none, some "$.settled", none, none, none, none,
            .ofList [("BooleanEquals", .bool true)]⟩, ∅⟩],
      none, none, ∅⟩,
     ⟨none, some "$.tier", some "Fast", none, none, none,
      .ofList [("StringMatches", .string "gold*")]⟩]
  fallback := some "Slow"

/-- An order over its limit, with nothing said of its being settled. -/
def largeOrder : Json :=
  .object [("amount", .number (.int 250)), ("limit", .number (.int 100)),
    ("tier", .string "gold-1")]

/-- Both rules are true of the large order, and the first one is taken. -/
theorem Rule.orders_compile_and_take :
    (∀ rule ∈ orders.choices, rule.Testable false) ∧
      ∃ choice, State.ofChoice "Route" orders = .ok choice ∧
        choice.resolve largeOrder = ⟨some 0, "Review"⟩ ∧
        orders.Takes largeOrder ⟨some 0, "Review"⟩ := by
  obtain ⟨hcompiles, -, htakes⟩ := compiles_iff_and_takes
  have hresolve : (State.ofChoice "Route" orders).toOption.map (·.resolve largeOrder) =
      some ⟨some 0, "Review"⟩ := by decide +kernel
  have hdecides := State.decides_ofChoice "Route" orders
  cases hchoice : State.ofChoice "Route" orders with
  | error e =>
      rw [hchoice] at hresolve
      cases hresolve
  | ok choice =>
      rw [hchoice] at hresolve hdecides
      have hreview : choice.resolve largeOrder = ⟨some 0, "Review"⟩ := Option.some.inj hresolve
      refine ⟨fun rule hrule => (hcompiles false rule).mp (hdecides.1.rules rule hrule).2,
        choice, rfl, hreview, ?_⟩
      rw [← hreview]
      exact htakes "Route" orders choice hchoice largeOrder

end StateFlow
