import StateFlow.Proofs.Choice.Comparison
import StateFlow.Proofs.Definition.Validity

/-!
# Rules as they are written

Which rules can be tested, and when a rule is true of a document, said of the rule as an author
writes it and without compiling it. A rule either combines other rules and holds nothing else, or it
has a variable and one operator with an operand that suits it. A test is false where its variable or
its operand path leads nowhere, unless it asks for presence.
-/

namespace StateFlow

/-- The operators that a rule may use. -/
inductive Operator where
  /-- The text at the variable is an instance of a pattern. -/
  | pattern
  | test (test : TypeTest)
  /-- The value at the variable is compared with the operand. -/
  | literal (comparison : Comparison)
  /-- The value at the variable is compared with the one at the operand. -/
  | path (comparison : Comparison)
deriving DecidableEq

/-- The operand is of the type of the comparison. -/
def Comparison.IsTypeOf : Comparison → Json → Prop
  | string _, operand => ∃ text, operand = .string text
  | numeric _, operand => ∃ number, operand = .number number
  | booleanEquals, operand => ∃ truth, operand = .bool truth

namespace Operator

def name : Operator → String
  | pattern => "StringMatches"
  | test t => t.name
  | literal c => c.name
  | path c => c.name ++ "Path"

/-- The operator may stand with this operand. -/
def Admits : Operator → Json → Prop
  | pattern, operand => ∃ text glob, operand = .string text ∧ Glob.parse text = .ok glob
  | test _, operand => ∃ expected, operand = .bool expected
  | literal c, operand => c.IsTypeOf operand
  | path _, operand => ∃ text, operand = .string text ∧ Path.IsText text

/-- The operator with its operand is true of what was found at the variable. -/
inductive Holds (document : Json) (found : Option Json) : Operator → Json → Prop
  | pattern {text pattern : String} {glob : Glob} (hfound : found = some (.string text))
      (hparse : Glob.parse pattern = .ok glob) (hmatch : glob.isMatch text = true) :
      Holds document found .pattern (.string pattern)
  | test {t : TypeTest} {expected : Bool} (hfinds : t.Finds expected found) :
      Holds document found (.test t) (.bool expected)
  | literal {c : Comparison} {actual operand : Json} (hfound : found = some actual)
      (hrelates : c.Relates actual operand) : Holds document found (.literal c) operand
  | path {c : Comparison} {actual operand : Json} {text : String} {place : Path}
      (hfound : found = some actual) (hparse : Path.parse text = .ok place)
      (hoperand : place.get? document = some operand) (hrelates : c.Relates actual operand) :
      Holds document found (.path c) (.string text)

end Operator

namespace Rule

/-- The rule can be tested; a nested one leads nowhere of its own. -/
inductive Testable : (nested : Bool) → Rule → Prop
  | all {nested comment next rules} (hnext : nested = true → next = none) (hrules : rules ≠ [])
      (htestable : ∀ rule ∈ rules, Testable true rule) :
      Testable nested ⟨comment, none, next, some rules, none, none, ∅⟩
  | any {nested comment next rules} (hnext : nested = true → next = none) (hrules : rules ≠ [])
      (htestable : ∀ rule ∈ rules, Testable true rule) :
      Testable nested ⟨comment, none, next, none, some rules, none, ∅⟩
  | negation {nested comment next rule} (hnext : nested = true → next = none)
      (htestable : Testable true rule) :
      Testable nested ⟨comment, none, next, none, none, some rule, ∅⟩
  | leaf {nested comment next subject operators operator operand}
      (hnext : nested = true → next = none) (hsubject : Path.IsText subject)
      (hoperators : operators.entries = [(Operator.name operator, operand)])
      (hadmits : operator.Admits operand) :
      Testable nested ⟨comment, some subject, next, none, none, none, operators⟩

/-- The truth of a rule in a document. -/
inductive Truth (document : Json) : Rule → Bool → Prop
  | all_true {comment next rules} (htrue : ∀ rule ∈ rules, Truth document rule true) :
      Truth document ⟨comment, none, next, some rules, none, none, ∅⟩ true
  | all_false {comment next rules rule} (hrule : rule ∈ rules)
      (hfalse : Truth document rule false) :
      Truth document ⟨comment, none, next, some rules, none, none, ∅⟩ false
  | any_true {comment next rules rule} (hrule : rule ∈ rules) (htrue : Truth document rule true) :
      Truth document ⟨comment, none, next, none, some rules, none, ∅⟩ true
  | any_false {comment next rules} (hfalse : ∀ rule ∈ rules, Truth document rule false) :
      Truth document ⟨comment, none, next, none, some rules, none, ∅⟩ false
  | negation {comment next rule truth} (hrule : Truth document rule truth) :
      Truth document ⟨comment, none, next, none, none, some rule, ∅⟩ (!truth)
  | leaf {comment next subject place operators operator operand truth}
      (hsubject : Path.parse subject = .ok place)
      (hoperators : operators.entries = [(Operator.name operator, operand)])
      (hholds : operator.Holds document (place.get? document) operand ↔ truth = true) :
      Truth document ⟨comment, some subject, next, none, none, none, operators⟩ truth

/-- What holds of a rule if it holds of the rules within it, holds of every rule. -/
theorem induction {motive : Rule → Prop}
    (step : ∀ rule : Rule, (∀ rules, rule.all = some rules → ∀ child ∈ rules, motive child) →
      (∀ rules, rule.any = some rules → ∀ child ∈ rules, motive child) →
      (∀ child, rule.negation = some child → motive child) → motive rule)
    (rule : Rule) : motive rule := by
  -- Beside the motive itself, one for each way in which rules stand within a rule.
  refine @Rule.rec motive
    (fun rules? => ∀ rules, rules? = some rules → ∀ child ∈ rules, motive child)
    (fun child? => ∀ child, child? = some child → motive child)
    (fun rules => ∀ child ∈ rules, motive child) ?_ ?_ ?_ ?_ ?_ ?_ ?_ rule
  · intro comment subject next all any negation operators hall hany hnegation
    exact step _ hall hany hnegation
  · intro rules h
    cases h
  · intro rules hrules found h
    cases h
    exact hrules
  · intro child h
    cases h
  · intro child hchild found h
    cases h
    exact hchild
  · intro child h
    cases h
  · intro first rest hfirst hrest
    exact List.forall_mem_cons.mpr ⟨hfirst, hrest⟩

end Rule

/-- The way that a choice takes on a document: to where the first true rule leads, and to the
fallback if no rule is true. -/
def ChoiceDefinition.Takes (choice : ChoiceDefinition) (document : Json) : Resolution → Prop
  | ⟨some i, target⟩ =>
    ∃ rule, choice.choices[i]? = some rule ∧ rule.Truth document true ∧ rule.next = some target ∧
      ∀ j < i, ∀ earlier, choice.choices[j]? = some earlier → ¬ earlier.Truth document true
  | ⟨none, target⟩ =>
    choice.fallback = some target ∧ ∀ rule ∈ choice.choices, ¬ rule.Truth document true

end StateFlow
