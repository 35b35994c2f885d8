import Mathlib.Data.List.Nodup
import StateFlow.Proofs.Choice.Rule
import StateFlow.Proofs.Machine.State

/-!
# What rules compile to

A rule compiles exactly when it can be tested, and the predicate is true of exactly the documents of
which the rule is true as it is written. So a choice takes the first of its rules that is true.

## Implementation notes

The compiler looks names of operators up in several lists, one after the other. Since no two
operators have one name, each name is found in the list of its operator and in none in front of it.
Everything else is an induction on the rule, along the steps of the compiler.
-/

namespace StateFlow

/-! ## The names of operators -/

theorem Comparison.ofName?_name (c : Comparison) : ofName? c.name = some c := by
  cases c with
  | string r | numeric r => cases r <;> rfl
  | booleanEquals => rfl

theorem TypeTest.ofName?_name (t : TypeTest) : ofName? t.name = some t := by
  cases t <;> rfl

theorem Comparison.name_of_ofName? {text : String} {c : Comparison} (h : ofName? text = some c) :
    text = c.name := by
  have hname := List.find?_some h
  exact (of_decide_eq_true hname).symm

theorem TypeTest.name_of_ofName? {text : String} {t : TypeTest} (h : ofName? text = some t) :
    text = t.name := by
  have hname := List.find?_some h
  exact (of_decide_eq_true hname).symm

namespace Operator

theorem test_ne (t : TypeTest) : t.name ≠ "StringMatches" := by
  cases t <;> decide

theorem literal_ne (c : Comparison) :
    c.name ≠ "StringMatches" ∧ TypeTest.ofName? c.name = none := by
  cases c with
  | string r | numeric r => cases r <;> decide
  | booleanEquals => decide

theorem path_ne (c : Comparison) :
    c.name ++ "Path" ≠ "StringMatches" ∧ TypeTest.ofName? (c.name ++ "Path") = none ∧
      Comparison.ofName? (c.name ++ "Path") = none := by
  cases c with
  | string r | numeric r => cases r <;> decide
  | booleanEquals => decide

end Operator

theorem Predicate.withoutPath?_eq_some_iff {text base : String} :
    withoutPath? text = some base ↔ text = base ++ "Path" := by
  have hend : "Path".toList = ['P', 'a', 't', 'h'] := by decide
  constructor
  · intro h
    rw [withoutPath?] at h
    split at h
    · next rest hreverse =>
        cases h
        have htext := congrArg List.reverse hreverse
        apply String.toList_inj.mp
        rw [List.reverse_reverse] at htext
        rw [htext, String.toList_append, hend]
        simp
    · cases h
  · rintro rfl
    rw [withoutPath?, String.toList_append, hend]
    simp

def Operator.list : List Operator :=
  pattern :: TypeTest.list.map test ++ Comparison.list.map literal ++ Comparison.list.map path

theorem Operator.mem_list (operator : Operator) : operator ∈ list := by
  have htests (t : TypeTest) : t ∈ TypeTest.list := by cases t <;> decide
  have hcomparisons (c : Comparison) : c ∈ Comparison.list := by
    cases c with
    | string r | numeric r => cases r <;> decide
    | booleanEquals => decide
  cases operator <;> simp [list, htests, hcomparisons]

/-- No two operators have one name. -/
theorem Operator.name_injective {o p : Operator} (h : o.name = p.name) : o = p :=
  have hnodup : (list.map name).Nodup := by decide
  List.inj_on_of_nodup_map hnodup (mem_list o) (mem_list p) h

namespace Predicate

/-! ## Leaves -/

section Leaf

variable {document operand : Json} {subject : Path}

theorem eval_isMatch_iff {glob : Glob} : (isMatch subject glob).eval document = true ↔
    ∃ text, subject.get? document = some (.string text) ∧ glob.isMatch text = true := by
  rw [eval, Option.any_eq_true]
  constructor
  · rintro ⟨text, htext, hmatch⟩
    obtain ⟨value, hvalue, hstring⟩ := Option.bind_eq_some_iff.mp htext
    cases value with
    | string found =>
        cases hstring
        exact ⟨text, hvalue, hmatch⟩
    | _ => cases hstring
  · rintro ⟨text, hfound, hmatch⟩
    exact ⟨text, by rw [hfound]; rfl, hmatch⟩

theorem eval_compare_iff {comparison : Comparison} {operand : Operand} :
    (compare subject comparison operand).eval document = true ↔
      ∃ actual expected, subject.get? document = some actual ∧
        operand.value? document = some expected ∧ comparison.Relates actual expected := by
  rw [eval]
  cases subject.get? document with
  | none => simp
  | some actual =>
      cases operand.value? document with
      | none => simp
      | some expected => simp [Comparison.holds_iff]

theorem admits_iff {comparison : Comparison} :
    comparison.admits operand = true ↔ comparison.IsTypeOf operand := by
  cases comparison <;> cases operand <;>
    simp [Comparison.admits, Comparison.IsTypeOf, Json.isString, Json.isNumber, Json.isBool]

/-- The compiled test is true in the documents in which the operator holds. -/
def Tests (subject : Path) (operator : Operator) (operand : Json) (predicate : Predicate) : Prop :=
  ∀ document, predicate.eval document = true ↔
    operator.Holds document (subject.get? document) operand

theorem tests_isMatch {text : String} {glob : Glob} (hparse : Glob.parse text = .ok glob) :
    Tests subject .pattern (.string text) (isMatch subject glob) := by
  intro document
  rw [eval_isMatch_iff]
  constructor
  · rintro ⟨found, hfound, hmatch⟩
    exact .pattern hfound hparse hmatch
  · intro hholds
    cases hholds with
    | @pattern found _ other hfound hother hmatch =>
        obtain rfl : other = glob := Except.ok.inj (hother.symm.trans hparse)
        exact ⟨found, hfound, hmatch⟩

theorem tests_typeTest {test : TypeTest} {expected : Bool} :
    Tests subject (.test test) (.bool expected) (typeTest subject test expected) := by
  intro document
  rw [eval, TypeTest.holds_iff]
  constructor
  · intro hfinds
    exact .test hfinds
  · intro hholds
    cases hholds with
    | test hfinds => exact hfinds

theorem tests_literal {comparison : Comparison} :
    Tests subject (.literal comparison) operand
      (compare subject comparison (.literal operand)) := by
  intro document
  rw [eval_compare_iff]
  constructor
  · rintro ⟨actual, expected, hfound, hoperand, hrelates⟩
    cases hoperand
    exact .literal hfound hrelates
  · intro hholds
    cases hholds with
    | @literal _ actual _ hfound hrelates => exact ⟨actual, operand, hfound, rfl, hrelates⟩

theorem tests_path {comparison : Comparison} {text : String} {place : Path}
    (hparse : Path.parse text = .ok place) :
    Tests subject (.path comparison) (.string text)
      (compare subject comparison (.path place)) := by
  intro document
  rw [eval_compare_iff]
  constructor
  · rintro ⟨actual, expected, hfound, hoperand, hrelates⟩
    exact .path hfound hparse hoperand hrelates
  · intro hholds
    cases hholds with
    | @path _ actual operand _ other hfound hother hoperand hrelates =>
        obtain rfl : other = place := Except.ok.inj (hother.symm.trans hparse)
        exact ⟨actual, operand, hfound, hoperand, hrelates⟩

/-- An operator compiles with an operand that it admits, to a test that is true where it holds. -/
theorem decides_ofOperator (subject : Path) (operator : Operator) (operand : Json) :
    Decides (operator.Admits operand) (Tests subject operator operand) (fun _ => True)
      (ofOperator subject operator.name operand) := by
  unfold ofOperator
  cases operator with
  | pattern =>
      rw [Operator.name, if_pos rfl]
      cases operand with
      | string text =>
          cases hparse : Glob.parse text with
          | ok glob =>
              simp only [hparse]
              exact ⟨⟨text, glob, rfl, hparse⟩, tests_isMatch hparse⟩
          | error cause =>
              simp only [hparse]
              refine ⟨?_, trivial⟩
              rintro ⟨other, glob, ⟨⟩, hother⟩
              rw [hparse] at hother
              cases hother
      | _ => exact ⟨by rintro ⟨text, glob, ⟨⟩, -⟩, trivial⟩
  | test t =>
      simp only [Operator.name, if_neg (Operator.test_ne t), TypeTest.ofName?_name]
      cases operand with
      | bool expected => exact ⟨⟨expected, rfl⟩, tests_typeTest⟩
      | _ => exact ⟨by rintro ⟨expected, ⟨⟩⟩, trivial⟩
  | literal c =>
      obtain ⟨hpattern, htest⟩ := Operator.literal_ne c
      simp only [Operator.name, if_neg hpattern, htest, Comparison.ofName?_name]
      split
      · next hadmits => exact ⟨admits_iff.mp hadmits, tests_literal⟩
      · next hadmits => exact ⟨fun h => hadmits (admits_iff.mpr h), trivial⟩
  | path c =>
      obtain ⟨hpattern, htest, hliteral⟩ := Operator.path_ne c
      have hbase : withoutPath? (c.name ++ "Path") = some c.name :=
        withoutPath?_eq_some_iff.mpr rfl
      simp only [Operator.name, if_neg hpattern, htest, hliteral, hbase, Option.bind_eq_bind,
        Option.bind_some, Comparison.ofName?_name]
      cases operand with
      | string text =>
          cases hparse : Path.parse text with
          | ok place =>
              simp only [hparse]
              exact ⟨⟨text, rfl, place, hparse⟩, tests_path hparse⟩
          | error cause =>
              simp only [hparse]
              refine ⟨?_, trivial⟩
              rintro ⟨other, ⟨⟩, place, hother⟩
              rw [hparse] at hother
              cases hother
      | _ => exact ⟨by rintro ⟨text, ⟨⟩, -⟩, trivial⟩

/-- Any other name is refused. -/
theorem ofOperator_unknown {name : String} (h : ∀ operator : Operator, operator.name ≠ name) :
    ofOperator subject name operand = .error (.unknownOperator name) := by
  have hpattern : name ≠ "StringMatches" := fun hname => h .pattern hname.symm
  have htest : TypeTest.ofName? name = none :=
    Option.eq_none_iff_forall_ne_some.mpr fun t ht =>
      h (.test t) (TypeTest.name_of_ofName? ht).symm
  have hliteral : Comparison.ofName? name = none :=
    Option.eq_none_iff_forall_ne_some.mpr fun c hc =>
      h (.literal c) (Comparison.name_of_ofName? hc).symm
  have hpath : (withoutPath? name >>= Comparison.ofName?) = none := by
    refine Option.eq_none_iff_forall_ne_some.mpr fun c hc => ?_
    obtain ⟨base, hbase, hname⟩ := Option.bind_eq_some_iff.mp hc
    refine h (.path c) ?_
    rw [withoutPath?_eq_some_iff.mp hbase, Comparison.name_of_ofName? hname]
    rfl
  unfold ofOperator
  simp only [if_neg hpattern, htest, hliteral, hpath]

end Leaf

/-! ## Rules -/

/-- The predicate has the truth of the rule in every document. -/
def Means (rule : Rule) (predicate : Predicate) : Prop :=
  ∀ document truth, rule.Truth document truth ↔ predicate.eval document = truth

section Rule

variable {comment next : Option String} {nested : Bool}

/-- A rule with a variable and an operator has the truth of its test. -/
theorem means_of_tests {subject : String} {place : Path} {operator : Operator} {operand : Json}
    {operators : NameTable Json} {predicate : Predicate} (hsubject : Path.parse subject = .ok place)
    (hoperators : operators.entries = [(operator.name, operand)])
    (htests : Tests place operator operand predicate) :
    Means ⟨comment, some subject, next, none, none, none, operators⟩ predicate := by
  intro document truth
  constructor
  · intro htruth
    cases htruth with
    | @leaf _ _ _ other _ p value _ hother hentries hholds =>
        obtain rfl : other = place := Except.ok.inj (hother.symm.trans hsubject)
        have hentry := List.head_eq_of_cons_eq (hentries.symm.trans hoperators)
        obtain ⟨hname, rfl⟩ := Prod.mk.inj hentry
        obtain rfl := Operator.name_injective hname
        exact Bool.eq_iff_iff.mpr ((htests document).trans hholds)
  · rintro rfl
    exact .leaf hsubject hoperators (htests document).symm

theorem decides_ofLeaf (hnext : nested = true → next = none) (subject : Option String)
    (operators : NameTable Json) :
    Decides (Rule.Testable nested ⟨comment, subject, next, none, none, none, operators⟩)
      (Means ⟨comment, subject, next, none, none, none, operators⟩) (fun _ => True)
      (ofLeaf subject operators) := by
  unfold ofLeaf
  cases subject with
  | none => exact ⟨nofun, trivial⟩
  | some text =>
      cases hparse : Path.parse text with
      | error cause =>
          simp only [hparse]
          refine ⟨?_, trivial⟩
          rintro (- | - | - | ⟨-, ⟨place, hplace⟩, -, -⟩)
          rw [hparse] at hplace
          cases hplace
      | ok place =>
          simp only [hparse]
          -- A rule that can be tested has one entry, and that one is an operator's.
          have hentry (htestable : Rule.Testable nested
              ⟨comment, some text, next, none, none, none, operators⟩) :
              ∃ operator operand, operators.entries = [(Operator.name operator, operand)] ∧
                operator.Admits operand := by
            cases htestable with
            | leaf _ _ hoperators hadmits => exact ⟨_, _, hoperators, hadmits⟩
          match hentries : operators.entries with
          | [] =>
              refine ⟨fun h => ?_, trivial⟩
              obtain ⟨operator, operand, hone, -⟩ := hentry h
              rw [hentries] at hone
              cases hone
          | [(name, operand)] =>
              by_cases hname : ∃ operator : Operator, operator.name = name
              · obtain ⟨operator, rfl⟩ := hname
                refine (decides_ofOperator place operator operand).imp ?_
                  (fun _ => means_of_tests hparse hentries) (fun _ h => h)
                constructor
                · intro hadmits
                  exact .leaf hnext ⟨place, hparse⟩ hentries hadmits
                · intro h
                  obtain ⟨p, value, hone, hadmits⟩ := hentry h
                  rw [hentries] at hone
                  obtain ⟨hsame, rfl⟩ := Prod.mk.inj (List.head_eq_of_cons_eq hone)
                  obtain rfl := Operator.name_injective hsame
                  exact hadmits
              · simp only [ofOperator_unknown (not_exists.mp hname)]
                refine ⟨fun h => ?_, trivial⟩
                obtain ⟨p, value, hone, -⟩ := hentry h
                rw [hentries] at hone
                obtain ⟨hsame, -⟩ := Prod.mk.inj (List.head_eq_of_cons_eq hone)
                exact hname ⟨p, hsame.symm⟩
          | first :: second :: rest =>
              refine ⟨fun h => ?_, trivial⟩
              obtain ⟨operator, operand, hone, -⟩ := hentry h
              rw [hentries] at hone
              cases hone

variable {rules : List Rule} {predicates : List Predicate}

theorem decides_ofRules (hrules : ∀ rule ∈ rules,
      Decides (rule.Testable true) (Means rule) (fun _ => True) (ofRule true rule)) :
    Decides (∀ rule ∈ rules, rule.Testable true) (List.Forall₂ Means rules) (fun _ => True)
      (ofRules rules) := by
  induction rules with
  | nil => exact ⟨fun rule h => absurd h List.not_mem_nil, .nil⟩
  | cons rule rest ih =>
      obtain ⟨hrule, hrest⟩ := List.forall_mem_cons.mp hrules
      rw [ofRules]
      refine (hrule.bind fun predicate hpredicate =>
        (ih hrest).map (f := fun others => predicate :: others)
          fun others => List.Forall₂.cons hpredicate).of_iff ?_
      rw [List.forall_mem_cons]

theorem evalAll_eq_true_iff {document : Json} (h : List.Forall₂ Means rules predicates) :
    evalAll document predicates = true ↔ ∀ rule ∈ rules, rule.Truth document true := by
  induction h with
  | nil => simp [evalAll]
  | cons hmeans _ ih => rw [evalAll, Bool.and_eq_true, List.forall_mem_cons, ih, hmeans]

theorem evalAll_eq_false_iff {document : Json} (h : List.Forall₂ Means rules predicates) :
    evalAll document predicates = false ↔ ∃ rule ∈ rules, rule.Truth document false := by
  induction h with
  | nil => simp [evalAll]
  | cons hmeans _ ih => rw [evalAll, Bool.and_eq_false_iff, List.exists_mem_cons_iff, ih, hmeans]

theorem evalAny_eq_true_iff {document : Json} (h : List.Forall₂ Means rules predicates) :
    evalAny document predicates = true ↔ ∃ rule ∈ rules, rule.Truth document true := by
  induction h with
  | nil => simp [evalAny]
  | cons hmeans _ ih => rw [evalAny, Bool.or_eq_true, List.exists_mem_cons_iff, ih, hmeans]

theorem evalAny_eq_false_iff {document : Json} (h : List.Forall₂ Means rules predicates) :
    evalAny document predicates = false ↔ ∀ rule ∈ rules, rule.Truth document false := by
  induction h with
  | nil => simp [evalAny]
  | cons hmeans _ ih => rw [evalAny, Bool.or_eq_false_iff, List.forall_mem_cons, ih, hmeans]

theorem means_all (h : List.Forall₂ Means rules predicates) :
    Means ⟨comment, none, next, some rules, none, none, ∅⟩ (all predicates) := by
  intro document truth
  rw [eval]
  constructor
  · intro htruth
    cases htruth with
    | all_true htrue => exact (evalAll_eq_true_iff h).mpr htrue
    | all_false hrule hfalse => exact (evalAll_eq_false_iff h).mpr ⟨_, hrule, hfalse⟩
  · intro heval
    cases truth with
    | true => exact .all_true ((evalAll_eq_true_iff h).mp heval)
    | false =>
        obtain ⟨rule, hrule, hfalse⟩ := (evalAll_eq_false_iff h).mp heval
        exact .all_false hrule hfalse

theorem means_any (h : List.Forall₂ Means rules predicates) :
    Means ⟨comment, none, next, none, some rules, none, ∅⟩ (any predicates) := by
  intro document truth
  rw [eval]
  constructor
  · intro htruth
    cases htruth with
    | any_true hrule htrue => exact (evalAny_eq_true_iff h).mpr ⟨_, hrule, htrue⟩
    | any_false hfalse => exact (evalAny_eq_false_iff h).mpr hfalse
  · intro heval
    cases truth with
    | true =>
        obtain ⟨rule, hrule, htrue⟩ := (evalAny_eq_true_iff h).mp heval
        exact .any_true hrule htrue
    | false => exact .any_false ((evalAny_eq_false_iff h).mp heval)

theorem means_negation {rule : Rule} {predicate : Predicate} (h : Means rule predicate) :
    Means ⟨comment, none, next, none, none, some rule, ∅⟩ (negation predicate) := by
  intro document truth
  rw [eval]
  constructor
  · intro htruth
    cases htruth with
    | negation hrule => rw [(h document _).mp hrule]
  · rintro rfl
    exact .negation ((h document _).mpr rfl)

theorem alone_iff {subject : Option String} {operators : NameTable Json} :
    (subject.isNone && operators.isEmpty) = true ↔ subject = none ∧ operators = ∅ := by
  rw [Bool.and_eq_true, Option.isNone_iff_eq_none, NameTable.isEmpty, List.isEmpty_iff]
  refine and_congr_right fun _ => ?_
  constructor
  · intro h
    exact NameTable.ext h
  · rintro rfl
    rfl

/-- A combinator is compiled if it stands alone. -/
theorem decides_alone {subject : Option String} {operators : NameTable Json} {rule : Rule}
    {checked : Except RuleError Predicate}
    (halone : rule.Testable nested → subject = none ∧ operators = ∅)
    (hchecked : subject = none → operators = ∅ →
      Decides (rule.Testable nested) (Means rule) (fun _ => True) checked) :
    Decides (rule.Testable nested) (Means rule) (fun _ => True)
      (if (!(subject.isNone && operators.isEmpty)) = true then .error .mixed else checked) := by
  split
  · next h =>
      refine ⟨fun htestable => ?_, trivial⟩
      rw [alone_iff.mpr (halone htestable)] at h
      cases h
  · next h =>
      rw [Bool.not_eq_true', Bool.not_eq_false, alone_iff] at h
      exact hchecked h.1 h.2

theorem testable_all_iff (hnext : nested = true → next = none) :
    Rule.Testable nested ⟨comment, none, next, some rules, none, none, ∅⟩ ↔
      rules ≠ [] ∧ ∀ rule ∈ rules, rule.Testable true := by
  constructor
  · intro h
    cases h with
    | all _ hne htestable => exact ⟨hne, htestable⟩
  · rintro ⟨hne, htestable⟩
    exact .all hnext hne htestable

theorem testable_any_iff (hnext : nested = true → next = none) :
    Rule.Testable nested ⟨comment, none, next, none, some rules, none, ∅⟩ ↔
      rules ≠ [] ∧ ∀ rule ∈ rules, rule.Testable true := by
  constructor
  · intro h
    cases h with
    | any _ hne htestable => exact ⟨hne, htestable⟩
  · rintro ⟨hne, htestable⟩
    exact .any hnext hne htestable

/-- A list of rules is compiled rule by rule, if there is one. -/
theorem decides_list {rule : Rule} {combinator : String} {combine : List Predicate → Predicate}
    (hrules : ∀ rule ∈ rules,
      Decides (rule.Testable true) (Means rule) (fun _ => True) (ofRule true rule))
    (htestable : rule.Testable nested ↔ rules ≠ [] ∧ ∀ rule ∈ rules, rule.Testable true)
    (hmeans : ∀ predicates, List.Forall₂ Means rules predicates → Means rule (combine predicates)) :
    Decides (rule.Testable nested) (Means rule) (fun _ => True)
      (if rules.isEmpty = true then .error (.emptyList combinator)
        else (ofRules rules).map combine) := by
  have hcompiled := (decides_ofRules hrules).map hmeans
  refine (hcompiled.guard (c := rules.isEmpty = true) fun _ => trivial).of_iff ?_
  rw [List.isEmpty_iff]
  exact htestable.symm

theorem decides_negation {rule : Rule} (hnext : nested = true → next = none)
    (hrule : Decides (rule.Testable true) (Means rule) (fun _ => True) (ofRule true rule)) :
    Decides (Rule.Testable nested ⟨comment, none, next, none, none, some rule, ∅⟩)
      (Means ⟨comment, none, next, none, none, some rule, ∅⟩) (fun _ => True)
      ((ofRule true rule).map negation) := by
  refine (hrule.map fun _ => means_negation).of_iff ?_
  constructor
  · intro htestable
    exact .negation hnext htestable
  · intro h
    cases h with
    | negation _ htestable => exact htestable

/-- A rule compiles if and only if it can be tested, to a predicate with its truth. -/
theorem decides_ofRule (nested : Bool) (rule : Rule) :
    Decides (rule.Testable nested) (Means rule) (fun _ => True) (ofRule nested rule) := by
  induction rule using Rule.induction generalizing nested with
  | step rule hall hany hnegation =>
      obtain ⟨comment, subject, next, all?, any?, negation?, operators⟩ := rule
      rw [ofRule]
      split
      · next h =>
          rw [Bool.and_eq_true, Option.isSome_iff_ne_none] at h
          refine ⟨fun htestable => ?_, trivial⟩
          cases htestable <;> exact h.2 (‹nested = true → next = none› h.1)
      · next h =>
          have hnext : nested = true → next = none := by
            intro hnested
            rw [hnested, Bool.true_and, Bool.not_eq_true, Option.isSome_eq_false_iff,
              Option.isNone_iff_eq_none] at h
            exact h
          -- Of the eight ways to have combinators, four have at most one of them.
          rcases all? with - | rules <;> rcases any? with - | others <;>
            rcases negation? with - | child
          · exact decides_ofLeaf hnext subject operators
          · refine decides_alone (by rintro ⟨⟩; exact ⟨rfl, rfl⟩) ?_
            rintro rfl rfl
            exact decides_negation hnext (hnegation child rfl true)
          · refine decides_alone (by rintro ⟨⟩; exact ⟨rfl, rfl⟩) ?_
            rintro rfl rfl
            exact decides_list (fun rule hrule => hany others rfl rule hrule true)
              (testable_any_iff hnext) fun _ => means_any
          · exact ⟨nofun, trivial⟩
          · refine decides_alone (by rintro ⟨⟩; exact ⟨rfl, rfl⟩) ?_
            rintro rfl rfl
            exact decides_list (fun rule hrule => hall rules rfl rule hrule true)
              (testable_all_iff hnext) fun _ => means_all
          · exact ⟨nofun, trivial⟩
          · exact ⟨nofun, trivial⟩
          · exact ⟨nofun, trivial⟩

end Rule

end Predicate

end StateFlow
