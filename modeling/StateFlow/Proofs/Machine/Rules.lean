import StateFlow.Proofs.Choice.Predicate
import StateFlow.Proofs.Machine.Fidelity

/-!
# The rules of a text

Every rule object of a text that was read and compiled tells one combinator of rules, or a variable
and one operator. The combinator and the variable stand there once. The operator may stand there
several times: the rule that is read keeps the last of its operands, and nothing is said of the
others. So nothing that stands in a rule is passed over exactly if no name stands in it twice.
-/

namespace StateFlow

open Source (Holds asList decodeAll)
open Source.Decoded

namespace Rule

/-- What the members tell is one combinator of rules, or a variable and one operator that stands
there so many times. -/
inductive Tells (members : List (String × Source)) (times : Nat) : Prop
  | combinator {name : String} (hname : name ∈ ["And", "Or", "Not"])
      (htold : Entries.names (told members) = [name]) : Tells members times
  | leaf {operator : String} (hname : operator ∉ reservedNames)
      (htold : (Entries.names (told members)).Perm ("Variable" :: List.replicate times operator)) :
      Tells members times

/-- The sources of a rule and of the rules within it. -/
inductive Within (part : Source) : Source → Prop
  | self : Within part part
  | item {members : List (String × Source)} {whole complete : Bool} {name : String}
      {items : List Source} {child : Source} (hname : name ∈ ["And", "Or"])
      (hmember : (name, .list items complete) ∈ members) (hitem : child ∈ items)
      (h : Within part child) : Within part (.record members whole)
  | operand {members : List (String × Source)} {whole : Bool} {child : Source}
      (hmember : ("Not", child) ∈ members) (h : Within part child) :
      Within part (.record members whole)

end Rule

/-- The members are those of a rule object of a text: of a rule of a choice, or of one within such
a rule. -/
inductive Source.HasRule (text : Source) (members : List (String × Source)) : Prop
  | mk {states : List (String × Source)} {rules : List Source} {whole complete last : Bool}
      {state : String × Source} {rule : Source}
      (hstates : text.field? Definition.fieldNames "States" = some (.record states whole))
      (hstate : state ∈ states)
      (htype : state.2.field? StateKind.choice.fieldNames "Type" = some (.text "Choice"))
      (hrules : state.2.field? StateKind.choice.fieldNames "Choices" =
        some (.list rules complete))
      (hrule : rule ∈ rules) (hwithin : Rule.Within (.record members last) rule) :
      HasRule text members

namespace Rule

variable {members : List (String × Source)} {rule : Rule} {nested : Bool} {times : Nat}

/-! ## Rules that were read -/

/-- Without operators in the rule there is none among its members, and with one it is all that
there is among them. -/
theorem operators_of_decode {whole : Bool} (h : decode (.record members whole) = .ok rule) :
    (rule.operators.names = [] →
      (Entries.names members).filter (· ∉ reservedNames) = []) ∧
    ∀ operator, rule.operators.names = [operator] → operator ∉ reservedNames ∧
      ∃ times, 1 ≤ times ∧
        (Entries.names members).filter (· ∉ reservedNames) = List.replicate times operator := by
  have hoperators : ∀ name ∈ (Entries.names members).filter (· ∉ reservedNames),
      name ∈ rule.operators.names := by
    intro name hmem
    obtain ⟨hmember, hname⟩ := List.mem_filter.mp hmem
    exact (mem_operators_iff h (by simpa using hname)).mpr hmember
  constructor
  · intro hnone
    rw [hnone] at hoperators
    exact List.eq_nil_iff_forall_not_mem.mpr fun name hmem =>
      List.not_mem_nil (hoperators name hmem)
  · intro operator hone
    rw [hone] at hoperators
    obtain ⟨-, -, -, hnames, -⟩ := tidy_of_decode h
    have hmem : operator ∈ rule.operators.names := hone ▸ List.mem_singleton_self operator
    have hname := hnames operator hmem
    have hmember : operator ∈ (Entries.names members).filter (· ∉ reservedNames) :=
      List.mem_filter.mpr ⟨(mem_operators_iff h hname).mp hmem, by simpa using hname⟩
    refine ⟨hname, _, List.length_pos_of_mem hmember, ?_⟩
    exact List.eq_replicate_iff.mpr ⟨rfl, fun name hmem =>
      List.mem_singleton.mp (hoperators name hmem)⟩

/-- A rule that can be tested holds one combinator, or a variable and one operator. -/
theorem tells_of_testable {whole : Bool} (h : decode (.record members whole) = .ok rule)
    (htestable : rule.Testable nested) : ∃ times, 1 ≤ times ∧ Tells members times := by
  obtain ⟨hnone, hone⟩ := operators_of_decode h
  obtain ⟨draft, hdraft, hrule⟩ := exists_draft h
  have hperm := names_told_perm hdraft
  rw [hrule] at hperm
  cases htestable with
  | all | any | negation =>
      rw [hnone rfl, List.append_nil] at hperm
      exact ⟨1, Nat.le_refl 1, .combinator (by decide) (List.perm_singleton.mp hperm)⟩
  | leaf _ _ hoperators =>
      obtain ⟨hname, times, htimes, hreplicate⟩ := hone _ (congrArg Entries.names hoperators)
      rw [hreplicate] at hperm
      exact ⟨times, htimes, .leaf hname hperm⟩

/-- What stands in a rule is told once exactly if no name, of whatever use, stands in it twice. -/
theorem tells_one_iff {whole : Bool} (h : decode (.record members whole) = .ok rule)
    (htimes : 1 ≤ times) (htells : Tells members times) :
    Tells members 1 ↔ (Entries.names members).Nodup := by
  obtain ⟨draft, hdraft, -⟩ := exists_draft h
  constructor
  · intro hone
    have hnodup : (Entries.names (told members)).Nodup := by
      cases hone with
      | combinator _ htold =>
          rw [htold]
          exact List.nodup_singleton _
      | @leaf operator hname htold =>
          have hne : "Variable" ∉ List.replicate 1 operator := by
            rw [List.mem_replicate]
            rintro ⟨-, heq⟩
            exact hname (heq ▸ by decide)
          rw [htold.nodup_iff]
          exact List.nodup_cons.mpr ⟨hne, List.nodup_singleton operator⟩
    rw [List.nodup_iff_count_le_one]
    intro name
    by_cases hname : name ∈ reservedNames
    · exact (count_names_decodeMembers hdraft hname).1
    · rw [← count_names_told_of_tells fun member _ heq => tells_of_operator (heq ▸ hname)]
      exact List.nodup_iff_count_le_one.mp hnodup name
  · intro hnodup
    cases htells with
    | combinator hname htold => exact .combinator hname htold
    | leaf hname htold =>
        have htoldNodup : (Entries.names (told members)).Nodup :=
          hnodup.sublist (List.filter_sublist.map Prod.fst)
        rw [htold.nodup_iff, List.nodup_cons, List.nodup_replicate] at htoldNodup
        obtain rfl : times = 1 := Nat.le_antisymm htoldNodup.2 htimes
        exact .leaf hname htold

/-! ## Rules within rules -/

/-- The rules directly within a rule. -/
def children (rule : Rule) : List Rule :=
  rule.all.getD [] ++ rule.any.getD [] ++ rule.negation.toList

theorem Testable.children (h : rule.Testable nested) :
    ∀ child ∈ rule.children, child.Testable true := by
  cases h with
  | all _ _ htestable | any _ _ htestable => simpa [Rule.children] using htestable
  | negation _ htestable => simpa [Rule.children] using htestable
  | leaf => simp [Rule.children]

theorem decode_of_decodeRule? {source : Source} {child : Rule}
    (h : decodeRule? source = .ok (some child)) : decode source = .ok child := by
  cases source with
  | record members whole =>
      rw [decodeRule?] at h
      obtain ⟨draft, hdraft, h⟩ := bind_eq_ok.mp h
      obtain ⟨rfl, hchild⟩ := whole_eq_ok.mp h
      cases hchild
      rw [decode, hdraft]
      rfl
  | null | bool | number | text | plain | list | flawed => cases h

/-- The items of a list of rules are the sources of these rules. -/
theorem exists_of_decodeRules? {items : List Source} {complete : Bool} {found : Option (List Rule)}
    (h : decodeRules? (.list items complete) = .ok found) :
    ∃ rules, found = some rules ∧ ∀ item ∈ items, ∃ rule ∈ rules, decode item = .ok rule := by
  rw [decodeRules?] at h
  obtain ⟨rules, hrules, h⟩ := bind_eq_ok.mp h
  obtain ⟨-, rfl⟩ := whole_eq_ok.mp h
  rw [decodeRules_eq] at hrules
  exact ⟨rules, rfl, Source.exists_of_forall₂ (Source.decodeAll_eq_ok_iff.mp hrules).flip⟩

/-- A rule within one that was read and can be tested was read too, and can be tested. -/
theorem testable_of_within {source : Source} {last : Bool}
    (hwithin : Within (.record members last) source) (h : decode source = .ok rule)
    (htestable : rule.Testable nested) :
    ∃ inner nested, decode (.record members last) = .ok inner ∧ inner.Testable nested := by
  induction hwithin generalizing rule nested with
  | self => exact ⟨rule, nested, h, htestable⟩
  | @item others whole complete name items child hname hmember hitem _ ih =>
      obtain ⟨inner, hinner, hdecode⟩ : ∃ inner ∈ rule.children, decode child = .ok inner := by
        simp only [List.mem_cons, List.not_mem_nil, or_false] at hname
        rcases hname with rfl | rfl
        · obtain ⟨rules, hall, hitems⟩ :=
            exists_of_decodeRules? (read_of_mem field_all (by decide) h hmember)
          obtain ⟨inner, hinner, hdecode⟩ := hitems child hitem
          exact ⟨inner, by simp [children, hall, hinner], hdecode⟩
        · obtain ⟨rules, hany, hitems⟩ :=
            exists_of_decodeRules? (read_of_mem field_any (by decide) h hmember)
          obtain ⟨inner, hinner, hdecode⟩ := hitems child hitem
          exact ⟨inner, by simp [children, hany, hinner], hdecode⟩
      exact ih hdecode (htestable.children inner hinner)
  | @operand others whole child hmember hwithin ih =>
      have hread := read_of_mem field_negation (by decide) h hmember
      cases hnegation : rule.negation with
      | none =>
          rw [hnegation] at hread
          cases child with
          | null => cases hwithin
          | record others whole =>
              have hsome := isSome_of_decodeRule? hread
              cases hsome
          | bool | number | text | plain | list | flawed => cases hread
      | some inner =>
          rw [hnegation] at hread
          have hinner : inner ∈ rule.children := by simp [children, hnegation]
          exact ih (decode_of_decodeRule? hread) (htestable.children inner hinner)

end Rule

namespace State

/-- The rules of a choice that was read and compiled can be tested. -/
theorem testable_of_choice {source : Source} {state : StateDefinition} {compiled : State}
    {name : String} {items : List Source} {complete : Bool} (hliteral : source.Literal)
    (hdecode : StateDefinition.decode source = .ok state)
    (hcompiled : ofDefinition name state = .ok compiled)
    (htype : source.field? StateKind.choice.fieldNames "Type" = some (.text "Choice"))
    (hitems : source.field? StateKind.choice.fieldNames "Choices" = some (.list items complete)) :
    ∀ item ∈ items, ∃ rule, Rule.decode item = .ok rule ∧ rule.Testable false := by
  obtain ⟨text, kind, body, htag, hkind, hbody, hbodyLiteral, hfields⟩ :=
    Source.body_of_asTagged hliteral hdecode
  obtain rfl : text = "Choice" := by
    have hsame := (htag _).symm.trans htype
    cases hsame
    rfl
  obtain rfl : kind = .choice := (Option.some.inj hkind).symm
  obtain ⟨choice, hchoice, rfl⟩ := map_eq_ok.mp hbody
  have hvalid := decides_ofDefinition name (.choice choice)
  rw [hcompiled] at hvalid
  have hchoices := (ChoiceDefinition.reads_of_asRecord hbodyLiteral hchoice).choices
  rw [← hfields _ "Choices" (by decide)] at hchoices
  change Holds _ _ (source.field? StateKind.choice.fieldNames "Choices") _ at hchoices
  rw [hitems] at hchoices
  obtain ⟨_, hsame, hfound⟩ := Source.asList_eq_ok_iff.mp hchoices
  cases hsame
  intro item hitem
  obtain ⟨rule, hrule, hitem⟩ :=
    Source.exists_of_forall₂ (Source.decodeAll_eq_ok_iff.mp hfound).flip item hitem
  refine ⟨rule, hitem, ?_⟩
  exact (Predicate.decides_ofRule false rule).isOk_iff.mp (hvalid.1.rules rule hrule).2

end State

namespace Machine

/-- A rule object of a text that was read and compiled tells one combinator of rules, or a variable
and one operator, which may stand there several times; it tells the operator once exactly if no
name stands twice among its members. -/
theorem rules_of_parse {text : String} {definition : Definition} {machine : Machine}
    (hparse : Definition.parse .json text = .ok definition)
    (hcompile : compile definition = .ok machine) :
    ∀ members, (Source.read text).1.HasRule members →
      (∃ times, 1 ≤ times ∧ Rule.Tells members times) ∧
        (Rule.Tells members 1 ↔ (Entries.names members).Nodup) := by
  rintro members ⟨hstates, hstate, htype, hrules, hrule, hwithin⟩
  obtain ⟨others, hothers, hdecode⟩ := Definition.members_of_parse hparse
  cases hothers.symm.trans hstates
  obtain ⟨-, -, -, -, hfound⟩ := Definition.decodeStates_eq_ok hdecode
  obtain ⟨states, htraverse, -, -⟩ := eq_of_compile hcompile
  obtain ⟨state, hread, hfind⟩ := hfound _ hstate
  obtain ⟨compiled, hcompiled, -⟩ := NameTable.find?_traverse htraverse hfind
  have hliteral := (Source.literal_read text).field? hothers
  cases hliteral with
  | record hparts =>
      obtain ⟨rule, hitem, htestable⟩ :=
        State.testable_of_choice (hparts _ hstate) hread hcompiled htype hrules _ hrule
      obtain ⟨inner, nested, hinner, htestable⟩ :=
        Rule.testable_of_within hwithin hitem htestable
      obtain ⟨times, htimes, htells⟩ := Rule.tells_of_testable hinner htestable
      exact ⟨⟨times, htimes, htells⟩, Rule.tells_one_iff hinner htimes htells⟩

/-! ## A rule of which a part is passed over -/

/-- A choice between two rules: one is the negation of a test, in the other an operator stands
twice. -/
def twiceText : String :=
  "\x7b\"StartAt\":\"C\",\"States\":\x7b\"C\":\x7b\"Type\":\"Choice\",\"Default\":\"C\",\"Choices\":
    [\x7b\"Not\":\x7b\"Variable\":\"$\",\"IsNull\":true\x7d,\"Next\":\"C\"\x7d,
     \x7b\"Variable\":\"$\",\"IsNull\":true,\"IsNull\":false,\"Next\":\"C\"\x7d]\x7d\x7d\x7d"

/-- The members of the rule that is negated. -/
def negatedMembers : List (String × Source) :=
  [("Variable", .text "$"), ("IsNull", .bool true)]

/-- The members of the other rule. -/
def twiceMembers : List (String × Source) :=
  [("Variable", .text "$"), ("IsNull", .bool true), ("IsNull", .bool false), ("Next", .text "C")]

def twiceRules : List Source :=
  [.record [("Not", .record negatedMembers true), ("Next", .text "C")] true,
   .record twiceMembers true]

def twiceState : Source :=
  .record [("Type", .text "Choice"), ("Default", .text "C"), ("Choices", .list twiceRules true)]
    true

def twiceDefinition : Definition where
  startAt := "C"
  states := .ofList [("C", .choice
    { choices :=
        [⟨none, none, some "C", none, none,
            some ⟨none, some "$", none, none, none, none, .ofList [("IsNull", .bool true)]⟩, ∅⟩,
         ⟨none, some "$", some "C", none, none, none, .ofList [("IsNull", .bool false)]⟩],
      fallback := some "C" })]

def twiceMachine : Machine where
  comment := none
  startAt := "C"
  states := .ofList [("C", .choice
    { branches :=
        [⟨.negation (.typeTest .root .isNull true), "C"⟩, ⟨.typeTest .root .isNull false, "C"⟩],
      fallback := "C" })]
  timeoutSeconds := none

/-- Reading is computed from the characters: those of a literal are found by unification. -/
theorem read_ofList {characters : List Char} {source : Source}
    (h : Source.Reader.value 0 (2 * characters.length + 2) characters = (source, some [])) :
    Source.read (String.ofList characters) = (source, true) := by
  rw [Source.read, String.toList_ofList, h]
  rfl

set_option maxRecDepth 20000 in
theorem read_twiceText :
    Source.read twiceText =
      (.record [("StartAt", .text "C"), ("States", .record [("C", twiceState)] true)] true,
        true) := by
  refine read_ofList ?_
  rfl

theorem parse_twiceText : Definition.parse .json twiceText = .ok twiceDefinition := by
  show Source.decodeText Definition.decode twiceText = _
  rw [Source.decodeText, read_twiceText]
  rfl

theorem compile_twiceDefinition : compile twiceDefinition = .ok twiceMachine := by
  have htraverse : twiceDefinition.states.traverse State.ofDefinition = .ok twiceMachine.states :=
    NameTable.traverse_eq_ok_iff.mpr (by with_unfolding_all rfl)
  refine compile_eq_ok ⟨by decide, by decide, by decide⟩ htraverse rfl ?_
  exact firstUnreachable?_of_chain rfl (.singleton "C")

theorem hasRule_twiceText {members : List (String × Source)} {rule : Source}
    (hrule : rule ∈ twiceRules) (hwithin : Rule.Within (.record members true) rule) :
    (Source.read twiceText).1.HasRule members := by
  have hstates : (Source.read twiceText).1.field? Definition.fieldNames "States" =
      some (.record [("C", twiceState)] true) := by
    rw [read_twiceText]
    rfl
  exact .mk hstates (List.mem_singleton_self _) rfl rfl hrule hwithin

/-- The rule that is negated stands within a rule, and no name stands twice in it: so it tells its
operator once. -/
theorem rules_of_parse_twiceText :
    Definition.parse .json twiceText = .ok twiceDefinition ∧
      compile twiceDefinition = .ok twiceMachine ∧
      (Source.read twiceText).1.HasRule negatedMembers ∧ Rule.Tells negatedMembers 1 := by
  have hrule : (Source.read twiceText).1.HasRule negatedMembers :=
    hasRule_twiceText List.mem_cons_self (.operand List.mem_cons_self .self)
  refine ⟨parse_twiceText, compile_twiceDefinition, hrule, ?_⟩
  exact (rules_of_parse parse_twiceText compile_twiceDefinition _ hrule).2.mpr (by decide)

/-- The other rule is accepted although it tells its operator twice; the machine tests the second
operand only. -/
theorem passed_over_of_twiceText :
    Definition.parse .json twiceText = .ok twiceDefinition ∧
      compile twiceDefinition = .ok twiceMachine ∧
      (Source.read twiceText).1.HasRule twiceMembers ∧ ¬ Rule.Tells twiceMembers 1 := by
  have hrule : (Source.read twiceText).1.HasRule twiceMembers :=
    hasRule_twiceText (List.mem_cons_of_mem _ (List.mem_singleton_self _)) .self
  have hnames : Entries.names (Rule.told twiceMembers) = ["Variable", "IsNull", "IsNull"] := rfl
  refine ⟨parse_twiceText, compile_twiceDefinition, hrule, ?_⟩
  rintro (⟨-, htold⟩ | ⟨-, htold⟩)
  · rw [hnames] at htold
    cases htold
  · have hlength := htold.length_eq
    rw [hnames] at hlength
    cases hlength

end Machine

end StateFlow
