import StateFlow.Proofs.Json.Outcome
import StateFlow.Proofs.NameTable.OfList
import StateFlow.Template

/-!
# Templates and what they are filled to

Which templates compile, and what comes of them in a document, both said of the template as it is
written. A template compiles exactly if in each object within it the keys that end in `.$` hold
paths and all keys give different names, none of them empty. If all its paths lead somewhere,
filling it keeps its structure and all scalars, and puts what is found under the name that the key
gives.

## Implementation notes

Both compiling and filling run over the lists within a document. They are taken apart into what
happens to each item or member, by `List.Forall₂`, so that the induction over documents
(`Json.induction`) need not follow the lists.
-/

namespace StateFlow

open Source (exists_of_forall₂ exists_forall₂_iff exists_forall₂_trans)
open Source.Decoded

namespace Json

/-- The document is the other one or stands somewhere in it. -/
inductive Within (inner : Json) : Json → Prop
  | self : Within inner inner
  | item {item : Json} {items : List Json} (hitem : item ∈ items) (h : Within inner item) :
      Within inner (.array items)
  | member {member : String × Json} {members : List (String × Json)} (hmember : member ∈ members)
      (h : Within inner member.2) : Within inner (.object members)

/-- What holds of a document if it holds of those within it, holds of every document. -/
theorem induction {motive : Json → Prop} (null : motive .null)
    (bool : ∀ truth, motive (.bool truth)) (number : ∀ value, motive (.number value))
    (string : ∀ text, motive (.string text))
    (array : ∀ items, (∀ item ∈ items, motive item) → motive (.array items))
    (object : ∀ members, (∀ member ∈ members, motive member.2) → motive (.object members))
    (document : Json) : motive document :=
  @Json.rec motive (fun items => ∀ item ∈ items, motive item)
    (fun members => ∀ member ∈ members, motive member.2) (fun member => motive member.2)
    null bool number string array object
    (fun _ h => absurd h List.not_mem_nil)
    (fun _ _ hfirst hrest => List.forall_mem_cons.mpr ⟨hfirst, hrest⟩)
    (fun _ h => absurd h List.not_mem_nil)
    (fun _ _ hfirst hrest => List.forall_mem_cons.mpr ⟨hfirst, hrest⟩)
    (fun _ _ h => h) document

end Json

namespace Template

/-- The name that a key gives: what stands in front of a final `.$`, or else the key itself. -/
inductive Gives : (key name : String) → Prop
  | reference (name : String) : Gives (name ++ ".$") name
  | plain {key : String} (hkey : ∀ name, key ≠ name ++ ".$") : Gives key key

/-- An object of a template: keys that end in `.$` hold paths, and all keys give different names
that are not empty. -/
structure WellNamed (members : List (String × Json)) : Prop where
  references : ∀ name value, (name ++ ".$", value) ∈ members →
    ∃ text path, value = .string text ∧ Path.parse text = .ok path
  nonempty : ∀ key ∈ Entries.names members, ¬ Gives key ""
  distinct : (Entries.names members).Pairwise fun key other =>
    ∀ name, Gives key name → ¬ Gives other name

/-- The path stands in some object within the template, behind a key that ends in `.$`. -/
def Mentions (template : Json) (path : Path) : Prop :=
  ∃ members name text, Json.Within (.object members) template ∧
    (name ++ ".$", .string text) ∈ members ∧ Path.parse text = .ok path

mutual

/-- The result is the template, filled from the document: the members of an object may stand in
another order, but there are as many of them. -/
inductive Fills (document : Json) : (template result : Json) → Prop
  | null : Fills document .null .null
  | bool {truth : Bool} : Fills document (.bool truth) (.bool truth)
  | number {value : Number} : Fills document (.number value) (.number value)
  | string {text : String} : Fills document (.string text) (.string text)
  | array {items results : List Json} (hitems : List.Forall₂ (Fills document) items results) :
      Fills document (.array items) (.array results)
  | object {members filled results : List (String × Json)}
      (hmembers : List.Forall₂ (FillsMember document) members filled)
      (hperm : results.Perm filled) (hsorted : (Entries.names results).Pairwise (· < ·)) :
      Fills document (.object members) (.object results)

/-- The member is one of a template, filled from the document. -/
inductive FillsMember (document : Json) : (member result : String × Json) → Prop
  | reference {name text : String} {path : Path} {value : Json}
      (hparse : Path.parse text = .ok path) (hvalue : path.get? document = some value) :
      FillsMember document (name ++ ".$", .string text) (name, value)
  | plain {key : String} {value result : Json} (hkey : ∀ name, key ≠ name ++ ".$")
      (hvalue : Fills document value result) : FillsMember document (key, value) (key, result)

end

/-! ## Names that keys give -/

theorem plain_or_reference (key : String) :
    (∀ name, key ≠ name ++ ".$") ∨ ∃ name, key = name ++ ".$" := by
  rw [or_comm, ← not_exists]
  exact Classical.em _

theorem append_reference_inj {name other : String} (h : name ++ ".$" = other ++ ".$") :
    name = other := by
  have hlist := congrArg String.toList h
  rw [String.toList_append, String.toList_append] at hlist
  exact String.toList_inj.mp (List.append_cancel_right hlist)

theorem Gives.unique {key name other : String} (h : Gives key name) (hother : Gives key other) :
    name = other := by
  cases h with
  | reference =>
      generalize hkey : name ++ ".$" = key at hother
      cases hother with
      | reference => exact append_reference_inj hkey
      | plain hplain => exact absurd hkey.symm (hplain name)
  | plain hplain =>
      cases hother with
      | reference => exact absurd rfl (hplain other)
      | plain => rfl

theorem referenceName?_eq_some_iff {key name : String} :
    referenceName? key = some name ↔ key = name ++ ".$" := by
  have hsuffix : ".$".toList = ['.', '$'] := rfl
  unfold referenceName?
  constructor
  · intro h
    split at h
    · next rest hrest =>
        cases h
        rw [← String.toList_inj, String.toList_append, String.toList_ofList, hsuffix,
          ← List.reverse_inj, hrest]
        simp
    · cases h
  · rintro rfl
    rw [String.toList_append, hsuffix, List.reverse_append]
    simp

theorem referenceName?_eq_none_iff {key : String} :
    referenceName? key = none ↔ ∀ name, key ≠ name ++ ".$" := by
  rw [Option.eq_none_iff_forall_ne_some]
  exact forall_congr' fun name => not_congr referenceName?_eq_some_iff

/-! ## Compiling a member -/

theorem ofReference_eq_ok_iff {key : String} {value : Json} {template : Template} :
    ofReference key value = .ok template ↔
      ∃ text path,
        value = .string text ∧ Path.parse text = .ok path ∧ template = reference path := by
  cases value with
  | string text =>
      rw [ofReference]
      cases hparse : Path.parse text with
      | error e => simp [hparse]
      | ok path => simp [hparse, eq_comm]
  | _ => simp [ofReference]

theorem ofMember_reference (name : String) (value : Json) :
    ofMember (name ++ ".$", value) =
      (ofReference (name ++ ".$") value).map fun template => (name, template) := by
  rw [ofMember, referenceName?_eq_some_iff.mpr rfl]

theorem ofMember_plain {key : String} (hkey : ∀ name, key ≠ name ++ ".$") (value : Json) :
    ofMember (key, value) = (ofJson value).map fun template => (key, template) := by
  rw [ofMember, referenceName?_eq_none_iff.mpr hkey]

theorem gives_of_ofMember {member : String × Json} {result : String × Template}
    (h : ofMember member = .ok result) : Gives member.1 result.1 := by
  obtain ⟨key, value⟩ := member
  rcases plain_or_reference key with hkey | ⟨name, rfl⟩
  · rw [ofMember_plain hkey] at h
    obtain ⟨template, -, rfl⟩ := map_eq_ok.mp h
    exact Gives.plain hkey
  · rw [ofMember_reference] at h
    obtain ⟨template, -, rfl⟩ := map_eq_ok.mp h
    exact Gives.reference name

/-! ## Lists within a template -/

theorem ofItems_eq_ok_iff {items : List Json} {templates : List Template} :
    ofItems items = .ok templates ↔
      List.Forall₂ (fun item template => ofJson item = .ok template) items templates :=
  run_eq_ok_iff ofItems rfl fun _ _ => rfl

/-- A member is compiled under a name that is not empty and was not used before. -/
theorem ofMembers_cons_eq_ok_iff {used : List String} {member : String × Json}
    {rest : List (String × Json)} {templates : List (String × Template)} :
    ofMembers used (member :: rest) = .ok templates ↔
      ∃ first others, ofMember member = .ok first ∧ (first.1 ≠ "" ∧ first.1 ∉ used) ∧
        ofMembers (first.1 :: used) rest = .ok others ∧ templates = first :: others := by
  rw [ofMembers, bind_eq_ok]
  refine exists_congr fun first => ?_
  obtain ⟨name, template⟩ := first
  rw [exists_and_left]
  refine and_congr_right fun _ => ?_
  simp only
  split
  · next hempty => simp [hempty]
  · next hempty =>
      split
      · next hused => simp [hused]
      · next hused =>
          rw [bind_eq_ok]
          refine exists_congr fun others => ?_
          constructor
          · rintro ⟨hothers, h⟩
            cases h
            exact ⟨⟨hempty, hused⟩, hothers, rfl⟩
          · rintro ⟨-, hothers, rfl⟩
            exact ⟨hothers, rfl⟩

/-- Members compile if each of them does, under names that are not empty, not used before and all
different. -/
theorem ofMembers_eq_ok_iff {used : List String} {members : List (String × Json)}
    {templates : List (String × Template)} :
    ofMembers used members = .ok templates ↔
      List.Forall₂ (fun member template => ofMember member = .ok template) members templates ∧
        (∀ name ∈ Entries.names templates, name ≠ "" ∧ name ∉ used) ∧
        (Entries.names templates).Nodup := by
  induction members generalizing used templates with
  | nil =>
      rw [ofMembers, List.forall₂_nil_left_iff]
      constructor
      · rintro ⟨⟩
        exact ⟨rfl, nofun, List.nodup_nil⟩
      · rintro ⟨rfl, -, -⟩
        rfl
  | cons member rest ih =>
      rw [ofMembers_cons_eq_ok_iff, List.forall₂_cons_left_iff]
      constructor
      · rintro ⟨first, others, hfirst, hname, hothers, rfl⟩
        obtain ⟨hrest, hnames, hnodup⟩ := ih.mp hothers
        refine ⟨⟨first, others, hfirst, hrest, rfl⟩, ?_, ?_⟩
        · refine List.forall_mem_cons.mpr ⟨hname, fun other hother => ?_⟩
          exact ⟨(hnames other hother).1, fun hmem =>
            (hnames other hother).2 (List.mem_cons_of_mem _ hmem)⟩
        · exact List.nodup_cons.mpr ⟨fun hmem => (hnames _ hmem).2 List.mem_cons_self, hnodup⟩
      · rintro ⟨⟨⟨name, template⟩, others, hfirst, hrest, rfl⟩, hnames, hnodup⟩
        have hname := hnames name List.mem_cons_self
        obtain ⟨-, hrestNodup, hfresh⟩ :=
          Entries.fresh_of_cons hnodup fun other hother => (hnames other hother).2
        refine ⟨_, others, hfirst, hname, ih.mpr ⟨hrest, fun other hother => ?_, hrestNodup⟩, rfl⟩
        exact ⟨(hnames other (List.mem_cons_of_mem _ hother)).1, hfresh other hother⟩

/-! ## When a template compiles -/

theorem forall₂_gives {members : List (String × Json)} {templates : List (String × Template)}
    (h : List.Forall₂ (fun member template => ofMember member = .ok template) members templates) :
    List.Forall₂ Gives (Entries.names members) (Entries.names templates) := by
  rw [Entries.names, Entries.names, List.forall₂_map_left_iff, List.forall₂_map_right_iff]
  exact h.imp fun _ _ => gives_of_ofMember

theorem nonempty_iff {keys names : List String} (h : List.Forall₂ Gives keys names) :
    (∀ key ∈ keys, ¬ Gives key "") ↔ ∀ name ∈ names, name ≠ "" := by
  induction h with
  | nil => simp
  | cons hfirst _ ih =>
      rw [List.forall_mem_cons, List.forall_mem_cons, ih]
      refine and_congr_left' ⟨?_, fun hempty hgives => hempty (hfirst.unique hgives)⟩
      rintro hnot rfl
      exact hnot hfirst

theorem distinct_iff {keys names : List String} (h : List.Forall₂ Gives keys names) :
    (keys.Pairwise fun key other => ∀ name, Gives key name → ¬ Gives other name) ↔
      names.Nodup := by
  induction h with
  | nil => simp
  | @cons key name keys names hfirst hrest ih =>
      rw [List.pairwise_cons, List.nodup_cons, ih]
      refine and_congr_left' ⟨fun hnone hmem => ?_, fun hfresh other hother given hkey hgives => ?_⟩
      · obtain ⟨other, hother, hgives⟩ := exists_of_forall₂ hrest name hmem
        exact hnone other hother name hfirst hgives
      · obtain ⟨name', hname', hgives'⟩ := exists_of_forall₂ hrest.flip other hother
        rw [hfirst.unique hkey, hgives.unique hgives'] at hfresh
        exact hfresh hname'

/-- The value of the member compiles, if it is not a path. -/
def CompilesPlain (member : String × Json) : Prop :=
  (∀ name, member.1 ≠ name ++ ".$") → ∃ template, ofJson member.2 = .ok template

theorem exists_ofMember_iff {member : String × Json} :
    (∃ result, ofMember member = .ok result) ↔
      (∀ name, member.1 = name ++ ".$" →
        ∃ text path, member.2 = .string text ∧ Path.parse text = .ok path) ∧
      CompilesPlain member := by
  obtain ⟨key, value⟩ := member
  rcases plain_or_reference key with hkey | ⟨name, rfl⟩
  · rw [ofMember_plain hkey, CompilesPlain]
    constructor
    · rintro ⟨result, h⟩
      obtain ⟨template, htemplate, -⟩ := map_eq_ok.mp h
      exact ⟨fun name hname => absurd hname (hkey name), fun _ => ⟨template, htemplate⟩⟩
    · rintro ⟨-, hplain⟩
      obtain ⟨template, htemplate⟩ := hplain hkey
      exact ⟨_, map_eq_ok.mpr ⟨template, htemplate, rfl⟩⟩
  · rw [ofMember_reference]
    constructor
    · rintro ⟨result, h⟩
      obtain ⟨template, htemplate, -⟩ := map_eq_ok.mp h
      obtain ⟨text, path, hvalue, hparse, -⟩ := ofReference_eq_ok_iff.mp htemplate
      exact ⟨fun _ _ => ⟨text, path, hvalue, hparse⟩, fun hplain => absurd rfl (hplain name)⟩
    · rintro ⟨hreference, -⟩
      obtain ⟨text, path, hvalue, hparse⟩ := hreference name rfl
      exact ⟨_, map_eq_ok.mpr ⟨_, ofReference_eq_ok_iff.mpr ⟨text, path, hvalue, hparse, rfl⟩, rfl⟩⟩

theorem exists_ofMembers_iff {members : List (String × Json)} :
    (∃ templates, ofMembers [] members = .ok templates) ↔
      WellNamed members ∧ ∀ member ∈ members, CompilesPlain member := by
  have hnames {templates : List (String × Template)} :
      ofMembers [] members = .ok templates ↔
        List.Forall₂ (fun member template => ofMember member = .ok template) members templates ∧
          (∀ key ∈ Entries.names members, ¬ Gives key "") ∧
          (Entries.names members).Pairwise fun key other =>
            ∀ name, Gives key name → ¬ Gives other name := by
    rw [ofMembers_eq_ok_iff]
    refine and_congr_right fun hforall => ?_
    rw [nonempty_iff (forall₂_gives hforall), distinct_iff (forall₂_gives hforall)]
    simp
  simp only [hnames, exists_and_right, exists_forall₂_iff, exists_ofMember_iff]
  constructor
  · rintro ⟨hmembers, hnonempty, hdistinct⟩
    refine ⟨⟨fun name value hmem => (hmembers _ hmem).1 name rfl, hnonempty, hdistinct⟩, ?_⟩
    exact fun member hmem => (hmembers member hmem).2
  · rintro ⟨⟨hreferences, hnonempty, hdistinct⟩, hplain⟩
    refine ⟨fun member hmem => ⟨fun name hname => ?_, hplain member hmem⟩, hnonempty, hdistinct⟩
    obtain ⟨key, value⟩ := member
    obtain rfl : key = name ++ ".$" := hname
    exact hreferences name value hmem

theorem exists_ofJson_array_iff {items : List Json} :
    (∃ template, ofJson (.array items) = .ok template) ↔
      ∀ item ∈ items, ∃ template, ofJson item = .ok template := by
  rw [ofJson, ← exists_forall₂_iff]
  simp only [map_eq_ok, ofItems_eq_ok_iff]
  constructor
  · rintro ⟨_, templates, h, -⟩
    exact ⟨templates, h⟩
  · rintro ⟨templates, h⟩
    exact ⟨_, templates, h, rfl⟩

theorem exists_ofJson_object_iff {members : List (String × Json)} :
    (∃ template, ofJson (.object members) = .ok template) ↔
      WellNamed members ∧ ∀ member ∈ members, CompilesPlain member := by
  rw [ofJson, ← exists_ofMembers_iff]
  simp only [map_eq_ok]
  constructor
  · rintro ⟨_, templates, h, -⟩
    exact ⟨templates, h⟩
  · rintro ⟨templates, h⟩
    exact ⟨_, templates, h, rfl⟩

/-- A document compiles if all objects within it are well named. -/
theorem exists_ofJson_iff (document : Json) :
    (∃ template, ofJson document = .ok template) ↔
      ∀ members, Json.Within (.object members) document → WellNamed members := by
  induction document using Json.induction with
  | null | bool | number | string =>
      exact ⟨fun _ => nofun, fun _ => ⟨.literal _, rfl⟩⟩
  | array items ih =>
      rw [exists_ofJson_array_iff]
      constructor
      · intro h members hwithin
        cases hwithin with
        | item hitem hwithin => exact (ih _ hitem).mp (h _ hitem) members hwithin
      · intro h item hitem
        apply (ih item hitem).mpr
        exact fun members hwithin => h members (.item hitem hwithin)
  | object members ih =>
      rw [exists_ofJson_object_iff]
      constructor
      · rintro ⟨hnamed, hplain⟩ inner hwithin
        cases hwithin with
        | self => exact hnamed
        | @member member _ hmember hwithin =>
            obtain ⟨key, value⟩ := member
            rcases plain_or_reference key with hkey | ⟨name, rfl⟩
            · exact (ih _ hmember).mp (hplain _ hmember hkey) inner hwithin
            · -- A path is a text, and within a text there are no objects.
              obtain ⟨text, path, rfl, -⟩ := hnamed.references name value hmember
              cases hwithin
      · intro h
        refine ⟨h members .self, fun member hmember _ => ?_⟩
        apply (ih member hmember).mpr
        exact fun inner hwithin => h inner (.member hmember hwithin)

/-! ## Filling a template -/

theorem resolveItems_eq_ok_iff {document : Json} {key : String} {templates : List Template}
    {results : List Json} :
    resolveItems document key templates = .ok results ↔
      List.Forall₂ (fun template result => resolveAt document key template = .ok result)
        templates results :=
  run_eq_ok_iff (resolveItems document key) rfl fun _ _ => rfl

theorem resolveMembers_eq_ok_iff {document : Json} {templates : List (String × Template)}
    {results : List (String × Json)} :
    resolveMembers document templates = .ok results ↔
      List.Forall₂ (fun template result => resolveMember document template = .ok result)
        templates results :=
  run_eq_ok_iff (resolveMembers document) rfl fun _ _ => rfl

theorem names_of_resolveMembers {document : Json} {templates : List (String × Template)}
    {results : List (String × Json)}
    (h : List.Forall₂ (fun template result => resolveMember document template = .ok result)
      templates results) : Entries.names results = Entries.names templates := by
  induction h with
  | nil => rfl
  | @cons template result templates results hfirst _ ih =>
      obtain ⟨name, template⟩ := template
      rw [resolveMember] at hfirst
      obtain ⟨value, -, rfl⟩ := map_eq_ok.mp hfirst
      exact congrArg (List.cons name) ih

/-- In a document in which its paths lead somewhere the template is filled. -/
def FilledIn (document template : Json) : Prop :=
  (∀ path, Mentions template path → ∃ value, path.get? document = some value) →
    ∀ compiled, ofJson template = .ok compiled →
      ∀ key, ∃ result, compiled.resolveAt document key = .ok result ∧
        Fills document template result

theorem exists_fillsMember {document : Json} {members : List (String × Json)}
    (hfound : ∀ path, Mentions (.object members) path → ∃ value, path.get? document = some value)
    {member : String × Json} (hmember : member ∈ members) (hfilled : FilledIn document member.2)
    {template : String × Template} (h : ofMember member = .ok template) :
    ∃ result, resolveMember document template = .ok result ∧
      FillsMember document member result := by
  obtain ⟨key, value⟩ := member
  rcases plain_or_reference key with hkey | ⟨name, rfl⟩
  · rw [ofMember_plain hkey] at h
    obtain ⟨compiled, hcompiled, rfl⟩ := map_eq_ok.mp h
    have hinner : ∀ path, Mentions value path → ∃ found, path.get? document = some found := by
      rintro path ⟨inner, name, text, hwithin, hmem, hparse⟩
      exact hfound path ⟨inner, name, text, .member hmember hwithin, hmem, hparse⟩
    obtain ⟨result, hresult, hfills⟩ := hfilled hinner compiled hcompiled key
    exact ⟨(key, result), map_eq_ok.mpr ⟨result, hresult, rfl⟩, FillsMember.plain hkey hfills⟩
  · rw [ofMember_reference] at h
    obtain ⟨compiled, hcompiled, rfl⟩ := map_eq_ok.mp h
    obtain ⟨text, path, rfl, hparse, rfl⟩ := ofReference_eq_ok_iff.mp hcompiled
    obtain ⟨found, hget⟩ := hfound path ⟨members, name, text, .self, hmember, hparse⟩
    refine ⟨(name, found), map_eq_ok.mpr ⟨found, ?_, rfl⟩, FillsMember.reference hparse hget⟩
    rw [resolveAt, hget]

theorem filledIn (document template : Json) : FilledIn document template := by
  induction template using Json.induction with
  | null | bool | number | string =>
      intro _ compiled h key
      cases h
      refine ⟨_, rfl, ?_⟩
      constructor
  | array items ih =>
      intro hfound compiled h key
      rw [ofJson] at h
      obtain ⟨templates, htemplates, rfl⟩ := map_eq_ok.mp h
      have hstep : ∀ item ∈ items, ∀ compiled, ofJson item = .ok compiled →
          ∃ result, compiled.resolveAt document key = .ok result ∧ Fills document item result := by
        intro item hitem compiled hcompiled
        refine ih item hitem ?_ compiled hcompiled key
        rintro path ⟨inner, name, text, hwithin, hmem, hparse⟩
        exact hfound path ⟨inner, name, text, .item hitem hwithin, hmem, hparse⟩
      obtain ⟨results, hresults, hfills⟩ :=
        exists_forall₂_trans (ofItems_eq_ok_iff.mp htemplates) hstep
      refine ⟨.array results, ?_, Fills.array hfills⟩
      rw [resolveAt, map_eq_ok]
      exact ⟨results, resolveItems_eq_ok_iff.mpr hresults, rfl⟩
  | object members ih =>
      intro hfound compiled h key
      rw [ofJson] at h
      obtain ⟨templates, htemplates, rfl⟩ := map_eq_ok.mp h
      obtain ⟨hmembers, -, hnodup⟩ := ofMembers_eq_ok_iff.mp htemplates
      obtain ⟨filled, hresults, hfills⟩ := exists_forall₂_trans hmembers fun member hmember _ =>
        exists_fillsMember hfound hmember (ih member hmember)
      have hnames := names_of_resolveMembers hresults
      refine ⟨.ofMembers filled, ?_, Fills.object hfills ?_ (Entries.sorted_ofList filled)⟩
      · rw [resolveAt, map_eq_ok]
        exact ⟨filled, resolveMembers_eq_ok_iff.mpr hresults, rfl⟩
      · apply Entries.perm_ofList
        rw [hnames]
        exact hnodup

/-- A template compiles exactly if all objects within it are well named. In a document in which all
its paths lead somewhere it is filled, and the result is the template itself with each value that a
path leads to under the name that its key gives, and nothing else changed, lost or added. -/
theorem compile_iff_wellNamed (members : Entries Json) :
    ((∃ template, compile members = .ok template) ↔
        ∀ inner, Json.Within (.object inner) (.object members) → WellNamed inner) ∧
      ∀ template, compile members = .ok template → ∀ document,
        (∀ path, Mentions (.object members) path → ∃ value, path.get? document = some value) →
          ∃ result, template.resolve document = .ok result ∧
            Fills document (.object members) result := by
  refine ⟨exists_ofJson_iff (.object members), fun template htemplate document hfound => ?_⟩
  exact filledIn document (.object members) hfound template htemplate ""

/-- Without the ending the text of a path is a text like any other. -/
example : (compile [("a", .string "$.x"), ("b.$", .string "$.x")]).toOption.map
    (·.resolve (.object [("x", .bool true)])) =
      some (.ok (.object [("a", .string "$.x"), ("b", .bool true)])) := by cbv

end Template

end StateFlow
