import StateFlow.Proofs.Path.Canonical
import StateFlow.Proofs.Template.Filled

/-!
# What templates read

A template depends on a document only through the values at the paths that it reads. It cannot be
filled in exactly if one of them leads nowhere, and what is reported then is the first of them, with
the name of the member that it was to give a value to.

## Implementation notes

Filling a template in and listing its paths are two recursions of their own. `Feeds` ties them to
each other: it walks down to one path and gathers the paths that stand in front.
-/

namespace StateFlow

open Source (exists_of_forall₂ exists_forall₂_iff)
open Source.Decoded

namespace Template

/-- The template reads the path behind those in `front`, to give a value to the member `key`, the
innermost one around the path; `around` is the member that holds the template itself. -/
inductive Feeds (path : Path) : (around : String) → Template → (front : List Path) →
    (key : String) → Prop
  | reference {around} : Feeds path around (.reference path) [] around
  | member {around before name inner after front key} (h : Feeds path name inner front key) :
      Feeds path around (.object (before ++ (name, inner) :: after))
        ((before.flatMap fun member => member.2.reads) ++ front) key
  | item {around before inner after front key} (h : Feeds path around inner front key) :
      Feeds path around (.array (before ++ inner :: after)) (before.flatMap reads ++ front) key

/-- The failure is about the first path that leads nowhere, and the member around it. -/
def FirstMissed (document : Json) (around : String) (template : Template)
    (failure : Unresolved) : Prop :=
  ∃ front back, template.reads = front ++ failure.path :: back ∧
    (∀ path ∈ front, path.get? document ≠ none) ∧ failure.path.get? document = none ∧
    Feeds failure.path around template front failure.key

/-- What holds of a template if it holds of those within it, holds of every template. -/
theorem induction {motive : Template → Prop} (literal : ∀ value, motive (.literal value))
    (reference : ∀ path, motive (.reference path))
    (object : ∀ members, (∀ member ∈ members, motive member.2) → motive (.object members))
    (array : ∀ items, (∀ item ∈ items, motive item) → motive (.array items))
    (template : Template) : motive template :=
  @Template.rec motive (fun members => ∀ member ∈ members, motive member.2)
    (fun items => ∀ item ∈ items, motive item) (fun member => motive member.2)
    literal reference object array
    (fun _ h => absurd h List.not_mem_nil)
    (fun _ _ hfirst hrest => List.forall_mem_cons.mpr ⟨hfirst, hrest⟩)
    (fun _ h => absurd h List.not_mem_nil)
    (fun _ _ hfirst hrest => List.forall_mem_cons.mpr ⟨hfirst, hrest⟩)
    (fun _ _ h => h) template

/-! ## The paths within a list -/

theorem readsMembers_eq (members : List (String × Template)) :
    readsMembers members = members.flatMap fun member => member.2.reads := by
  induction members with
  | nil => rfl
  | cons member rest ih => rw [readsMembers, ih, readsMember, List.flatMap_cons]

theorem readsItems_eq (items : List Template) : readsItems items = items.flatMap reads := by
  induction items with
  | nil => rfl
  | cons item rest ih => rw [readsItems, ih, List.flatMap_cons]

theorem reads_object (members : List (String × Template)) :
    (object members).reads = members.flatMap fun member => member.2.reads := by
  rw [reads, readsMembers_eq]

theorem reads_array (items : List Template) : (array items).reads = items.flatMap reads := by
  rw [reads, readsItems_eq]

/-! ## When a template can be filled in -/

variable {document other : Json}

theorem exists_resolveMember_iff (member : String × Template) :
    (∃ result, resolveMember document member = .ok result) ↔
      ∃ value, member.2.resolveAt document member.1 = .ok value := by
  obtain ⟨name, template⟩ := member
  simp only [resolveMember, map_eq_ok]
  constructor
  · rintro ⟨_, value, hvalue, -⟩
    exact ⟨value, hvalue⟩
  · rintro ⟨value, hvalue⟩
    exact ⟨_, value, hvalue, rfl⟩

theorem exists_resolveAt_object_iff {members : List (String × Template)} {key : String} :
    (∃ value, (object members).resolveAt document key = .ok value) ↔
      ∀ member ∈ members, ∃ value, member.2.resolveAt document member.1 = .ok value := by
  simp only [← exists_resolveMember_iff, ← exists_forall₂_iff, ← resolveMembers_eq_ok_iff]
  rw [resolveAt]
  simp only [map_eq_ok]
  constructor
  · rintro ⟨_, results, hresults, -⟩
    exact ⟨results, hresults⟩
  · rintro ⟨results, hresults⟩
    exact ⟨_, results, hresults, rfl⟩

theorem exists_resolveAt_array_iff {items : List Template} {key : String} :
    (∃ value, (array items).resolveAt document key = .ok value) ↔
      ∀ item ∈ items, ∃ value, item.resolveAt document key = .ok value := by
  simp only [← exists_forall₂_iff, ← resolveItems_eq_ok_iff]
  rw [resolveAt]
  simp only [map_eq_ok]
  constructor
  · rintro ⟨_, results, hresults, -⟩
    exact ⟨results, hresults⟩
  · rintro ⟨results, hresults⟩
    exact ⟨_, results, hresults, rfl⟩

/-- A template can be filled in exactly if each path that it reads leads somewhere. -/
theorem exists_resolveAt_iff (template : Template) (key : String) :
    (∃ value, template.resolveAt document key = .ok value) ↔
      ∀ path ∈ template.reads, path.get? document ≠ none := by
  induction template using induction generalizing key with
  | literal value => exact iff_of_true ⟨value, rfl⟩ nofun
  | reference path =>
      rw [reads, List.forall_mem_singleton, resolveAt]
      cases path.get? document <;> simp
  | object members ih =>
      rw [exists_resolveAt_object_iff, reads_object, List.forall_mem_flatMap]
      exact forall₂_congr fun member hmember => ih member hmember member.1
  | array items ih =>
      rw [exists_resolveAt_array_iff, reads_array, List.forall_mem_flatMap]
      exact forall₂_congr fun item hitem => ih item hitem key

/-! ## What is reported if it cannot -/

theorem exists_of_resolveMembers_eq_error {members : List (String × Template)}
    {failure : Unresolved} (h : resolveMembers document members = .error failure) :
    ∃ before member after, members = before ++ member :: after ∧
      member.2.resolveAt document member.1 = .error failure ∧
      ∀ earlier ∈ before, ∃ value, earlier.2.resolveAt document earlier.1 = .ok value := by
  obtain ⟨before, member, after, hsplit, hfail, hbefore⟩ :=
    exists_of_run_eq_error (resolveMembers document) rfl (fun _ _ => rfl) h
  refine ⟨before, member, after, hsplit, ?_, fun earlier hearlier => ?_⟩
  · obtain ⟨name, template⟩ := member
    exact map_eq_error.mp hfail
  · exact (exists_resolveMember_iff earlier).mp (hbefore earlier hearlier)

theorem exists_of_resolveItems_eq_error {key : String} {items : List Template}
    {failure : Unresolved} (h : resolveItems document key items = .error failure) :
    ∃ before item after, items = before ++ item :: after ∧
      item.resolveAt document key = .error failure ∧
      ∀ earlier ∈ before, ∃ value, earlier.resolveAt document key = .ok value :=
  exists_of_run_eq_error (resolveItems document key) rfl (fun _ _ => rfl) h

theorem FirstMissed.of_member {before after : List (String × Template)} {name around : String}
    {inner : Template} {failure : Unresolved} (h : FirstMissed document name inner failure)
    (hbefore : ∀ earlier ∈ before, ∀ path ∈ earlier.2.reads, path.get? document ≠ none) :
    FirstMissed document around (.object (before ++ (name, inner) :: after)) failure := by
  obtain ⟨front, back, hreads, hfound, hmissing, hfeeds⟩ := h
  refine ⟨_, back ++ after.flatMap fun member => member.2.reads, ?_, ?_, hmissing, hfeeds.member⟩
  · rw [reads_object, List.flatMap_append, List.flatMap_cons, hreads]
    simp only [List.append_assoc, List.cons_append]
  · exact List.forall_mem_append.mpr ⟨List.forall_mem_flatMap.mpr hbefore, hfound⟩

theorem FirstMissed.of_item {before after : List Template} {around : String} {inner : Template}
    {failure : Unresolved} (h : FirstMissed document around inner failure)
    (hbefore : ∀ earlier ∈ before, ∀ path ∈ earlier.reads, path.get? document ≠ none) :
    FirstMissed document around (.array (before ++ inner :: after)) failure := by
  obtain ⟨front, back, hreads, hfound, hmissing, hfeeds⟩ := h
  refine ⟨_, back ++ after.flatMap reads, ?_, ?_, hmissing, hfeeds.item⟩
  · rw [reads_array, List.flatMap_append, List.flatMap_cons, hreads]
    simp only [List.append_assoc, List.cons_append]
  · exact List.forall_mem_append.mpr ⟨List.forall_mem_flatMap.mpr hbefore, hfound⟩

/-- What is reported is the first path that leads nowhere. -/
theorem firstMissed_of_error {template : Template} {key : String} {failure : Unresolved}
    (h : template.resolveAt document key = .error failure) :
    FirstMissed document key template failure := by
  induction template using induction generalizing key with
  | literal value => cases h
  | reference path =>
      rw [resolveAt] at h
      cases hget : path.get? document with
      | some value =>
          rw [hget] at h
          cases h
      | none =>
          rw [hget] at h
          cases h
          exact ⟨[], [], rfl, fun _ hpath => absurd hpath List.not_mem_nil, hget, .reference⟩
  | object members ih =>
      obtain ⟨before, ⟨name, inner⟩, after, rfl, hfail, hbefore⟩ :=
        exists_of_resolveMembers_eq_error (map_eq_error.mp h)
      have hinner := ih (name, inner) (by simp) hfail
      exact hinner.of_member fun earlier hearlier =>
        (exists_resolveAt_iff earlier.2 earlier.1).mp (hbefore earlier hearlier)
  | array items ih =>
      obtain ⟨before, inner, after, rfl, hfail, hbefore⟩ :=
        exists_of_resolveItems_eq_error (map_eq_error.mp h)
      have hinner := ih inner (by simp) hfail
      exact hinner.of_item fun earlier hearlier =>
        (exists_resolveAt_iff earlier key).mp (hbefore earlier hearlier)

/-! ## Documents that agree -/

theorem resolveMembers_congr {members : List (String × Template)}
    (h : ∀ member ∈ members, ∀ key,
      member.2.resolveAt document key = member.2.resolveAt other key) :
    resolveMembers document members = resolveMembers other members := by
  induction members with
  | nil => rfl
  | cons member rest ih =>
      obtain ⟨name, template⟩ := member
      obtain ⟨hmember, hrest⟩ := List.forall_mem_cons.mp h
      rw [resolveMembers, resolveMembers, resolveMember, resolveMember, hmember name, ih hrest]

theorem resolveItems_congr {items : List Template} {key : String}
    (h : ∀ item ∈ items, item.resolveAt document key = item.resolveAt other key) :
    resolveItems document key items = resolveItems other key items := by
  induction items with
  | nil => rfl
  | cons item rest ih =>
      obtain ⟨hitem, hrest⟩ := List.forall_mem_cons.mp h
      rw [resolveItems, resolveItems, hitem, ih hrest]

/-- A template is filled in with the same in documents that agree on what it reads. -/
theorem resolveAt_congr {template : Template}
    (h : ∀ path ∈ template.reads, path.get? document = path.get? other) (key : String) :
    template.resolveAt document key = template.resolveAt other key := by
  induction template using induction generalizing key with
  | literal value => rfl
  | reference path => rw [resolveAt, resolveAt, h path (List.mem_singleton_self path)]
  | object members ih =>
      rw [reads_object, List.forall_mem_flatMap] at h
      rw [resolveAt, resolveAt,
        resolveMembers_congr fun member hmember => ih member hmember (h member hmember)]
  | array items ih =>
      rw [reads_array, List.forall_mem_flatMap] at h
      rw [resolveAt, resolveAt,
        resolveItems_congr fun item hitem => ih item hitem (h item hitem) key]

/-! ## The paths as they were written -/

/-- A compiled template reads no paths but those that are written in it. -/
theorem mentions_of_mem_reads {template : Json} {compiled : Template} {path : Path}
    (h : ofJson template = .ok compiled) (hpath : path ∈ compiled.reads) :
    Mentions template path := by
  induction template using Json.induction generalizing compiled with
  | null | bool | number | string =>
      cases h
      cases hpath
  | array items ih =>
      rw [ofJson] at h
      obtain ⟨templates, htemplates, rfl⟩ := map_eq_ok.mp h
      rw [reads_array] at hpath
      obtain ⟨compiled, hcompiled, hpath⟩ := List.mem_flatMap.mp hpath
      obtain ⟨item, hitem, hjson⟩ :=
        exists_of_forall₂ (ofItems_eq_ok_iff.mp htemplates) compiled hcompiled
      obtain ⟨inner, name, text, hwithin, hmem, hparse⟩ := ih item hitem hjson hpath
      exact ⟨inner, name, text, .item hitem hwithin, hmem, hparse⟩
  | object members ih =>
      rw [ofJson] at h
      obtain ⟨templates, htemplates, rfl⟩ := map_eq_ok.mp h
      obtain ⟨hmembers, -, -⟩ := ofMembers_eq_ok_iff.mp htemplates
      rw [reads_object] at hpath
      obtain ⟨compiled, hcompiled, hpath⟩ := List.mem_flatMap.mp hpath
      obtain ⟨⟨key, value⟩, hmember, hof⟩ := exists_of_forall₂ hmembers compiled hcompiled
      rcases plain_or_reference key with hkey | ⟨name, rfl⟩
      · rw [ofMember_plain hkey] at hof
        obtain ⟨template, htemplate, rfl⟩ := map_eq_ok.mp hof
        obtain ⟨inner, name, text, hwithin, hmem, hparse⟩ := ih _ hmember htemplate hpath
        exact ⟨inner, name, text, .member hmember hwithin, hmem, hparse⟩
      · rw [ofMember_reference] at hof
        obtain ⟨template, htemplate, rfl⟩ := map_eq_ok.mp hof
        obtain ⟨text, parsed, rfl, hparse, rfl⟩ := ofReference_eq_ok_iff.mp htemplate
        obtain rfl : path = parsed := List.mem_singleton.mp hpath
        exact ⟨members, name, text, .self, hmember, hparse⟩

/-- The list of the paths that a compiled template reads is exact. Filling the template in fails if
and only if one of them leads nowhere; what is reported then is the first of these, which is got
back from its canonical text, and the name of the innermost member around it. In any two documents
that agree on the listed paths it is filled in with the same, or the same is reported. -/
theorem resolve_by_reads_exactly {members : Entries Json} {template : Template}
    (hcompile : compile members = .ok template) :
    (∀ document, (∃ failure, template.resolve document = .error failure) ↔
        ∃ path ∈ template.reads, path.get? document = none) ∧
      (∀ document failure, template.resolve document = .error failure →
        FirstMissed document "" template failure ∧
          Path.parse failure.path.toString = .ok failure.path) ∧
      ∀ document other, (∀ path ∈ template.reads, path.get? document = path.get? other) →
        template.resolve document = template.resolve other := by
  refine ⟨fun document => ?_, fun document failure hfail => ?_, fun document other hagree => ?_⟩
  · rw [exists_error_iff, resolve, exists_resolveAt_iff]
    push Not
    rfl
  · have hmissed := firstMissed_of_error hfail
    refine ⟨hmissed, ?_⟩
    obtain ⟨front, back, hreads, -, -, -⟩ := hmissed
    have hmem : failure.path ∈ template.reads := by
      rw [hreads]
      exact List.mem_append_right _ List.mem_cons_self
    have hjson : ofJson (.object members) = .ok template := hcompile
    obtain ⟨_, _, _, -, -, hparse⟩ := mentions_of_mem_reads hjson hmem
    exact Path.parse_toString_of_writable (Path.writable_of_parse hparse)
  · exact resolveAt_congr hagree ""

/-- An order with a customer, some lines and a zone. -/
def order : Entries Json :=
  [("customer", .object [("id.$", .string "$.user.id"), ("plan", .string "$.plan")]),
   ("lines", .array [.bool true, .object [("count.$", .string "$.counts[1]")]]),
   ("zone.$", .string "$.zone")]

def ordered : Template :=
  .object
    [("customer", .object [("id", .reference ⟨[.key "user", .key "id"]⟩),
        ("plan", .literal (.string "$.plan"))]),
     ("lines", .array [.literal (.bool true),
        .object [("count", .reference ⟨[.key "counts", .index 1]⟩)]]),
     ("zone", .reference ⟨[.key "zone"]⟩)]

/-- The user of an order, one count and a note. -/
def orderInput (note : Json) : Json :=
  .object [("counts", .array [.number (.int 3)]), ("note", note),
    ("user", .object [("id", .string "u7")])]

/-- The second count and the zone are missing, and it is the count that is reported, for the member
that it was to fill; what the note says makes no difference. -/
theorem resolve_by_reads_exactly_of_order :
    compile order = .ok ordered ∧
      FirstMissed (orderInput .null) "" ordered ⟨"count", ⟨[.key "counts", .index 1]⟩⟩ ∧
      ordered.resolve (orderInput (.string "urgent")) = ordered.resolve (orderInput .null) := by
  have hcompile : compile order = .ok ordered := by with_unfolding_all rfl
  obtain ⟨-, hreports, hagree⟩ := resolve_by_reads_exactly hcompile
  refine ⟨hcompile, (hreports _ _ (by rfl)).1, hagree _ _ ?_⟩
  have hreads : ordered.reads =
      [⟨[.key "user", .key "id"]⟩, ⟨[.key "counts", .index 1]⟩, ⟨[.key "zone"]⟩] := rfl
  rw [hreads]
  simp only [List.forall_mem_cons]
  exact ⟨rfl, rfl, rfl, nofun⟩

end Template

end StateFlow
