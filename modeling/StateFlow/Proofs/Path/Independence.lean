import StateFlow.Proofs.Json.Outcome
import StateFlow.Proofs.Path.Write

/-!
# Writes that do not meet

Two places are apart if the paths to them part at two different keys or at two different items. A
write leaves what is apart from it as it was, and writes apart from each other may be made in either
order, though the first may create or replace what the second goes through. Of two writes to one
place only the second shows.
-/

namespace StateFlow

/-- The paths part at two different keys or at two different items. -/
inductive Segment.Apart : List Segment → List Segment → Prop
  | keys {name other rest rest'} (hne : name ≠ other) :
      Apart (.key name :: rest) (.key other :: rest')
  | indices {i j rest rest'} (hne : i ≠ j) : Apart (.index i :: rest) (.index j :: rest')
  | behind {segment path other} (tail : Apart path other) :
      Apart (segment :: path) (segment :: other)

/-- The paths lead to places apart from each other. -/
def Path.Apart (path other : Path) : Prop :=
  Segment.Apart path.segments other.segments

/-- A value put at the end of some steps turns one document into the other. -/
inductive Json.Puts (value : Json) : Json → List Segment → Json → Prop
  | here {document} : Puts value document [] value
  | key {document name rest below} (tail : Puts value (document.child name) rest below) :
      Puts value document (.key name :: rest)
        (.object (Entries.insert name below document.members))
  | index {document child i rest below} (hitem : document.items[i]? = some child)
      (tail : Puts value child rest below) :
      Puts value document (.index i :: rest) (.array (document.items.set i below))

namespace Segment.Apart

variable {path other : List Segment}

theorem symm (h : Apart path other) : Apart other path := by
  induction h with
  | keys hne => exact keys hne.symm
  | indices hne => exact indices hne.symm
  | behind _ ih => exact behind ih

/-- What two paths share in front does not count. -/
theorem append_iff (front : List Segment) : Apart (front ++ path) (front ++ other) ↔
    Apart path other := by
  induction front with
  | nil => exact Iff.rfl
  | cons segment front ih =>
      rw [← ih]
      constructor
      · intro h
        cases h with
        | keys hne | indices hne => exact absurd rfl hne
        | behind tail => exact tail
      · exact behind

/-- A place is not apart from those below it. -/
theorem not_append (path rest : List Segment) : ¬ Apart path (path ++ rest) := by
  intro h
  have happend : Apart (path ++ []) (path ++ rest) := by rwa [List.append_nil]
  cases (append_iff path).mp happend

/-- Paths that part at a key and an item are not apart. -/
theorem not_key_index (front : List Segment) {name : String} {i : Nat} {back rest : List Segment} :
    ¬ Apart (front ++ .key name :: back) (front ++ .index i :: rest) := by
  rw [append_iff]
  exact nofun

end Segment.Apart

namespace Json

open Segment (Apart)

variable {document value other first second : Json} {path place : List Segment}

/-- What is apart from a write is as it was. -/
theorem Observed.at?_eq_of_apart {written : Json}
    (h : Observed path value document written place) (hapart : Apart path place) :
    written.at? place = document.at? place := by
  cases h with
  | @within rest hplace _ =>
      rw [hplace] at hapart
      exact absurd hapart (Segment.Apart.not_append path rest)
  | aboveKey hpath _ | aboveIndex hpath _ _ _ =>
      rw [hpath] at hapart
      exact absurd hapart.symm (Segment.Apart.not_append place _)
  | overwritten front hpath hplace _ =>
      rw [hpath, hplace] at hapart
      exact absurd hapart (Segment.Apart.not_key_index front)
  | beside _ _ _ _ _ hsame => exact hsame

theorem puts_write (h : (document.write path value).missing = none) :
    Puts value document path (document.write path value).document := by
  induction path generalizing document with
  | nil => exact Puts.here
  | cons segment rest ih =>
      cases segment with
      | key name =>
          have hbelow : ((document.child name).write rest value).missing = none := h
          exact Puts.key (ih hbelow)
      | index i =>
          rw [write] at h ⊢
          cases hitem : document.items[i]? with
          | none =>
              rw [hitem] at h
              cases h
          | some child =>
              rw [hitem] at h
              exact Puts.index hitem (ih h)

theorem child_insert_self (name : String) (below : Json) (members : Entries Json) :
    (object (Entries.insert name below members)).child name = below := by
  rw [child, Json.members, Entries.find?_insert_self]
  rfl

theorem child_insert_of_ne {name sibling : String} (hne : sibling ≠ name) (below document : Json) :
    (object (Entries.insert name below document.members)).child sibling =
      document.child sibling := by
  rw [child, child, Json.members, Entries.find?_insert_of_ne hne]

namespace Puts

theorem write_eq (h : Puts value document path first) :
    document.write path value = ⟨first, none⟩ := by
  induction h with
  | here => rfl
  | @key document name rest below _ ih =>
      rw [write]
      change Written.mk (object (Entries.insert name
        ((document.child name).write rest value).document document.members))
        ((document.child name).write rest value).missing = _
      rw [ih]
  | index hitem _ ih =>
      rw [write, hitem]
      simp only [ih]

/-- What stands under a name is replaced by what a write makes of it. -/
theorem inside_key {below : Json} (h : Puts value below path first) (name : String)
    (members : Entries Json) :
    Puts value (object (Entries.insert name below members)) (.key name :: path)
      (object (Entries.insert name first members)) := by
  rw [← child_insert_self name below members] at h
  have hkey := Puts.key h
  rw [Json.members, Entries.insert_insert_self] at hkey
  exact hkey

/-- What stands among the items is replaced by what a write makes of it. -/
theorem inside_index {i : Nat} {items : List Json} {below : Json} (hi : i < items.length)
    (h : Puts value below path first) :
    Puts value (array (items.set i below)) (.index i :: path) (array (items.set i first)) := by
  have hitem : (array (items.set i below)).items[i]? = some below := List.getElem?_set_self hi
  have hindex := Puts.index hitem h
  rw [Json.items, List.set_set] at hindex
  exact hindex

/-- Two values put apart from each other may be put in either order. -/
theorem comm (hapart : Apart path place) (hfirst : Puts value document path first)
    (hsecond : Puts other first place second) :
    ∃ middle, Puts other document place middle ∧ Puts value middle path second := by
  induction hapart generalizing document first second with
  | @keys name sibling _ _ hne =>
      obtain _ | @⟨_, _, _, below, hbelow⟩ := hfirst
      obtain _ | @⟨_, _, _, beside, hbeside⟩ := hsecond
      rw [child_insert_of_ne hne.symm] at hbeside
      refine ⟨_, Puts.key hbeside, ?_⟩
      rw [Json.members, Entries.insert_comm hne]
      apply Puts.key
      rw [child_insert_of_ne hne]
      exact hbelow
  | @indices i j _ _ hne =>
      obtain _ | _ | @⟨_, _, _, _, below, hitem, hbelow⟩ := hfirst
      obtain _ | _ | @⟨_, _, _, _, beside, hother, hbeside⟩ := hsecond
      rw [Json.items, List.getElem?_set_ne hne] at hother
      refine ⟨_, Puts.index hother hbeside, ?_⟩
      rw [Json.items, List.set_comm _ _ hne]
      refine Puts.index ?_ hbelow
      rw [Json.items, List.getElem?_set_ne hne.symm]
      exact hitem
  | @behind segment _ _ _ ih =>
      cases segment with
      | key name =>
          obtain _ | @⟨_, _, _, below, hbelow⟩ := hfirst
          obtain _ | @⟨_, _, _, both, hboth⟩ := hsecond
          rw [child_insert_self] at hboth
          obtain ⟨beside, hbeside, hback⟩ := ih hbelow hboth
          refine ⟨_, Puts.key hbeside, ?_⟩
          rw [Json.members, Entries.insert_insert_self]
          exact hback.inside_key name document.members
      | index i =>
          obtain _ | _ | @⟨_, _, _, _, below, hitem, hbelow⟩ := hfirst
          obtain _ | _ | @⟨_, found, _, _, both, hfound, hboth⟩ := hsecond
          obtain ⟨hi, -⟩ := List.getElem?_eq_some_iff.mp hitem
          obtain rfl : below = found := by
            rw [Json.items, List.getElem?_set_self hi] at hfound
            exact Option.some.inj hfound
          obtain ⟨beside, hbeside, hback⟩ := ih hbelow hboth
          refine ⟨_, Puts.index hitem hbeside, ?_⟩
          rw [Json.items, List.set_set]
          exact hback.inside_index hi

/-- Of two values put at one place the second stays. -/
theorem again (h : Puts value document path first) (other : Json) :
    ∃ second, Puts other first path second ∧ Puts other document path second := by
  induction h with
  | here => exact ⟨other, Puts.here, Puts.here⟩
  | @key document name rest below _ ih =>
      obtain ⟨second, hfirst, hdocument⟩ := ih
      exact ⟨_, hfirst.inside_key name document.members, Puts.key hdocument⟩
  | @index document child i rest below hitem _ ih =>
      obtain ⟨second, hfirst, hdocument⟩ := ih
      obtain ⟨hi, -⟩ := List.getElem?_eq_some_iff.mp hitem
      exact ⟨_, hfirst.inside_index hi, Puts.index hitem hdocument⟩

end Puts

end Json

namespace Path

variable {path place : Path} {value other document first second result : Json}

theorem set_eq_ok_iff :
    path.set value document = .ok result ↔ Json.Puts value document path.segments result := by
  constructor
  · intro h
    rw [set] at h
    cases hmissing : (document.write path.segments value).missing with
    | none =>
        simp only [hmissing] at h
        exact Except.ok.inj h ▸ Json.puts_write hmissing
    | some i =>
        simp only [hmissing] at h
        cases h
  · intro h
    rw [set, h.write_eq]

/-- A place apart from a write holds what it held. -/
theorem get?_of_apart (hset : path.set value document = .ok result) (hapart : path.Apart place) :
    place.get? result = place.get? document := by
  have hputs := set_eq_ok_iff.mp hset
  have hmissing : (document.write path.segments value).missing = none :=
    congrArg Json.Written.missing hputs.write_eq
  have hobserved := Json.observed_write hmissing place.segments
  rw [hputs.write_eq] at hobserved
  exact hobserved.at?_eq_of_apart hapart

theorem set_set_of_apart (hapart : path.Apart place)
    (h : (path.set value document >>= place.set other) = .ok result) :
    (place.set other document >>= path.set value) = .ok result := by
  obtain ⟨first, hfirst, hresult⟩ := Source.Decoded.bind_eq_ok.mp h
  obtain ⟨middle, hmiddle, hback⟩ :=
    (set_eq_ok_iff.mp hfirst).comm hapart (set_eq_ok_iff.mp hresult)
  exact Source.Decoded.bind_eq_ok.mpr
    ⟨middle, set_eq_ok_iff.mpr hmiddle, set_eq_ok_iff.mpr hback⟩

/-- Two writes apart from each other succeed in one order exactly if they do in the other, and leave
the same document. Where one write succeeds, so does another one to the same place, which leaves the
document that it would leave alone. -/
theorem set_independent (document value other : Json) :
    (∀ path place : Path, path.Apart place → ∀ result,
      (path.set value document >>= place.set other) = .ok result ↔
        (place.set other document >>= path.set value) = .ok result) ∧
    ∀ (path : Path) (first : Json), path.set value document = .ok first →
      ∃ second, path.set other first = .ok second ∧ path.set other document = .ok second := by
  refine ⟨fun path place hapart result => ⟨?_, ?_⟩, fun path first hfirst => ?_⟩
  · exact set_set_of_apart hapart
  · exact set_set_of_apart hapart.symm
  · obtain ⟨second, hagain, halone⟩ := (set_eq_ok_iff.mp hfirst).again other
    exact ⟨second, set_eq_ok_iff.mpr hagain, set_eq_ok_iff.mpr halone⟩

/-- A job whose progress is a number, with two entries in its log. -/
def job : Json :=
  .object [("log", .array [.null, .null]), ("progress", .number (.int 7))]

def jobDone : Path := ⟨[.key "progress", .key "done"]⟩

def jobLeft : Path := ⟨[.key "progress", .key "left"]⟩

/-- The job with an object in place of the number. -/
def countedJob : Json :=
  .object [("log", .array [.null, .null]),
    ("progress", .object [("done", .number (.int 4)), ("left", .number (.int 3))])]

/-- Whichever of two writes comes first replaces the number by an object, and the other one finds
that object. -/
theorem set_independent_of_counted :
    jobDone.Apart jobLeft ∧
      (jobDone.set (.number (.int 4)) job >>= jobLeft.set (.number (.int 3))) = .ok countedJob ∧
      (jobLeft.set (.number (.int 3)) job >>= jobDone.set (.number (.int 4))) = .ok countedJob ∧
      ∃ first second, jobDone.set (.number (.int 4)) job = .ok first ∧
        jobDone.set (.number (.int 3)) first = .ok second ∧
        jobDone.set (.number (.int 3)) job = .ok second := by
  obtain ⟨horder, hagain⟩ := set_independent job (.number (.int 4)) (.number (.int 3))
  have hapart : jobDone.Apart jobLeft := Segment.Apart.behind (Segment.Apart.keys (by decide))
  have hcounted : (jobDone.set (.number (.int 4)) job >>= jobLeft.set (.number (.int 3))) =
      .ok countedJob := rfl
  obtain ⟨second, hsecond, halone⟩ := hagain jobDone _ rfl
  exact ⟨hapart, hcounted, (horder jobDone jobLeft hapart countedJob).mp hcounted,
    _, second, rfl, hsecond, halone⟩

end Path

end StateFlow
