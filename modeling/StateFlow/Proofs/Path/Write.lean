import StateFlow.Path.Text
import StateFlow.Proofs.NameTable

/-!
# Writing through paths

A write succeeds exactly when every item that its path enters exists already; otherwise it names the
first one that does not. What a successful write leaves behind is told place by place: at and below
the path stands the value, above it the objects and arrays that the path goes through, and beside it
everything is as it was, unless a key of the path has put an object where an item is looked for.
-/

namespace StateFlow

namespace Json

/-- Every item that the path enters is there. -/
def HasItems (document : Json) (path : List Segment) : Prop :=
  ∀ front i back, path = front ++ .index i :: back →
    (document.at? (front ++ [.index i])).isSome = true

/-- The first item that the path enters and that is not there. -/
def MissesFirst (document : Json) (path : List Segment) (i : Nat) : Prop :=
  ∃ front back, path = front ++ .index i :: back ∧ document.HasItems front ∧
    document.at? (front ++ [.index i]) = none

/-- The member of a name, as a write meets it: null where there is none. -/
def child (document : Json) (name : String) : Json :=
  (Entries.find? name document.members).getD null

/-- What is found at another place when a value was written at the end of a path. -/
inductive Observed (path : List Segment) (value document written : Json)
    (other : List Segment) : Prop
  /-- At and below the path stands the value. -/
  | within {rest} (hother : other = path ++ rest) (hvalue : written.at? other = value.at? rest)
  /-- Above a key stands an object. -/
  | aboveKey {name rest members} (hpath : path = other ++ .key name :: rest)
      (hobject : written.at? other = some (.object members))
  /-- Above an item stands an array, as long as before. -/
  | aboveIndex {i rest old new} (hpath : path = other ++ .index i :: rest)
      (hold : document.at? other = some (.array old))
      (hnew : written.at? other = some (.array new)) (hlength : new.length = old.length)
  /-- Where the path has a key there are no items. -/
  | overwritten (front : List Segment) {name i back rest}
      (hpath : path = front ++ .key name :: back)
      (hother : other = front ++ .index i :: rest) (hnone : written.at? other = none)
  /-- Any other place beside the path is as it was. -/
  | beside (front : List Segment) {segment segment' back rest}
      (hpath : path = front ++ segment :: back) (hother : other = front ++ segment' :: rest)
      (hne : segment ≠ segment') (hkinds : ∀ name i, segment = .key name → segment' ≠ .index i)
      (hsame : written.at? other = document.at? other)

/-! ## One step into a document -/

theorem step?_key (document : Json) (name : String) :
    document.step? (.key name) = Entries.find? name document.members := by
  cases document <;> rfl

theorem step?_index (document : Json) (i : Nat) :
    document.step? (.index i) = document.items[i]? := by
  cases document <;> rfl

theorem at?_cons (document : Json) (segment : Segment) (rest : List Segment) :
    document.at? (segment :: rest) = (document.step? segment).bind fun child => child.at? rest :=
  rfl

theorem at?_null {path : List Segment} (h : path ≠ []) : null.at? path = none := by
  cases path with
  | nil => exact absurd rfl h
  | cons segment rest => cases segment <;> rfl

/-- Below a name that is missing nothing is found, as below null. -/
theorem at?_key_cons (document : Json) (name : String) {rest : List Segment} (h : rest ≠ []) :
    document.at? (.key name :: rest) = (document.child name).at? rest := by
  rw [at?_cons, step?_key, child]
  cases Entries.find? name document.members with
  | none => exact (at?_null h).symm
  | some child => rfl

theorem at?_index_cons {document child : Json} {i : Nat} (h : document.items[i]? = some child)
    (rest : List Segment) : document.at? (.index i :: rest) = child.at? rest := by
  rw [at?_cons, step?_index, h]
  rfl

/-- What is found behind a name in spite of null is found behind the name itself. -/
theorem at?_key_cons_of_some {document found : Json} {name : String} {rest : List Segment}
    (h : (document.child name).at? rest = some found) (hnull : found ≠ null) :
    document.at? (.key name :: rest) = some found := by
  rw [at?_cons, step?_key]
  rw [child] at h
  cases hfind : Entries.find? name document.members with
  | some child =>
      rw [hfind] at h
      exact h
  | none =>
      rw [hfind] at h
      cases rest with
      | nil => exact absurd (Option.some.inj h).symm hnull
      | cons segment rest =>
          have hnone := at?_null (List.cons_ne_nil segment rest)
          cases hnone.symm.trans h

/-! ## When a write succeeds -/

theorem hasItems_nil (document : Json) : document.HasItems [] := by
  intro front i back h
  cases front <;> cases h

theorem hasItems_key_cons {document : Json} {name : String} {rest : List Segment} :
    document.HasItems (.key name :: rest) ↔ (document.child name).HasItems rest := by
  constructor
  · intro h front i back hrest
    rw [← document.at?_key_cons name (by simp)]
    exact h (.key name :: front) i back (by rw [hrest]; rfl)
  · intro h front i back hpath
    cases front with
    | nil => cases hpath
    | cons segment front =>
        obtain ⟨rfl, hrest⟩ := List.cons.inj hpath
        rw [List.cons_append, document.at?_key_cons name (by simp)]
        exact h front i back hrest

theorem hasItems_index_cons {document child : Json} {i : Nat} {rest : List Segment}
    (hchild : document.items[i]? = some child) :
    document.HasItems (.index i :: rest) ↔ child.HasItems rest := by
  constructor
  · intro h front j back hrest
    rw [← at?_index_cons hchild]
    exact h (.index i :: front) j back (by rw [hrest]; rfl)
  · intro h front j back hpath
    cases front with
    | nil =>
        obtain ⟨hindex, -⟩ := List.cons.inj hpath
        cases hindex
        rw [List.nil_append, at?_index_cons hchild]
        rfl
    | cons segment front =>
        obtain ⟨rfl, hrest⟩ := List.cons.inj hpath
        rw [List.cons_append, at?_index_cons hchild]
        exact h front j back hrest

theorem missesFirst_key_cons {document : Json} {name : String} {rest : List Segment} {i : Nat}
    (h : (document.child name).MissesFirst rest i) :
    document.MissesFirst (.key name :: rest) i := by
  obtain ⟨front, back, rfl, hitems, hnone⟩ := h
  refine ⟨.key name :: front, back, rfl, hasItems_key_cons.mpr hitems, ?_⟩
  rw [List.cons_append, document.at?_key_cons name (by simp)]
  exact hnone

theorem missesFirst_index_cons {document child : Json} {i j : Nat} {rest : List Segment}
    (hchild : document.items[i]? = some child) (h : child.MissesFirst rest j) :
    document.MissesFirst (.index i :: rest) j := by
  obtain ⟨front, back, rfl, hitems, hnone⟩ := h
  refine ⟨.index i :: front, back, rfl, (hasItems_index_cons hchild).mpr hitems, ?_⟩
  rw [List.cons_append, at?_index_cons hchild]
  exact hnone

/-- What is missing first is not there. -/
theorem MissesFirst.not_hasItems {document : Json} {path : List Segment} {i : Nat}
    (h : document.MissesFirst path i) : ¬ document.HasItems path := by
  obtain ⟨front, back, hpath, -, hnone⟩ := h
  intro hitems
  have hsome := hitems front i back hpath
  rw [hnone] at hsome
  cases hsome

/-- A write misses nothing where all items are there, else the first one that is not. -/
theorem missing_write (document value : Json) (path : List Segment) :
    match (document.write path value).missing with
    | none => document.HasItems path
    | some i => document.MissesFirst path i := by
  induction path generalizing document with
  | nil => exact document.hasItems_nil
  | cons segment rest ih =>
      cases segment with
      | key name =>
          have hchild := ih (document.child name)
          rw [write]
          change match ((document.child name).write rest value).missing with
            | none => document.HasItems (.key name :: rest)
            | some i => document.MissesFirst (.key name :: rest) i
          cases hmissing : ((document.child name).write rest value).missing with
          | none =>
              rw [hmissing] at hchild
              exact hasItems_key_cons.mpr hchild
          | some i =>
              rw [hmissing] at hchild
              exact missesFirst_key_cons hchild
      | index i =>
          rw [write]
          cases hitem : document.items[i]? with
          | none =>
              refine ⟨[], rest, rfl, document.hasItems_nil, ?_⟩
              rw [List.nil_append, at?_cons, step?_index, hitem]
              rfl
          | some child =>
              have hchild := ih child
              simp only
              cases hmissing : (child.write rest value).missing with
              | none =>
                  rw [hmissing] at hchild
                  exact (hasItems_index_cons hitem).mpr hchild
              | some j =>
                  rw [hmissing] at hchild
                  exact missesFirst_index_cons hitem hchild

/-! ## What a write leaves behind -/

namespace Observed

variable {path other : List Segment} {value document written : Json}

/-- What is observed in a member is observed in the object around it. -/
theorem key_cons {name : String} {members : List (String × Json)}
    (hmember : Entries.find? name members = some written)
    (h : Observed path value (document.child name) written other) :
    Observed (.key name :: path) value document (.object members) (.key name :: other) := by
  have hwritten (rest : List Segment) :
      (object members).at? (.key name :: rest) = written.at? rest := by
    rw [at?_cons, step?_key]
    exact congrArg (Option.bind · _) hmember
  cases h with
  | within hother hvalue =>
      exact within (congrArg (List.cons _) hother) ((hwritten other).trans hvalue)
  | aboveKey hpath hobject =>
      exact aboveKey (congrArg (List.cons _) hpath) ((hwritten other).trans hobject)
  | aboveIndex hpath hold hnew hlength =>
      refine aboveIndex (congrArg (List.cons _) hpath) (at?_key_cons_of_some hold ?_)
        ((hwritten other).trans hnew) hlength
      simp
  | overwritten front hpath hother hnone =>
      exact overwritten (.key name :: front) (congrArg (List.cons _) hpath)
        (congrArg (List.cons _) hother)
        ((hwritten other).trans hnone)
  | beside front hpath hother hne hkinds hsame =>
      refine beside (.key name :: front) (congrArg (List.cons _) hpath)
        (congrArg (List.cons _) hother) hne hkinds ?_
      rw [hwritten, hsame, document.at?_key_cons name (by simp [hother])]

/-- What is observed in an item is observed in the array around it. -/
theorem index_cons {i : Nat} {child : Json} {items : List Json}
    (hchild : document.items[i]? = some child) (hitem : items[i]? = some written)
    (h : Observed path value child written other) :
    Observed (.index i :: path) value document (.array items) (.index i :: other) := by
  have hwritten (rest : List Segment) :
      (array items).at? (.index i :: rest) = written.at? rest := at?_index_cons hitem rest
  have hdocument := at?_index_cons hchild other
  cases h with
  | within hother hvalue =>
      exact within (congrArg (List.cons _) hother) ((hwritten other).trans hvalue)
  | aboveKey hpath hobject =>
      exact aboveKey (congrArg (List.cons _) hpath) ((hwritten other).trans hobject)
  | aboveIndex hpath hold hnew hlength =>
      exact aboveIndex (congrArg (List.cons _) hpath) (hdocument.trans hold)
        ((hwritten other).trans hnew) hlength
  | overwritten front hpath hother hnone =>
      exact overwritten (.index i :: front) (congrArg (List.cons _) hpath)
        (congrArg (List.cons _) hother)
        ((hwritten other).trans hnone)
  | beside front hpath hother hne hkinds hsame =>
      refine beside (.index i :: front) (congrArg (List.cons _) hpath)
        (congrArg (List.cons _) hother) hne hkinds ?_
      rw [hwritten, hsame, hdocument]

end Observed

/-- A key puts its member into an object, whatever was there. -/
theorem observed_key {name : String} {path : List Segment} {value document written : Json}
    (h : ∀ other, Observed path value (document.child name) written other)
    (other : List Segment) :
    Observed (.key name :: path) value document
      (object (Entries.insert name written document.members)) other := by
  cases other with
  | nil => exact Observed.aboveKey rfl rfl
  | cons segment other =>
      cases segment with
      | index i => exact Observed.overwritten [] rfl rfl rfl
      | key name' =>
          by_cases hname : name' = name
          · subst hname
            exact (h other).key_cons (Entries.find?_insert_self _ _ _)
          · refine Observed.beside [] rfl rfl ?_ ?_ ?_
            · intro heq
              cases heq
              exact hname rfl
            · intro _ _ _ heq
              cases heq
            · rw [at?_cons, at?_cons, step?_key, step?_key]
              exact congrArg (Option.bind · _) (Entries.find?_insert_of_ne hname _ _)

/-- An item is replaced in its array. -/
theorem observed_index {i : Nat} {path : List Segment} {value document child written : Json}
    (hchild : document.items[i]? = some child)
    (h : ∀ other, Observed path value child written other) (other : List Segment) :
    Observed (.index i :: path) value document (array (document.items.set i written)) other := by
  obtain ⟨hi, -⟩ := List.getElem?_eq_some_iff.mp hchild
  -- Only an array has items.
  have hdocument : document = array document.items := by
    cases document with
    | array => rfl
    | _ => cases hchild
  cases other with
  | nil =>
      refine Observed.aboveIndex rfl (congrArg some hdocument) rfl ?_
      exact List.length_set
  | cons segment other =>
      by_cases hsegment : segment = .index i
      · subst hsegment
        exact (h other).index_cons hchild (List.getElem?_set_self hi)
      · refine Observed.beside [] rfl rfl (Ne.symm hsegment) ?_ ?_
        · intro _ _ heq
          cases heq
        · rw [at?_cons, at?_cons]
          refine congrArg (Option.bind · _) ?_
          cases segment with
          | key name =>
              rw [step?_key, step?_key, hdocument]
              rfl
          | index j =>
              rw [step?_index, step?_index]
              exact List.getElem?_set_ne fun heq => hsegment (congrArg Segment.index heq.symm)

/-- After a write that misses nothing every place is as it should be. -/
theorem observed_write {document value : Json} {path : List Segment}
    (h : (document.write path value).missing = none) (other : List Segment) :
    Observed path value document (document.write path value).document other := by
  induction path generalizing document other with
  | nil => exact Observed.within rfl rfl
  | cons segment rest ih =>
      cases segment with
      | key name =>
          have hrest : ((document.child name).write rest value).missing = none := h
          exact observed_key (ih hrest) other
      | index i =>
          rw [write] at h ⊢
          cases hitem : document.items[i]? with
          | none =>
              rw [hitem] at h
              cases h
          | some child =>
              rw [hitem] at h
              exact observed_index hitem (ih h) other

end Json

namespace Path

/-- A write succeeds where all items are there. -/
theorem set_of_hasItems {path : Path} {document : Json} (value : Json)
    (h : document.HasItems path.segments) :
    ∃ written, path.set value document = .ok written ∧
      ∀ other, Json.Observed path.segments value document written other := by
  have hmissing := document.missing_write value path.segments
  rw [set]
  cases hindex : (document.write path.segments value).missing with
  | none => exact ⟨_, rfl, Json.observed_write hindex⟩
  | some i =>
      rw [hindex] at hmissing
      exact absurd h hmissing.not_hasItems

/-- Else it names the first item that is not there. -/
theorem set_of_not_hasItems {path : Path} {document : Json} (value : Json)
    (h : ¬ document.HasItems path.segments) :
    ∃ i, path.set value document = .error (.indexOutOfRange path i) ∧
      document.MissesFirst path.segments i := by
  have hmissing := document.missing_write value path.segments
  rw [set]
  cases hindex : (document.write path.segments value).missing with
  | none =>
      rw [hindex] at hmissing
      exact absurd hmissing h
  | some i =>
      rw [hindex] at hmissing
      exact ⟨i, rfl, hmissing⟩

end Path

namespace Json

/-- A write succeeds exactly when every item that its path enters is there, and else names the
first that is not, with the text of the path. When it succeeds, every place is as it should be. -/
theorem observed_set (path : Path) (value document : Json) :
    ((∃ written, path.set value document = .ok written) ↔ document.HasItems path.segments) ∧
      (∀ e, path.set value document = .error e → ∃ i, document.MissesFirst path.segments i ∧
        e = .indexOutOfRange path i ∧
        e.message = "cannot write through '" ++ path.toString ++ "': index " ++ toString i
          ++ " does not exist") ∧
      ∀ written, path.set value document = .ok written →
        ∀ other, Observed path.segments value document written other := by
  by_cases hitems : document.HasItems path.segments
  · obtain ⟨written, hset, hobserved⟩ := Path.set_of_hasItems value hitems
    refine ⟨⟨fun _ => hitems, fun _ => ⟨written, hset⟩⟩, ?_, ?_⟩
    · intro e he
      cases hset.symm.trans he
    · intro other hother
      cases hset.symm.trans hother
      exact hobserved
  · obtain ⟨i, hset, hmisses⟩ := Path.set_of_not_hasItems value hitems
    refine ⟨⟨?_, fun h => absurd h hitems⟩, ?_, ?_⟩
    · rintro ⟨written, hwritten⟩
      cases hset.symm.trans hwritten
    · intro e he
      cases hset.symm.trans he
      exact ⟨i, hmisses, rfl, rfl⟩
    · intro written hwritten
      cases hset.symm.trans hwritten

/-- A key replaces an array that it meets, with all items, by an object. -/
example : (⟨[.key "a", .key "b"]⟩ : Path).set (bool true) (object [("a", array [null])]) =
    .ok (object [("a", object [("b", bool true)])]) := rfl

end Json

end StateFlow
