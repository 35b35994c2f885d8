import StateFlow.Json.Reader
import StateFlow.Proofs.Json.Tidy

/-!
# Sources of JSON texts

A JSON text denotes each of its scalars by its form alone. The source that is read from it therefore
has no scalar within it whose text could be asked for in place of its value, and settling it, where
that succeeds, leaves it as it is.
-/

namespace StateFlow.Source

open Decoded

/-- Nothing within the source is a scalar without quotes. -/
inductive Literal : Source → Prop
  | null : Literal .null
  | bool {truth : Bool} : Literal (.bool truth)
  | number {value : Number} : Literal (.number value)
  | text {value : String} : Literal (.text value)
  | list {items : List Source} {whole : Bool} (hitems : ∀ item ∈ items, Literal item) :
      Literal (.list items whole)
  | record {members : List (String × Source)} {whole : Bool}
      (hmembers : ∀ member ∈ members, Literal member.2) : Literal (.record members whole)
  | flawed {flaw : Flaw} : Literal (.flawed flaw)

/-! ## Settling -/

theorem eq_of_decodeAll {decode : Source → Decoded Source} {items values : List Source}
    (hself : ∀ item ∈ items, ∀ value, decode item = .ok value → value = item)
    (h : decodeAll decode items = .ok values) : values = items := by
  induction items generalizing values with
  | nil =>
      cases h
      rfl
  | cons item rest ih =>
      obtain ⟨hitem, hrest⟩ := List.forall_mem_cons.mp hself
      rw [decodeAll, bind_eq_ok] at h
      obtain ⟨value, hvalue, h⟩ := h
      obtain ⟨others, hothers, h⟩ := bind_eq_ok.mp h
      cases h
      rw [hitem value hvalue, ih hrest hothers]

theorem eq_of_decodeEntries {decode : Source → Decoded Source}
    {members entries : List (String × Source)}
    (hself : ∀ member ∈ members, ∀ value, decode member.2 = .ok value → value = member.2)
    (h : decodeEntries decode members = .ok entries) : entries = members := by
  induction members generalizing entries with
  | nil =>
      cases h
      rfl
  | cons member rest ih =>
      obtain ⟨name, source⟩ := member
      obtain ⟨hmember, hrest⟩ := List.forall_mem_cons.mp hself
      rw [decodeEntries, bind_eq_ok] at h
      obtain ⟨value, hvalue, h⟩ := h
      obtain ⟨others, hothers, h⟩ := bind_eq_ok.mp h
      cases h
      rw [hmember value hvalue, ih hrest hothers]

theorem Literal.settle_eq {source settled : Source} (h : source.Literal)
    (hsettled : source.settle = .ok settled) : settled = source := by
  induction h generalizing settled with
  | null | bool | number | text =>
      cases hsettled
      rfl
  | flawed => cases hsettled
  | list _ ih =>
      rw [settle, settleItems_eq, bind_eq_ok] at hsettled
      obtain ⟨others, hothers, hsettled⟩ := hsettled
      obtain ⟨rfl, rfl⟩ := whole_eq_ok.mp hsettled
      rw [eq_of_decodeAll (fun item hitem _ => ih item hitem) hothers]
  | record _ ih =>
      rw [settle, settleMembers_eq, bind_eq_ok] at hsettled
      obtain ⟨others, hothers, hsettled⟩ := hsettled
      obtain ⟨rfl, rfl⟩ := whole_eq_ok.mp hsettled
      rw [eq_of_decodeEntries (fun member hmember _ => ih member hmember) hothers]

/-! ## Reading -/

namespace Reader

theorem literal_atDepth (depth : Nat) {container : Source} (h : container.Literal) :
    (atDepth depth container).Literal := by
  rw [atDepth]
  split
  · exact .flawed
  · exact h

theorem literal_word (letters : List Char) {value : Source} (h : value.Literal) (s : List Char) :
    (word letters value s).1.Literal := by
  rw [word]
  split
  · exact h
  · exact .flawed

theorem literal_number (s : List Char) : (number s).1.Literal := by
  unfold number
  dsimp only
  -- Every branch ends with a flaw or a number.
  repeat' split
  all_goals constructor

/-- Whatever is read with so much fuel is literal. -/
structure ReadsLiterals (fuel : Nat) : Prop where
  value : ∀ depth s, (value depth fuel s).1.Literal
  items : ∀ depth s, ∀ item ∈ (items depth fuel s).1, item.Literal
  members : ∀ depth s, ∀ member ∈ (members depth fuel s).1, member.2.Literal

theorem literal_value_succ {fuel : Nat} (h : ReadsLiterals fuel) (depth : Nat) (s : List Char) :
    (value depth (fuel + 1) s).1.Literal := by
  rw [value]
  split
  · exact .flawed
  · dsimp only
    apply literal_atDepth
    apply Literal.list
    split
    · exact fun _ hitem => absurd hitem List.not_mem_nil
    · exact h.items _ _
  · dsimp only
    apply literal_atDepth
    apply Literal.record
    split
    · exact fun _ hmember => absurd hmember List.not_mem_nil
    · exact h.members _ _
  · split
    · exact .flawed
    · dsimp only
      split
      · exact .text
      · exact .flawed
  · split
    · exact literal_word _ .bool _
    · split
      · exact literal_word _ .bool _
      · split
        · exact literal_word _ .null _
        · split
          · exact literal_number _
          · exact .flawed

theorem literal_items_succ {fuel : Nat} (h : ReadsLiterals fuel) (depth : Nat) (s : List Char) :
    ∀ item ∈ (items depth (fuel + 1) s).1, item.Literal := by
  have hitem := h.value depth s
  rw [items]
  split
  · next heq =>
      rw [heq] at hitem
      exact List.forall_mem_singleton.mpr hitem
  · next heq =>
      rw [heq] at hitem
      split
      · exact List.forall_mem_singleton.mpr hitem
      · exact List.forall_mem_cons.mpr ⟨hitem, h.items depth _⟩
      · exact List.forall_mem_singleton.mpr hitem

theorem literal_members_succ {fuel : Nat} (h : ReadsLiterals fuel) (depth : Nat) (s : List Char) :
    ∀ member ∈ (members depth (fuel + 1) s).1, member.2.Literal := by
  rw [members]
  split
  · split
    · split
      · next rest _ =>
          have hvalue := h.value depth rest
          split
          · next heq =>
              rw [heq] at hvalue
              exact List.forall_mem_singleton.mpr hvalue
          · next heq =>
              rw [heq] at hvalue
              split
              · exact List.forall_mem_singleton.mpr hvalue
              · exact List.forall_mem_cons.mpr ⟨hvalue, h.members depth _⟩
              · exact List.forall_mem_singleton.mpr hvalue
      · exact List.forall_mem_singleton.mpr .flawed
    · exact fun _ hmember => absurd hmember List.not_mem_nil
  · exact fun _ hmember => absurd hmember List.not_mem_nil

theorem readsLiterals (fuel : Nat) : ReadsLiterals fuel := by
  induction fuel with
  | zero =>
      constructor
      · exact fun _ _ => .flawed
      · exact fun _ _ _ hitem => absurd hitem List.not_mem_nil
      · exact fun _ _ _ hmember => absurd hmember List.not_mem_nil
  | succ fuel ih =>
      exact ⟨literal_value_succ ih, literal_items_succ ih, literal_members_succ ih⟩

end Reader

theorem literal_read (text : String) : (read text).1.Literal := by
  have hvalue := (Reader.readsLiterals (2 * text.toList.length + 2)).value 0 text.toList
  rw [read]
  split
  · next heq =>
      rw [heq] at hvalue
      exact hvalue
  · next heq =>
      rw [heq] at hvalue
      exact hvalue

end StateFlow.Source
