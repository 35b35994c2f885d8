import StateFlow.Proofs.Path.Grammar

/-!
# Canonical texts of paths

A path that was read from a text is read again from its canonical text. So the canonical text stands
for the path alone: two texts of paths have the same one exactly if they are read as the same path.

## Implementation notes

Keys are written without escapes. A key with both kinds of quotes has no text at all, but none can
be read: a quoted key lacks the quote around it, and a name has no quotes (`Spelled.writable`).
-/

namespace StateFlow

namespace Segment

/-- The segment has a text: a key lacks one kind of quotes, and an index is within bounds. -/
def Writable : Segment → Prop
  | key name => '\x27' ∉ name.toList ∨ '"' ∉ name.toList
  | index i => i < indexBound

theorem Spelled.writable {text : List Char} {segment : Segment} (h : Spelled text segment) :
    segment.Writable := by
  cases h with
  | name _ _ hchars =>
      left
      rw [String.toList_ofList]
      intro hquote
      exact (hchars _ hquote).1 (by decide)
  | quoted hquote hkey =>
      rw [Writable, String.toList_ofList]
      rcases hquote with rfl | rfl
      · exact Or.inl hkey
      · exact Or.inr hkey
  | index _ _ hbound => exact hbound

theorem isPlainKey_iff {name : String} :
    isPlainKey name = true ↔
      name.toList ≠ [] ∧ name.toList ≠ ['*'] ∧ ∀ c ∈ name.toList, IsNameChar c := by
  have hempty : name.toList = [] ↔ name = "" := by
    rw [← String.toList_empty, String.toList_inj]
  have hstar : name.toList = ['*'] ↔ name = "*" := by
    rw [← String.toList_inj]
    rfl
  simp only [isPlainKey, Bool.and_eq_true, bne_iff_ne, List.all_eq_true, Bool.not_eq_true',
    isNameChar_iff, ne_eq, hempty, hstar, and_assoc]

/-- The canonical text of a segment is one of its spellings. -/
theorem spelled_toString {segment : Segment} (h : segment.Writable) :
    Spelled segment.toString.toList segment := by
  cases segment with
  | key name =>
      rw [Segment.toString]
      split
      · next hplain =>
          obtain ⟨hempty, hstar, hchars⟩ := isPlainKey_iff.mp hplain
          have hspelled := Spelled.name hempty hstar hchars
          rw [String.ofList_toList] at hspelled
          rw [String.toList_append]
          exact hspelled
      · split
        · next hsingle =>
            have hdouble : '"' ∉ name.toList := by
              rcases h with h | h
              · exact absurd (by simpa using hsingle) h
              · exact h
            have hspelled := Spelled.quoted (Or.inr rfl) hdouble
            rw [String.ofList_toList] at hspelled
            rw [String.toList_append, String.toList_append]
            exact hspelled
        · next hsingle =>
            have hspelled := Spelled.quoted (Or.inl rfl) (by simpa using hsingle)
            rw [String.ofList_toList] at hspelled
            rw [String.toList_append, String.toList_append]
            exact hspelled
  | index i =>
      have hdigits : ∀ c ∈ Nat.toDigits 10 i, c.isDigit = true := fun c hc =>
        Nat.isDigit_of_mem_toDigits (by decide) (by decide) hc
      have hbound : Nat.ofDigitChars 10 (Nat.toDigits 10 i) 0 < Nat.pow 2 64 := by
        rw [Nat.ofDigitChars_ten_toDigits]
        exact h
      have hspelled := Spelled.index Nat.toDigits_ne_nil hdigits hbound
      rw [Nat.ofDigitChars_ten_toDigits] at hspelled
      rw [Segment.toString, String.toList_append, String.toList_append, Nat.toList_repr]
      exact hspelled

end Segment

namespace Path

theorem toList_toString (path : Path) :
    path.toString.toList = '$' :: (path.segments.map (·.toString.toList)).flatten := by
  have hfold (segments : List Segment) (text : String) :
      (segments.foldl (fun text segment => text ++ segment.toString) text).toList =
        text.toList ++ (segments.map (·.toString.toList)).flatten := by
    induction segments generalizing text with
    | nil => simp
    | cons segment segments ih =>
        rw [List.foldl_cons, ih, String.toList_append, List.map_cons, List.flatten_cons,
          List.append_assoc]
  rw [toString, hfold]
  rfl

/-- The canonical text is a reading of the path. -/
theorem isReading_toString {path : Path} (h : ∀ segment ∈ path.segments, segment.Writable) :
    IsReading path.toString
      (path.segments.map fun segment => (segment.toString.toList, segment)) := by
  refine ⟨_, toList_toString path, ?_, ?_⟩
  · rw [List.map_map]
    rfl
  · intro entry hentry
    obtain ⟨segment, hsegment, rfl⟩ := List.mem_map.mp hentry
    exact Segment.spelled_toString (h segment hsegment)

theorem writable_of_parse {text : String} {path : Path} (h : parse text = .ok path) :
    ∀ segment ∈ path.segments, segment.Writable := by
  obtain ⟨reading, ⟨s, -, hdivided⟩, hsegments⟩ := isReading_of_parse h
  intro segment hsegment
  rw [hsegments] at hsegment
  obtain ⟨entry, hentry, rfl⟩ := List.mem_map.mp hsegment
  exact (hdivided.spelled entry hentry).writable

theorem parse_toString_of_writable {path : Path}
    (h : ∀ segment ∈ path.segments, segment.Writable) : parse path.toString = .ok path := by
  rw [parse_of_isReading (isReading_toString h), List.map_map]
  exact congrArg (fun segments => Except.ok (Path.mk segments)) (List.map_id' path.segments)

/-- A path that was read is read again from its canonical text, which stays the same, and no other
path that is read has this canonical text. -/
theorem parse_toString_of_parse {text : String} {path : Path} (h : parse text = .ok path) :
    parse path.toString = .ok path ∧
      (parse path.toString).map toString = .ok path.toString ∧
      ∀ other otherPath, parse other = .ok otherPath →
        (otherPath.toString = path.toString ↔ otherPath = path) := by
  have hagain := parse_toString_of_writable (writable_of_parse h)
  refine ⟨hagain, ?_, fun other otherPath hother => ⟨fun heq => ?_, congrArg toString⟩⟩
  · rw [hagain]
    rfl
  · have hagain' := parse_toString_of_writable (writable_of_parse hother)
    rw [heq, hagain] at hagain'
    exact (Except.ok.inj hagain').symm

/-- Zeros in front of an index and quotes around a name are left out, but not the quotes around a
key that a quote stands in, and not those around the empty key. -/
theorem parse_toString_of_quotes :
    parse "$[\"it's\"]['a'][007]['']" = .ok ⟨[.key "it's", .key "a", .index 7, .key ""]⟩ ∧
      toString ⟨[.key "it's", .key "a", .index 7, .key ""]⟩ = "$[\"it's\"].a[7]['']" ∧
      parse "$[\"it's\"].a[7]['']" = .ok ⟨[.key "it's", .key "a", .index 7, .key ""]⟩ := by
  have hparse : parse "$[\"it's\"]['a'][007]['']" =
      .ok ⟨[.key "it's", .key "a", .index 7, .key ""]⟩ := by decide +kernel
  have htext : toString ⟨[.key "it's", .key "a", .index 7, .key ""]⟩ = "$[\"it's\"].a[7]['']" := by
    decide +kernel
  obtain ⟨hagain, -, -⟩ := parse_toString_of_parse hparse
  rw [htext] at hagain
  exact ⟨hparse, htext, hagain⟩

end Path

end StateFlow
