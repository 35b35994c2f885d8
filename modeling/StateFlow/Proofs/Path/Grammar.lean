import Mathlib.Data.List.TakeWhile
import Mathlib.Tactic.Tauto
import StateFlow.Path.Text

/-!
# The grammar of paths

A path is written as a dollar sign and its segments: a name behind a point, a key in brackets and
quotes, or an index in brackets. Every text has at most one such reading. A text is read as a path
exactly if it has one, and the segments are those of the reading. Else the error names the place of
the first segment that is none: what is in front of it is a path, and what is there is at fault in
the way that the error says.

## Implementation notes

All three forms of segments are read up to a character of another kind, so each reader is analysed
on a text that is split there already (`exists_span`). A name goes on as long as it can, so whether
a segment stands in front of a text depends on what follows it (`InFront`). Within a path every
segment does, as the next one begins with a point or a bracket (`Divided.ends`).
-/

namespace StateFlow

namespace Segment

/-- A character of a name behind a point. -/
def IsNameChar (c : Char) : Prop :=
  c ∉ ['.', '[', ']', '\x27', '"'] ∧ Text.isBlank c = false

/-- The text is a segment. -/
inductive Spelled : List Char → Segment → Prop
  | name {name : List Char} (hempty : name ≠ []) (hstar : name ≠ ['*'])
      (hchars : ∀ c ∈ name, IsNameChar c) : Spelled ('.' :: name) (.key (String.ofList name))
  | quoted {quote : Char} {key : List Char} (hquote : quote = '\x27' ∨ quote = '"')
      (hkey : quote ∉ key) :
      Spelled ('[' :: quote :: (key ++ [quote, ']'])) (.key (String.ofList key))
  | index {digits : List Char} (hempty : digits ≠ []) (hdigits : ∀ c ∈ digits, c.isDigit = true)
      (hbound : Nat.ofDigitChars 10 digits 0 < Nat.pow 2 64) :
      Spelled ('[' :: (digits ++ [']'])) (.index (Nat.ofDigitChars 10 digits 0))

/-- The text is empty or goes on with a point or an opening bracket. -/
def Ends (rest : List Char) : Prop :=
  ∀ c, rest.head? = some c → c = '.' ∨ c = '['

/-- The segment stands in front of the rest: a name goes on up to a point, a bracket or the end. -/
structure InFront (text : List Char) (segment : Segment) (rest : List Char) : Prop where
  spelled : Spelled text segment
  ends : text.head? = some '.' → Ends rest

/-- No segment stands in front of the text, and why. -/
inductive Faulty : List Char → Fault → Prop
  | emptyKey {rest} (hrest : Ends rest) : Faulty ('.' :: rest) .emptyKey
  | wildcard {rest} (hrest : Ends rest) : Faulty ('.' :: '*' :: rest) .wildcard
  | needsQuotes {name c rest} (hname : ∀ d ∈ name, IsNameChar d) (hends : c ≠ '.' ∧ c ≠ '[')
      (hc : ¬ IsNameChar c) : Faulty ('.' :: (name ++ c :: rest)) (.needsQuotes c)
  | unterminated {quote rest} (hquote : quote = '\x27' ∨ quote = '"') (hrest : quote ∉ rest) :
      Faulty ('[' :: quote :: rest) .unterminated
  | notClosed {quote key rest} (hquote : quote = '\x27' ∨ quote = '"') (hkey : quote ∉ key)
      (hrest : rest.head? ≠ some ']') : Faulty ('[' :: quote :: (key ++ quote :: rest)) .notClosed
  | noIndex {digits rest} (hdigits : ∀ c ∈ digits, c.isDigit = true)
      (hrest : ∀ c, rest.head? = some c → c.isDigit = false)
      (hnone : digits = [] ∧ rest.head? ≠ some '\x27' ∧ rest.head? ≠ some '"' ∨
        rest.head? ≠ some ']') : Faulty ('[' :: (digits ++ rest)) .noIndex
  | indexTooLarge {digits rest} (hdigits : ∀ c ∈ digits, c.isDigit = true)
      (hbound : Nat.pow 2 64 ≤ Nat.ofDigitChars 10 digits 0) :
      Faulty ('[' :: (digits ++ ']' :: rest)) .indexTooLarge
  | unexpected {c rest} (hpoint : c ≠ '.') (hbracket : c ≠ '[') : Faulty (c :: rest) (.unexpected c)

/-- The outcome of reading a segment in front of a text is right. -/
inductive Reads (s : List Char) : Except Fault (Segment × List Char) → Prop
  | segment {text segment rest} (hs : s = text ++ rest) (h : InFront text segment rest) :
      Reads s (.ok (segment, rest))
  | fault {fault} (h : Faulty s fault) : Reads s (.error fault)

/-! ## Kinds of characters -/

/-- A text is split where the first character of another kind stands. -/
theorem exists_span (p : Char → Bool) (s : List Char) :
    ∃ front rest, s = front ++ rest ∧ (∀ c ∈ front, p c = true) ∧
      ∀ c, rest.head? = some c → p c = false := by
  refine ⟨s.takeWhile p, s.dropWhile p, List.takeWhile_append_dropWhile.symm,
    fun c => List.mem_takeWhile_imp, fun c hc => ?_⟩
  have h := List.head?_dropWhile_not p s
  rw [hc] at h
  exact h

theorem takeWhile_span {p : Char → Bool} {front rest : List Char}
    (hfront : ∀ c ∈ front, p c = true) (hrest : ∀ c, rest.head? = some c → p c = false) :
    (front ++ rest).takeWhile p = front := by
  rw [List.takeWhile_append_of_pos hfront]
  cases rest with
  | nil => exact List.append_nil front
  | cons c rest => rw [List.takeWhile_cons_of_neg (by simp [hrest c rfl]), List.append_nil]

theorem dropWhile_span {p : Char → Bool} {front rest : List Char}
    (hfront : ∀ c ∈ front, p c = true) (hrest : ∀ c, rest.head? = some c → p c = false) :
    (front ++ rest).dropWhile p = rest := by
  rw [List.dropWhile_append_of_pos hfront]
  cases rest with
  | nil => rfl
  | cons c rest => rw [List.dropWhile_cons_of_neg (by simp [hrest c rfl])]

theorem endsDotKey_iff {c : Char} : endsDotKey c = true ↔ c = '.' ∨ c = '[' := by
  simp [endsDotKey]

theorem isNameChar_iff {c : Char} :
    IsNameChar c ↔ isDotKeyChar c = true ∧ endsDotKey c = false := by
  simp only [IsNameChar, isDotKeyChar, endsDotKey, List.mem_cons, List.not_mem_nil, or_false,
    not_or, Bool.and_eq_true, Bool.not_eq_true', Bool.or_eq_false_iff, decide_eq_false_iff_not]
  tauto

theorem ofDigits_eq (digits : List Char) : ofDigits digits = Nat.ofDigitChars 10 digits 0 := by
  rw [ofDigits, Nat.ofDigitChars_eq_foldl]
  simp only [Nat.mul_comm]

/-! ## Names -/

/-- The first character that has to stand in quotes is no character of a name. -/
theorem faulty_of_find? {name rest : List Char} {c : Char}
    (hname : ∀ d ∈ name, endsDotKey d = false)
    (hc : name.find? (!isDotKeyChar ·) = some c) :
    Faulty ('.' :: (name ++ rest)) (.needsQuotes c) := by
  obtain ⟨hbad, front, back, rfl, hfront⟩ := List.find?_eq_some_iff_append.mp hc
  have hlast : endsDotKey c = false := hname c (List.mem_append_right _ List.mem_cons_self)
  have hends : c ≠ '.' ∧ c ≠ '[' := by
    rw [← not_or, ← endsDotKey_iff, hlast]
    exact Bool.false_ne_true
  rw [List.append_assoc, List.cons_append]
  refine Faulty.needsQuotes (fun d hd => isNameChar_iff.mpr ⟨?_, ?_⟩) hends fun hgood => ?_
  · simpa using hfront d hd
  · exact hname d (List.mem_append_left _ hd)
  · rw [(isNameChar_iff.mp hgood).1] at hbad
    cases hbad

theorem reads_readDotKey (s : List Char) : Reads ('.' :: s) (readDotKey s) := by
  obtain ⟨name, rest, rfl, hname, hrest⟩ := exists_span (!endsDotKey ·) s
  have hends : Ends rest := by
    intro c hc
    exact endsDotKey_iff.mp (by simpa using hrest c hc)
  have hchars : ∀ c ∈ name, endsDotKey c = false := by simpa using hname
  rw [readDotKey, takeWhile_span hname hrest, dropWhile_span hname hrest]
  split
  · next hempty =>
      rw [List.isEmpty_iff.mp hempty]
      exact Reads.fault (Faulty.emptyKey hends)
  · next hempty =>
      split
      · next hstar =>
          rw [hstar]
          exact Reads.fault (Faulty.wildcard hends)
      · next hstar =>
          split
          · next c hc => exact Reads.fault (faulty_of_find? hchars hc)
          · next hnone =>
              have hgood := List.find?_eq_none.mp hnone
              have hspelled : Spelled ('.' :: name) (.key (String.ofList name)) := by
                refine Spelled.name (by simpa using hempty) hstar fun c hc => ?_
                exact isNameChar_iff.mpr ⟨by simpa using hgood c hc, hchars c hc⟩
              exact Reads.segment rfl ⟨hspelled, fun _ => hends⟩

theorem readDotKey_of_spelled {name rest : List Char} (hempty : name ≠ []) (hstar : name ≠ ['*'])
    (hchars : ∀ c ∈ name, IsNameChar c) (hrest : Ends rest) :
    readDotKey (name ++ rest) = .ok (.key (String.ofList name), rest) := by
  have hname : ∀ c ∈ name, (!endsDotKey c) = true := by
    intro c hc
    rw [(isNameChar_iff.mp (hchars c hc)).2]
    rfl
  have hends : ∀ c, rest.head? = some c → (!endsDotKey c) = false := by
    intro c hc
    rw [Bool.not_eq_false', endsDotKey_iff]
    exact hrest c hc
  have hgood : name.find? (!isDotKeyChar ·) = none := by
    apply List.find?_eq_none.mpr
    intro c hc
    simp [(isNameChar_iff.mp (hchars c hc)).1]
  rw [readDotKey, takeWhile_span hname hends, dropWhile_span hname hends,
    if_neg (by simpa using hempty), if_neg hstar, hgood]

/-! ## Quoted keys -/

theorem ne_of_not_mem {quote : Char} {key : List Char} (h : quote ∉ key) :
    ∀ c ∈ key, (c != quote) = true := by
  intro c hc
  rw [bne_iff_ne]
  rintro rfl
  exact h hc

theorem readQuotedKey_span {quote : Char} {key rest : List Char} (hkey : quote ∉ key) :
    readQuotedKey quote (key ++ quote :: rest) =
      match rest with
      | ']' :: rest => .ok (.key (String.ofList key), rest)
      | _ => .error .notClosed := by
  have hquote : ∀ c, (quote :: rest).head? = some c → (c != quote) = false := by
    intro c hc
    cases hc
    exact bne_self_eq_false' quote
  rw [readQuotedKey, takeWhile_span (ne_of_not_mem hkey) hquote,
    dropWhile_span (ne_of_not_mem hkey) hquote]
  cases rest with
  | nil => rfl
  | cons c rest =>
      by_cases hc : c = ']'
      · subst hc
        rfl
      · simp [hc]

theorem reads_readQuotedKey {quote : Char} (hquote : quote = '\x27' ∨ quote = '"')
    (s : List Char) : Reads ('[' :: quote :: s) (readQuotedKey quote s) := by
  obtain ⟨key, rest, rfl, hkey, hrest⟩ := exists_span (· != quote) s
  have hnot : quote ∉ key := fun hmem => by simpa using hkey quote hmem
  cases rest with
  | nil =>
      have hread : readQuotedKey quote (key ++ []) = .error .unterminated := by
        rw [readQuotedKey, dropWhile_span hkey hrest]
      rw [hread, List.append_nil]
      exact Reads.fault (Faulty.unterminated hquote hnot)
  | cons c rest =>
      obtain rfl : c = quote := by simpa using hrest c rfl
      rw [readQuotedKey_span hnot]
      split
      · next rest =>
          refine Reads.segment ?_ ⟨Spelled.quoted hquote hnot, ?_⟩
          · simp
          · simp
      · next hother =>
          refine Reads.fault (Faulty.notClosed hquote hnot fun hhead => ?_)
          obtain ⟨tail, rfl⟩ := List.head?_eq_some_iff.mp hhead
          exact hother tail rfl

/-! ## Indices -/

theorem readIndex_bracket {digits : List Char} (hdigits : ∀ c ∈ digits, c.isDigit = true)
    (rest : List Char) :
    readIndex (digits ++ ']' :: rest) =
      if digits.isEmpty then .error .noIndex
      else if Nat.ofDigitChars 10 digits 0 < Nat.pow 2 64 then
        .ok (.index (Nat.ofDigitChars 10 digits 0), rest)
      else .error .indexTooLarge := by
  have hbracket : ∀ c, (']' :: rest).head? = some c → c.isDigit = false := by
    intro c hc
    cases hc
    rfl
  rw [readIndex, takeWhile_span hdigits hbracket, dropWhile_span hdigits hbracket]
  simp only [ofDigits_eq, indexBound]

theorem readIndex_other {digits rest : List Char} (hdigits : ∀ c ∈ digits, c.isDigit = true)
    (hrest : ∀ c, rest.head? = some c → c.isDigit = false) (hother : rest.head? ≠ some ']') :
    readIndex (digits ++ rest) = .error .noIndex := by
  rw [readIndex, dropWhile_span hdigits hrest]
  cases rest with
  | nil => rfl
  | cons c rest =>
      split
      · next heq =>
          cases heq
          exact absurd rfl hother
      · rfl

theorem reads_readIndex {s : List Char} (hsingle : s.head? ≠ some '\x27')
    (hdouble : s.head? ≠ some '"') : Reads ('[' :: s) (readIndex s) := by
  obtain ⟨digits, rest, rfl, hdigits, hrest⟩ := exists_span Char.isDigit s
  by_cases hbracket : rest.head? = some ']'
  · obtain ⟨rest, rfl⟩ := List.head?_eq_some_iff.mp hbracket
    rw [readIndex_bracket hdigits]
    split
    · next hempty =>
        rw [List.isEmpty_iff] at hempty
        subst hempty
        exact Reads.fault (Faulty.noIndex hdigits hrest (Or.inl ⟨rfl, hsingle, hdouble⟩))
    · next hempty =>
        split
        · next hbound =>
            refine Reads.segment ?_ ⟨Spelled.index (by simpa using hempty) hdigits hbound, ?_⟩
            · simp
            · simp
        · next hbound => exact Reads.fault (Faulty.indexTooLarge hdigits (Nat.le_of_not_lt hbound))
  · rw [readIndex_other hdigits hrest hbracket]
    exact Reads.fault (Faulty.noIndex hdigits hrest (Or.inr hbracket))

/-! ## Segments -/

/-- Reading a segment goes right, or fails with a fault that is there. -/
theorem reads_read (first : Char) (s : List Char) : Reads (first :: s) (read first s) := by
  unfold read
  split
  · next hpoint =>
      subst hpoint
      exact reads_readDotKey s
  · next hpoint =>
      split
      · next hbracket =>
          subst hbracket
          split
          · next rest => exact reads_readQuotedKey (Or.inl rfl) rest
          · next rest => exact reads_readQuotedKey (Or.inr rfl) rest
          · next hsingle hdouble =>
              apply reads_readIndex
              · intro hhead
                obtain ⟨tail, rfl⟩ := List.head?_eq_some_iff.mp hhead
                exact hsingle tail rfl
              · intro hhead
                obtain ⟨tail, rfl⟩ := List.head?_eq_some_iff.mp hhead
                exact hdouble tail rfl
      · next hbracket => exact Reads.fault (Faulty.unexpected hpoint hbracket)

theorem read_index {s : List Char} (hsingle : s.head? ≠ some '\x27')
    (hdouble : s.head? ≠ some '"') : read '[' s = readIndex s := by
  unfold read
  rw [if_neg (by decide), if_pos rfl]
  split
  · exact absurd rfl hsingle
  · exact absurd rfl hdouble
  · rfl

/-- A segment in front of a text is read. -/
theorem read_of_inFront {text rest : List Char} {segment : Segment}
    (h : InFront text segment rest) :
    ∃ first tail, text = first :: tail ∧ read first (tail ++ rest) = .ok (segment, rest) := by
  obtain ⟨hspelled, hends⟩ := h
  cases hspelled with
  | @name name hempty hstar hchars =>
      refine ⟨'.', name, rfl, ?_⟩
      unfold read
      rw [if_pos rfl]
      exact readDotKey_of_spelled hempty hstar hchars (hends rfl)
  | @quoted quote key hquote hkey =>
      refine ⟨'[', quote :: (key ++ [quote, ']']), rfl, ?_⟩
      have hread : read '[' (quote :: (key ++ quote :: ']' :: rest)) =
          readQuotedKey quote (key ++ quote :: ']' :: rest) := by
        rcases hquote with rfl | rfl
        · rfl
        · rfl
      rw [List.cons_append, List.append_assoc, List.cons_append, List.singleton_append, hread,
        readQuotedKey_span hkey]
      rfl
  | @index digits hempty hdigits hbound =>
      refine ⟨'[', digits ++ [']'], rfl, ?_⟩
      obtain ⟨digit, digits, rfl⟩ := List.exists_cons_of_ne_nil hempty
      have hdigit := hdigits digit List.mem_cons_self
      rw [List.append_assoc, List.singleton_append, read_index, readIndex_bracket hdigits,
        if_neg (by simp), if_pos hbound]
      · intro hhead
        cases hhead
        cases hdigit
      · intro hhead
        cases hhead
        cases hdigit

/-- In front of a text stands one segment at most. -/
theorem InFront.unique {text text' rest rest' : List Char} {segment segment' : Segment}
    (h : InFront text segment rest) (h' : InFront text' segment' rest')
    (heq : text ++ rest = text' ++ rest') : text = text' ∧ segment = segment' ∧ rest = rest' := by
  obtain ⟨first, tail, rfl, hread⟩ := read_of_inFront h
  obtain ⟨first', tail', rfl, hread'⟩ := read_of_inFront h'
  rw [List.cons_append, List.cons_append] at heq
  obtain ⟨rfl, htail⟩ := List.cons.inj heq
  rw [htail, hread'] at hread
  cases hread
  exact ⟨congrArg _ (List.append_cancel_right htail), rfl, rfl⟩

theorem Spelled.ends {text : List Char} {segment : Segment} (h : Spelled text segment)
    (rest : List Char) : text ++ rest ≠ [] ∧ Ends (text ++ rest) := by
  cases h with
  | name | quoted | index => simp [Ends, eq_comm]

end Segment

namespace Path

open Segment (Spelled InFront Ends Faulty)

/-- The text is made of segments, which stand behind one another with their texts. -/
structure Divided (s : List Char) (reading : List (List Char × Segment)) : Prop where
  text : s = (reading.map Prod.fst).flatten
  spelled : ∀ entry ∈ reading, Spelled entry.1 entry.2

/-- The text is a dollar sign and segments with their texts. -/
def IsReading (text : String) (reading : List (List Char × Segment)) : Prop :=
  ∃ s, text.toList = '$' :: s ∧ Divided s reading

/-- The outcome of reading all segments of a text is right. -/
inductive ReadsAll (s : List Char) : Except (Segment.Fault × List Char) (List Segment) → Prop
  | segments {reading} (h : Divided s reading) : ReadsAll s (.ok (reading.map Prod.snd))
  | fault {front reading rest fault} (hs : s = front ++ rest) (hfront : Divided front reading)
      (hfault : Faulty rest fault)
      (hnone : ∀ text segment tail, rest = text ++ tail → ¬ InFront text segment tail) :
      ReadsAll s (.error (fault, rest))

/-- What an error says of a text that is no path. -/
inductive Explained (text : String) : PathError → Prop
  | missingRoot (h : text.toList.head? ≠ some '$') : Explained text (.missingRoot text)
  | malformed {front rest : String} {fault} (htext : text = front ++ rest) (hrest : rest ≠ "")
      (hfront : ∃ path, parse front = .ok path)
      (hnone : ∀ text segment tail, rest.toList = text ++ tail → ¬ InFront text segment tail)
      (hfault : Faulty rest.toList fault) :
      Explained text (.malformed text front.utf8ByteSize fault)

/-! ## Texts made of segments -/

theorem divided_nil : Divided [] [] :=
  ⟨rfl, nofun⟩

theorem Divided.ends {s : List Char} {reading : List (List Char × Segment)}
    (h : Divided s reading) : Ends s := by
  rw [h.text]
  cases reading with
  | nil => exact nofun
  | cons entry reading => exact ((h.spelled entry List.mem_cons_self).ends _).2

theorem Divided.cons {text rest : List Char} {segment : Segment}
    {reading : List (List Char × Segment)} (h : Spelled text segment)
    (hrest : Divided rest reading) : Divided (text ++ rest) ((text, segment) :: reading) := by
  refine ⟨?_, List.forall_mem_cons.mpr ⟨h, hrest.spelled⟩⟩
  rw [hrest.text]
  rfl

/-- A name within a path goes on up to the next segment. -/
theorem Divided.of_cons {s : List Char} {entry : List Char × Segment}
    {reading : List (List Char × Segment)} (h : Divided s (entry :: reading)) :
    ∃ rest, s = entry.1 ++ rest ∧ InFront entry.1 entry.2 rest ∧ Divided rest reading := by
  obtain ⟨hspelled, hothers⟩ := List.forall_mem_cons.mp h.spelled
  have hrest : Divided (reading.map Prod.fst).flatten reading := ⟨rfl, hothers⟩
  exact ⟨_, h.text, ⟨hspelled, fun _ => hrest.ends⟩, hrest⟩

theorem Divided.unique {s : List Char} {reading other : List (List Char × Segment)}
    (h : Divided s reading) (hother : Divided s other) : reading = other := by
  induction reading generalizing s other with
  | nil =>
      cases other with
      | nil => rfl
      | cons entry other =>
          obtain ⟨rest, hs, hfront, -⟩ := hother.of_cons
          exact absurd (hs.symm.trans h.text) (hfront.spelled.ends rest).1
  | cons entry reading ih =>
      obtain ⟨rest, hs, hfront, hrest⟩ := h.of_cons
      cases other with
      | nil => exact absurd (hs.symm.trans hother.text) (hfront.spelled.ends rest).1
      | cons entry' other =>
          obtain ⟨rest', hs', hfront', hrest'⟩ := hother.of_cons
          obtain ⟨htext, hsegment, rfl⟩ := hfront.unique hfront' (hs.symm.trans hs')
          rw [Prod.ext htext hsegment, ih hrest hrest']

theorem readSegments_of_ok {first : Char} {s rest : List Char} {segment : Segment}
    (h : Segment.read first s = .ok (segment, rest)) :
    readSegments (first :: s) = (readSegments rest).map (segment :: ·) := by
  rw [readSegments]
  split
  · next hread =>
      rw [h] at hread
      cases hread
  · next hread =>
      rw [h] at hread
      cases hread
      cases readSegments rest <;> rfl

theorem readSegments_of_error {first : Char} {s : List Char} {fault : Segment.Fault}
    (h : Segment.read first s = .error fault) :
    readSegments (first :: s) = .error (fault, first :: s) := by
  rw [readSegments]
  split
  · next hread =>
      rw [h] at hread
      cases hread
      rfl
  · next hread =>
      rw [h] at hread
      cases hread

theorem readSegments_of_divided {s : List Char} {reading : List (List Char × Segment)}
    (h : Divided s reading) : readSegments s = .ok (reading.map Prod.snd) := by
  induction reading generalizing s with
  | nil =>
      rw [h.text, List.map_nil, List.flatten_nil, readSegments]
      rfl
  | cons entry reading ih =>
      obtain ⟨rest, rfl, hfront, hrest⟩ := h.of_cons
      obtain ⟨first, tail, htext, hread⟩ := Segment.read_of_inFront hfront
      rw [htext, List.cons_append, readSegments_of_ok hread, ih hrest]
      rfl

theorem readsAll_readSegments (s : List Char) : ReadsAll s (readSegments s) := by
  induction hlength : s.length using Nat.strongRecOn generalizing s with
  | ind length ih =>
      subst hlength
      cases s with
      | nil =>
          rw [readSegments]
          exact ReadsAll.segments divided_nil
      | cons first s =>
          have hreads := Segment.reads_read first s
          cases hread : Segment.read first s with
          | error fault =>
              rw [hread] at hreads
              rw [readSegments_of_error hread]
              cases hreads with
              | fault hfault =>
                  refine ReadsAll.fault rfl divided_nil hfault fun text segment tail hs hfront => ?_
                  obtain ⟨first', tail', rfl, hother⟩ := Segment.read_of_inFront hfront
                  obtain ⟨rfl, rfl⟩ := List.cons.inj hs
                  cases hread.symm.trans hother
          | ok found =>
              obtain ⟨segment, rest⟩ := found
              rw [hread] at hreads
              rw [readSegments_of_ok hread]
              have hshorter : rest.length < (first :: s).length := by
                have := Segment.length_read hread
                rw [List.length_cons]
                omega
              have hrest := ih _ hshorter rest rfl
              cases hreads with
              | segment hs hfront =>
                  rw [hs]
                  cases hsegments : readSegments rest with
                  | ok segments =>
                      rw [hsegments] at hrest
                      cases hrest with
                      | segments hdivided =>
                          exact ReadsAll.segments (hdivided.cons hfront.spelled)
                  | error e =>
                      rw [hsegments] at hrest
                      cases hrest with
                      | fault hback hdivided hfault hnone =>
                          rw [hback, ← List.append_assoc]
                          exact ReadsAll.fault rfl (hdivided.cons hfront.spelled) hfault hnone

/-! ## Texts of paths -/

theorem parse_cons {text : String} {s : List Char} (h : text.toList = '$' :: s) :
    parse text =
      match readSegments s with
      | .ok segments => .ok ⟨segments⟩
      | .error (fault, rest) =>
        .error (.malformed text (text.utf8ByteSize - (String.ofList rest).utf8ByteSize) fault) := by
  rw [parse, h]
  rfl

theorem parse_of_isReading {text : String} {reading : List (List Char × Segment)}
    (h : IsReading text reading) : parse text = .ok ⟨reading.map Prod.snd⟩ := by
  obtain ⟨s, htext, hdivided⟩ := h
  rw [parse_cons htext, readSegments_of_divided hdivided]

theorem parse_of_head? {text : String} (h : text.toList.head? ≠ some '$') :
    parse text = .error (.missingRoot text) := by
  unfold parse
  split
  · next htext =>
      rw [htext] at h
      exact absurd rfl h
  · rfl

/-- In front of a fault stands a path. -/
theorem explained_of_fault {text : String} {s front rest : List Char} {fault : Segment.Fault}
    {reading : List (List Char × Segment)} (htext : text.toList = '$' :: s)
    (hs : s = front ++ rest) (hfront : Divided front reading) (hfault : Faulty rest fault)
    (hnone : ∀ text segment tail, rest = text ++ tail → ¬ InFront text segment tail) :
    Explained text
      (.malformed text (text.utf8ByteSize - (String.ofList rest).utf8ByteSize) fault) := by
  have hsplit : text = String.ofList ('$' :: front) ++ String.ofList rest := by
    rw [← String.ofList_append, List.cons_append, ← hs, ← htext, String.ofList_toList]
  have hsize : text.utf8ByteSize - (String.ofList rest).utf8ByteSize =
      (String.ofList ('$' :: front)).utf8ByteSize := by
    calc text.utf8ByteSize - (String.ofList rest).utf8ByteSize
        = (String.ofList ('$' :: front) ++ String.ofList rest).utf8ByteSize -
            (String.ofList rest).utf8ByteSize := by rw [← hsplit]
      _ = (String.ofList ('$' :: front)).utf8ByteSize := by
          rw [String.utf8ByteSize_append, Nat.add_sub_cancel]
  have hnonempty : String.ofList rest ≠ "" := by
    intro hempty
    have hrest : rest = [] := by
      rw [← String.toList_ofList (l := rest), hempty, String.toList_empty]
    rw [hrest] at hfault
    cases hfault
  rw [hsize]
  apply Explained.malformed hsplit hnonempty
  · exact ⟨_, parse_of_isReading ⟨front, String.toList_ofList, hfront⟩⟩
  · rw [String.toList_ofList]
    exact hnone
  · rw [String.toList_ofList]
    exact hfault

/-- The outcome of reading a text is right. -/
inductive Parses (text : String) : Except PathError Path → Prop
  | path {reading} (h : IsReading text reading) : Parses text (.ok ⟨reading.map Prod.snd⟩)
  | error {e} (h : Explained text e) : Parses text (.error e)

theorem parses_parse (text : String) : Parses text (parse text) := by
  by_cases hroot : text.toList.head? = some '$'
  · obtain ⟨s, hs⟩ := List.head?_eq_some_iff.mp hroot
    have hall := readsAll_readSegments s
    rw [parse_cons hs]
    cases hsegments : readSegments s with
    | ok segments =>
        rw [hsegments] at hall
        cases hall with
        | segments hdivided => exact Parses.path ⟨s, hs, hdivided⟩
    | error e =>
        rw [hsegments] at hall
        cases hall with
        | fault hsplit hfront hfault hnone =>
            exact Parses.error (explained_of_fault hs hsplit hfront hfault hnone)
  · rw [parse_of_head? hroot]
    exact Parses.error (Explained.missingRoot hroot)

theorem isReading_of_parse {text : String} {path : Path} (h : parse text = .ok path) :
    ∃ reading, IsReading text reading ∧ path.segments = reading.map Prod.snd := by
  have hparses := parses_parse text
  rw [h] at hparses
  cases hparses with
  | path hreading => exact ⟨_, hreading, rfl⟩

theorem explained_of_parse {text : String} {e : PathError} (h : parse text = .error e) :
    Explained text e := by
  have hparses := parses_parse text
  rw [h] at hparses
  cases hparses with
  | error hexplained => exact hexplained

theorem IsReading.unique {text : String} {reading other : List (List Char × Segment)}
    (h : IsReading text reading) (hother : IsReading text other) : reading = other := by
  obtain ⟨s, hs, hdivided⟩ := h
  obtain ⟨s', hs', hdivided'⟩ := hother
  obtain ⟨-, rfl⟩ := List.cons.inj (hs.symm.trans hs')
  exact hdivided.unique hdivided'

/-- A text is a path exactly if it can be read as a dollar sign and segments, which is possible in
one way at most, and the path has the segments of this reading. Without a dollar sign in front the
root is missing. Every other error names the byte at which the first segment that is none begins:
what is in front of it is a path, and what is wrong there is what the error says. -/
theorem parse_iff_isReading (text : String) :
    (∀ path, parse text = .ok path ↔
        ∃ reading, IsReading text reading ∧ path.segments = reading.map Prod.snd) ∧
      (∀ reading other, IsReading text reading → IsReading text other → reading = other) ∧
      (parse text = .error (.missingRoot text) ↔ text.toList.head? ≠ some '$') ∧
      ∀ e, parse text = .error e → Explained text e := by
  refine ⟨fun path => ⟨isReading_of_parse, ?_⟩, fun _ _ => IsReading.unique,
    ⟨fun h => ?_, parse_of_head?⟩, fun _ => explained_of_parse⟩
  · rintro ⟨reading, hreading, hsegments⟩
    rw [parse_of_isReading hreading, ← hsegments]
  · cases explained_of_parse h with
    | missingRoot hroot => exact hroot

/-- A fault is found where its segment begins, in bytes. -/
example : parse "$.é.b c" = .error (.malformed "$.é.b c" 4 (.needsQuotes ' ')) := by cbv

end Path

end StateFlow
