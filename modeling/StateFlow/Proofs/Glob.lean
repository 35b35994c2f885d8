import StateFlow.Glob
import StateFlow.Proofs.Json.Outcome

/-!
# Instances of patterns

Read from the left, each backslash of a pattern takes the meaning from the star or the backslash
behind it. An instance of a pattern has some text in place of each star that kept its meaning, and
each other character, escaped or not, as it is. A text is a pattern exactly if all its backslashes
can be read like this, and a pattern matches its instances and nothing else.

## Implementation notes

The matcher takes the first occurrence of each piece and never looks for another one. This loses
nothing: what is left behind a later occurrence is an end of what is left behind the first one
(`behind?_append`), and text may be skipped in front of the next piece (`Placed.append_left`).
-/

namespace StateFlow.Glob

open Source.Decoded (map_eq_ok)

/-- Read from the left, a star or a backslash stands behind each backslash. -/
inductive WellEscaped : List Char → Prop
  | nil : WellEscaped []
  | star {s} (hs : WellEscaped s) : WellEscaped ('*' :: s)
  | pair {c s} (hc : c = '*' ∨ c = '\\') (hs : WellEscaped s) : WellEscaped ('\\' :: c :: s)
  | char {c s} (hstar : c ≠ '*') (hslash : c ≠ '\\') (hs : WellEscaped s) : WellEscaped (c :: s)

/-- The text is got from the pattern with some text for each star and a character for each pair. -/
inductive Instance : (pattern : List Char) → (text : List Char) → Prop
  | nil : Instance [] []
  | star {s text} (run : List Char) (hs : Instance s text) : Instance ('*' :: s) (run ++ text)
  | pair {c s text} (hc : c = '*' ∨ c = '\\') (hs : Instance s text) :
      Instance ('\\' :: c :: s) (c :: text)
  | char {c s text} (hstar : c ≠ '*') (hslash : c ≠ '\\') (hs : Instance s text) :
      Instance (c :: s) (c :: text)

/-- The text is made of the pieces in their order, with some text in front of each of them. -/
inductive Placed : List (List Char) → List Char → Prop
  | nil : Placed [] []
  | cons {piece pieces rest} (skipped : List Char) (hrest : Placed pieces rest) :
      Placed (piece :: pieces) (skipped ++ (piece ++ rest))

/-- A backslash in front of each star and each backslash. -/
def escape (s : List Char) : List Char :=
  s.flatMap fun c => if c = '*' ∨ c = '\\' then ['\\', c] else [c]

/-! ## Occurrences of a piece -/

theorem exists_of_behind? {piece s rest : List Char} (h : behind? piece s = some rest) :
    ∃ skipped, s = skipped ++ (piece ++ rest) := by
  induction s with
  | nil =>
      rw [behind?] at h
      split at h
      · next hempty =>
          cases h
          exact ⟨[], by rw [List.isEmpty_iff.mp hempty]; rfl⟩
      · cases h
  | cons c s ih =>
      rw [behind?] at h
      split at h
      · next hfront =>
          obtain ⟨back, hback⟩ := List.isPrefixOf_iff_prefix.mp hfront
          rw [← hback, List.drop_left] at h
          cases h
          exact ⟨[], hback.symm⟩
      · obtain ⟨skipped, rfl⟩ := ih h
        exact ⟨c :: skipped, rfl⟩

/-- Wherever a piece occurs, what is behind it is an end of what is behind its first occurrence. -/
theorem behind?_append (piece skipped rest : List Char) :
    ∃ first, behind? piece (skipped ++ (piece ++ rest)) = some first ∧ rest <:+ first := by
  induction skipped with
  | nil =>
      rw [List.nil_append]
      cases hs : piece ++ rest with
      | nil =>
          obtain ⟨rfl, rfl⟩ := List.append_eq_nil_iff.mp hs
          exact ⟨[], rfl, List.suffix_refl []⟩
      | cons c s =>
          have hfront : piece.isPrefixOf (c :: s) = true := by
            apply List.isPrefixOf_iff_prefix.mpr
            exact ⟨rest, hs⟩
          refine ⟨rest, ?_, List.suffix_refl rest⟩
          rw [behind?, if_pos hfront, ← hs, List.drop_left]
  | cons c skipped ih =>
      rw [List.cons_append, behind?]
      split
      · -- The first occurrence may overlap this one, but it is not behind it.
        refine ⟨_, rfl, ?_⟩
        have hlength : piece.length ≤ (c :: skipped ++ piece).length := by
          rw [List.length_append]
          omega
        rw [← List.cons_append, ← List.append_assoc, List.drop_append_of_le_length hlength]
        exact List.suffix_append _ rest
      · exact ih

/-! ## Places for all pieces -/

theorem placed_nil_iff {s : List Char} : Placed [] s ↔ s = [] := by
  constructor
  · rintro ⟨⟩
    rfl
  · rintro rfl
    exact Placed.nil

theorem placed_cons_iff {piece s : List Char} {pieces : List (List Char)} :
    Placed (piece :: pieces) s ↔
      ∃ skipped rest, s = skipped ++ (piece ++ rest) ∧ Placed pieces rest := by
  constructor
  · intro h
    cases h with
    | cons skipped hrest => exact ⟨skipped, _, rfl, hrest⟩
  · rintro ⟨skipped, rest, rfl, hrest⟩
    exact Placed.cons skipped hrest

theorem placed_singleton_iff {piece s : List Char} : Placed [piece] s ↔ piece <:+ s := by
  simp only [placed_cons_iff, placed_nil_iff]
  constructor
  · rintro ⟨skipped, _, rfl, rfl⟩
    rw [List.append_nil]
    exact List.suffix_append skipped piece
  · rintro ⟨skipped, rfl⟩
    exact ⟨skipped, [], by rw [List.append_nil], rfl⟩

/-- More text may be skipped in front of the first piece. -/
theorem Placed.append_left {piece s : List Char} {pieces : List (List Char)}
    (h : Placed (piece :: pieces) s) (front : List Char) :
    Placed (piece :: pieces) (front ++ s) := by
  obtain ⟨skipped, rest, rfl, hrest⟩ := placed_cons_iff.mp h
  rw [← List.append_assoc]
  exact cons (front ++ skipped) hrest

/-- To look behind the first occurrence of each piece is enough. -/
theorem matchPieces_iff {pieces : List (List Char)} {s : List Char} :
    matchPieces pieces s = true ↔ Placed pieces s := by
  induction pieces generalizing s with
  | nil => rw [matchPieces, List.isEmpty_iff, placed_nil_iff]
  | cons piece pieces ih =>
      cases pieces with
      | nil => rw [matchPieces, List.isSuffixOf_iff_suffix, placed_singleton_iff]
      | cons next pieces =>
          rw [matchPieces, placed_cons_iff]
          · constructor
            · intro h
              split at h
              · next rest hrest =>
                  obtain ⟨skipped, rfl⟩ := exists_of_behind? hrest
                  exact ⟨skipped, rest, rfl, ih.mp h⟩
              · cases h
            · rintro ⟨skipped, rest, rfl, hrest⟩
              obtain ⟨first, hfirst, front, rfl⟩ := behind?_append piece skipped rest
              rw [hfirst]
              exact ih.mpr (hrest.append_left front)
          · exact List.cons_ne_nil next pieces

/-- Pieces do not share text. -/
example : matchPieces [['a', 'a'], ['a', 'a']] ['a', 'a', 'a'] = false := by decide

/-! ## Pieces of a pattern -/

theorem pieces_star (pattern : String) (s : List Char) :
    pieces pattern ('*' :: s) = (pieces pattern s).map fun found => ([], found.1 :: found.2) := by
  rw [pieces]

theorem pieces_pair {c : Char} (hc : c = '*' ∨ c = '\\') (pattern : String) (s : List Char) :
    pieces pattern ('\\' :: c :: s) = (pieces pattern s).map (prepend c) := by
  rw [pieces, if_pos (by simpa using hc)]

theorem pieces_char {c : Char} (hstar : c ≠ '*') (hslash : c ≠ '\\') (pattern : String)
    (s : List Char) : pieces pattern (c :: s) = (pieces pattern s).map (prepend c) := by
  rw [pieces]
  · exact hstar
  · exact fun _ _ h => absurd h hslash
  · exact fun h => absurd h hslash

theorem instance_star_iff {s text : List Char} :
    Instance ('*' :: s) text ↔ ∃ run rest, text = run ++ rest ∧ Instance s rest := by
  constructor
  · intro h
    cases h with
    | star run hs => exact ⟨run, _, rfl, hs⟩
    | char hstar => exact absurd rfl hstar
  · rintro ⟨run, rest, rfl, hs⟩
    exact Instance.star run hs

theorem instance_pair_iff {c : Char} (hc : c = '*' ∨ c = '\\') {s text : List Char} :
    Instance ('\\' :: c :: s) text ↔ ∃ rest, text = c :: rest ∧ Instance s rest := by
  constructor
  · intro h
    cases h with
    | pair _ hs => exact ⟨_, rfl, hs⟩
    | char _ hslash => exact absurd rfl hslash
  · rintro ⟨rest, rfl, hs⟩
    exact Instance.pair hc hs

theorem instance_char_iff {c : Char} (hstar : c ≠ '*') (hslash : c ≠ '\\') {s text : List Char} :
    Instance (c :: s) text ↔ ∃ rest, text = c :: rest ∧ Instance s rest := by
  constructor
  · intro h
    cases h with
    | star => exact absurd rfl hstar
    | pair => exact absurd rfl hslash
    | char _ _ hs => exact ⟨_, rfl, hs⟩
  · rintro ⟨rest, rfl, hs⟩
    exact Instance.char hstar hslash hs

/-- The pieces of a pattern, placed in a text, make an instance of the pattern. -/
def Divides (found : List Char × List (List Char)) (s : List Char) : Prop :=
  ∀ text, Instance s text ↔ ∃ rest, text = found.1 ++ rest ∧ Placed found.2 rest

theorem divides_nil : Divides ([], []) [] := by
  intro text
  simp only [placed_nil_iff, List.nil_append]
  constructor
  · rintro ⟨⟩
    exact ⟨[], rfl, rfl⟩
  · rintro ⟨rest, rfl, rfl⟩
    exact Instance.nil

theorem Divides.star {found : List Char × List (List Char)} {s : List Char}
    (h : Divides found s) : Divides ([], found.1 :: found.2) ('*' :: s) := by
  intro text
  simp only [instance_star_iff, h _, placed_cons_iff, List.nil_append]
  constructor
  · rintro ⟨run, _, rfl, rest, rfl, hrest⟩
    exact ⟨_, rfl, run, rest, rfl, hrest⟩
  · rintro ⟨_, rfl, skipped, rest, rfl, hrest⟩
    exact ⟨skipped, _, rfl, rest, rfl, hrest⟩

theorem Divides.prepend {found : List Char × List (List Char)} {s s' : List Char} {c : Char}
    (h : Divides found s)
    (hs : ∀ text, Instance s' text ↔ ∃ rest, text = c :: rest ∧ Instance s rest) :
    Divides (Glob.prepend c found) s' := by
  intro text
  rw [hs]
  constructor
  · rintro ⟨_, rfl, hrest⟩
    obtain ⟨rest, rfl, hplaced⟩ := (h _).mp hrest
    exact ⟨rest, rfl, hplaced⟩
  · rintro ⟨rest, rfl, hplaced⟩
    exact ⟨found.1 ++ rest, rfl, (h _).mpr ⟨rest, rfl, hplaced⟩⟩

theorem pieces_of_wellEscaped (pattern : String) {s : List Char} (h : WellEscaped s) :
    ∃ found, pieces pattern s = .ok found ∧ Divides found s := by
  induction h with
  | nil => exact ⟨([], []), rfl, divides_nil⟩
  | star _ ih =>
      obtain ⟨found, hfound, hdivides⟩ := ih
      refine ⟨_, ?_, hdivides.star⟩
      rw [pieces_star, hfound]
      rfl
  | pair hc _ ih =>
      obtain ⟨found, hfound, hdivides⟩ := ih
      refine ⟨_, ?_, hdivides.prepend fun _ => instance_pair_iff hc⟩
      rw [pieces_pair hc, hfound]
      rfl
  | char hstar hslash _ ih =>
      obtain ⟨found, hfound, hdivides⟩ := ih
      refine ⟨_, ?_, hdivides.prepend fun _ => instance_char_iff hstar hslash⟩
      rw [pieces_char hstar hslash, hfound]
      rfl

theorem wellEscaped_of_pieces {pattern : String} {s : List Char}
    {found : List Char × List (List Char)} (h : pieces pattern s = .ok found) :
    WellEscaped s := by
  fun_induction pieces pattern s generalizing found with
  | case1 => exact .nil
  | case2 s ih =>
      obtain ⟨other, hother, -⟩ := map_eq_ok.mp h
      exact .star (ih hother)
  | case3 c s hc ih =>
      obtain ⟨other, hother, -⟩ := map_eq_ok.mp h
      exact .pair (by simpa using hc) (ih hother)
  | case4 => cases h
  | case5 => cases h
  | case6 c s hstar hpair hlast ih =>
      obtain ⟨other, hother, -⟩ := map_eq_ok.mp h
      refine .char hstar ?_ (ih hother)
      rintro rfl
      cases s with
      | nil => exact hlast rfl rfl
      | cons d s => exact hpair d s rfl rfl

/-! ## Escaped texts -/

theorem escape_cons (c : Char) (s : List Char) :
    escape (c :: s) = (if c = '*' ∨ c = '\\' then ['\\', c] else [c]) ++ escape s :=
  List.flatMap_cons

theorem wellEscaped_escape (s : List Char) : WellEscaped (escape s) := by
  induction s with
  | nil => exact .nil
  | cons c s ih =>
      rw [escape_cons]
      split
      · next hc => exact .pair hc ih
      · next hc => exact .char (fun h => hc (.inl h)) (fun h => hc (.inr h)) ih

theorem instance_escape_iff {s text : List Char} : Instance (escape s) text ↔ text = s := by
  induction s generalizing text with
  | nil =>
      constructor
      · rintro ⟨⟩
        rfl
      · rintro rfl
        exact Instance.nil
  | cons c s ih =>
      have hcons : Instance (escape (c :: s)) text ↔ ∃ rest, text = c :: rest ∧
          Instance (escape s) rest := by
        rw [escape_cons]
        split
        · next hc => exact instance_pair_iff hc
        · next hc => exact instance_char_iff (fun h => hc (.inl h)) (fun h => hc (.inr h))
      rw [hcons]
      simp only [ih, exists_eq_right]

/-! ## Patterns -/

theorem parse_of_wellEscaped {pattern : String} (h : WellEscaped pattern.toList) :
    ∃ glob, parse pattern = .ok glob ∧
      ∀ text : String, glob.isMatch text = true ↔ Instance pattern.toList text.toList := by
  obtain ⟨found, hfound, hdivides⟩ := pieces_of_wellEscaped pattern h
  refine ⟨⟨pattern, found.1, found.2⟩, ?_, fun text => ?_⟩
  · rw [parse, hfound]
    rfl
  · rw [hdivides, isMatch, Bool.and_eq_true, List.isPrefixOf_iff_prefix, matchPieces_iff]
    constructor
    · rintro ⟨⟨rest, htext⟩, hplaced⟩
      rw [← htext, List.drop_left] at hplaced
      exact ⟨rest, htext.symm, hplaced⟩
    · rintro ⟨rest, htext, hplaced⟩
      rw [htext, List.drop_left]
      exact ⟨List.prefix_append _ _, hplaced⟩

theorem wellEscaped_of_parse {pattern : String} {glob : Glob} (h : parse pattern = .ok glob) :
    WellEscaped pattern.toList := by
  obtain ⟨found, hfound, -⟩ := map_eq_ok.mp h
  exact wellEscaped_of_pieces hfound

/-- A text is a pattern exactly if every backslash in it, read from the left, escapes a star or a
backslash. A pattern matches its instances and nothing else, so that an escaped text matches only
itself. -/
theorem isMatch_iff_instance (pattern : String) :
    ((∃ glob, parse pattern = .ok glob) ↔ WellEscaped pattern.toList) ∧
      (∀ glob, parse pattern = .ok glob →
        ∀ text : String, glob.isMatch text = true ↔ Instance pattern.toList text.toList) ∧
      ∀ literal : String, ∃ glob, parse (String.ofList (escape literal.toList)) = .ok glob ∧
        ∀ text : String, glob.isMatch text = true ↔ text = literal := by
  refine ⟨⟨fun ⟨_, h⟩ => wellEscaped_of_parse h, fun h => ?_⟩, fun glob h => ?_, fun literal => ?_⟩
  · obtain ⟨glob, hglob, -⟩ := parse_of_wellEscaped h
    exact ⟨glob, hglob⟩
  · obtain ⟨other, hother, hmatch⟩ := parse_of_wellEscaped (wellEscaped_of_parse h)
    cases h.symm.trans hother
    exact hmatch
  · have hescaped : WellEscaped (String.ofList (escape literal.toList)).toList := by
      rw [String.toList_ofList]
      exact wellEscaped_escape literal.toList
    obtain ⟨glob, hglob, hmatch⟩ := parse_of_wellEscaped hescaped
    refine ⟨glob, hglob, fun text => ?_⟩
    rw [hmatch, String.toList_ofList, instance_escape_iff, String.toList_inj]

end StateFlow.Glob
