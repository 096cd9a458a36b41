/-
Module: TsxLint.Proofs.Text.Names
Purpose: The names in a text, and when those of two texts run into each other.
Main exports: Text.isNamePart, Text.names, Text.names_append_iff
-/
import TsxLint.Proofs.Text.Words
import TsxLint.Text.Identifier

namespace TsxLint.Text

/-!
A scanner goes on with a name as long as there are characters that may belong to one.  So the names
in a text are its maximal runs of such characters: its words, once everything else is blank.  Put
behind another, a text keeps its names unless it goes on with the last name of the other.
-/

/-- Whether a character may belong to the name of an attribute or an element: identifiers go on with
a dollar sign or a joiner as well, and names in markup with a hyphen. -/
def isNamePart (c : Char) : Bool :=
  inRuns identifierPartRuns c || c == '$' || c == '-' || c == '\u200c' || c == '\u200d'

/-- Whether a text ends within a name. -/
def endsName (s : String) : Bool := s.toList.getLast?.any isNamePart

/-- Whether a text begins within a name. -/
def beginsName (s : String) : Bool := s.toList.head?.any isNamePart

/-- A character, or a space if it does not belong to a name. -/
def outlineChar (c : Char) : Char := if isNamePart c then c else ' '

/-- A text with spaces for all that does not belong to names. -/
def outline (s : String) : String := String.ofList (s.toList.map outlineChar)

/-- The names in a text: its maximal runs of characters that may belong to one. -/
def names (s : String) : List String := words (outline s)

/-! ### Blanks are no parts of names -/

/-- The ranges of code points that blanks are in. -/
def blankRanges : List (Nat × Nat) :=
  [(0x9, 0xd), (0x1c, 0x20), (0x85, 0x85), (0xa0, 0xa0), (0x1680, 0x1680), (0x2000, 0x200a),
    (0x2028, 0x2029), (0x202f, 0x202f), (0x205f, 0x205f), (0x3000, 0x3000)]

theorem exists_mem_blankRanges {c : Char} (h : isBlank c = true) :
    ∃ range ∈ blankRanges, range.1 ≤ c.toNat ∧ c.toNat ≤ range.2 := by
  simp only [isBlank, Bool.or_eq_true, Bool.and_eq_true, decide_eq_true_eq, beq_iff_eq] at h
  simp only [blankRanges, List.mem_cons, List.not_mem_nil, or_false, exists_eq_or_imp,
    exists_eq_left]
  omega

theorem inRuns_eq_false_of_isBlank {c : Char} (h : isBlank c = true) :
    inRuns identifierPartRuns c = false := by
  have hbeside : (identifierPartRuns.all fun run =>
      blankRanges.all fun range => Nat.blt run.2.1 range.1 || Nat.blt range.2 run.1) = true := by
    decide +kernel
  obtain ⟨range, hrange, hfirst, hlast⟩ := exists_mem_blankRanges h
  rw [inRuns, List.any_eq_false]
  rintro ⟨first, last, step⟩ hrun
  have hapart := List.all_eq_true.1 (List.all_eq_true.1 hbeside _ hrun) range hrange
  simp only [Bool.or_eq_true, Nat.blt_eq] at hapart
  simp only [Bool.and_eq_true, decide_eq_true_eq]
  omega

theorem isNamePart_of_isBlank {c : Char} (h : isBlank c = true) : isNamePart c = false := by
  simp only [isNamePart, Bool.or_eq_false_iff, beq_eq_false_iff_ne, inRuns_eq_false_of_isBlank h,
    true_and]
  refine ⟨⟨⟨?_, ?_⟩, ?_⟩, ?_⟩
  all_goals
    rintro rfl
    exact absurd h (by decide)

theorem isBlank_outlineChar (c : Char) : isBlank (outlineChar c) = !isNamePart c := by
  rw [outlineChar]
  by_cases h : isNamePart c = true
  · rw [if_pos h, h]
    by_contra hblank
    have hblank : isBlank c = true := by simpa using hblank
    exact absurd h (by simp [isNamePart_of_isBlank hblank])
  · rw [if_neg h, eq_false_of_ne_true h]
    decide

/-! ### Two texts -/

theorem outline_append (s t : String) : outline (s ++ t) = outline s ++ outline t := by
  simp [outline]

theorem outline_eq_empty_iff {s : String} : outline s = "" ↔ s = "" := by
  simp [outline]

@[simp] theorem names_empty : names "" = [] := rfl

/-- The outlines of two texts are set apart if the one does not end, or the other does not begin,
within a name. -/
theorem setApart_outline_iff {s t : String} (hs : s ≠ "") (ht : t ≠ "") :
    SetApart (outline s) (outline t) ↔ ¬ (endsName s = true ∧ beginsName t = true) := by
  obtain ⟨before, c, hbefore⟩ :=
    (List.eq_nil_or_concat s.toList).resolve_left (by simpa using hs)
  obtain ⟨d, behind, hbehind⟩ := List.exists_cons_of_ne_nil (show t.toList ≠ [] by simpa using ht)
  simp [SetApart, endsBlank, beginsBlank, endsName, beginsName, outline, hbefore, hbehind,
    isBlank_outlineChar, imp_iff_not_or]

/-- Two texts keep their names when they are put together, unless the one ends and the other begins
within a name. -/
theorem names_append_iff (s t : String) :
    names (s ++ t) = names s ++ names t ↔ ¬ (endsName s = true ∧ beginsName t = true) := by
  by_cases hs : s = ""
  · subst hs
    simp [endsName]
  · by_cases ht : t = ""
    · subst ht
      simp [beginsName]
    · rw [← setApart_outline_iff hs ht, names, names, names, outline_append]
      constructor
      · intro heq
        by_contra hmeet
        have hlost := length_words_append_of_meet (mt outline_eq_empty_iff.1 hs)
          (mt outline_eq_empty_iff.1 ht) hmeet
        rw [heq, List.length_append] at hlost
        omega
      · exact words_append_of_setApart

end TsxLint.Text
