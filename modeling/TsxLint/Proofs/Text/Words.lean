/-
Module: TsxLint.Proofs.Text.Words
Purpose: The words of texts that are put together, with spaces in between and without.
Main exports: Text.SetApart, Text.words_intercalate, Text.words_join_eq_iff
-/
import Mathlib.Data.List.Chain
import TsxLint.Text.Blank

namespace TsxLint.Text

/-!
Words end at blank characters, so a space between two texts keeps their words apart.  Without it
the last word of the one and the first word of the other become one word, unless the one ends or
the other begins with a blank.  Whether words were lost can be told by counting them.
-/

/-- Whether a text ends with a blank. -/
def endsBlank (s : String) : Bool := s.toList.getLast?.any isBlank

/-- Whether a text begins with a blank. -/
def beginsBlank (s : String) : Bool := s.toList.head?.any isBlank

/-- A blank sets two texts apart when one is put behind the other. -/
def SetApart (s t : String) : Prop := endsBlank s = true ∨ beginsBlank t = true

instance : DecidableRel SetApart := fun s t =>
  inferInstanceAs (Decidable (endsBlank s = true ∨ beginsBlank t = true))

/-! ### Runs of characters -/

@[simp] theorem wordsFrom_nil_nil : wordsFrom [] [] = [] := rfl

theorem wordsFrom_cons_of_blank {c : Char} (h : isBlank c = true) (word cs : List Char) :
    wordsFrom word (c :: cs) = wordsFrom word [] ++ wordsFrom [] cs := by
  cases word with
  | nil => simp [wordsFrom, h]
  | cons x rest => simp [wordsFrom, h]

theorem wordsFrom_cons_of_not_blank {c : Char} (h : isBlank c = false) (word cs : List Char) :
    wordsFrom word (c :: cs) = wordsFrom (c :: word) cs := by
  simp [wordsFrom, h]

/-- What is behind a blank has words of its own. -/
theorem wordsFrom_append_blank {c : Char} (h : isBlank c = true) (word before behind : List Char) :
    wordsFrom word (before ++ c :: behind) = wordsFrom word before ++ wordsFrom [] behind := by
  induction before generalizing word with
  | nil => exact wordsFrom_cons_of_blank h word behind
  | cons x rest ih =>
    rw [List.cons_append]
    by_cases hx : isBlank x = true
    · rw [wordsFrom_cons_of_blank hx, wordsFrom_cons_of_blank hx, ih, List.append_assoc]
    · have hx := Bool.eq_false_iff.2 hx
      rw [wordsFrom_cons_of_not_blank hx, wordsFrom_cons_of_not_blank hx, ih]

/-- The word in progress counts once, whatever it is. -/
theorem length_wordsFrom_cons (x y : Char) (word other cs : List Char) :
    (wordsFrom (x :: word) cs).length = (wordsFrom (y :: other) cs).length := by
  induction cs generalizing x y word other with
  | nil => rfl
  | cons c rest ih =>
    by_cases hc : isBlank c = true
    · rw [wordsFrom_cons_of_blank hc, wordsFrom_cons_of_blank hc, List.length_append,
        List.length_append]
      rfl
    · have hc := Bool.eq_false_iff.2 hc
      rw [wordsFrom_cons_of_not_blank hc, wordsFrom_cons_of_not_blank hc]
      exact ih c c (x :: word) (y :: other)

/-- Two runs that meet without a blank share a word. -/
theorem length_wordsFrom_meeting {c d : Char} (hc : isBlank c = false) (hd : isBlank d = false)
    (word before behind : List Char) :
    (wordsFrom word (before ++ c :: d :: behind)).length + 1 =
      (wordsFrom word (before ++ [c])).length + (wordsFrom [] (d :: behind)).length := by
  induction before generalizing word with
  | nil =>
    have hone : (wordsFrom word [c]).length = 1 := by
      rw [wordsFrom_cons_of_not_blank hc]
      rfl
    rw [List.nil_append, List.nil_append, hone, wordsFrom_cons_of_not_blank hc,
      wordsFrom_cons_of_not_blank hd, wordsFrom_cons_of_not_blank hd,
      length_wordsFrom_cons d d (c :: word) [], Nat.add_comm]
  | cons x rest ih =>
    rw [List.cons_append, List.cons_append]
    by_cases hx : isBlank x = true
    · rw [wordsFrom_cons_of_blank hx, wordsFrom_cons_of_blank hx, List.length_append,
        List.length_append, Nat.add_assoc, ih, Nat.add_assoc]
    · have hx := Bool.eq_false_iff.2 hx
      rw [wordsFrom_cons_of_not_blank hx, wordsFrom_cons_of_not_blank hx, ih]

/-! ### Two texts -/

@[simp] theorem words_empty : words "" = [] := rfl

theorem words_append_of_endsBlank {s : String} (h : endsBlank s = true) (t : String) :
    words (s ++ t) = words s ++ words t := by
  obtain ⟨c, hlast, hc⟩ := (Option.any_eq_true _ _).1 h
  obtain ⟨before, hs⟩ := List.getLast?_eq_some_iff.1 hlast
  simp only [words, String.toList_append, hs]
  rw [List.append_assoc, List.singleton_append, wordsFrom_append_blank hc,
    wordsFrom_append_blank hc, wordsFrom_nil_nil, List.append_nil, List.map_append]

theorem words_append_of_beginsBlank (s : String) {t : String} (h : beginsBlank t = true) :
    words (s ++ t) = words s ++ words t := by
  obtain ⟨c, hfirst, hc⟩ := (Option.any_eq_true _ _).1 h
  obtain ⟨behind, ht⟩ := List.head?_eq_some_iff.1 hfirst
  simp only [words, String.toList_append, ht]
  rw [wordsFrom_append_blank hc, wordsFrom_cons_of_blank hc, wordsFrom_nil_nil, List.nil_append,
    List.map_append]

/-- Texts that a blank sets apart keep their words. -/
theorem words_append_of_setApart {s t : String} (h : SetApart s t) :
    words (s ++ t) = words s ++ words t := by
  rcases h with h | h
  · exact words_append_of_endsBlank h t
  · exact words_append_of_beginsBlank s h

/-- Other texts, unless one is empty, have one word less together. -/
theorem length_words_append_of_meet {s t : String} (hs : s ≠ "") (ht : t ≠ "")
    (h : ¬ SetApart s t) :
    (words (s ++ t)).length + 1 = (words s).length + (words t).length := by
  obtain ⟨hend, hbegin⟩ := not_or.1 h
  have hs' : s.toList ≠ [] := by simpa using hs
  have ht' : t.toList ≠ [] := by simpa using ht
  obtain ⟨before, c, hbefore⟩ := List.eq_nil_or_concat s.toList |>.resolve_left hs'
  obtain ⟨d, behind, hbehind⟩ := List.exists_cons_of_ne_nil ht'
  have hc : isBlank c = false := by
    simpa [endsBlank, hbefore] using hend
  have hd : isBlank d = false := by
    simpa [beginsBlank, hbehind] using hbegin
  simp only [words, List.length_map, String.toList_append, hbefore, hbehind]
  simpa using length_wordsFrom_meeting hc hd [] before behind

theorem length_words_append_le (s t : String) :
    (words (s ++ t)).length ≤ (words s).length + (words t).length := by
  by_cases hs : s = ""
  · simp [hs]
  · by_cases ht : t = ""
    · simp [ht]
    · by_cases h : SetApart s t
      · rw [words_append_of_setApart h, List.length_append]
      · have := length_words_append_of_meet hs ht h
        omega

/-! ### Several texts -/

/-- Spaces between texts keep the words of each. -/
theorem words_intercalate (ss : List String) : words (" ".intercalate ss) = ss.flatMap words := by
  induction ss with
  | nil => rfl
  | cons s rest ih =>
    cases rest with
    | nil => simp
    | cons t more =>
      have hspace : beginsBlank (" " ++ " ".intercalate (t :: more)) = true := by
        simp [beginsBlank, String.toList_append, isBlank]
      rw [String.intercalate_cons_cons, String.append_assoc, words_append_of_beginsBlank s hspace,
        words_append_of_endsBlank (by decide), ih]
      rfl

/-- Empty texts add nothing. -/
theorem join_filter_ne_empty (ss : List String) :
    String.join (ss.filter (· != "")) = String.join ss := by
  induction ss with
  | nil => rfl
  | cons s rest ih =>
    by_cases hs : s = ""
    · simp [hs, ih]
    · simp [hs, ih]

/-- Empty texts have no words. -/
theorem flatMap_words_filter_ne_empty (ss : List String) :
    (ss.filter (· != "")).flatMap words = ss.flatMap words := by
  induction ss with
  | nil => rfl
  | cons s rest ih =>
    by_cases hs : s = ""
    · simp [hs, ih]
    · simp [hs, ih]

theorem length_words_join_le (ss : List String) :
    (words (String.join ss)).length ≤ (ss.flatMap words).length := by
  induction ss with
  | nil => rfl
  | cons s rest ih =>
    rw [String.join_cons, List.flatMap_cons, List.length_append]
    exact Nat.le_trans (length_words_append_le s _) (Nat.add_le_add_left ih _)

/-- Put behind a text that is not empty, a text alone decides whether a blank sets the two
apart. -/
theorem setApart_append {s t : String} (ht : t ≠ "") (u : String) :
    SetApart s (t ++ u) ↔ SetApart s t := by
  obtain ⟨c, behind, hcs⟩ := List.exists_cons_of_ne_nil (show t.toList ≠ [] by simpa using ht)
  simp [SetApart, beginsBlank, String.toList_append, hcs]

/-- Texts that are not empty keep their words when they are put together exactly if each is set
apart from the next. -/
theorem words_join_eq_iff_of_ne_empty {ss : List String} (h : ∀ s ∈ ss, s ≠ "") :
    words (String.join ss) = ss.flatMap words ↔ ss.IsChain SetApart := by
  induction ss with
  | nil => simp
  | cons s rest ih =>
    obtain ⟨hs, hrest⟩ := List.forall_mem_cons.1 h
    have ih := ih hrest
    cases rest with
    | nil => simp
    | cons t more =>
      have ht : t ≠ "" := hrest t List.mem_cons_self
      rw [List.isChain_cons_cons, ← ih, String.join_cons, List.flatMap_cons]
      constructor
      · -- a word that is lost is not made up for
        intro heq
        have hle := length_words_join_le (t :: more)
        have hlength := congrArg List.length heq
        rw [List.length_append] at hlength
        have hapart : SetApart s (String.join (t :: more)) := by
          by_contra hmeet
          have hne : String.join (t :: more) ≠ "" := by
            rw [String.join_cons]
            simp [ht]
          have := length_words_append_of_meet hs hne hmeet
          omega
        rw [words_append_of_setApart hapart] at heq
        refine ⟨?_, List.append_cancel_left heq⟩
        rwa [String.join_cons, setApart_append ht] at hapart
      · rintro ⟨hapart, hwords⟩
        rw [words_append_of_setApart, hwords]
        rwa [String.join_cons, setApart_append ht]

/-- Texts keep their words when they are put together exactly if those that are not empty are
set apart, each from the next. -/
theorem words_join_eq_iff (ss : List String) :
    words (String.join ss) = ss.flatMap words ↔ (ss.filter (· != "")).IsChain SetApart := by
  rw [← join_filter_ne_empty, ← flatMap_words_filter_ne_empty]
  apply words_join_eq_iff_of_ne_empty
  simp

end TsxLint.Text
