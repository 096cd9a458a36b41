/-
Module: TsxLint.Proofs.Text.Literals
Purpose: The texts that string literals and pieces of template strings stand for.
Main exports: Text.escape?, Text.stringValue?, Text.cookedValue?, Text.isRead_of_escape?
-/
import Mathlib.Data.List.TakeWhile
import Mathlib.Tactic.SplitIfs
import TsxLint.Json.Reader

namespace TsxLint.Text

/-!
A literal stands for a sequence of 16-bit code units, here numbers, since an escape may write half
of a surrogate pair.  String literals and template strings have the same escapes, given that octal
ones are refused, as they are in modules; a backslash in front of a line break stands for nothing
in both.  They differ in what may stand without a backslash: a string literal has no line breaks
but the two separators of Unicode, while a template string may have any, and each carriage return
in it, together with the line feed behind it if there is one, counts as one line feed.
-/

/-! ### Escapes -/

/-- The code units of a code point. -/
def codeUnits (n : Nat) : List Nat :=
  if n < 0x10000 then [n]
  else [0xd800 + (n - 0x10000) / 0x400, 0xdc00 + (n - 0x10000) % 0x400]

/-- The number that hexadecimal digits stand for; none without a digit. -/
def hexNumber? (digits : List Char) : Option Nat :=
  if !digits.isEmpty && digits.all fun d => (Json.hexValue? d).isSome then
    some (digits.foldl (fun n d => 16 * n + (Json.hexValue? d).getD 0) 0)
  else none

/-- A code unit in a fixed number of digits, and what is behind them. -/
def unitEscape? (width : Nat) (cs : List Char) : Option (List Nat × List Char) :=
  if cs.length < width then none
  else (hexNumber? (cs.take width)).map fun n => ([n], cs.drop width)

/-- A code point up to the closing brace, and what is behind it. -/
def pointEscape? (cs : List Char) : Option (List Nat × List Char) :=
  match cs.dropWhile (· != '\x7d') with
  | [] => none
  | _ :: rest =>
    match hexNumber? (cs.takeWhile (· != '\x7d')) with
    | some n => if n ≤ 0x10ffff then some (codeUnits n, rest) else none
    | none => none

/-- The code point that a character behind a backslash stands for. -/
def escapedPoint (c : Char) : Nat :=
  if c = 'b' then 8
  else if c = 't' then 9
  else if c = 'n' then 10
  else if c = 'v' then 11
  else if c = 'f' then 12
  else if c = 'r' then 13
  else c.toNat

/-- Whether a text begins with a decimal digit. -/
def beginsWithDigit (cs : List Char) : Bool := cs.head?.any Char.isDigit

/-- A text without the line feed at its beginning. -/
def withoutFeed : List Char → List Char
  | '\n' :: rest => rest
  | cs => cs

/-- What an escape stands for, from the text behind its backslash, and what is behind it; none if
there is no such escape. -/
def escape? : List Char → Option (List Nat × List Char)
  | [] => none
  | c :: rest =>
    if c = 'x' then unitEscape? 2 rest
    else if c = 'u' then
      if rest.head? = some '\x7b' then pointEscape? rest.tail else unitEscape? 4 rest
    else if c = '0' then if beginsWithDigit rest then none else some ([0], rest)
    else if c.isDigit then none
    else if c = '\r' then some ([], withoutFeed rest)
    else if c ∈ ['\n', '\u2028', '\u2029'] then some ([], rest)
    else some (codeUnits (escapedPoint c), rest)

theorem length_withoutFeed_le (cs : List Char) : (withoutFeed cs).length ≤ cs.length := by
  unfold withoutFeed
  split <;> simp

theorem withoutFeed_of_ne {cs : List Char} (h : cs.head? ≠ some '\n') : withoutFeed cs = cs := by
  rw [withoutFeed]
  rintro rest rfl
  exact h rfl

/-! ### Where an escape ends -/

/-- A character that every literal reads as itself. -/
def IsInert (c : Char) : Prop := c ∉ ['\\', '\x22', '\n', '\r']

instance (c : Char) : Decidable (IsInert c) :=
  inferInstanceAs (Decidable (c ∉ ['\\', '\x22', '\n', '\r']))

theorem IsInert.ne_backslash {c : Char} (h : IsInert c) : c ≠ '\\' := by
  rintro rfl
  exact absurd h (by decide)

theorem isInert_of_hexValue? {c : Char} (h : (Json.hexValue? c).isSome) : IsInert c := by
  intro hmem
  simp only [List.mem_cons, List.not_mem_nil, or_false] at hmem
  rcases hmem with rfl | rfl | rfl | rfl <;> exact absurd h (by decide)

theorem isInert_of_hexNumber? {digits : List Char} {n : Nat} (h : hexNumber? digits = some n) :
    ∀ d ∈ digits, IsInert d := by
  unfold hexNumber? at h
  split at h
  · next hdigits =>
    rw [Bool.and_eq_true, List.all_eq_true] at hdigits
    exact fun d hd => isInert_of_hexValue? (hdigits.2 d hd)
  · cases h

/-- A text may stand behind an escape in the place of another. -/
structure Replaces (tail after : List Char) : Prop where
  digit : beginsWithDigit after = false → beginsWithDigit tail = false
  feed : tail.head? ≠ some '\n'

/-- An escape of inert characters behind its first one reads the same wherever it stands. -/
def IsRead (cs : List Char) (value : List Nat) (after : List Char) : Prop :=
  ∃ c more, cs = c :: (more ++ after) ∧ (∀ d ∈ more, IsInert d) ∧
    ∀ tail, Replaces tail after → escape? (c :: (more ++ tail)) = some (value, tail)

theorem exists_of_unitEscape? {width : Nat} {cs after : List Char} {value : List Nat}
    (h : unitEscape? width cs = some (value, after)) :
    ∃ digits, cs = digits ++ after ∧ digits.length = width ∧ (∀ d ∈ digits, IsInert d) ∧
      ∀ tail, unitEscape? width (digits ++ tail) = some (value, tail) := by
  unfold unitEscape? at h
  split at h
  · cases h
  · next hlong =>
    obtain ⟨n, hn, heq⟩ := Option.map_eq_some_iff.1 h
    cases heq
    have hlength : (cs.take width).length = width := by
      rw [List.length_take]
      omega
    refine ⟨cs.take width, (List.take_append_drop width cs).symm, hlength,
      isInert_of_hexNumber? hn, fun tail => ?_⟩
    rw [unitEscape?, if_neg (by rw [List.length_append]; omega), List.take_left' hlength,
      List.drop_left' hlength, hn]
    rfl

theorem exists_of_pointEscape? {cs after : List Char} {value : List Nat}
    (h : pointEscape? cs = some (value, after)) :
    ∃ digits, cs = digits ++ '\x7d' :: after ∧ (∀ d ∈ digits, IsInert d) ∧
      ∀ tail, pointEscape? (digits ++ '\x7d' :: tail) = some (value, tail) := by
  unfold pointEscape? at h
  split at h
  · cases h
  · next brace rest hdrop =>
    split at h
    · next n hn =>
      split at h
      · next hrange =>
        cases h
        have hbrace : brace = '\x7d' := by
          have := List.head_dropWhile_not (· != '\x7d') (l := cs) (by simp [hdrop])
          simpa [hdrop] using this
        have hdigits : ∀ d ∈ cs.takeWhile (· != '\x7d'), (d != '\x7d') = true := by
          intro d hd
          exact List.mem_takeWhile_imp (p := (· != '\x7d')) hd
        refine ⟨cs.takeWhile (· != '\x7d'), ?_, isInert_of_hexNumber? hn, fun tail => ?_⟩
        · subst hbrace
          rw [← hdrop, List.takeWhile_append_dropWhile]
        · rw [pointEscape?, List.dropWhile_append_of_pos hdigits,
            List.takeWhile_append_of_pos hdigits]
          simp [hn, hrange]
      · cases h
    · cases h

/-- An escape of a single character. -/
theorem isRead_of_single {c : Char} {after : List Char} {value : List Nat}
    (h : ∀ tail, Replaces tail after → escape? (c :: tail) = some (value, tail)) :
    IsRead (c :: after) value after :=
  ⟨c, [], rfl, by simp, h⟩

/-- An escape ends behind inert characters, unless it is a carriage return with a line feed. -/
theorem isRead_of_escape? {cs after : List Char} {value : List Nat}
    (h : escape? cs = some (value, after)) (hfeed : ∀ more, cs ≠ '\r' :: '\n' :: more) :
    IsRead cs value after := by
  cases cs with
  | nil => cases h
  | cons c rest =>
    rw [escape?] at h
    split_ifs at h with hx hu hbrace hzero hnext hdigit hreturn hbreak
    · obtain ⟨digits, rfl, -, hinert, hread⟩ := exists_of_unitEscape? h
      refine ⟨c, digits, rfl, hinert, fun tail _ => ?_⟩
      rw [escape?, if_pos hx, hread]
    · obtain ⟨digits, htail, hinert, hread⟩ := exists_of_pointEscape? h
      obtain ⟨more, rfl⟩ := List.head?_eq_some_iff.1 hbrace
      rw [List.tail_cons] at htail
      refine ⟨c, '\x7b' :: (digits ++ ['\x7d']), by simp [htail], ?_, fun tail _ => ?_⟩
      · have hends : IsInert '\x7b' ∧ IsInert '\x7d' := by decide
        simpa [or_imp, forall_and, hends] using hinert
      · rw [escape?, if_neg hx, if_pos hu, if_pos (by simp)]
        simpa using hread tail
    · obtain ⟨digits, rfl, hfour, hinert, hread⟩ := exists_of_unitEscape? h
      refine ⟨c, digits, rfl, hinert, fun tail _ => ?_⟩
      have hhead : (digits ++ tail).head? ≠ some '\x7b' := by
        cases digits with
        | nil => cases hfour
        | cons d more => simpa using hbrace
      rw [escape?, if_neg hx, if_pos hu, if_neg hhead, hread]
    · cases h
      refine isRead_of_single fun tail htail => ?_
      have hbehind : beginsWithDigit tail = false := htail.digit (by simpa using hnext)
      rw [escape?, if_neg hx, if_neg hu, if_pos hzero, if_neg (by simp [hbehind])]
    · cases h
      subst hreturn
      have hrest : rest.head? ≠ some '\n' := by
        intro hhead
        obtain ⟨more, rfl⟩ := List.head?_eq_some_iff.1 hhead
        exact hfeed more rfl
      rw [withoutFeed_of_ne hrest]
      refine isRead_of_single fun tail htail => ?_
      simp only [escape?]
      rw [withoutFeed_of_ne htail.feed]
      rfl
    · cases h
      refine isRead_of_single fun tail _ => ?_
      rw [escape?, if_neg hx, if_neg hu, if_neg hzero, if_neg hdigit,
        if_neg hreturn, if_pos hbreak]
    · cases h
      refine isRead_of_single fun tail _ => ?_
      rw [escape?, if_neg hx, if_neg hu, if_neg hzero, if_neg hdigit,
        if_neg hreturn, if_neg hbreak]

theorem length_lt_of_escape? {cs after : List Char} {value : List Nat}
    (h : escape? cs = some (value, after)) : after.length < cs.length := by
  by_cases hfeed : ∃ more, cs = '\r' :: '\n' :: more
  · obtain ⟨more, rfl⟩ := hfeed
    cases h
    exact Nat.lt_add_of_pos_right (by decide : 0 < 2)
  · obtain ⟨c, more, rfl, -⟩ := isRead_of_escape? h (not_exists.1 hfeed)
    rw [List.length_cons, List.length_append]
    omega

/-! ### Literals -/

/-- What the rest of a string literal stands for: all up to the quote, which has to be the last
character. -/
def stringRest? : List Char → Option (List Nat)
  | [] => none
  | c :: rest =>
    if c = '\x22' then if rest.isEmpty then some [] else none
    else if c = '\\' then
      match _h : escape? rest with
      | none => none
      | some (value, after) => (stringRest? after).map (value ++ ·)
    else if c ∈ ['\n', '\r'] then none
    else (stringRest? rest).map (codeUnits c.toNat ++ ·)
termination_by cs => cs.length
decreasing_by
  · exact Nat.lt_succ_of_lt (length_lt_of_escape? _h)
  · exact Nat.lt_succ_self _

/-- What a string literal in double quotes stands for; none if a text is no such literal. -/
def stringValue? (literal : String) : Option (List Nat) :=
  match literal.toList with
  | '\x22' :: rest => stringRest? rest
  | _ => none

/-- What a piece of a template string stands for; none if it cannot stand there: with the end of
the template string, the beginning of a substitution, a backslash that nothing follows, or an
escape that there is not. -/
def cookedValue? : List Char → Option (List Nat)
  | [] => some []
  | c :: rest =>
    if c = '\x60' then none
    else if c = '$' ∧ rest.head? = some '\x7b' then none
    else if c = '\\' then
      match _h : escape? rest with
      | none => none
      | some (value, after) => (cookedValue? after).map (value ++ ·)
    else if c = '\r' then (cookedValue? (withoutFeed rest)).map (10 :: ·)
    else (cookedValue? rest).map (codeUnits c.toNat ++ ·)
termination_by cs => cs.length
decreasing_by
  · exact Nat.lt_succ_of_lt (length_lt_of_escape? _h)
  · exact Nat.lt_succ_of_le (length_withoutFeed_le rest)
  · exact Nat.lt_succ_self _

end TsxLint.Text
