/-
Module: TsxLint.Proofs.Rules.ChunkValues
Purpose: Which chunks of template strings stand for the same text when they are put in quotes.
Main exports: ClassNames.HasReturn, ClassNames.value_kept_iff, ClassNames.value_changes_at_return
-/
import Mathlib.Tactic.Tauto
import TsxLint.Proofs.Rules.QuotedChunks
import TsxLint.Proofs.Text.Literals

namespace TsxLint.ClassNames

open Text (IsInert beginsWithDigit codeUnits cookedValue? escape? stringRest? stringValue?
  withoutFeed)

/-!
Escapes are copied and stand for the same in quotes, and what is escaped newly stands for itself.
There is one exception: a template string takes a carriage return for a line feed, and takes it
together with the line feed behind it, whereas the literal has an escape for each of the two.  So
such a line break becomes one or two code units of another kind, and a line break that a backslash
takes back in the template string comes back in part.
-/

/-- A carriage return that a template string reads otherwise than a string literal: one on its own,
or one behind a backslash that has a line feed behind it. -/
def HasReturn (us : List (List Char)) : Prop :=
  ['\r'] ∈ us ∨ [['\\', '\r'], ['\n']] <:+: us

instance (us : List (List Char)) : Decidable (HasReturn us) :=
  inferInstanceAs (Decidable (_ ∨ _))

theorem hasReturn_cons {u : List Char} {us : List (List Char)} :
    HasReturn (u :: us) ↔
      u = ['\r'] ∨ (u = ['\\', '\r'] ∧ us.head? = some ['\n']) ∨ HasReturn us := by
  have hprefix : [['\\', '\r'], ['\n']] <+: u :: us ↔
      u = ['\\', '\r'] ∧ us.head? = some ['\n'] := by
    cases us with
    | nil => simp
    | cons v rest => simp [List.cons_prefix_cons, eq_comm]
  rw [HasReturn, HasReturn, List.infix_cons_iff, hprefix, List.mem_cons, eq_comm]
  tauto

theorem hasReturn_cons_of_ne {u : List Char} {us : List (List Char)} (hreturn : u ≠ ['\r'])
    (hpair : u ≠ ['\\', '\r']) : HasReturn (u :: us) ↔ HasReturn us := by
  simp [hasReturn_cons, hreturn, hpair]

/-! ### Inert characters -/

theorem hasReturn_of_inert {more : List Char} (h : ∀ c ∈ more, IsInert c) (rest : List Char) :
    HasReturn (units (more ++ rest)) ↔ HasReturn (units rest) := by
  induction more with
  | nil => rfl
  | cons c more ih =>
    obtain ⟨hc, hmore⟩ := List.forall_mem_cons.1 h
    have hreturn : c ≠ '\r' := by
      rintro rfl
      exact absurd hc (by decide)
    rw [List.cons_append, units_cons hc.ne_backslash,
      hasReturn_cons_of_ne (by simpa using hreturn) (by simp), ih hmore]

/-! ### What a string literal makes of quoted text -/

theorem stringRest?_escape {cs tail : List Char} {value : List Nat}
    (h : escape? cs = some (value, tail)) :
    stringRest? ('\\' :: cs) = (stringRest? tail).map (value ++ ·) := by
  rw [stringRest?, if_neg (by decide), if_pos rfl]
  split
  · next hnone => rw [h] at hnone; cases hnone
  · next value' tail' hsome =>
    rw [h] at hsome
    cases hsome
    rfl

theorem stringRest?_inert {c : Char} (h : IsInert c) (rest : List Char) :
    stringRest? (c :: rest) = (stringRest? rest).map (codeUnits c.toNat ++ ·) := by
  simp only [IsInert, List.mem_cons, List.not_mem_nil, or_false, not_or] at h
  obtain ⟨hbackslash, hquote, hfeed, hreturn⟩ := h
  rw [stringRest?, if_neg hquote, if_neg hbackslash, if_neg (by simp [hfeed, hreturn])]

/-- A character that is quoted stands for itself. -/
theorem stringRest?_quotedUnit {c : Char} (h : c ≠ '\\') (rest : List Char) :
    stringRest? (quotedUnit [c] ++ rest) = (stringRest? rest).map (codeUnits c.toNat ++ ·) := by
  by_cases hc : c ∈ ['\x22', '\n', '\r']
  · simp only [List.mem_cons, List.not_mem_nil, or_false] at hc
    rcases hc with rfl | rfl | rfl <;> exact stringRest?_escape rfl
  · have hinert : IsInert c := by
      intro hmem
      exact (List.mem_cons.1 hmem).elim h hc
    rw [quotedUnit_single hc]
    exact stringRest?_inert hinert rest

theorem stringRest?_quote : stringRest? ['\x22'] = some [] := by
  rw [stringRest?, if_pos rfl]
  rfl

/-- What quoted text begins with is a backslash, a quote, or what the text itself begins with. -/
theorem head?_quotedChars (cs : List Char) :
    ∃ d, (quotedChars cs ++ ['\x22']).head? = some d ∧
      (d = '\\' ∨ d = '\x22' ∨ (IsInert d ∧ cs.head? = some d)) := by
  fun_induction quotedChars cs with
  | case1 c rest ih => exact ⟨'\\', rfl, .inl rfl⟩
  | case2 c rest hpair ih =>
    split_ifs with hquote hfeed hreturn
    · exact ⟨'\\', rfl, .inl rfl⟩
    · exact ⟨'\\', rfl, .inl rfl⟩
    · exact ⟨'\\', rfl, .inl rfl⟩
    · by_cases hc : c = '\\'
      · exact ⟨c, rfl, .inl hc⟩
      · exact ⟨c, rfl, .inr (.inr ⟨by simp [IsInert, *], rfl⟩)⟩
  | case3 => exact ⟨'\x22', rfl, .inr (.inl rfl)⟩

/-- Quoted text may stand behind an escape in the place of the text itself. -/
theorem replaces_quotedChars (cs : List Char) :
    Text.Replaces (quotedChars cs ++ ['\x22']) cs := by
  obtain ⟨d, hd, hcases⟩ := head?_quotedChars cs
  constructor
  · intro hdigit
    rw [beginsWithDigit] at hdigit ⊢
    rw [hd]
    rcases hcases with rfl | rfl | ⟨-, hhead⟩
    · rfl
    · rfl
    · rw [hhead] at hdigit
      exact hdigit
  · rw [hd]
    rcases hcases with rfl | rfl | ⟨hinert, -⟩
    · decide
    · decide
    · rintro heq
      cases heq
      exact absurd hinert (by decide)

/-! ### Comparing the two -/

/-- The number of code units, carriage returns counted twice. -/
def weight (v : List Nat) : Nat := v.length + v.count 13

theorem weight_append (v w : List Nat) : weight (v ++ w) = weight v + weight w := by
  simp only [weight, List.length_append, List.count_append]
  omega

/-- A literal stands for what a piece of a template string does, or for something longer if the
piece has a carriage return of the kind above. -/
def Compares (us : List (List Char)) (cooked quoted : List Nat) : Prop :=
  (quoted = cooked ∧ ¬ HasReturn us) ∨ (weight cooked < weight quoted ∧ HasReturn us)

namespace Compares

variable {us : List (List Char)} {cooked quoted : List Nat}

theorem weight_le (h : Compares us cooked quoted) : weight cooked ≤ weight quoted := by
  rcases h with ⟨rfl, -⟩ | ⟨hlt, -⟩
  · exact Nat.le_refl _
  · exact Nat.le_of_lt hlt

theorem append {more : List (List Char)} (h : Compares us cooked quoted)
    (hmore : HasReturn more ↔ HasReturn us) (front : List Nat) :
    Compares more (front ++ cooked) (front ++ quoted) := by
  rcases h with ⟨rfl, hno⟩ | ⟨hlt, hreturn⟩
  · exact .inl ⟨rfl, mt hmore.1 hno⟩
  · refine .inr ⟨?_, hmore.2 hreturn⟩
    rw [weight_append, weight_append]
    omega

theorem eq_iff (h : Compares us cooked quoted) : quoted = cooked ↔ ¬ HasReturn us := by
  rcases h with ⟨heq, hno⟩ | ⟨hlt, hreturn⟩
  · exact iff_of_true heq hno
  · refine iff_of_false ?_ (not_not.2 hreturn)
    rintro rfl
    exact Nat.lt_irrefl _ hlt

end Compares

/-- What is put in quotes can be compared with what it stands for in a template string. -/
def Reads (cs : List Char) (cooked : List Nat) : Prop :=
  ∃ quoted, stringRest? (quotedChars cs ++ ['\x22']) = some quoted ∧
    Compares (units cs) cooked quoted

theorem head?_units {cs : List Char} (h : (units cs).head? = some ['\n']) :
    ∃ more, cs = '\n' :: more := by
  fun_cases units cs with
  | case1 c rest => simp [units] at h
  | case2 c rest => exact ⟨rest, by simpa [units] using h⟩
  | case3 => cases h

/-- A carriage return and the line feed behind it, taken back in a template string, come back as a
line feed: the literal takes back the carriage return only. -/
theorem reads_return_feed {more : List Char} {cooked : List Nat} (h : Reads more cooked) :
    Reads ('\\' :: '\r' :: '\n' :: more) cooked := by
  obtain ⟨quoted, hquoted, hcompares⟩ := h
  have hread (tail : List Char) : escape? ('\r' :: '\\' :: tail) = some ([], '\\' :: tail) := rfl
  refine ⟨[10] ++ quoted, ?_, .inr ⟨?_, ?_⟩⟩
  · rw [quotedChars_pair, quotedChars_cons (by decide), List.cons_append, List.cons_append,
      List.append_assoc]
    calc stringRest? ('\\' :: '\r' :: (quotedUnit ['\n'] ++ (quotedChars more ++ ['\x22'])))
        = (stringRest? (quotedUnit ['\n'] ++ (quotedChars more ++ ['\x22']))).map ([] ++ ·) :=
          stringRest?_escape (hread _)
      _ = some ([10] ++ quoted) := by
          rw [stringRest?_quotedUnit (by decide), hquoted]
          rfl
  · have hle := hcompares.weight_le
    rw [weight_append]
    exact Nat.lt_of_le_of_lt hle (Nat.lt_add_of_pos_left (by decide))
  · exact hasReturn_cons.2 (.inr (.inl ⟨rfl, rfl⟩))

/-- An escape stands for the same in quotes, unless it takes back a carriage return with a line
feed. -/
theorem reads_escape {cs after : List Char} {value cooked : List Nat}
    (h : escape? cs = some (value, after)) (hafter : Reads after cooked) :
    Reads ('\\' :: cs) (value ++ cooked) := by
  by_cases hfeed : ∃ more, cs = '\r' :: '\n' :: more
  · obtain ⟨more, rfl⟩ := hfeed
    have heq : ([], more) = (value, after) := Option.some.inj h
    cases heq
    exact reads_return_feed hafter
  · obtain ⟨c, more, rfl, hinert, hread⟩ := Text.isRead_of_escape? h (not_exists.1 hfeed)
    obtain ⟨quoted, hquoted, hcompares⟩ := hafter
    refine ⟨value ++ quoted, ?_, hcompares.append ?_ value⟩
    · rw [quotedChars_pair, quotedChars_plain_append hinert, List.cons_append, List.cons_append,
        List.append_assoc, stringRest?_escape (hread _ (replaces_quotedChars after)), hquoted]
      rfl
    · have hhead : ¬ (['\\', c] = ['\\', '\r'] ∧
          (units (more ++ after)).head? = some ['\n']) := by
        rintro ⟨hc, hunits⟩
        obtain ⟨rest, hrest⟩ := head?_units hunits
        cases hc
        exact hfeed ⟨rest, by rw [hrest]⟩
      rw [units_pair, hasReturn_cons, or_iff_right (by simp), or_iff_right hhead,
        hasReturn_of_inert hinert]

/-- A carriage return on its own is a line feed in a template string, also with a line feed behind
it, and has an escape of its own in quotes. -/
theorem reads_return {rest : List Char} {cooked : List Nat} (h : Reads (withoutFeed rest) cooked) :
    Reads ('\r' :: rest) (10 :: cooked) := by
  obtain ⟨quoted, hquoted, hcompares⟩ := h
  have hreturn : HasReturn (units ('\r' :: rest)) := by
    rw [units_cons (by decide)]
    exact hasReturn_cons.2 (.inl rfl)
  have hle := hcompares.weight_le
  have hten : weight [10] = 1 := rfl
  have hthirteen : weight [13] = 2 := rfl
  by_cases hfeed : rest.head? = some '\n'
  · obtain ⟨more, rfl⟩ := List.head?_eq_some_iff.1 hfeed
    refine ⟨[13] ++ ([10] ++ quoted), ?_, .inr ⟨?_, hreturn⟩⟩
    · rw [quotedChars_cons (by decide), quotedChars_cons (by decide), List.append_assoc,
        List.append_assoc, stringRest?_quotedUnit (by decide), stringRest?_quotedUnit (by decide)]
      rw [withoutFeed] at hquoted
      rw [hquoted]
      rfl
    · rw [withoutFeed] at hquoted
      rw [← List.singleton_append, weight_append, weight_append, weight_append, hten, hthirteen]
      omega
  · rw [Text.withoutFeed_of_ne hfeed] at hquoted
    refine ⟨[13] ++ quoted, ?_, .inr ⟨?_, hreturn⟩⟩
    · rw [quotedChars_cons (by decide), List.append_assoc, stringRest?_quotedUnit (by decide),
        hquoted]
      rfl
    · rw [← List.singleton_append, weight_append, weight_append, hten, hthirteen]
      omega

theorem reads_of_cookedValue? {cs : List Char} {cooked : List Nat}
    (h : cookedValue? cs = some cooked) : Reads cs cooked := by
  fun_induction cookedValue? cs generalizing cooked with
  | case1 =>
    cases h
    exact ⟨[], stringRest?_quote, .inl ⟨rfl, by decide⟩⟩
  | case2 => cases h
  | case3 => cases h
  | case4 => cases h
  | case5 rest value after hescape _ _ ih =>
    obtain ⟨cooked, hafter, rfl⟩ := Option.map_eq_some_iff.1 h
    exact reads_escape hescape (ih hafter)
  | case6 rest _ _ _ ih =>
    obtain ⟨cooked, hrest, rfl⟩ := Option.map_eq_some_iff.1 h
    exact reads_return (ih hrest)
  | case7 c rest hquote hsubst hbackslash hreturn ih =>
    obtain ⟨cooked, hrest, rfl⟩ := Option.map_eq_some_iff.1 h
    obtain ⟨quoted, hquoted, hcompares⟩ := ih hrest
    refine ⟨codeUnits c.toNat ++ quoted, ?_, hcompares.append ?_ _⟩
    · rw [quotedChars_cons hbackslash, List.append_assoc, stringRest?_quotedUnit hbackslash,
        hquoted]
      rfl
    · rw [units_cons hbackslash]
      exact hasReturn_cons_of_ne (by simpa using hreturn) (by simp)

/-- A chunk that can stand in a template string is a string literal when it is put in quotes.  The
literal stands for what the chunk does exactly if the chunk has no carriage return on its own and
none that a backslash takes back together with a line feed. -/
theorem value_kept_iff {raw : String} {cooked : List Nat}
    (h : cookedValue? raw.toList = some cooked) :
    ∃ quoted, stringValue? (quoteChunk raw) = some quoted ∧
      (quoted = cooked ↔ ¬ HasReturn (units raw.toList)) := by
  obtain ⟨quoted, hquoted, hcompares⟩ := reads_of_cookedValue? h
  refine ⟨quoted, ?_, hcompares.eq_iff⟩
  rw [stringValue?, quoteChunk, String.toList_ofList]
  exact hquoted

/-- Escapes, a quote, a line feed and a carriage return that is taken back stand for the same. -/
theorem value_kept_mixed :
    cookedValue? "\\u00e9\x22\n\\\r\\\\".toList = some [233, 34, 10, 92] ∧
      stringValue? (quoteChunk "\\u00e9\x22\n\\\r\\\\") = some [233, 34, 10, 92] := by
  have hcooked : cookedValue? "\\u00e9\x22\n\\\r\\\\".toList = some [233, 34, 10, 92] := by
    simp [cookedValue?, escape?, Text.unitEscape?, Text.hexNumber?, Json.hexValue?, codeUnits,
      Text.escapedPoint, withoutFeed]
  refine ⟨hcooked, ?_⟩
  obtain ⟨quoted, hquoted, hiff⟩ := value_kept_iff hcooked
  rw [hquoted, hiff.2 (by decide +kernel)]

/-- A carriage return with a line feed becomes two code units for one, and where a backslash takes
them back, the line feed stays. -/
theorem value_changes_at_return :
    cookedValue? "\r\n".toList = some [10] ∧ stringValue? (quoteChunk "\r\n") = some [13, 10] ∧
      cookedValue? "\\\r\n".toList = some [] ∧ stringValue? (quoteChunk "\\\r\n") = some [10] := by
  simp [cookedValue?, stringValue?, stringRest?, quoteChunk, quotedChars, escape?, codeUnits,
    Text.escapedPoint, withoutFeed]

end TsxLint.ClassNames
