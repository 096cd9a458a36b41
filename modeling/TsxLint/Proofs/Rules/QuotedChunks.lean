/-
Module: TsxLint.Proofs.Rules.QuotedChunks
Purpose: A chunk in quotes is read in the steps in which it is written.
Main exports: ClassNames.units, ClassNames.EndsOpen, ClassNames.units_quotedChars_append,
  ClassNames.quoteChunk_in_step
-/
import Mathlib.Tactic.SplitIfs
import TsxLint.Rules.ClassNames

namespace TsxLint.ClassNames

/-!
A text with escapes is read in units: a backslash goes with the character behind it, and any other
character stands alone.  Quoting works on units, since the units of what is written are the units
of the chunk, each of them quoted on its own.  So reader and writer cannot get out of step, however
long a run of backslashes is, and no quote of the chunk closes the literal.  Only a backslash that
nothing follows would take the closing quote for its partner.
-/

/-- A text in units from the left: a backslash with the character behind it, or one character. -/
def units : List Char → List (List Char)
  | '\\' :: c :: rest => ['\\', c] :: units rest
  | c :: rest => [c] :: units rest
  | [] => []

/-- The last unit is a backslash that has no partner. -/
def EndsOpen (cs : List Char) : Prop := (units cs).getLast? = some ['\\']

instance (cs : List Char) : Decidable (EndsOpen cs) :=
  inferInstanceAs (Decidable ((units cs).getLast? = some ['\\']))

/-! ### Units of texts put together -/

theorem units_pair (c : Char) (rest : List Char) :
    units ('\\' :: c :: rest) = ['\\', c] :: units rest := rfl

theorem units_cons {c : Char} (h : c ≠ '\\') (rest : List Char) :
    units (c :: rest) = [c] :: units rest := by
  rw [units]
  intro _ _ heq
  exact absurd heq h

/-- A backslash without a partner can only be the last unit. -/
theorem endsOpen_iff {cs : List Char} : EndsOpen cs ↔ ['\\'] ∈ units cs := by
  constructor
  · exact List.mem_of_getLast?
  · intro h
    unfold EndsOpen
    fun_induction units cs with
    | case1 c rest ih =>
      have hrest : ['\\'] ∈ units rest := by simpa using h
      rw [List.getLast?_cons, ih hrest]
      rfl
    | case2 c rest hpair ih =>
      rcases List.mem_cons.1 h with heq | hrest
      · cases rest with
        | nil => simp [units, heq]
        | cons d more => exact (hpair d more (by simpa using heq.symm) rfl).elim
      · rw [List.getLast?_cons, ih hrest]
        rfl
    | case3 => cases h

theorem not_endsOpen_nil : ¬ EndsOpen [] := by
  intro h
  cases h

theorem endsOpen_pair {c : Char} {rest : List Char} :
    EndsOpen ('\\' :: c :: rest) ↔ EndsOpen rest := by
  simp [endsOpen_iff, units_pair]

theorem endsOpen_cons {c : Char} (h : c ≠ '\\') {rest : List Char} :
    EndsOpen (c :: rest) ↔ EndsOpen rest := by
  simp [endsOpen_iff, units_cons h, h.symm]

/-- A text made of pairs and of characters other than the backslash. -/
inductive Paired : List Char → Prop where
  | nil : Paired []
  | pair (c : Char) {rest : List Char} (h : Paired rest) : Paired ('\\' :: c :: rest)
  | single {c : Char} (hc : c ≠ '\\') {rest : List Char} (h : Paired rest) : Paired (c :: rest)

/-- A text that does not end open has a partner for every backslash. -/
theorem paired_of_not_endsOpen {cs : List Char} (h : ¬ EndsOpen cs) : Paired cs := by
  fun_induction units cs with
  | case1 c rest ih => exact .pair c (ih (h ∘ endsOpen_pair.2))
  | case2 c rest hpair ih =>
    have hc : c ≠ '\\' := by
      rintro rfl
      cases rest with
      | nil => exact h rfl
      | cons d more => exact hpair d more rfl rfl
    exact .single hc (ih (h ∘ (endsOpen_cons hc).2))
  | case3 => exact .nil

theorem units_append {a : List Char} (h : Paired a) (b : List Char) :
    units (a ++ b) = units a ++ units b := by
  induction h with
  | nil => rfl
  | pair c _ ih => simp only [List.cons_append, units_pair, ih]
  | single hc _ ih => simp only [List.cons_append, units_cons hc, ih]

/-- What ends open is a backslash behind a text of pairs and other characters. -/
theorem exists_of_endsOpen {cs : List Char} (h : EndsOpen cs) :
    ∃ front, cs = front ++ ['\\'] ∧ Paired front := by
  fun_induction units cs with
  | case1 c rest ih =>
    obtain ⟨front, rfl, hfront⟩ := ih (endsOpen_pair.1 h)
    exact ⟨'\\' :: c :: front, rfl, .pair c hfront⟩
  | case2 c rest hpair ih =>
    by_cases hc : c = '\\'
    · subst hc
      cases rest with
      | nil => exact ⟨[], rfl, .nil⟩
      | cons d more => exact (hpair d more rfl rfl).elim
    · obtain ⟨front, rfl, hfront⟩ := ih ((endsOpen_cons hc).1 h)
      exact ⟨c :: front, rfl, .single hc hfront⟩
  | case3 => exact absurd h not_endsOpen_nil

/-! ### Quoting unit by unit -/

/-- A unit in quotes: a quote or a line break on its own is escaped. -/
def quotedUnit (u : List Char) : List Char :=
  if u = ['\x22'] then ['\\', '\x22']
  else if u = ['\n'] then ['\\', 'n']
  else if u = ['\r'] then ['\\', 'r']
  else u

theorem quotedUnit_pair (c : Char) : quotedUnit ['\\', c] = ['\\', c] := by
  simp [quotedUnit]

theorem quotedChars_pair (c : Char) (rest : List Char) :
    quotedChars ('\\' :: c :: rest) = '\\' :: c :: quotedChars rest := by
  rw [quotedChars]

theorem quotedChars_cons {c : Char} (h : c ≠ '\\') (rest : List Char) :
    quotedChars (c :: rest) = quotedUnit [c] ++ quotedChars rest := by
  rw [quotedChars]
  · simp [quotedUnit]
  · intro _ _ heq
    exact absurd heq h

theorem quotedUnit_single {c : Char} (h : c ∉ ['\x22', '\n', '\r']) : quotedUnit [c] = [c] := by
  simp only [List.mem_cons, List.not_mem_nil, or_false, not_or] at h
  simp [quotedUnit, h]

/-- Characters other than backslashes, quotes and line breaks are copied. -/
theorem quotedChars_plain_append {front : List Char}
    (h : ∀ c ∈ front, c ∉ ['\\', '\x22', '\n', '\r']) (rest : List Char) :
    quotedChars (front ++ rest) = front ++ quotedChars rest := by
  induction front with
  | nil => rfl
  | cons c front ih =>
    obtain ⟨hc, hfront⟩ := List.forall_mem_cons.1 h
    obtain ⟨hbackslash, hother⟩ := not_or.1 (mt List.mem_cons.2 hc)
    rw [List.cons_append, quotedChars_cons hbackslash, quotedUnit_single hother, ih hfront]
    rfl

/-- A unit on its own is quoted as one unit. -/
theorem units_quotedUnit_append {c : Char} (h : c ≠ '\\') (rest : List Char) :
    units (quotedUnit [c] ++ rest) = quotedUnit [c] :: units rest := by
  by_cases hc : c ∈ ['\x22', '\n', '\r']
  · simp only [List.mem_cons, List.not_mem_nil, or_false] at hc
    rcases hc with rfl | rfl | rfl <;> rfl
  · rw [quotedUnit_single hc]
    exact units_cons h rest

/-- No quote and no line break is left on its own. -/
theorem quotedUnit_not_mem (u : List Char) : quotedUnit u ∉ [['\x22'], ['\n'], ['\r']] := by
  unfold quotedUnit
  split_ifs <;> simp_all

/-- The units of a chunk in quotes are the quoted units of the chunk, whatever is behind. -/
theorem units_quotedChars_append {cs : List Char} (h : Paired cs) (rest : List Char) :
    units (quotedChars cs ++ rest) = (units cs).map quotedUnit ++ units rest := by
  induction h with
  | nil => rfl
  | pair c _ ih =>
    rw [quotedChars_pair, List.cons_append, List.cons_append, units_pair, units_pair, ih,
      List.map_cons, quotedUnit_pair, List.cons_append]
  | single hc _ ih =>
    rw [quotedChars_cons hc, List.append_assoc, units_quotedUnit_append hc, units_cons hc, ih,
      List.map_cons, List.cons_append]

/-- Chunks put together are quoted one by one. -/
theorem quotedChars_append {a : List Char} (h : Paired a) (b : List Char) :
    quotedChars (a ++ b) = quotedChars a ++ quotedChars b := by
  induction h with
  | nil => rfl
  | pair c _ ih => simp only [List.cons_append, quotedChars_pair, ih]
  | single hc _ ih =>
    rw [List.cons_append, quotedChars_cons hc, quotedChars_cons hc, ih, List.append_assoc]

/-! ### Between the quotes -/

theorem units_toList_quoteChunk (raw : String) :
    units (quoteChunk raw).toList = ['\x22'] :: units (quotedChars raw.toList ++ ['\x22']) := by
  rw [quoteChunk, String.toList_ofList, List.cons_append, units_cons (by decide)]

/-- What stands between the quotes. -/
theorem unquote_quoteChunk_eq (raw : String) :
    Model.unquote (quoteChunk raw) = String.ofList (quotedChars raw.toList) := by
  simp [Model.unquote, quoteChunk]

/-- A literal that holds a chunk is read unit by unit.  If the chunk does not end open, the units
between the quotes are those of the chunk, each quoted: no quote and no line break among them is on
its own, so the first quote on its own behind the opening one is the last character, and what is put
behind the chunk is quoted behind it.  If the chunk ends open, its last backslash goes with the
closing quote, and no quote closes the literal. -/
theorem quoteChunk_in_step (raw : String) :
    (¬ EndsOpen raw.toList →
      ∃ inner, inner = (units raw.toList).map quotedUnit ∧
        units (quoteChunk raw).toList = ['\x22'] :: (inner ++ [['\x22']]) ∧
        ['\x22'] ∉ inner ∧ ['\n'] ∉ inner ∧ ['\r'] ∉ inner) ∧
    (EndsOpen raw.toList →
      ∃ front inner, units raw.toList = front ++ [['\\']] ∧
        inner = front.map quotedUnit ++ [['\\', '\x22']] ∧
        units (quoteChunk raw).toList = ['\x22'] :: inner ∧ ['\x22'] ∉ inner) ∧
    (¬ EndsOpen raw.toList → ∀ more : String,
      quoteChunk (raw ++ more) = "\x22" ++
        (Model.unquote (quoteChunk raw) ++ Model.unquote (quoteChunk more)) ++ "\x22") := by
  have hnone (us : List (List Char)) (u : List Char) (hu : u ∈ [['\x22'], ['\n'], ['\r']]) :
      u ∉ us.map quotedUnit := by
    intro hmem
    obtain ⟨unit, -, rfl⟩ := List.mem_map.1 hmem
    exact quotedUnit_not_mem unit hu
  refine ⟨fun hclosed => ?_, fun hopen => ?_, fun hclosed more => ?_⟩
  · have hpaired := paired_of_not_endsOpen hclosed
    refine ⟨_, rfl, ?_, hnone _ _ (by simp), hnone _ _ (by simp), hnone _ _ (by simp)⟩
    rw [units_toList_quoteChunk, units_quotedChars_append hpaired]
    rfl
  · obtain ⟨front, hraw, hfront⟩ := exists_of_endsOpen hopen
    refine ⟨units front, _, ?_, rfl, ?_, ?_⟩
    · rw [hraw, units_append hfront]
      rfl
    · rw [units_toList_quoteChunk, hraw, quotedChars_append hfront, List.append_assoc,
        units_quotedChars_append hfront]
      rfl
    · simpa using hnone (units front) ['\x22'] (by simp)
  · rw [unquote_quoteChunk_eq, unquote_quoteChunk_eq, quoteChunk, String.toList_append,
      quotedChars_append (paired_of_not_endsOpen hclosed)]
    apply String.toList_injective
    simp

/-- Two backslashes are a pair, so that the quote behind them is one on its own and is escaped;
behind three of them the literal stays open. -/
theorem quoteChunk_in_step_backslashes :
    ¬ EndsOpen "\\\\\x22".toList ∧ EndsOpen "\\\\\\".toList ∧
      units (quoteChunk "\\\\\x22").toList =
        [['\x22'], ['\\', '\\'], ['\\', '\x22'], ['\x22']] ∧
      units (quoteChunk "\\\\\\").toList = [['\x22'], ['\\', '\\'], ['\\', '\x22']] ∧
      quoteChunk ("\\\\\x22" ++ "\\\\\\") = "\x22" ++
        (Model.unquote (quoteChunk "\\\\\x22") ++ Model.unquote (quoteChunk "\\\\\\")) ++
          "\x22" := by
  have hclosed : ¬ EndsOpen "\\\\\x22".toList := by decide +kernel
  have hopen : EndsOpen "\\\\\\".toList := by decide +kernel
  obtain ⟨hpair, -, hbehind⟩ := quoteChunk_in_step "\\\\\x22"
  obtain ⟨inner, rfl, hunits, -⟩ := hpair hclosed
  obtain ⟨front, inner, hfront, rfl, hunits', -⟩ := (quoteChunk_in_step "\\\\\\").2.1 hopen
  have hfront : front = [['\\', '\\']] := by
    have hlast : front ++ [['\\']] = [['\\', '\\']] ++ [['\\']] := by
      rw [← hfront]
      decide +kernel
    exact List.append_cancel_right hlast
  refine ⟨hclosed, hopen, ?_, ?_, hbehind hclosed _⟩
  · rw [hunits]
    decide +kernel
  · rw [hunits', hfront]
    decide +kernel

end TsxLint.ClassNames
