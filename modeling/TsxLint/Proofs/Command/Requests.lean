/-
Module: TsxLint.Proofs.Command.Requests
Purpose: Words that ask for mending ask for a check of the same under the other command's name.
Main exports: ParsedWords.Parses, parseWords_eq_ok_iff, Request.readCommand_fix_eq_ok,
  Request.ofWords_check_of_fix
-/
import TsxLint.Command.Request
import TsxLint.Proofs.Command.Workspace
import TsxLint.Proofs.Outcome

namespace TsxLint

/-!
The commands that go through files share all options but one flag each.  Words that the one command
understands without its own flag are understood by the other one, and in the same way; and what was
found at the paths among them is still found there after files have been written.
-/

deriving instance DecidableEq for CommonOptions, Target, Request

/-! ### Steps and checks -/

namespace UsageError

variable {α β : Type}

theorem exists_of_bind_eq_ok {first : Except UsageError α} {next : α → Except UsageError β} {b : β}
    (h : (first >>= next) = .ok b) : ∃ a, first = .ok a ∧ next a = .ok b := by
  cases first with
  | error e => cases h
  | ok a => exact ⟨a, rfl, h⟩

/-- A list passes a check if each of its items does. -/
theorem forM_eq_ok_iff {check : α → Except UsageError Unit} {items : List α} :
    items.forM check = .ok () ↔ ∀ item ∈ items, check item = .ok () := by
  induction items with
  | nil => exact ⟨fun _ _ hmem => (nomatch hmem), fun _ => rfl⟩
  | cons item rest ih =>
    rw [List.forall_mem_cons, ← ih]
    constructor
    · intro h
      obtain ⟨⟨⟩, hitem, hrest⟩ := exists_of_bind_eq_ok h
      exact ⟨hitem, hrest⟩
    · rintro ⟨hitem, hrest⟩
      change (check item >>= fun _ => rest.forM check) = .ok ()
      rw [hitem]
      exact hrest

end UsageError

/-! ### Options in a word -/

namespace OptionSpec

open Request (flag)

variable {specs : List OptionSpec} {long word : String} {found : WordOptions}

/-- A flag without a short form has no part in a row of short options. -/
theorem readShort_flag (long : String) (specs : List OptionSpec) (cs : List Char) :
    readShort (flag long none :: specs) cs = readShort specs cs := by
  induction cs with
  | nil => rfl
  | cons c rest ih =>
    have hfind : (flag long none :: specs).find? (fun spec => spec.short == some c) =
        specs.find? fun spec => spec.short == some c := rfl
    rw [readShort, readShort, hfind, ih]

/-- The name in a word, which ends at an equals sign. -/
def nameIn (word : String) : String := (splitValue word.toList).1

theorem toList_nameIn (word : String) :
    (nameIn word).toList = word.toList.takeWhile (· != '=') := by
  have hname : nameIn word = String.ofList (word.toList.takeWhile (· != '=')) := by
    unfold nameIn splitValue
    dsimp only
    split <;> rfl
  rw [hname, String.toList_ofList]

/-- A word that does not name a flag is understood as it is without the flag. -/
theorem read_flag_of_ne (h : nameIn word ≠ long) :
    read (flag long none :: specs) word = .ok found ↔ read specs word = .ok found := by
  have hfind : (flag long none :: specs).find? (fun spec => spec.long == nameIn word) =
      specs.find? fun spec => spec.long == nameIn word :=
    List.find?_cons_of_neg (by simpa [flag] using Ne.symm h)
  unfold nameIn at hfind
  unfold read
  dsimp only
  rw [hfind]
  cases specs.find? fun spec => spec.long == (splitValue word.toList).1 with
  | some spec => rfl
  | none =>
    dsimp only
    split
    · simp
    · rw [readShort_flag]

/-- A word that names a flag and is understood gives the flag. -/
theorem found_of_read_flag (h : nameIn word = long)
    (hread : read (flag long none :: specs) word = .ok found) : (long, "") ∈ found.found := by
  have hfind : (flag long none :: specs).find? (fun spec => spec.long == nameIn word) =
      some (flag long none) :=
    List.find?_cons_of_pos (by simp [flag, h])
  unfold nameIn at hfind h
  unfold read at hread
  dsimp only at hread
  rw [hfind] at hread
  cases hvalue : (splitValue word.toList).2 with
  | some v =>
    rw [hvalue] at hread
    cases hread
  | none =>
    rw [hvalue] at hread
    cases hread
    rw [h]
    exact List.mem_singleton.2 rfl

/-- A word that begins with the name of a long option but names none is not understood. -/
theorem nameIn_mem_of_read {rest : List Char} (hlong : long.toList = '-' :: '-' :: rest)
    (h : nameIn word = long) (hread : read specs word = .ok found) :
    long ∈ specs.map (·.long) := by
  have hdashes : ∃ more, word.toList = '-' :: '-' :: more := by
    have hname : word.toList.takeWhile (· != '=') = '-' :: '-' :: rest := by
      rw [← hlong, ← h, toList_nameIn]
    refine ⟨rest ++ word.toList.dropWhile (· != '='), ?_⟩
    conv_lhs => rw [← List.takeWhile_append_dropWhile (p := (· != '=')) (l := word.toList), hname]
    rfl
  obtain ⟨more, hdashes⟩ := hdashes
  unfold read at hread
  dsimp only at hread
  cases hfind : specs.find? fun spec => spec.long == (splitValue word.toList).1 with
  | none =>
    rw [hfind, hdashes] at hread
    cases hread
  | some spec =>
    have hspec : spec.long = (splitValue word.toList).1 := by
      simpa using List.find?_some hfind
    rw [← h, nameIn, ← hspec]
    exact List.mem_map_of_mem (List.mem_of_find?_eq_some hfind)

/-- The options found in a word, and the one that still needs a value, are among the given ones. -/
def Known (specs : List OptionSpec) (found : WordOptions) : Prop :=
  (∀ o ∈ found.found, o.1 ∈ specs.map (·.long)) ∧
    ∀ name, found.pending = some name → name ∈ specs.map (·.long)

theorem known_of_readShort {cs : List Char} (h : readShort specs cs = .ok found) :
    Known specs found := by
  induction cs generalizing found with
  | nil =>
    cases h
    exact ⟨fun _ hmem => (nomatch hmem), fun _ hname => (nomatch hname)⟩
  | cons c rest ih =>
    rw [readShort] at h
    cases hfind : specs.find? fun spec => spec.short == some c with
    | none =>
      rw [hfind] at h
      cases h
    | some spec =>
      have hspec : spec.long ∈ specs.map (·.long) :=
        List.mem_map_of_mem (List.mem_of_find?_eq_some hfind)
      rw [hfind] at h
      dsimp only at h
      by_cases hvalue : spec.takesValue = true
      · rw [if_pos hvalue] at h
        cases rest with
        | nil =>
          cases h
          exact ⟨fun _ hmem => (nomatch hmem), fun _ hname => Option.some.inj hname ▸ hspec⟩
        | cons d more =>
          cases h
          exact ⟨fun o ho => List.mem_singleton.1 ho ▸ hspec, fun _ hname => (nomatch hname)⟩
      · rw [if_neg hvalue] at h
        obtain ⟨others, hothers, h⟩ := UsageError.exists_of_bind_eq_ok h
        obtain ⟨hfound, hpending⟩ := ih hothers
        cases h
        exact ⟨List.forall_mem_cons.2 ⟨hspec, hfound⟩, hpending⟩

theorem known_of_read (h : read specs word = .ok found) : Known specs found := by
  unfold read at h
  dsimp only at h
  cases hfind : specs.find? fun spec => spec.long == (splitValue word.toList).1 with
  | none =>
    rw [hfind] at h
    dsimp only at h
    split at h
    · cases h
    · exact known_of_readShort h
  | some spec =>
    have hname : spec.long = (splitValue word.toList).1 := by
      simpa using List.find?_some hfind
    have hspec : (splitValue word.toList).1 ∈ specs.map (·.long) := by
      rw [← hname]
      exact List.mem_map_of_mem (List.mem_of_find?_eq_some hfind)
    rw [hfind] at h
    dsimp only at h
    split at h
    · cases h
      exact ⟨fun o ho => List.mem_singleton.1 ho ▸ hspec, fun _ hname => (nomatch hname)⟩
    · cases h
      exact ⟨fun _ hmem => (nomatch hmem), fun _ hname => Option.some.inj hname ▸ hspec⟩
    · cases h
    · cases h
      exact ⟨fun o ho => List.mem_singleton.1 ho ▸ hspec, fun _ hname => (nomatch hname)⟩

end OptionSpec

/-! ### Command lines -/

/-- A command line in which options and arguments are mixed, and what it is split into: one form for
each way in which it can begin. -/
inductive ParsedWords.Parses (specs : List OptionSpec) : List String → ParsedWords → Prop where
  | nil : Parses specs [] ⟨[], []⟩
  /-- Two hyphens end the options. -/
  | ended (words : List String) : Parses specs ("--" :: words) ⟨[], words⟩
  /-- A word with all that its options need. -/
  | option {word : String} {words : List String} {found : List (String × String)}
      {others : ParsedWords} (hyphens : word ≠ "--") (isOption : isOptionWord word = true)
      (read : OptionSpec.read specs word = .ok ⟨found, none⟩) (later : Parses specs words others) :
      Parses specs (word :: words) { others with options := found ++ others.options }
  /-- A word whose last option takes the next word as its value. -/
  | valued {word value name : String} {words : List String} {found : List (String × String)}
      {others : ParsedWords} (hyphens : word ≠ "--") (isOption : isOptionWord word = true)
      (read : OptionSpec.read specs word = .ok ⟨found, some name⟩)
      (later : Parses specs words others) :
      Parses specs (word :: value :: words)
        { others with options := found ++ (name, value) :: others.options }
  | argument {word : String} {words : List String} {others : ParsedWords} (hyphens : word ≠ "--")
      (noOption : isOptionWord word = false) (later : Parses specs words others) :
      Parses specs (word :: words) { others with arguments := word :: others.arguments }

section

variable {specs : List OptionSpec} {words : List String} {parsed : ParsedWords}

open ParsedWords (Parses)

theorem parses_of_parseWords_eq_ok (h : parseWords specs true words = .ok parsed) :
    Parses specs words parsed := by
  induction hlength : words.length using Nat.strongRecOn generalizing words parsed with
  | ind length ih =>
    subst hlength
    cases words with
    | nil =>
      rw [parseWords] at h
      cases h
      exact .nil
    | cons word rest =>
      rw [parseWords] at h
      by_cases hhyphens : word = "--"
      · rw [if_pos hhyphens] at h
        cases h
        rw [hhyphens]
        exact .ended rest
      · rw [if_neg hhyphens] at h
        by_cases hoption : isOptionWord word = true
        · rw [if_pos hoption] at h
          obtain ⟨⟨found, pending⟩, hread, h⟩ := UsageError.exists_of_bind_eq_ok h
          cases pending with
          | none =>
            obtain ⟨others, hothers, h⟩ := UsageError.exists_of_bind_eq_ok h
            cases h
            exact .option hhyphens hoption hread (ih _ (Nat.lt_succ_self _) hothers rfl)
          | some name =>
            cases rest with
            | nil => cases h
            | cons value rest =>
              obtain ⟨others, hothers, h⟩ := UsageError.exists_of_bind_eq_ok h
              cases h
              exact .valued hhyphens hoption hread
                (ih _ (Nat.lt_succ_of_lt (Nat.lt_succ_self _)) hothers rfl)
        · rw [if_neg hoption, if_pos rfl] at h
          obtain ⟨others, hothers, h⟩ := UsageError.exists_of_bind_eq_ok h
          cases h
          exact .argument hhyphens (Bool.eq_false_iff.2 hoption)
            (ih _ (Nat.lt_succ_self _) hothers rfl)

theorem ParsedWords.Parses.parseWords_eq_ok (h : Parses specs words parsed) :
    parseWords specs true words = .ok parsed := by
  induction h with
  | nil => rw [parseWords]
  | ended words => rw [parseWords, if_pos rfl]
  | option hhyphens hoption hread _ ih =>
    rw [parseWords, if_neg hhyphens, if_pos hoption, hread]
    change (parseWords specs true _ >>= _) = _
    rw [ih]
    rfl
  | valued hhyphens hoption hread _ ih =>
    rw [parseWords, if_neg hhyphens, if_pos hoption, hread]
    change (parseWords specs true _ >>= _) = _
    rw [ih]
    rfl
  | argument hhyphens hoption _ ih =>
    rw [parseWords, if_neg hhyphens, if_neg (Bool.eq_false_iff.1 hoption), if_pos rfl, ih]
    rfl

theorem parseWords_eq_ok_iff :
    parseWords specs true words = .ok parsed ↔ Parses specs words parsed :=
  ⟨parses_of_parseWords_eq_ok, Parses.parseWords_eq_ok⟩

theorem ParsedWords.Parses.name_mem (h : Parses specs words parsed) :
    ∀ o ∈ parsed.options, o.1 ∈ specs.map (·.long) := by
  induction h with
  | nil => exact fun _ hmem => (nomatch hmem)
  | ended words => exact fun _ hmem => (nomatch hmem)
  | option _ _ hread _ ih =>
    exact List.forall_mem_append.2 ⟨(OptionSpec.known_of_read hread).1, ih⟩
  | valued _ _ hread _ ih =>
    obtain ⟨hfound, hpending⟩ := OptionSpec.known_of_read hread
    exact List.forall_mem_append.2 ⟨hfound, List.forall_mem_cons.2 ⟨hpending _ rfl, ih⟩⟩
  | argument _ _ _ ih => exact ih

/-! ### One flag for another -/

open OptionSpec (nameIn)
open Request (flag)

/-- Words that are understood and do not give a flag are understood in the same way with another
flag in its place, and they do not give that one either. -/
theorem ParsedWords.Parses.exchange {one other : String} {rest : List Char}
    (h : Parses (flag one none :: specs) words parsed) (hone : parsed.has one = false)
    (hdashes : other.toList = '-' :: '-' :: rest) (hnew : other ∉ specs.map (·.long)) :
    Parses (flag other none :: specs) words parsed := by
  have hread {word : String} {found : WordOptions}
      (hread : OptionSpec.read (flag one none :: specs) word = .ok found)
      (hfound : (one, "") ∉ found.found) :
      OptionSpec.read (flag other none :: specs) word = .ok found := by
    have hword : nameIn word ≠ one := fun hname =>
      hfound (OptionSpec.found_of_read_flag hname hread)
    have hplain := (OptionSpec.read_flag_of_ne hword).1 hread
    exact (OptionSpec.read_flag_of_ne fun hname =>
      hnew (OptionSpec.nameIn_mem_of_read hdashes hname hplain)).2 hplain
  have hnone {found : List (String × String)} (hfound : (found.any fun o => o.1 == one) = false) :
      (one, "") ∉ found := fun hmem =>
    List.any_eq_false.1 hfound _ hmem (beq_self_eq_true one)
  induction h with
  | nil => exact .nil
  | ended words => exact .ended words
  | option hhyphens hoption hfound _ ih =>
    rw [has, List.any_append, Bool.or_eq_false_iff] at hone
    exact .option hhyphens hoption (hread hfound (hnone hone.1)) (ih hone.2)
  | valued hhyphens hoption hfound _ ih =>
    rw [has, List.any_append, List.any_cons, Bool.or_eq_false_iff, Bool.or_eq_false_iff] at hone
    exact .valued hhyphens hoption (hread hfound (hnone hone.1)) (ih hone.2.2)
  | argument hhyphens hoption _ ih => exact .argument hhyphens hoption (ih hone)

end

/-! ### Requests -/

namespace Request

variable {w w' : Workspace} {words : List String} {target : Target} {common : CommonOptions}

/-- The options that the commands that go through files have in common. -/
def sharedOptions : List OptionSpec := selectionOptions ++ commonOptions

theorem ofWords_command {command : String} {specs : List OptionSpec} (hhyphens : command ≠ "--")
    (hoption : isOptionWord command = false) (hspecs : optionsOf? command = some specs) :
    ofWords w (command :: words) = readCommand w command specs words := by
  have hparse : parseWords leadingOptions false (command :: words) =
      .ok ⟨[], command :: words⟩ := by
    rw [parseWords, if_neg hhyphens, if_neg (Bool.eq_false_iff.1 hoption),
      if_neg Bool.false_ne_true]
  unfold ofWords
  rw [if_neg (by simp), hparse]
  simp only [bind, Except.bind, List.head?_nil]
  rw [hspecs]

theorem ofWords_fix (w : Workspace) (words : List String) :
    ofWords w ("fix" :: words) =
      readCommand w "fix" (flag "--dry-run" none :: sharedOptions) words :=
  ofWords_command (by decide) (by decide) rfl

theorem ofWords_check (w : Workspace) (words : List String) :
    ofWords w ("check" :: words) =
      readCommand w "check" (flag "--json" none :: sharedOptions) words :=
  ofWords_command (by decide) (by decide) rfl

/-- What is to be mended was understood, and its options and paths have been checked. -/
theorem readCommand_fix_eq_ok
    (h : readCommand w "fix" (flag "--dry-run" none :: sharedOptions) words =
      .ok (.fix target false common)) :
    ∃ parsed, parseWords (flag "--dry-run" none :: sharedOptions) true words = .ok parsed ∧
      parsed.has "--help" = false ∧ parsed.has "--dry-run" = false ∧
      (∀ name ∈ parsed.names, checkOption w parsed name = .ok ()) ∧
      parsed.arguments.isEmpty = false ∧
      (∀ path ∈ parsed.arguments, checkPath w path = .ok ()) ∧
      target = targetOf parsed ∧ common = commonOf parsed := by
  obtain ⟨parsed, hparsed, h⟩ := UsageError.exists_of_bind_eq_ok h
  by_cases hhelp : parsed.has "--help" = true
  · rw [if_pos hhelp] at h
    cases h
  · rw [if_neg hhelp] at h
    obtain ⟨⟨⟩, hoptions, h⟩ := UsageError.exists_of_bind_eq_ok h
    obtain ⟨⟨⟩, harguments, h⟩ := UsageError.exists_of_bind_eq_ok h
    have hrequest : Request.fix (targetOf parsed) (parsed.has "--dry-run") (commonOf parsed) =
        .fix target false common := Except.ok.inj h
    obtain ⟨htarget, hdry, hcommon⟩ := Request.fix.inj hrequest
    unfold checkArguments at harguments
    rw [if_pos (by decide)] at harguments
    cases hempty : parsed.arguments.isEmpty with
    | true =>
      rw [hempty, if_pos rfl] at harguments
      cases harguments
    | false =>
      rw [hempty, if_neg Bool.false_ne_true] at harguments
      exact ⟨parsed, hparsed, Bool.eq_false_iff.2 hhelp, hdry,
        UsageError.forM_eq_ok_iff.1 hoptions, hempty, UsageError.forM_eq_ok_iff.1 harguments,
        htarget.symm, hcommon.symm⟩

/-! ### Checks that go on to pass -/

theorem checkPath_eq_ok_iff {path : String} :
    checkPath w path = .ok () ↔ (w.kindOf path).isSome = true := by
  unfold checkPath
  cases w.kindOf path <;> simp

/-- A check of a file passes unless there is a directory, or nothing where a file has to be. -/
theorem checkFile_eq_ok_iff {name path : String} {hasToExist : Bool} :
    checkFile w name hasToExist path = .ok () ↔
      w.kindOf path ≠ some .directory ∧ (hasToExist = true → w.kindOf path = some .file) := by
  unfold checkFile
  cases w.kindOf path with
  | none => cases hasToExist <;> simp
  | some kind => cases kind <;> simp

theorem checkOption_of_grows (hgrows : w.Grows w') {parsed : ParsedWords} {name : String}
    (h : checkOption w parsed name = .ok ()) : checkOption w' parsed name = .ok () := by
  have hfile {hasToExist : Bool} {path : String}
      (h : checkFile w name hasToExist path = .ok ()) :
      checkFile w' name hasToExist path = .ok () := by
    obtain ⟨hdirectory, hexists⟩ := checkFile_eq_ok_iff.1 h
    exact checkFile_eq_ok_iff.2
      ⟨mt hgrows.kindOf_directory hdirectory, fun hhas => hgrows.kindOf_file (hexists hhas)⟩
  unfold checkOption at h ⊢
  dsimp only at h ⊢
  split at h
  · exact h
  · exact h
  · exact UsageError.forM_eq_ok_iff.2 fun path hpath =>
      hfile (UsageError.forM_eq_ok_iff.1 h path hpath)
  · exact UsageError.forM_eq_ok_iff.2 fun path hpath =>
      hfile (UsageError.forM_eq_ok_iff.1 h path hpath)
  · rfl

/-- In a workspace that only grew, the words that asked for mending ask for a check of the same. -/
theorem ofWords_check_of_fix (hgrows : w.Grows w')
    (h : ofWords w ("fix" :: words) = .ok (.fix target false common)) :
    ofWords w' ("check" :: words) = .ok (.check target false common) := by
  rw [ofWords_fix] at h
  obtain ⟨parsed, hparsed, hhelp, hdry, hoptions, hempty, hpaths, rfl, rfl⟩ :=
    readCommand_fix_eq_ok h
  have hparses := parseWords_eq_ok_iff.1 hparsed
  have hdashes : "--json".toList = '-' :: '-' :: "json".toList := rfl
  have hchecked : parseWords (flag "--json" none :: sharedOptions) true words = .ok parsed :=
    (hparses.exchange hdry hdashes (by decide)).parseWords_eq_ok
  have hjson : parsed.has "--json" = false := by
    refine Bool.eq_false_iff.2 fun hhas => ?_
    obtain ⟨o, ho, hname⟩ := List.any_eq_true.1 hhas
    have hknown := hparses.name_mem o ho
    rw [eq_of_beq hname] at hknown
    exact absurd hknown (by decide)
  have harguments : checkArguments w' "check" parsed.arguments = .ok () := by
    unfold checkArguments
    rw [if_pos (by decide), hempty, if_neg Bool.false_ne_true]
    exact UsageError.forM_eq_ok_iff.2 fun path hpath =>
      checkPath_eq_ok_iff.2 (hgrows.isSome_kindOf (checkPath_eq_ok_iff.1 (hpaths path hpath)))
  have hnames : parsed.names.forM (checkOption w' parsed) = .ok () :=
    UsageError.forM_eq_ok_iff.2 fun name hname => checkOption_of_grows hgrows (hoptions name hname)
  rw [ofWords_check, readCommand, hchecked]
  change (if parsed.has "--help" then _ else _) = _
  rw [hhelp, if_neg Bool.false_ne_true, hnames]
  change (checkArguments w' "check" parsed.arguments >>= _) = _
  rw [harguments]
  change Except.ok (Request.check (targetOf parsed) (parsed.has "--json") (commonOf parsed)) = _
  rw [hjson]

/-- Whatever is to be mended is there. -/
theorem exists_of_ofWords_fix (h : ofWords w ("fix" :: words) = .ok (.fix target false common)) :
    ∀ path ∈ target.paths, (w.kindOf path).isSome = true := by
  rw [ofWords_fix] at h
  obtain ⟨parsed, -, -, -, -, -, hpaths, rfl, -⟩ := readCommand_fix_eq_ok h
  exact fun path hpath => checkPath_eq_ok_iff.1 (hpaths path hpath)

end Request

end TsxLint
