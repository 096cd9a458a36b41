/-
Module: TsxLint.Proofs.Text.ArgumentLists
Purpose: Where the arguments of a call end, read character by character.
Main exports: Text.Reading, Text.IsArgument, Text.readArguments?,
  Text.readArguments?_intercalate, Text.readArguments?_intercalate_iff
-/
import Mathlib.Data.List.Forall2
import Mathlib.Tactic.SplitIfs

namespace TsxLint.Text

/-!
The arguments of a call are told apart by commas, but not by those inside brackets, strings,
template strings and comments.  Whoever reads them keeps track of what is open: a construct that
only its own mark closes, and the brackets around it.  A text is one argument if it opens nothing
that it does not close, closes nothing that it did not open, and has no comma outside.  Arguments
that are joined come apart again exactly if each of them is such a text.

The marks alone are looked at: a regular expression and the text between markup tags are read as
code.
-/

/-- What the next character is read as a part of. -/
inductive Inside where
  | code
  /-- Code, right behind a slash, which may begin a comment. -/
  | slash
  | lineComment
  | blockComment (star : Bool)
  | string (mark : Char) (escaped : Bool)
  | template
  | templateEscape
  /-- A template string, right behind a dollar sign, which may begin a substitution. -/
  | templateDollar
deriving DecidableEq

/-- How far code is read: what is open, and for each bracket around it, the innermost first,
whether it begins a substitution of a template string. -/
structure Reading where
  inside : Inside
  brackets : List Bool
deriving DecidableEq

namespace Reading

/-- Nothing is open. -/
def outside : Reading := ⟨.code, []⟩

/-- Whether a comma would be between two arguments. -/
def isOutside (r : Reading) : Bool :=
  r.brackets.isEmpty && (r.inside == .code || r.inside == .slash)

/-- A character of code. -/
def inCode (brackets : List Bool) (c : Char) : Reading :=
  if c = '/' then ⟨.slash, brackets⟩
  else if c = '\x22' ∨ c = '\x27' then ⟨.string c false, brackets⟩
  else if c = '\x60' then ⟨.template, brackets⟩
  else if c ∈ ['(', '[', '\x7b'] then ⟨.code, false :: brackets⟩
  else if c ∈ [')', ']', '\x7d'] then
    ⟨if brackets.head? = some true then .template else .code, brackets.tail⟩
  else ⟨.code, brackets⟩

/-- A character of a template string. -/
def inTemplate (brackets : List Bool) (c : Char) : Reading :=
  if c = '\x60' then ⟨.code, brackets⟩
  else if c = '\\' then ⟨.templateEscape, brackets⟩
  else if c = '$' then ⟨.templateDollar, brackets⟩
  else ⟨.template, brackets⟩

/-- What is open behind a character. -/
def after (r : Reading) (c : Char) : Reading :=
  match r.inside with
  | .code => inCode r.brackets c
  | .slash =>
    if c = '/' then ⟨.lineComment, r.brackets⟩
    else if c = '*' then ⟨.blockComment false, r.brackets⟩
    else inCode r.brackets c
  | .lineComment =>
    if c ∈ ['\n', '\r', '\u2028', '\u2029'] then ⟨.code, r.brackets⟩ else r
  | .blockComment star =>
    if star ∧ c = '/' then ⟨.code, r.brackets⟩ else ⟨.blockComment (c == '*'), r.brackets⟩
  | .string mark escaped =>
    if escaped then ⟨.string mark false, r.brackets⟩
    else if c = '\\' then ⟨.string mark true, r.brackets⟩
    else if c = mark then ⟨.code, r.brackets⟩
    else r
  | .template => inTemplate r.brackets c
  | .templateEscape => ⟨.template, r.brackets⟩
  | .templateDollar =>
    if c = '\x7b' then ⟨.code, true :: r.brackets⟩ else inTemplate r.brackets c

/-- Reads on, unless the character ends an argument. -/
def next? (r : Reading) (c : Char) : Option Reading :=
  if r.isOutside ∧ c ∈ [',', ')', ']', '\x7d'] then none else some (r.after c)

/-- Reads characters none of which ends an argument. -/
def through? (r : Reading) (cs : List Char) : Option Reading := cs.foldlM next? r

end Reading

open Reading (outside)

/-- A text that is one argument wherever it is put between commas. -/
def IsArgument (cs : List Char) : Prop := ∃ r, outside.through? cs = some r ∧ r.isOutside = true

/-- The pieces between the commas outside, up to the closing parenthesis, and what is behind it;
`read` is what is read of the first piece, backwards. -/
def readPieces? (r : Reading) (read : List Char) :
    List Char → Option (List (List Char) × List Char)
  | [] => none
  | c :: rest =>
    match r.next? c with
    | some r => readPieces? r (c :: read) rest
    | none =>
      if c = ',' then
        (readPieces? outside [] rest).map fun (pieces, behind) => (read.reverse :: pieces, behind)
      else if c = ')' then some ([read.reverse], rest)
      else none

/-! ### Reading on -/

namespace Reading

theorem through?_append {r s : Reading} {cs : List Char} (h : r.through? cs = some s)
    (more : List Char) : r.through? (cs ++ more) = s.through? more := by
  rw [through?, List.foldlM_append]
  rw [through?] at h
  rw [h]
  rfl

theorem next?_of_isOutside {r : Reading} {c : Char} (h : r.isOutside = true)
    (hc : c ∈ [',', ')', ']', '\x7d']) : r.next? c = none :=
  if_pos ⟨h, hc⟩

theorem isOutside_of_next?_eq_none {r : Reading} {c : Char} (h : r.next? c = none) :
    r.isOutside = true := by
  unfold next? at h
  split at h
  · next hends => exact hends.1
  · cases h

end Reading

theorem readPieces?_append {r s : Reading} {cs : List Char} (h : r.through? cs = some s)
    (read rest : List Char) :
    readPieces? r read (cs ++ rest) = readPieces? s (cs.reverse ++ read) rest := by
  induction cs generalizing r read with
  | nil =>
    cases h
    rfl
  | cons c cs ih =>
    obtain ⟨r', hnext, hmore⟩ := Option.bind_eq_some_iff.1 h
    rw [List.cons_append, readPieces?, hnext]
    simp only
    rw [ih hmore, List.reverse_cons, List.append_assoc]
    rfl

theorem readPieces?_comma {r : Reading} (h : r.isOutside = true) (read rest : List Char) :
    readPieces? r read (',' :: rest) =
      (readPieces? outside [] rest).map
        fun (pieces, behind) => (read.reverse :: pieces, behind) := by
  rw [readPieces?, Reading.next?_of_isOutside h (by simp)]
  rfl

theorem readPieces?_parenthesis {r : Reading} (h : r.isOutside = true) (read rest : List Char) :
    readPieces? r read (')' :: rest) = some ([read.reverse], rest) := by
  rw [readPieces?, Reading.next?_of_isOutside h (by simp)]
  rfl

/-- Arguments with commas between them are read as the pieces. -/
theorem readPieces?_flatMap {piece : List Char} {more : List (List Char)}
    (h : ∀ p ∈ piece :: more, IsArgument p) (rest : List Char) :
    readPieces? outside [] (piece ++ (more.flatMap (',' :: ·) ++ ')' :: rest)) =
      some (piece :: more, rest) := by
  induction more generalizing piece with
  | nil =>
    obtain ⟨r, hthrough, houtside⟩ := h piece List.mem_cons_self
    rw [readPieces?_append hthrough, List.flatMap_nil, List.nil_append,
      readPieces?_parenthesis houtside]
    simp
  | cons second others ih =>
    obtain ⟨⟨r, hthrough, houtside⟩, hmore⟩ := List.forall_mem_cons.1 h
    rw [readPieces?_append hthrough, List.flatMap_cons, List.cons_append, List.cons_append,
      readPieces?_comma houtside, List.append_assoc, ih hmore]
    simp

/-- What is read is a text of arguments with commas between them, up to a parenthesis. -/
theorem exists_of_readPieces? {r : Reading} {read text : List Char} {pieces : List (List Char)}
    {rest : List Char} (hread : outside.through? read.reverse = some r)
    (h : readPieces? r read text = some (pieces, rest)) :
    ∃ piece more, pieces = piece :: more ∧ (∀ p ∈ piece :: more, IsArgument p) ∧
      read.reverse ++ text = piece ++ (more.flatMap (',' :: ·) ++ ')' :: rest) := by
  induction text generalizing r read pieces with
  | nil => cases h
  | cons c text ih =>
    rw [readPieces?] at h
    cases hnext : r.next? c with
    | some r' =>
      simp only [hnext] at h
      have hread' : outside.through? (c :: read).reverse = some r' := by
        rw [List.reverse_cons, Reading.through?_append hread, Reading.through?, List.foldlM_cons,
          hnext]
        rfl
      simpa using ih hread' h
    | none =>
      have hfirst : IsArgument read.reverse :=
        ⟨r, hread, Reading.isOutside_of_next?_eq_none hnext⟩
      simp only [hnext] at h
      split_ifs at h with hcomma hparenthesis
      · obtain ⟨⟨found, behind⟩, hmore, heq⟩ := Option.map_eq_some_iff.1 h
        cases heq
        obtain ⟨second, others, rfl, hothers, htext⟩ := ih rfl hmore
        refine ⟨read.reverse, second :: others, rfl,
          List.forall_mem_cons.2 ⟨hfirst, hothers⟩, ?_⟩
        rw [List.reverse_nil, List.nil_append] at htext
        rw [hcomma, htext]
        simp
      · cases h
        refine ⟨read.reverse, [], rfl, List.forall_mem_singleton.2 hfirst, ?_⟩
        rw [hparenthesis]
        rfl

/-! ### Arguments joined -/

/-- A text without the blank at its beginning. -/
def withoutBlank : List Char → List Char
  | ' ' :: rest => rest
  | cs => cs

/-- The arguments up to the closing parenthesis, each but the first without the blank in front of
it, and what is behind the parenthesis. -/
def readArguments? (text : String) : Option (List String × String) :=
  match readPieces? outside [] text.toList with
  | some (piece :: more, rest) =>
    some ((piece :: more.map withoutBlank).map String.ofList, String.ofList rest)
  | _ => none

theorem isArgument_blank {cs : List Char} : IsArgument (' ' :: cs) ↔ IsArgument cs := Iff.rfl

theorem isArgument_withoutBlank {cs : List Char} (h : IsArgument cs) :
    IsArgument (withoutBlank cs) := by
  unfold withoutBlank
  split
  · exact isArgument_blank.1 h
  · exact h

theorem readArguments?_eq_some_iff {text rest : String} {args : List String} :
    readArguments? text = some (args, rest) ↔
      ∃ piece more, (∀ p ∈ piece :: more, IsArgument p) ∧
        args.map String.toList = piece :: more.map withoutBlank ∧
        text.toList = piece ++ (more.flatMap (',' :: ·) ++ ')' :: rest.toList) := by
  constructor
  · intro h
    unfold readArguments? at h
    split at h
    · next first others behind hread =>
      obtain ⟨piece, more, heq, hargs, htext⟩ := exists_of_readPieces? rfl hread
      cases heq
      cases h
      exact ⟨first, others, hargs, by simp [Function.comp_def], by simpa using htext⟩
    · cases h
  · rintro ⟨piece, more, hargs, heq, htext⟩
    rw [readArguments?, htext, readPieces?_flatMap hargs]
    simp only [← heq]
    simp

/-- A text is one argument exactly if it is read as one on its own. -/
theorem isArgument_iff_read {arg : String} :
    IsArgument arg.toList ↔ readArguments? (arg ++ ")") = some ([arg], "") := by
  rw [readArguments?_eq_some_iff]
  constructor
  · intro h
    exact ⟨arg.toList, [], List.forall_mem_singleton.2 h, rfl, by simp⟩
  · rintro ⟨piece, more, hargs, heq, -⟩
    obtain ⟨hpiece, -⟩ := List.cons.inj heq
    rw [hpiece]
    exact hargs piece List.mem_cons_self

theorem intercalate_cons {α : Type} (between first : List α) (others : List (List α)) :
    between.intercalate (first :: others) = first ++ others.flatMap (between ++ ·) := by
  induction others generalizing first with
  | nil => simp
  | cons second others ih => rw [List.intercalate_cons_cons, ih, List.flatMap_cons]; simp

/-- What a text is read as on its own, with nothing behind the parenthesis. -/
theorem exists_of_read_alone {arg : String} {pieces : List String}
    (h : readArguments? (arg ++ ")") = some (pieces, "")) :
    ∃ piece others, (∀ p ∈ piece :: others, IsArgument p) ∧
      pieces.map String.toList = piece :: others.map withoutBlank ∧
      arg.toList = piece ++ others.flatMap (',' :: ·) := by
  obtain ⟨piece, others, hargs, heq, htext⟩ := readArguments?_eq_some_iff.1 h
  exact ⟨piece, others, hargs, heq, by simpa [← List.append_assoc] using htext⟩

/-- Texts that are joined behind another one are read piece by piece. -/
theorem exists_of_read_behind {args : List String} {read : List (List String)}
    (h : List.Forall₂ (fun arg pieces => readArguments? (arg ++ ")") = some (pieces, "")) args
      read) :
    ∃ more : List (List Char), (∀ p ∈ more, IsArgument p) ∧
      read.flatten.map String.toList = more.map withoutBlank ∧
      args.flatMap (fun arg => ',' :: ' ' :: arg.toList) = more.flatMap (',' :: ·) := by
  induction h with
  | nil => exact ⟨[], by simp, rfl, rfl⟩
  | cons hread _ ih =>
    obtain ⟨piece, others, hargs, heq, harg⟩ := exists_of_read_alone hread
    obtain ⟨more, hmore, hflatten, hflatMap⟩ := ih
    obtain ⟨hpiece, hothers⟩ := List.forall_mem_cons.1 hargs
    refine ⟨(' ' :: piece) :: (others ++ more), ?_, ?_, ?_⟩
    · exact List.forall_mem_cons.2
        ⟨isArgument_blank.2 hpiece, List.forall_mem_append.2 ⟨hothers, hmore⟩⟩
    · rw [List.flatten_cons, List.map_append, heq, hflatten]
      simp [withoutBlank]
    · rw [List.flatMap_cons, harg, hflatMap]
      simp

/-- Arguments that are joined are read one by one, each as the pieces it is read as on its own. -/
theorem readArguments?_intercalate {args : List String} {read : List (List String)}
    (hne : args ≠ [])
    (h : List.Forall₂ (fun arg pieces => readArguments? (arg ++ ")") = some (pieces, "")) args
      read) (rest : String) :
    readArguments? (", ".intercalate args ++ ")" ++ rest) = some (read.flatten, rest) := by
  cases h with
  | nil => exact absurd rfl hne
  | cons hread hbehind =>
    obtain ⟨piece, others, hargs, heq, harg⟩ := exists_of_read_alone hread
    obtain ⟨more, hmore, hflatten, hflatMap⟩ := exists_of_read_behind hbehind
    obtain ⟨hpiece, hothers⟩ := List.forall_mem_cons.1 hargs
    refine readArguments?_eq_some_iff.2 ⟨piece, others ++ more, ?_, ?_, ?_⟩
    · exact List.forall_mem_cons.2 ⟨hpiece, List.forall_mem_append.2 ⟨hothers, hmore⟩⟩
    · rw [List.flatten_cons, List.map_append, heq, hflatten]
      simp
    · rw [String.toList_append, String.toList_append, String.toList_intercalate, List.map_cons,
        intercalate_cons, List.flatMap_map]
      simp [harg, ← hflatMap]

/-- Arguments that are joined are read back exactly if each of them is a text of one argument. -/
theorem readArguments?_intercalate_iff {args : List String} (hne : args ≠ []) (rest : String) :
    readArguments? (", ".intercalate args ++ ")" ++ rest) = some (args, rest) ↔
      ∀ arg ∈ args, IsArgument arg.toList := by
  constructor
  · intro h arg harg
    obtain ⟨piece, more, hargs, heq, -⟩ := readArguments?_eq_some_iff.1 h
    obtain ⟨hpiece, hmore⟩ := List.forall_mem_cons.1 hargs
    have hmem : arg.toList ∈ piece :: more.map withoutBlank :=
      heq ▸ List.mem_map_of_mem harg
    rcases List.mem_cons.1 hmem with hfirst | hothers
    · rw [hfirst]
      exact hpiece
    · obtain ⟨spaced, hspaced, heq⟩ := List.mem_map.1 hothers
      rw [← heq]
      exact isArgument_withoutBlank (hmore spaced hspaced)
  · intro h
    have hread : List.Forall₂
        (fun arg pieces => readArguments? (arg ++ ")") = some (pieces, "")) args
        (args.map fun arg => [arg]) := by
      refine List.forall₂_map_right_iff.2 (List.forall₂_same.2 fun arg harg => ?_)
      exact isArgument_iff_read.1 (h arg harg)
    rw [readArguments?_intercalate hne hread]
    simp [← List.flatMap_def]

end TsxLint.Text
