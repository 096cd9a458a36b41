/-
Module: TsxLint.Proofs.Command.Paths
Purpose: A path in normal form leads where the path as it was written leads.
Main exports: Text.splitAt_intercalate, FilePath.IsPart, Workspace.follow_text_parse
-/
import TsxLint.Command.Workspace
import Mathlib.Data.List.Basic

namespace TsxLint

/-!
Paths of a command line are looked up as they are written, and files are looked up by paths in
normal form.  Dropping empty parts and single points changes nothing for a path that leads
somewhere: following them stays in place.  In an absolute path the parts of the working directory
come first, and what is followed is what comes behind them.
-/

/-! ### Cutting and joining -/

namespace Text

variable {mark : Char}

theorem splitAt_ne_nil (mark : Char) (cs : List Char) : splitAt mark cs ≠ [] := by
  fun_induction splitAt mark cs with
  | case1 => exact List.cons_ne_nil _ _
  | case2 => exact List.cons_ne_nil _ _
  | case3 => exact List.cons_ne_nil _ _
  | case4 => exact List.cons_ne_nil _ _

theorem splitAt_mark (mark : Char) (rest : List Char) :
    splitAt mark (mark :: rest) = [] :: splitAt mark rest := by
  rw [splitAt]
  cases hrest : splitAt mark rest with
  | nil => exact absurd hrest (splitAt_ne_nil mark rest)
  | cons piece pieces => exact if_pos (beq_self_eq_true mark)

theorem splitAt_append {piece : List Char} (h : mark ∉ piece) {rest : List Char}
    {first : List Char} {pieces : List (List Char)} (hrest : splitAt mark rest = first :: pieces) :
    splitAt mark (piece ++ rest) = (piece ++ first) :: pieces := by
  induction piece with
  | nil => exact hrest
  | cons c cs ih =>
    obtain ⟨hc, hcs⟩ := not_or.1 (mt List.mem_cons.2 h)
    rw [List.cons_append, splitAt, ih hcs]
    exact if_neg (by simpa using Ne.symm hc)

theorem splitAt_of_not_mem {piece : List Char} (h : mark ∉ piece) :
    splitAt mark piece = [piece] := by
  have hsplit : splitAt mark (piece ++ []) = [piece ++ []] := splitAt_append h rfl
  rwa [List.append_nil] at hsplit

theorem splitAt_append_mark {piece : List Char} (h : mark ∉ piece) (rest : List Char) :
    splitAt mark (piece ++ mark :: rest) = piece :: splitAt mark rest := by
  rw [splitAt_append h (splitAt_mark mark rest), List.append_nil]

theorem not_mem_of_mem_splitAt {cs piece : List Char} (h : piece ∈ splitAt mark cs) :
    mark ∉ piece := by
  induction cs generalizing piece with
  | nil =>
    rw [List.mem_singleton.1 h]
    exact List.not_mem_nil
  | cons c rest ih =>
    rw [splitAt] at h
    cases hrest : splitAt mark rest with
    | nil => exact absurd hrest (splitAt_ne_nil mark rest)
    | cons first pieces =>
      rw [hrest] at ih h
      dsimp only at h
      by_cases hc : c = mark
      · rw [if_pos (beq_iff_eq.2 hc)] at h
        rcases List.mem_cons.1 h with rfl | h
        · exact List.not_mem_nil
        · exact ih h
      · rw [if_neg (by simpa using hc)] at h
        rcases List.mem_cons.1 h with rfl | h
        · exact List.not_mem_cons_of_ne_of_not_mem (Ne.symm hc) (ih List.mem_cons_self)
        · exact ih (List.mem_cons_of_mem _ h)

/-- Pieces without the mark come back when they are joined and cut again. -/
theorem splitAt_intercalate {pieces : List (List Char)} (hsome : pieces ≠ [])
    (h : ∀ piece ∈ pieces, mark ∉ piece) :
    splitAt mark ([mark].intercalate pieces) = pieces := by
  induction pieces with
  | nil => exact absurd rfl hsome
  | cons piece rest ih =>
    obtain ⟨hpiece, hrest⟩ := List.forall_mem_cons.1 h
    cases rest with
    | nil =>
      rw [List.intercalate_singleton]
      exact splitAt_of_not_mem hpiece
    | cons next others =>
      rw [List.intercalate_cons_cons, List.append_assoc]
      exact (splitAt_append_mark hpiece _).trans
        (congrArg _ (ih (List.cons_ne_nil _ _) hrest))

end Text

/-! ### Paths in normal form -/

namespace FilePath

/-- What a part of a path in normal form is like. -/
def IsPart (part : String) : Prop := part ≠ "" ∧ part ≠ "." ∧ '/' ∉ part.toList

/-- The pieces of a path as it is written. -/
def pieces (text : String) : List String := (Text.splitAt '/' text.toList).map String.ofList

/-- Whether reading a path keeps a piece. -/
def keeps (piece : String) : Bool := piece != "" && piece != "."

theorem keeps_eq_false_iff {piece : String} : keeps piece = false ↔ piece = "" ∨ piece = "." := by
  rw [keeps, Bool.and_eq_false_iff, bne_eq_false_iff_eq, bne_eq_false_iff_eq]

theorem parts_parse (raw : String) : (parse raw).parts = (pieces raw).filter keeps := rfl

theorem isPart_of_mem_parse {raw part : String} (h : part ∈ (parse raw).parts) : IsPart part := by
  rw [parts_parse] at h
  obtain ⟨hpiece, hkeeps⟩ := List.mem_filter.1 h
  obtain ⟨hsome, hpoint⟩ := Bool.and_eq_true_iff.1 hkeeps
  obtain ⟨cs, hcs, rfl⟩ := List.mem_map.1 hpiece
  refine ⟨bne_iff_ne.1 hsome, bne_iff_ne.1 hpoint, ?_⟩
  rw [String.toList_ofList]
  exact Text.not_mem_of_mem_splitAt hcs

theorem keeps_of_isPart {part : String} (h : IsPart part) : keeps part = true :=
  Bool.and_eq_true_iff.2 ⟨bne_iff_ne.2 h.1, bne_iff_ne.2 h.2.1⟩

/-- Parts in normal form are the pieces of the text they are joined to. -/
theorem pieces_intercalate {parts : List String} (hsome : parts ≠ [])
    (h : ∀ part ∈ parts, IsPart part) : pieces ("/".intercalate parts) = parts := by
  have hmarks : ∀ piece ∈ parts.map String.toList, '/' ∉ piece := by
    intro piece hpiece
    obtain ⟨part, hpart, rfl⟩ := List.mem_map.1 hpiece
    exact (h part hpart).2.2
  unfold pieces
  rw [String.toList_intercalate]
  refine (congrArg _ (Text.splitAt_intercalate (by simpa using hsome) hmarks)).trans ?_
  rw [List.map_map]
  exact (List.map_congr_left fun part _ => String.ofList_toList).trans (List.map_id _)

theorem pieces_slash_append (text : String) : pieces ("/" ++ text) = "" :: pieces text := by
  unfold pieces
  rw [String.toList_append]
  exact congrArg _ (Text.splitAt_mark '/' text.toList)

theorem exists_slash_append {text : String} (h : text.toList.head? = some '/') :
    ∃ rest, text = "/" ++ rest := by
  cases hchars : text.toList with
  | nil =>
    rw [hchars] at h
    cases h
  | cons c rest =>
    rw [hchars] at h
    cases h
    refine ⟨String.ofList rest, String.toList_injective ?_⟩
    simp [hchars]

theorem text_of_root {path : FilePath} (h : path.root ≠ "") :
    path.text = path.root ++ "/".intercalate path.parts :=
  if_neg fun hnone => h hnone.1

theorem root_parse (text : String) :
    (parse text).root =
      if (text.toList.takeWhile (· == '/')).length = 0 then ""
      else if (text.toList.takeWhile (· == '/')).length = 2 then "//" else "/" := rfl

theorem root_parse_of_relative {text : String} (h : text.toList.head? ≠ some '/') :
    (parse text).root = "" := by
  have hnone : text.toList.takeWhile (· == '/') = [] := by
    cases hchars : text.toList with
    | nil => rfl
    | cons c rest =>
      rw [hchars] at h
      exact List.takeWhile_cons_of_neg fun hc => h (congrArg some (eq_of_beq hc))
  rw [root_parse, hnone]
  rfl

/-- An absolute path has one slash as its root, or two if it begins with two. -/
theorem root_parse_slash_append (rest : String) :
    (parse ("/" ++ rest)).root = "/" ∨
      (parse ("/" ++ rest)).root = "//" ∧ ∃ more, rest = "/" ++ more := by
  have hchars : ("/" ++ rest).toList.takeWhile (· == '/') =
      '/' :: rest.toList.takeWhile (· == '/') := by
    rw [String.toList_append]
    exact List.takeWhile_cons_of_pos rfl
  rw [root_parse, hchars, if_neg (fun hzero => nomatch hzero)]
  by_cases htwo : ('/' :: rest.toList.takeWhile (· == '/')).length = 2
  · rw [if_pos htwo]
    refine .inr ⟨rfl, exists_slash_append ?_⟩
    cases hrest : rest.toList with
    | nil =>
      rw [hrest] at htwo
      cases htwo
    | cons c cs =>
      by_cases hc : (c == '/') = true
      · rw [eq_of_beq hc]
        rfl
      · have hnone : (c :: cs).takeWhile (· == '/') = [] := List.takeWhile_cons_of_neg hc
        rw [hrest, hnone] at htwo
        cases htwo
  · rw [if_neg htwo]
    exact .inl rfl

end FilePath

/-! ### Following -/

namespace Workspace

open FilePath (IsPart pieces keeps)

variable {w : Workspace} {place next : List String} {piece : String}

theorem foldl_descend_none (w : Workspace) (pieces : List String) :
    pieces.foldl w.descend none = none := by
  induction pieces with
  | nil => rfl
  | cons piece rest ih => exact ih

theorem descend_blank (hblank : keeps piece = false)
    (h : w.descend (some place) piece = some next) : next = place := by
  rw [descend] at h
  by_cases hdirectory : (!w.isDirectory place) = true
  · rw [if_pos hdirectory] at h
    cases h
  · rw [if_neg hdirectory, if_pos (FilePath.keeps_eq_false_iff.1 hblank)] at h
    exact (Option.some.inj h).symm

/-- In the working directory empty pieces and points lead nowhere else. -/
theorem descend_top (w : Workspace) (hblank : keeps piece = false) :
    w.descend (some []) piece = some [] := by
  have hdirectory : ¬ (!w.isDirectory []) = true := Bool.false_ne_true
  rw [descend, if_neg hdirectory, if_pos (FilePath.keeps_eq_false_iff.1 hblank)]

/-- A part that is a name leads to what is below by that name. -/
theorem descend_name (hpart : keeps piece = true) (hup : piece ≠ "..")
    (h : w.descend (some place) piece = some next) : next = place ++ [piece] := by
  have hpiece : ¬ (piece = "" ∨ piece = ".") := fun hblank => by
    rw [FilePath.keeps_eq_false_iff.2 hblank] at hpart
    cases hpart
  rw [descend] at h
  by_cases hdirectory : (!w.isDirectory place) = true
  · rw [if_pos hdirectory] at h
    cases h
  · rw [if_neg hdirectory, if_neg hpiece, if_neg hup] at h
    exact (Option.some.inj h).symm

/-- Pieces that reading drops are not needed to get somewhere. -/
theorem foldl_descend_filter {pieces : List String}
    (h : pieces.foldl w.descend (some place) = some next) :
    (pieces.filter keeps).foldl w.descend (some place) = some next := by
  induction pieces generalizing place with
  | nil => exact h
  | cons piece rest ih =>
    rw [List.foldl_cons] at h
    cases hstep : w.descend (some place) piece with
    | none =>
      rw [hstep, foldl_descend_none] at h
      cases h
    | some there =>
      rw [hstep] at h
      cases hkeeps : keeps piece with
      | true =>
        rw [List.filter_cons_of_pos hkeeps, List.foldl_cons, hstep]
        exact ih h
      | false =>
        rw [List.filter_cons_of_neg (by simp [hkeeps])]
        obtain rfl := descend_blank hkeeps hstep
        exact ih h

/-- From the working directory, joined parts lead where the parts lead. -/
theorem foldl_descend_intercalate (w : Workspace) {parts : List String}
    (h : ∀ part ∈ parts, IsPart part) :
    (pieces ("/".intercalate parts)).foldl w.descend (some []) =
      parts.foldl w.descend (some []) := by
  by_cases hnone : parts = []
  · rw [hnone]
    exact w.descend_top (FilePath.keeps_eq_false_iff.2 (.inl rfl))
  · rw [FilePath.pieces_intercalate hnone h]

/-! ### Relative and absolute paths -/

theorem relativePieces_relative {text : String} (hsome : text ≠ "")
    (hhead : text.toList.head? ≠ some '/') : w.relativePieces text = some (pieces text) := by
  unfold relativePieces
  dsimp only
  rw [if_neg hsome, if_neg hhead]
  rfl

theorem relativePieces_absolute (w : Workspace) (text : String) :
    w.relativePieces ("/" ++ text) =
      if w.path.parts.isPrefixOf (pieces text) then some ((pieces text).drop w.path.parts.length)
      else none := by
  have hsome : "/" ++ text ≠ "" := by simp
  have hhead : ("/" ++ text).toList.head? = some '/' := by simp
  have hpieces := FilePath.pieces_slash_append text
  unfold pieces at hpieces
  unfold relativePieces
  dsimp only
  rw [if_neg hsome, if_pos hhead, hpieces]
  rfl

theorem follow_relative {text : String} (hsome : text ≠ "")
    (hhead : text.toList.head? ≠ some '/') :
    w.follow text = (pieces text).foldl w.descend (some []) := by
  rw [follow, relativePieces_relative hsome hhead]

/-- An absolute path that leads somewhere begins with the working directory. -/
theorem exists_of_follow_absolute {text : String} (h : w.follow ("/" ++ text) = some place) :
    ∃ below, pieces text = w.path.parts ++ below ∧
      below.foldl w.descend (some []) = some place := by
  rw [follow, relativePieces_absolute] at h
  by_cases hbegins : w.path.parts.isPrefixOf (pieces text) = true
  · obtain ⟨below, hbelow⟩ := List.isPrefixOf_iff_prefix.1 hbegins
    rw [if_pos hbegins, ← hbelow, List.drop_left] at h
    exact ⟨below, hbelow.symm, h⟩
  · rw [if_neg hbegins] at h
    cases h

theorem follow_absolute {text : String} {below : List String}
    (h : pieces text = w.path.parts ++ below) :
    w.follow ("/" ++ text) = below.foldl w.descend (some []) := by
  have hbegins : w.path.parts.isPrefixOf (pieces text) = true :=
    List.isPrefixOf_iff_prefix.2 ⟨below, h.symm⟩
  rw [follow, relativePieces_absolute, if_pos hbegins, h, List.drop_left]

/-- Joined parts are a relative path. -/
theorem head?_intercalate {parts : List String} (h : ∀ part ∈ parts, IsPart part) :
    ("/".intercalate parts).toList.head? ≠ some '/' := by
  intro hhead
  obtain ⟨rest, hrest⟩ := FilePath.exists_slash_append hhead
  by_cases hnone : parts = []
  · rw [hnone] at hhead
    cases hhead
  · have hpieces := FilePath.pieces_intercalate hnone h
    rw [hrest, FilePath.pieces_slash_append] at hpieces
    rw [← hpieces] at h
    exact (h "" List.mem_cons_self).1 rfl

/-- From the root, parts below the working directory lead where they lead from there. -/
theorem follow_rooted {parts below : List String} (h : ∀ part ∈ parts, IsPart part)
    (hsplit : parts = w.path.parts ++ below) :
    w.follow ("/" ++ "/".intercalate parts) = below.foldl w.descend (some []) := by
  by_cases hnone : parts = []
  · -- nothing is below the root, which is the working directory
    obtain ⟨hcwd, hbelow⟩ := List.append_eq_nil_iff.1 (hsplit.symm.trans hnone)
    rw [follow_absolute (by rw [hcwd, List.nil_append]), foldl_descend_intercalate w h, hnone,
      hbelow]
  · exact follow_absolute ((FilePath.pieces_intercalate hnone h).trans hsplit)

/-- A root of two slashes leads somewhere only from the root. -/
theorem follow_double_rooted {parts : List String} (h : ∀ part ∈ parts, IsPart part)
    (hcwd : w.path.parts = []) :
    w.follow ("/" ++ ("/" ++ "/".intercalate parts)) = parts.foldl w.descend (some []) := by
  rw [follow_absolute (by rw [hcwd, List.nil_append]), FilePath.pieces_slash_append,
    List.foldl_cons, descend_top w (FilePath.keeps_eq_false_iff.2 (.inl rfl)),
    foldl_descend_intercalate w h]

/-- An absolute path that leads somewhere leads there in normal form, too, and its parts are those
of the working directory and more. -/
theorem follow_text_absolute (hnormal : ∀ part ∈ w.path.parts, IsPart part) {rest : String}
    (h : w.follow ("/" ++ rest) = some place) :
    w.follow (FilePath.parse ("/" ++ rest)).text = some place ∧
      ∃ below, (FilePath.parse ("/" ++ rest)).parts = w.path.parts ++ below ∧
        below.foldl w.descend (some []) = some place := by
  have hparts : ∀ part ∈ (FilePath.parse ("/" ++ rest)).parts, IsPart part :=
    fun _ => FilePath.isPart_of_mem_parse
  obtain ⟨behind, hpieces, hbehind⟩ := exists_of_follow_absolute h
  have hbelow := foldl_descend_filter hbehind
  have hsplit : (FilePath.parse ("/" ++ rest)).parts = w.path.parts ++ behind.filter keeps := by
    rw [FilePath.parts_parse, FilePath.pieces_slash_append, List.filter_cons_of_neg (by decide),
      hpieces, List.filter_append,
      List.filter_eq_self.2 fun part hpart => FilePath.keeps_of_isPart (hnormal part hpart)]
  refine ⟨?_, _, hsplit, hbelow⟩
  rcases FilePath.root_parse_slash_append rest with hroot | ⟨hroot, more, rfl⟩
  · rw [FilePath.text_of_root (by rw [hroot]; decide), hroot, follow_rooted hparts hsplit]
    exact hbelow
  · have hcwd : w.path.parts = [] := by
      rw [FilePath.pieces_slash_append] at hpieces
      cases hcwd : w.path.parts with
      | nil => rfl
      | cons part parts =>
        rw [hcwd] at hpieces hnormal
        exact absurd (List.cons.inj hpieces).1.symm (hnormal part List.mem_cons_self).1
    have hslashes : "//" = "/" ++ "/" := rfl
    rw [hcwd, List.nil_append] at hsplit
    rw [FilePath.text_of_root (by rw [hroot]; decide), hroot, hslashes, String.append_assoc,
      follow_double_rooted hparts hcwd, hsplit]
    exact hbelow

/-- A relative path that leads somewhere leads there in normal form, too, as its parts do. -/
theorem follow_text_relative {raw : String} (hhead : raw.toList.head? ≠ some '/')
    (h : w.follow raw = some place) :
    w.follow (FilePath.parse raw).text = some place ∧
      (FilePath.parse raw).parts.foldl w.descend (some []) = some place := by
  have hparts : ∀ part ∈ (FilePath.parse raw).parts, IsPart part :=
    fun _ => FilePath.isPart_of_mem_parse
  have hroot := FilePath.root_parse_of_relative hhead
  have hsome : raw ≠ "" := by
    rintro rfl
    cases h
  rw [follow_relative hsome hhead] at h
  have hbelow := foldl_descend_filter h
  rw [← FilePath.parts_parse] at hbelow
  refine ⟨?_, hbelow⟩
  by_cases hnone : (FilePath.parse raw).parts = []
  · have htext : (FilePath.parse raw).text = "." := if_pos ⟨hroot, hnone⟩
    rw [hnone] at hbelow
    rw [htext, ← hbelow]
    exact (follow_relative (by decide) (by decide)).trans
      (w.descend_top (FilePath.keeps_eq_false_iff.2 (.inr rfl)))
  · have htext : (FilePath.parse raw).text = "/".intercalate (FilePath.parse raw).parts := by
      rw [FilePath.text, hroot, if_neg fun h => hnone h.2, String.empty_append]
    have hjoined := FilePath.pieces_intercalate hnone hparts
    have hjoinedSome : "/".intercalate (FilePath.parse raw).parts ≠ "" := by
      intro hempty
      rw [hempty] at hjoined
      rw [← hjoined] at hparts
      exact (hparts "" List.mem_cons_self).1 rfl
    rw [htext, follow_relative hjoinedSome (head?_intercalate hparts), hjoined]
    exact hbelow

/-- A path that leads somewhere leads there in normal form, too, and all it takes are its last
parts. -/
theorem follow_text_parse (hnormal : ∀ part ∈ w.path.parts, IsPart part) {raw : String}
    (h : w.follow raw = some place) :
    w.follow (FilePath.parse raw).text = some place ∧
      ∃ above below, (FilePath.parse raw).parts = above ++ below ∧
        below.foldl w.descend (some []) = some place := by
  by_cases hhead : raw.toList.head? = some '/'
  · obtain ⟨rest, rfl⟩ := FilePath.exists_slash_append hhead
    obtain ⟨hfollow, below, hsplit, hbelow⟩ := follow_text_absolute hnormal h
    exact ⟨hfollow, _, below, hsplit, hbelow⟩
  · obtain ⟨hfollow, hbelow⟩ := follow_text_relative hhead h
    exact ⟨hfollow, [], _, rfl, hbelow⟩

end Workspace

end TsxLint
