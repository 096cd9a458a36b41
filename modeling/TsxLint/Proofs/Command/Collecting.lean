/-
Module: TsxLint.Proofs.Command.Collecting
Purpose: Which files paths stand for, and when the order of the paths does not matter.
Main exports: Shell.filesAt, Shell.Apart, Shell.filesAt_eq_flatMap, Shell.filesAt_perm
-/
import Mathlib.Data.List.Perm.Basic
import TsxLint.Proofs.Command.Survey

namespace TsxLint.Shell

/-!
Files are collected path by path, and a file that is listed already is passed over.  So the order of
the paths may decide under which name a file is listed, but only if two of them lead to it.  Where
no file is reached from two paths, each path adds its own files whatever was listed before, and
another order of the paths only puts the files in another order (`Shell.filesAt_perm`).
-/

/-- The files that a path leads to, as far as it can be looked at. -/
def reached (w : Workspace) (raw : String) : List SourceEntry :=
  (candidates w (FilePath.parse raw)).getD []

/-- The files that are listed when paths are gone through, behind those that are listed already. -/
def filesAt (w : Workspace) (known : List SourceEntry) (paths : List String) : List SourceEntry :=
  paths.foldl (fun known raw => addNew known (reached w raw)) known

/-- Different files. -/
def NoneShared (xs ys : List SourceEntry) : Prop := ∀ x ∈ xs, ∀ y ∈ ys, x.parts ≠ y.parts

theorem NoneShared.symm {xs ys : List SourceEntry} (h : NoneShared xs ys) : NoneShared ys xs :=
  fun y hy x hx heq => h x hx y hy heq.symm

/-- No file is reached from two of the paths. -/
def Apart (w : Workspace) (paths : List String) : Prop :=
  paths.Pairwise fun a b => NoneShared (reached w a) (reached w b)

section

variable {w : Workspace} {known found : List SourceEntry} {paths paths' : List String}

/-! ### Adding the files of a path -/

theorem mem_of_mem_addNew {entry : SourceEntry} (h : entry ∈ addNew known found) :
    entry ∈ known ∨ entry ∈ found := by
  induction found generalizing known with
  | nil => exact .inl h
  | cons first rest ih =>
    change entry ∈ addNew
      (if known.any fun other => other.parts == first.parts then known else known ++ [first])
      rest at h
    rcases ih h with h | h
    · split at h
      · exact .inl h
      · rcases List.mem_append.1 h with h | h
        · exact .inl h
        · exact .inr (List.mem_singleton.1 h ▸ List.mem_cons_self)
    · exact .inr (List.mem_cons_of_mem first h)

/-- Files that are listed already make no difference to different ones. -/
theorem addNew_append (later : List SourceEntry) (h : NoneShared known found) :
    addNew (known ++ later) found = known ++ addNew later found := by
  induction found generalizing later with
  | nil => rfl
  | cons first rest ih =>
    have hrest : NoneShared known rest := fun x hx y hy => h x hx y (List.mem_cons_of_mem first hy)
    have hnone : known.any (fun other => other.parts == first.parts) = false := by
      refine List.any_eq_false.2 fun x hx => ?_
      simpa using h x hx first List.mem_cons_self
    unfold addNew at ih ⊢
    rw [List.foldl_cons, List.foldl_cons]
    rw [List.any_append, hnone, Bool.false_or]
    split
    · exact ih later hrest
    · rw [List.append_assoc, ih _ hrest]

theorem addNew_eq_append (h : NoneShared known found) :
    addNew known found = known ++ addNew [] found := by
  have happend := addNew_append [] h
  rwa [List.append_nil] at happend

/-! ### Going through paths -/

theorem Apart.perm (h : Apart w paths) (hperm : paths'.Perm paths) : Apart w paths' :=
  (hperm.pairwise_iff fun hxy => hxy.symm).2 h

/-- Paths that lead to different files add their files one after the other. -/
theorem filesAt_eq_append (happart : Apart w paths)
    (hknown : ∀ raw ∈ paths, NoneShared known (reached w raw)) :
    filesAt w known paths = known ++ paths.flatMap fun raw => addNew [] (reached w raw) := by
  induction paths generalizing known with
  | nil => exact (List.append_nil known).symm
  | cons raw rest ih =>
    obtain ⟨hraw, hrest⟩ := List.pairwise_cons.1 happart
    obtain ⟨hfirst, hlater⟩ := List.forall_mem_cons.1 hknown
    have hnext : ∀ other ∈ rest, NoneShared (addNew known (reached w raw)) (reached w other) := by
      intro other hother entry hentry
      rcases mem_of_mem_addNew hentry with hentry | hentry
      · exact hlater other hother entry hentry
      · exact hraw other hother entry hentry
    change filesAt w (addNew known (reached w raw)) rest = _
    rw [ih hrest hnext, addNew_eq_append hfirst, List.append_assoc, List.flatMap_cons]

theorem filesAt_eq_flatMap (h : Apart w paths) :
    filesAt w [] paths = paths.flatMap fun raw => addNew [] (reached w raw) :=
  filesAt_eq_append h fun _ _ _ hentry => absurd hentry List.not_mem_nil

/-- Where no file is reached from two paths, paths in another order stand for the same files in
another order. -/
theorem filesAt_perm (h : Apart w paths) (hperm : paths'.Perm paths) :
    (filesAt w [] paths').Perm (filesAt w [] paths) := by
  rw [filesAt_eq_flatMap h, filesAt_eq_flatMap (h.perm hperm)]
  exact hperm.flatMap_right _

end

end TsxLint.Shell
