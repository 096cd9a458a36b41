/-
Module: TsxLint.Proofs.Command.Workspace
Purpose: What writing files and opening log files leaves as it is in a workspace.
Main exports: Workspace.SameFiles, Workspace.Grows, Workspace.sameFiles_write,
  Workspace.grows_of_openLog, Workspace.openLog_again
-/
import TsxLint.Proofs.Command.Paths

namespace TsxLint.Workspace

/-!
Writing a file that is there keeps the paths of all files, so everything but the data of that file
is seen as before (`Workspace.SameFiles`).  Opening a log file may add a file, but only in a
directory that is there and where nothing is: what a path leads to stays as it is, except that the
log file is there afterwards (`Workspace.Grows`).
-/

variable {w w' : Workspace} {parts other : List String} {data : ByteArray}

/-- The paths of the files of a workspace. -/
def places (w : Workspace) : List (List String) := w.files.map (·.1)

/-- The same files, of which the data may differ. -/
structure SameFiles (w w' : Workspace) : Prop where
  path : w'.path = w.path
  places : w'.places = w.places
  user : w'.userSettings = w.userSettings

/-- All files and directories that there were, and no other directories. -/
structure Grows (w w' : Workspace) : Prop where
  path : w'.path = w.path
  isDirectory : ∀ parts, w'.isDirectory parts = w.isDirectory parts
  file : ∀ parts, (w.read? parts).isSome = true → (w'.read? parts).isSome = true

/-! ### What depends on paths only -/

theorem isSome_read?_iff : (w.read? parts).isSome = true ↔ parts ∈ w.places := by
  unfold read? places
  rw [Option.isSome_map, List.find?_isSome, List.mem_map]
  simp only [beq_iff_eq]

theorem isDirectory_eq (w : Workspace) (parts : List String) :
    w.isDirectory parts =
      (parts.isEmpty || w.places.any fun place =>
        parts.isPrefixOf place && decide (parts.length < place.length)) := by
  unfold isDirectory places
  rw [List.any_map]
  rfl

theorem walk_eq (w : Workspace) (parts : List String) :
    w.walk parts =
      ((w.places.filter fun place =>
          parts.isPrefixOf place && decide (parts.length < place.length)).map
        (List.drop parts.length)).mergeSort fun a b => !decide (b < a) := by
  unfold walk places
  rw [List.filter_map, List.map_map]
  rfl

/-- Where a path leads depends on the working directory and on the directories. -/
theorem Grows.follow (h : Grows w w') (path : String) : w'.follow path = w.follow path := by
  have hdescend : w'.descend = w.descend := by
    funext place part
    unfold descend
    cases place with
    | none => rfl
    | some parts =>
      dsimp only
      rw [h.isDirectory]
  unfold Workspace.follow relativePieces
  rw [hdescend, h.path]

theorem Grows.trans {w'' : Workspace} (h : Grows w w') (h' : Grows w' w'') : Grows w w'' where
  path := h'.path.trans h.path
  isDirectory parts := (h'.isDirectory parts).trans (h.isDirectory parts)
  file parts hfile := h'.file parts (h.file parts hfile)

theorem kindOf_of_follow {path : String} (h : w.follow path = some parts) :
    w.kindOf path =
      if (w.read? parts).isSome then some .file
      else if w.isDirectory parts then some .directory else none := by
  unfold kindOf
  rw [h]

theorem exists_follow_of_kindOf {path : String} (h : (w.kindOf path).isSome = true) :
    ∃ parts, w.follow path = some parts := by
  cases hfollow : w.follow path with
  | none =>
    rw [kindOf, hfollow] at h
    cases h
  | some parts => exact ⟨parts, rfl⟩

theorem kindOf_eq_file_iff {path : String} :
    w.kindOf path = some .file ↔
      ∃ parts, w.follow path = some parts ∧ (w.read? parts).isSome = true := by
  unfold kindOf
  cases w.follow path with
  | none => simp
  | some parts =>
    simp only [Option.some.injEq, exists_eq_left']
    cases (w.read? parts).isSome <;> cases w.isDirectory parts <;> decide

theorem kindOf_eq_directory_iff {path : String} :
    w.kindOf path = some .directory ↔
      ∃ parts, w.follow path = some parts ∧ ¬ (w.read? parts).isSome = true ∧
        w.isDirectory parts = true := by
  unfold kindOf
  cases w.follow path with
  | none => simp
  | some parts =>
    simp only [Option.some.injEq, exists_eq_left']
    cases (w.read? parts).isSome <;> cases w.isDirectory parts <;> decide

namespace Grows

theorem kindOf_file (h : Grows w w') {path : String} (hfile : w.kindOf path = some .file) :
    w'.kindOf path = some .file := by
  obtain ⟨parts, hfollow, hread⟩ := kindOf_eq_file_iff.1 hfile
  exact kindOf_eq_file_iff.2 ⟨parts, (h.follow path).trans hfollow, h.file parts hread⟩

/-- What is a directory afterwards was one before. -/
theorem kindOf_directory (h : Grows w w') {path : String}
    (hdirectory : w'.kindOf path = some .directory) : w.kindOf path = some .directory := by
  obtain ⟨parts, hfollow, hread, hparts⟩ := kindOf_eq_directory_iff.1 hdirectory
  exact kindOf_eq_directory_iff.2
    ⟨parts, (h.follow path).symm.trans hfollow, mt (h.file parts) hread,
      (h.isDirectory parts).symm.trans hparts⟩

theorem isSome_kindOf (h : Grows w w') {path : String} (hsome : (w.kindOf path).isSome = true) :
    (w'.kindOf path).isSome = true := by
  cases hkind : w.kindOf path with
  | none =>
    rw [hkind] at hsome
    cases hsome
  | some kind =>
    cases kind with
    | file => rw [h.kindOf_file hkind, Option.isSome_some]
    | directory =>
      obtain ⟨parts, hfollow, -, hparts⟩ := kindOf_eq_directory_iff.1 hkind
      rw [kindOf_of_follow ((h.follow path).trans hfollow), h.isDirectory, if_pos hparts]
      split <;> rfl

/-- What is read at a path depends on the data of files. -/
theorem getD_readAt (h : Grows w w')
    (hdata : ∀ parts, (w'.read? parts).getD ByteArray.empty = (w.read? parts).getD ByteArray.empty)
    (path : String) :
    (w'.readAt path).getD ByteArray.empty = (w.readAt path).getD ByteArray.empty := by
  unfold readAt
  rw [h.follow]
  cases w.follow path with
  | none => rfl
  | some parts => exact hdata parts

end Grows

namespace SameFiles

theorem refl (w : Workspace) : SameFiles w w := ⟨rfl, rfl, rfl⟩

theorem trans {w'' : Workspace} (h : SameFiles w w') (h' : SameFiles w' w'') : SameFiles w w'' :=
  ⟨h'.path.trans h.path, h'.places.trans h.places, h'.user.trans h.user⟩

theorem isSome_read? (h : SameFiles w w') (parts : List String) :
    (w'.read? parts).isSome = (w.read? parts).isSome := by
  rw [Bool.eq_iff_iff, isSome_read?_iff, isSome_read?_iff, h.places]

theorem isDirectory (h : SameFiles w w') (parts : List String) :
    w'.isDirectory parts = w.isDirectory parts := by
  rw [isDirectory_eq, isDirectory_eq, h.places]

theorem grows (h : SameFiles w w') : Grows w w' where
  path := h.path
  isDirectory := h.isDirectory
  file parts hfile := (h.isSome_read? parts).trans hfile

theorem walk (h : SameFiles w w') (parts : List String) : w'.walk parts = w.walk parts := by
  rw [walk_eq, walk_eq, h.places]

theorem kindOf (h : SameFiles w w') (path : String) : w'.kindOf path = w.kindOf path := by
  unfold Workspace.kindOf
  simp only [h.grows.follow, h.isSome_read?, h.isDirectory]

/-- What there is at a path stays as it is where the data stay. -/
theorem contentAt (h : SameFiles w w') (hdata : w'.read? parts = w.read? parts) :
    w'.contentAt parts = w.contentAt parts := by
  unfold Workspace.contentAt
  rw [hdata, h.isDirectory]

end SameFiles

/-! ### Writing a file that is there -/

/-- A list of files is written to entry by entry, and each entry keeps its path. -/
theorem fst_overwritten (entry : List String × ByteArray) :
    (if entry.1 == parts then (parts, data) else entry).1 = entry.1 := by
  by_cases hentry : (entry.1 == parts) = true
  · rw [if_pos hentry]
    exact (eq_of_beq hentry).symm
  · rw [if_neg hentry]

theorem places_write (h : (w.read? parts).isSome = true) (data : ByteArray) :
    (w.write parts data).places = w.places := by
  unfold write places
  rw [if_pos h, List.map_map]
  refine List.map_congr_left fun entry _ => ?_
  exact fst_overwritten entry

theorem sameFiles_write (h : (w.read? parts).isSome = true) (data : ByteArray) :
    SameFiles w (w.write parts data) := by
  refine ⟨?_, places_write h data, ?_⟩
  · rw [write, if_pos h]
  · rw [write, if_pos h]

/-- After writing a file that is there, it holds what was written, and other files what they held
before. -/
theorem read?_write (h : (w.read? parts).isSome = true) (data : ByteArray) (other : List String) :
    (w.write parts data).read? other = if other = parts then some data else w.read? other := by
  have hkeeps : ((fun entry : List String × ByteArray => entry.1 == other) ∘ fun entry =>
      if entry.1 == parts then (parts, data) else entry) = fun entry => entry.1 == other := by
    funext entry
    exact congrArg (· == other) (fst_overwritten entry)
  rw [write, if_pos h]
  unfold read?
  rw [List.find?_map, hkeeps]
  cases hfound : w.files.find? fun entry => entry.1 == other with
  | none =>
    by_cases hother : other = parts
    · rw [read?, ← hother, hfound] at h
      cases h
    · rw [if_neg hother]
      rfl
  | some entry =>
    have hentry : (entry.1 == other) = true := by
      simpa using List.find?_some hfound
    obtain rfl := eq_of_beq hentry
    by_cases hother : entry.1 = parts
    · simp [hother]
    · simp [hother]

/-! ### Opening a log file -/

/-- Opening a log file changes nothing, or it adds a file in a directory that is there, at a place
where nothing is. -/
theorem openLog_eq_ok {path : String} (h : w.openLog path = .ok w') :
    w' = w ∨
      ∃ parts, w.read? parts = none ∧ w.isDirectory parts = false ∧
        w.isDirectory parts.dropLast = true ∧
          w' = { w with files := w.files ++ [(parts, ByteArray.empty)] } := by
  unfold openLog at h
  cases hplace : logPlace w.path (FilePath.parse path) with
  | none =>
    rw [hplace] at h
    cases h
  | some parts =>
    rw [hplace] at h
    dsimp only at h
    by_cases hfile : (w.read? parts).isSome = true
    · rw [if_pos hfile] at h
      cases h
      exact .inl rfl
    · rw [if_neg hfile] at h
      by_cases hbad : (w.isDirectory parts || !w.isDirectory parts.dropLast) = true
      · rw [if_pos hbad] at h
        cases h
      · rw [if_neg hbad] at h
        obtain ⟨hparts, hbelow⟩ := Bool.or_eq_false_iff.1 (Bool.eq_false_iff.2 hbad)
        rw [write, if_neg hfile] at h
        cases h
        exact .inr ⟨parts, Option.not_isSome_iff_eq_none.1 hfile, hparts,
          by simpa using hbelow, rfl⟩

/-- Adding a file keeps what files hold. -/
theorem read?_append (h : w.read? other = some data) (entry : List String × ByteArray) :
    { w with files := w.files ++ [entry] }.read? other = some data := by
  unfold read? at h ⊢
  obtain ⟨found, hfound, hdata⟩ := Option.map_eq_some_iff.1 h
  rw [List.find?_append, hfound]
  exact congrArg some hdata

theorem isDirectory_of_append (h : w.isDirectory (parts ++ other) = true) :
    w.isDirectory parts = true := by
  rw [isDirectory_eq, Bool.or_eq_true] at h ⊢
  rcases h with hempty | hany
  · exact .inl (List.isEmpty_iff.2 (List.append_eq_nil_iff.1 (List.isEmpty_iff.1 hempty)).1)
  · refine .inr (List.any_eq_true.2 ?_)
    obtain ⟨place, hplace, hbelow⟩ := List.any_eq_true.1 hany
    obtain ⟨hbegins, hlength⟩ := Bool.and_eq_true_iff.1 hbelow
    have hlonger := of_decide_eq_true hlength
    rw [List.length_append] at hlonger
    refine ⟨place, hplace, Bool.and_eq_true_iff.2 ⟨?_, decide_eq_true (by omega)⟩⟩
    exact List.isPrefixOf_iff_prefix.2
      ((List.prefix_append parts other).trans (List.isPrefixOf_iff_prefix.1 hbegins))

/-- A file that is added in a directory makes no other directories. -/
theorem isDirectory_append (h : w.isDirectory parts.dropLast = true) (other : List String) :
    { w with files := w.files ++ [(parts, data)] }.isDirectory other = w.isDirectory other := by
  have habove (hbegins : other.isPrefixOf parts = true) (hlength : other.length < parts.length) :
      w.isDirectory other = true := by
    obtain ⟨rest, rfl⟩ := List.isPrefixOf_iff_prefix.1 hbegins
    have hrest : rest ≠ [] := by
      rintro rfl
      simp at hlength
    rw [List.dropLast_append_of_ne_nil hrest] at h
    exact isDirectory_of_append h
  unfold isDirectory at habove ⊢
  dsimp only at habove ⊢
  rw [List.any_append]
  cases hnew : other.isPrefixOf parts && decide (other.length < parts.length) with
  | false => simp [hnew]
  | true =>
    obtain ⟨hbegins, hlength⟩ := Bool.and_eq_true_iff.1 hnew
    rw [habove hbegins (of_decide_eq_true hlength), ← Bool.or_assoc,
      habove hbegins (of_decide_eq_true hlength), Bool.true_or]

theorem grows_of_openLog {path : String} (h : w.openLog path = .ok w') : Grows w w' := by
  rcases openLog_eq_ok h with rfl | ⟨parts, -, -, habove, rfl⟩
  · exact (SameFiles.refl _).grows
  · refine ⟨rfl, isDirectory_append habove, fun other hfile => ?_⟩
    obtain ⟨data, hdata⟩ := Option.isSome_iff_exists.1 hfile
    rw [read?_append hdata, Option.isSome_some]

/-- Opening a log file changes no data: a new log file is empty. -/
theorem getD_read?_of_openLog {path : String} (h : w.openLog path = .ok w')
    (parts : List String) :
    (w'.read? parts).getD ByteArray.empty = (w.read? parts).getD ByteArray.empty := by
  rcases openLog_eq_ok h with rfl | ⟨log, -, -, -, rfl⟩
  · rfl
  · cases hdata : w.read? parts with
    | some data => rw [read?_append hdata]
    | none =>
      unfold read? at hdata ⊢
      rw [List.find?_append, Option.map_eq_none_iff.1 hdata, Option.none_or, List.find?_singleton]
      split <;> rfl

/-- A log file that is there is opened without a change, whatever was written in the meantime. -/
theorem openLog_again {w'' : Workspace} {path : String} (h : w.openLog path = .ok w')
    (hsame : SameFiles w' w'') : w''.openLog path = .ok w'' := by
  have hpath : w''.path = w.path := hsame.path.trans (grows_of_openLog h).path
  unfold openLog at h ⊢
  rw [hpath]
  cases hplace : logPlace w.path (FilePath.parse path) with
  | none =>
    rw [hplace] at h
    cases h
  | some parts =>
    rw [hplace] at h
    dsimp only at h ⊢
    have hfile : (w'.read? parts).isSome = true := by
      by_cases hfile : (w.read? parts).isSome = true
      · rw [if_pos hfile] at h
        cases h
        exact hfile
      · rw [if_neg hfile] at h
        by_cases hbad : (w.isDirectory parts || !w.isDirectory parts.dropLast) = true
        · rw [if_pos hbad] at h
          cases h
        · rw [if_neg hbad, write, if_neg hfile] at h
          cases h
          refine isSome_read?_iff.2 ?_
          simp [places]
    rw [if_pos ((hsame.isSome_read? parts).trans hfile)]

end TsxLint.Workspace
