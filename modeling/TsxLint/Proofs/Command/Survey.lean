/-
Module: TsxLint.Proofs.Command.Survey
Purpose: What commands that go through files find out before they look at one.
Main exports: Shell.survey, Shell.Alike, Shell.reads_survey, Shell.Listed, Shell.listed_of_survey
-/
import TsxLint.Proofs.Command.Shell
import TsxLint.Proofs.Command.Workspace

namespace TsxLint.Shell

/-!
Settings, rules and the list of files come first.  They depend on which files there are and on the
data of settings files only, so they are found again in any workspace that differs in the data of
other files.  The files of the list are there, are listed once, and have the name of a source file,
so none of them is one of the settings files that commands look for on their own.
-/

variable {σ : Type}

/-- What is known before a file is looked at. -/
structure Survey where
  loaded : LoadedSettings
  engine : Engine
  files : List SourceEntry

/-- What commands do before they look at files. -/
def survey (r : Reporter) (target : Target) (common : CommonOptions) : Shell σ Survey := do
  let loaded ← loadSettings r.quiet common
  let e ← buildEngine r loaded.settings target
  let files ← collect r target
  pure ⟨loaded, e, files⟩

/-- The same files, the same settings, and settings that are named explicitly are the same. -/
structure Alike (common : CommonOptions) (w w' : Workspace) : Prop where
  files : w.SameFiles w'
  layers : w'.layers = w.layers
  explicit : ∀ path, common.config = some path →
    Settings.loadExplicit ((w'.readAt path).getD ByteArray.empty) =
      Settings.loadExplicit ((w.readAt path).getD ByteArray.empty)

theorem Alike.refl (common : CommonOptions) (w : Workspace) : Alike common w w :=
  ⟨.refl w, rfl, fun _ _ => rfl⟩

/-! ### What is found again -/

section

variable {common : CommonOptions} {w w' : Workspace}

theorem reads_loadSettings (common : CommonOptions) (w : Workspace) (quiet : Bool) :
    Reads (Alike common w) (loadSettings quiet common : Shell σ LoadedSettings) := by
  have hlayers : Reads (Alike common w) (do
      let w ← workspace
      let loaded := Settings.load w.layers
      warn quiet (loaded.rejected.map fun r => .settingsRejected r.1 r.2)
      pure loaded : Shell σ LoadedSettings) :=
    Reads.workspace w (fun w' h => by rw [h.layers])
      ((Reads.warn _ _).bind fun _ => Reads.pure _)
  unfold loadSettings
  split
  · exact hlayers
  · exact hlayers
  · rename_i path _ hpath
    refine Reads.bind ?_ fun settings => Reads.pure _
    unfold explicitSettings
    refine Reads.workspace w (fun w' h => by rw [h.explicit path hpath]) ?_
    cases Settings.loadExplicit ((w.readAt path).getD ByteArray.empty) with
    | ok settings => exact Reads.pure _
    | error f => exact Reads.fail _

theorem reads_checkRules (P : Workspace → Prop) (r : Reporter) (e : Engine) (ids : List String) :
    Reads P (checkRules r e ids : Shell σ Unit) := by
  induction ids with
  | nil => exact Reads.pure _
  | cons id rest ih =>
    have henabled : Reads P (if (e.rule? id).isNone then do
        print (r.warning s!"Rule {id} is disabled by configuration")
        checkRules r e rest
      else checkRules r e rest : Shell σ Unit) := by
      split
      · exact (Reads.print _).bind fun _ => ih
      · exact ih
    unfold checkRules
    by_cases hunknown : (Catalog.find? id).isNone = true
    · exact if_pos hunknown ▸ (Reads.fail _).bind fun _ => henabled
    · exact if_neg hunknown ▸ henabled

theorem Alike.candidates (h : Alike common w w') (path : FilePath) :
    candidates w' path = candidates w path := by
  unfold Shell.candidates
  simp only [h.files.grows.follow, h.files.kindOf, h.files.walk]

theorem reads_collectFrom (common : CommonOptions) (w : Workspace) (r : Reporter)
    (known : List SourceEntry) (paths : List String) :
    Reads (Alike common w) (collectFrom r known paths : Shell σ (List SourceEntry)) := by
  induction paths generalizing known with
  | nil => exact Reads.pure _
  | cons raw rest ih =>
    unfold collectFrom
    refine Reads.workspace w (fun w' h => ?_) ?_
    · dsimp only
      rw [h.candidates]
    · dsimp only
      cases Shell.candidates w (FilePath.parse raw) with
      | some found => exact ih _
      | none => exact (Reads.print _).bind fun _ => ih known

theorem reads_survey (common : CommonOptions) (w : Workspace) (r : Reporter) (target : Target) :
    Reads (Alike common w) (survey r target common : Shell σ Survey) :=
  (reads_loadSettings common w r.quiet).bind fun _ =>
    ((reads_checkRules _ r _ target.rules).bind fun _ => Reads.pure _).bind fun _ =>
      (reads_collectFrom common w r [] target.paths).bind fun _ => Reads.pure _

end

/-! ### What is listed -/

/-- The last part of the path of a file is the name of a source file. -/
def IsSource (parts : List String) : Prop :=
  ∀ name, parts.getLast? = some name → (Language.ofPath? ⟨"", [name]⟩).isSome = true

/-- Files that are there, each once, with names of source files. -/
structure Listed (w : Workspace) (files : List SourceEntry) : Prop where
  distinct : (files.map (·.parts)).Nodup
  present : ∀ entry ∈ files, (w.read? entry.parts).isSome = true
  source : ∀ entry ∈ files, IsSource entry.parts

section

variable {w : Workspace} {known found : List SourceEntry}

theorem Listed.nil (w : Workspace) : Listed w [] :=
  ⟨.nil, fun _ hmem => (nomatch hmem), fun _ hmem => (nomatch hmem)⟩

theorem Listed.tail {entry : SourceEntry} {files : List SourceEntry}
    (h : Listed w (entry :: files)) : Listed w files :=
  ⟨(List.nodup_cons.1 h.distinct).2, fun other hother => h.present other (.tail _ hother),
    fun other hother => h.source other (.tail _ hother)⟩

/-- The same files are there where data were written. -/
theorem Listed.congr {w' : Workspace} {files : List SourceEntry} (h : Listed w files)
    (hsame : w.SameFiles w') : Listed w' files :=
  ⟨h.distinct, fun entry hentry => (hsame.isSome_read? _).trans (h.present entry hentry), h.source⟩

theorem Listed.addNew (h : Listed w known)
    (hpresent : ∀ entry ∈ found, (w.read? entry.parts).isSome = true)
    (hsource : ∀ entry ∈ found, IsSource entry.parts) : Listed w (addNew known found) := by
  unfold Shell.addNew
  induction found generalizing known with
  | nil => exact h
  | cons entry rest ih =>
    obtain ⟨hentry, hpresent⟩ := List.forall_mem_cons.1 hpresent
    obtain ⟨hname, hsource⟩ := List.forall_mem_cons.1 hsource
    refine ih ?_ hpresent hsource
    dsimp only
    by_cases hold : (known.any fun other => other.parts == entry.parts) = true
    · rw [if_pos hold]
      exact h
    · rw [if_neg hold]
      refine ⟨?_, ?_, ?_⟩
      · rw [List.map_append, List.nodup_append]
        refine ⟨h.distinct, List.pairwise_singleton _ _, ?_⟩
        rintro parts hparts other hother rfl
        obtain ⟨old, hmem, hsame⟩ := List.mem_map.1 hparts
        refine hold (List.any_eq_true.2 ⟨old, hmem, beq_iff_eq.2 ?_⟩)
        exact hsame.trans (List.mem_singleton.1 hother)
      · exact List.forall_mem_append.2 ⟨h.present, List.forall_mem_singleton.2 hentry⟩
      · exact List.forall_mem_append.2 ⟨h.source, List.forall_mem_singleton.2 hname⟩

/-- The language of a path is that of its last part. -/
theorem ofPath?_eq (path : FilePath) :
    Language.ofPath? path = Language.ofPath? ⟨"", [path.name]⟩ := rfl

/-- A file below a directory is a source file if its path below the directory is that of one. -/
theorem isSource_append {place parts : List String} (hsome : parts ≠ [])
    (h : (Language.ofPath? ⟨"", parts⟩).isSome = true) : IsSource (place ++ parts) := by
  intro name hname
  rw [List.getLast?_append_of_ne_nil _ hsome] at hname
  have hlast : FilePath.name ⟨"", parts⟩ = name := by
    rw [FilePath.name, List.getLastD_eq_getLast?, hname]
    rfl
  rw [← hlast, ← ofPath?_eq ⟨"", parts⟩]
  exact h

/-- A path with the name of a source file leads to one, or it leads to the working directory. -/
theorem isSource_of_foldl {path : FilePath} {above below place : List String}
    (hparts : ∀ part ∈ path.parts, FilePath.IsPart part) (hsplit : path.parts = above ++ below)
    (hplace : below.foldl w.descend (some []) = some place)
    (h : (Language.ofPath? path).isSome = true) : IsSource place := by
  rcases List.eq_nil_or_concat below with rfl | ⟨init, last, rfl⟩
  · cases hplace
    exact fun _ hname => (nomatch hname)
  · have hname : path.name = last := by
      rw [FilePath.name, hsplit, List.concat_eq_append, ← List.append_assoc,
        List.getLastD_eq_getLast?, List.getLast?_append]
      rfl
    have hup : last ≠ ".." := by
      rintro rfl
      rw [ofPath?_eq, hname] at h
      exact absurd h (by decide)
    have hlast : last ∈ path.parts := by
      rw [hsplit, List.concat_eq_append]
      simp
    rw [List.concat_eq_append, List.foldl_append] at hplace
    cases hinit : init.foldl w.descend (some []) with
    | none =>
      rw [hinit] at hplace
      cases hplace
    | some there =>
      rw [hinit] at hplace
      have hkeeps := FilePath.keeps_of_isPart (hparts last hlast)
      rw [Workspace.descend_name hkeeps hup hplace]
      refine isSource_append (List.cons_ne_nil _ _) ?_
      rw [← hname, ← ofPath?_eq]
      exact h

theorem mem_walk {place parts : List String} (h : parts ∈ w.walk place) :
    (w.read? (place ++ parts)).isSome = true ∧ parts ≠ [] := by
  rw [Workspace.walk_eq, List.mem_mergeSort] at h
  obtain ⟨whole, hwhole, rfl⟩ := List.mem_map.1 h
  obtain ⟨hmem, hbelow⟩ := List.mem_filter.1 hwhole
  obtain ⟨hbegins, hlength⟩ := Bool.and_eq_true_iff.1 hbelow
  obtain ⟨rest, rfl⟩ := List.isPrefixOf_iff_prefix.1 hbegins
  rw [List.drop_left]
  refine ⟨Workspace.isSome_read?_iff.2 hmem, ?_⟩
  rintro rfl
  rw [List.append_nil] at hlength
  exact absurd (of_decide_eq_true hlength) (Nat.lt_irrefl _)

/-- What a path that leads somewhere stands for is there, with names of source files. -/
theorem candidates_present (hnormal : ∀ part ∈ w.path.parts, FilePath.IsPart part) {raw : String}
    (hthere : (w.kindOf raw).isSome = true) {found : List SourceEntry}
    (h : candidates w (FilePath.parse raw) = some found) :
    ∀ entry ∈ found, (w.read? entry.parts).isSome = true ∧ IsSource entry.parts := by
  obtain ⟨place, hraw⟩ := Workspace.exists_follow_of_kindOf hthere
  obtain ⟨hfollow, above, below, hsplit, hbelow⟩ := Workspace.follow_text_parse hnormal hraw
  rw [Workspace.kindOf_of_follow hraw, ← Workspace.kindOf_of_follow hfollow] at hthere
  unfold candidates at h
  rw [hfollow] at h
  dsimp only [Option.getD_some] at h
  cases hkind : w.kindOf (FilePath.parse raw).text with
  | none =>
    rw [hkind] at hthere
    cases hthere
  | some kind =>
    cases kind with
    | directory =>
      rw [if_pos hkind] at h
      cases h
      intro entry hentry
      obtain ⟨parts, hparts, rfl⟩ := List.mem_map.1 hentry
      obtain ⟨hwalk, hcandidate⟩ := List.mem_filter.1 hparts
      obtain ⟨hread, hsome⟩ := mem_walk hwalk
      exact ⟨hread, isSource_append hsome (Bool.and_eq_true_iff.1 hcandidate).1⟩
    | file =>
      obtain ⟨parts, hparts, hread⟩ := Workspace.kindOf_eq_file_iff.1 hkind
      obtain rfl : place = parts := Option.some.inj (hfollow.symm.trans hparts)
      rw [if_neg (by rw [hkind]; decide)] at h
      by_cases hlanguage : (Language.ofPath? (FilePath.parse raw)).isSome = true
      · rw [if_pos hlanguage] at h
        cases h
        exact List.forall_mem_singleton.2 ⟨hread,
          isSource_of_foldl (fun _ => FilePath.isPart_of_mem_parse) hsplit hbelow hlanguage⟩
      · rw [if_neg hlanguage] at h
        cases h

theorem listed_of_collectFrom {r : Reporter} {paths : List String} {s s' : ShellState σ}
    {files : List SourceEntry} (hnormal : ∀ part ∈ s.workspace.path.parts, FilePath.IsPart part)
    (hthere : ∀ raw ∈ paths, (s.workspace.kindOf raw).isSome = true)
    (hknown : Listed s.workspace known)
    (h : (collectFrom r known paths).ends s = (.ok files, s')) : Listed s.workspace files := by
  induction paths generalizing known s with
  | nil =>
    cases h
    exact hknown
  | cons raw rest ih =>
    obtain ⟨hraw, hrest⟩ := List.forall_mem_cons.1 hthere
    unfold collectFrom at h
    rw [ends_bind_of_ok (ends_workspace s)] at h
    dsimp only at h
    cases hfound : candidates s.workspace (FilePath.parse raw) with
    | some found =>
      rw [hfound] at h
      have hpresent := candidates_present hnormal hraw hfound
      exact ih hnormal hrest
        (hknown.addNew (fun entry hentry => (hpresent entry hentry).1)
          fun entry hentry => (hpresent entry hentry).2) h
    | none =>
      rw [hfound] at h
      dsimp only at h
      rw [ends_bind_of_ok (ends_print _ _)] at h
      exact ih (s := s.said _) hnormal hrest hknown h

/-- The files of a survey are there, each once. -/
theorem listed_of_survey {r : Reporter} {target : Target} {common : CommonOptions}
    {s s' : ShellState σ} {found : Survey}
    (hnormal : ∀ part ∈ s.workspace.path.parts, FilePath.IsPart part)
    (hthere : ∀ raw ∈ target.paths, (s.workspace.kindOf raw).isSome = true)
    (h : (survey r target common).ends s = (.ok found, s')) : Listed s.workspace found.files := by
  have halike := Alike.refl common s.workspace
  obtain ⟨loaded, s₁, hloaded, h⟩ := exists_of_ends_bind_ok h
  have hworkspace₁ := (reads_loadSettings common s.workspace r.quiet).workspace_eq halike hloaded
  obtain ⟨e, s₂, hengine, h⟩ := exists_of_ends_bind_ok h
  have hreads : Reads (fun _ => True) (buildEngine r loaded.settings target : Shell σ Engine) :=
    (reads_checkRules _ r _ target.rules).bind fun _ => Reads.pure _
  have hworkspace₂ := (hreads.workspace_eq trivial hengine).trans hworkspace₁
  obtain ⟨files, s₃, hfiles, h⟩ := exists_of_ends_bind_ok h
  cases h
  rw [← hworkspace₂] at hnormal hthere ⊢
  exact listed_of_collectFrom hnormal hthere (.nil _) hfiles

/-- The rules of a survey are those of the catalog, under its settings. -/
theorem engine_of_survey {r : Reporter} {target : Target} {common : CommonOptions}
    {s s' : ShellState σ} {found : Survey}
    (h : (survey r target common).ends s = (.ok found, s')) :
    found.engine = Engine.ofSettings found.loaded.settings := by
  obtain ⟨loaded, s₁, -, h⟩ := exists_of_ends_bind_ok h
  obtain ⟨e, s₂, hengine, h⟩ := exists_of_ends_bind_ok h
  obtain ⟨_, s₃, -, hengine⟩ := exists_of_ends_bind_ok hengine
  obtain ⟨files, s₄, -, h⟩ := exists_of_ends_bind_ok h
  cases hengine
  cases h
  rfl

end

end TsxLint.Shell
