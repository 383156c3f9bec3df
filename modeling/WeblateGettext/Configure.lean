import Mathlib.Data.List.Infix
import WeblateGettext.Host

/-!
# `UpdateConfigureAddon.sync_linguas`

Every existing `configure`, `configure.in` and `configure.ac` is read, each line whose
stripped text starts with `ALL_LINGUAS="` is replaced by the expected assignment, and the
file is written back once a replacement has been made, in it or in a file before it: the
flag `added` is shared by all files.

On the component (`Disk`), a configure file may exist and not decode: `can_install` passes it
over, while `sync_linguas`, and with it `daily` and `post_add`, raises there and keeps what it
wrote before. `syncLinguasAt_eq_syncLinguas` connects the two levels.
-/

namespace WeblateGettext

set_option autoImplicit false

namespace UpdateConfigureAddon

/-- `'ALL_LINGUAS="'`. -/
def assignment : Str := "ALL_LINGUAS=\"".toList

/-- `f'ALL_LINGUAS="{codes}"\n'` for `codes = " ".join(...)` of the codes in the order of the
query. -/
def expected (codes : List Str) : Str := assignment ++ join [' '] codes ++ ['"', '\n']

/-- The loop `for i, line in enumerate(lines)` over one file, with the flag `added`. -/
def forLines (expected : Str) (added : Bool) : List Str → List Str × Bool
  | [] => ([], added)
  | line :: rest =>
    if ['#'].isPrefixOf (strip line) then Prod.map (line :: ·) id (forLines expected added rest)
    else if !assignment.isPrefixOf (strip line) then
      Prod.map (line :: ·) id (forLines expected added rest)
    else if line ≠ expected then Prod.map (expected :: ·) id (forLines expected true rest)
    else Prod.map (line :: ·) id (forLines expected added rest)

/-- The loop `for path in paths` over the files' texts: the returned flag, and each file's
text afterwards with whether it was opened for writing. -/
def forPaths (expected : Str) (added : Bool) : List Str → Bool × List (Str × Bool)
  | [] => (added, [])
  | text :: rest =>
    let (lines, added) := forLines expected added (readLines text)
    Prod.map id (((if added then writeLines lines else text), added) :: ·)
      (forPaths expected added rest)

/-- `UpdateConfigureAddon.sync_linguas(component, paths)` on the texts of the files at
`paths`, with the codes of the component's translations in `language_code` order. -/
def syncLinguas (codes : List Str) (files : List Str) : Bool × List (Str × Bool) :=
  forPaths (expected codes) false files

/-- The lines the loop replaces: not a comment, and the stripped text starts with the key. -/
def isAssignment (line : Str) : Bool :=
  !(['#'].isPrefixOf (strip line)) && assignment.isPrefixOf (strip line)

/-- A line after the loop. -/
def setLine (expected line : Str) : Str := if isAssignment line then expected else line

/-- The lines the loop replaces by `expected`. -/
def replaces (expected line : Str) : Bool := isAssignment line && line != expected

theorem forLines_eq (e : Str) (added : Bool) (lines : List Str) :
    forLines e added lines = (lines.map (setLine e), added || lines.any (replaces e)) := by
  induction lines generalizing added with
  | nil => simp [forLines]
  | cons line rest ih =>
    rw [forLines]
    by_cases h1 : ['#'].isPrefixOf (strip line) = true
    · simp [h1, ih, setLine, isAssignment, replaces]
    by_cases h2 : assignment.isPrefixOf (strip line) = true
    · by_cases h3 : line = e
      · simp [h1, h2, h3, ih, setLine, isAssignment, replaces]
      · simp [h1, h2, h3, ih, setLine, isAssignment, replaces]
    · simp [h1, h2, ih, setLine, isAssignment, replaces]

theorem map_setLine_of_not_any {e : Str} {lines : List Str} (h : lines.any (replaces e) = false) :
    lines.map (setLine e) = lines := by
  induction lines with
  | nil => rfl
  | cons line rest ih =>
    simp only [List.any_cons, Bool.or_eq_false_iff, replaces, Bool.and_eq_false_iff,
      bne_eq_false_iff_eq] at h
    rw [List.map_cons, ih h.2]
    rcases h.1 with h1 | h1 <;> simp [setLine, h1]

theorem not_any_replaces_map (e : Str) (lines : List Str) :
    (lines.map (setLine e)).any (replaces e) = false := by
  simp only [List.any_eq_false, List.mem_map, replaces, Bool.and_eq_true, bne_iff_ne, ne_eq,
    not_and, Decidable.not_not, forall_exists_index, and_imp]
  rintro _ l _ rfl h
  by_cases hl : isAssignment l = true <;> simp_all [setLine]

theorem isAssignment_of_startswith {l : Str} (h : assignment.isPrefixOf (strip l) = true) :
    isAssignment l = true := by
  obtain ⟨t, ht⟩ := List.isPrefixOf_iff_prefix.mp h
  simp [isAssignment, h, ← ht, assignment, List.isPrefixOf]

theorem forPaths_spec (e : Str) (hw : ∃ b, e = b ++ ['\n'] ∧ NoBreak b) :
    ∀ (added : Bool) (files : List Str),
      (forPaths e added files).2.map (fun f => readLines f.1) =
        files.map (fun t => (readLines t).map (setLine e)) ∧
      (forPaths e added files).1 = (added || files.any fun t => (readLines t).any (replaces e))
  | added, [] => by simp [forPaths]
  | added, text :: rest => by
    obtain ⟨b, rfl, hb⟩ := hw
    have ih := forPaths_spec (b ++ ['\n']) ⟨b, rfl, hb⟩
      (added || (readLines text).any (replaces (b ++ ['\n']))) rest
    simp only [forPaths, forLines_eq, Prod.map, id, List.map_cons, List.any_cons, ih.2,
      Bool.or_assoc, ih.1, List.cons.injEq, and_true]
    split
    · exact readLines_writeLines ((readForm_readLines text).map (f := setLine _) hb fun l => by
        unfold setLine; split <;> simp)
    · rename_i hn
      simp only [Bool.or_eq_true, not_or, Bool.not_eq_true] at hn
      exact (map_setLine_of_not_any hn.2).symm

theorem forPaths_opened (e : Str) : ∀ (added : Bool) (files : List Str),
    (forPaths e added files).2.map Prod.snd =
      (List.range files.length).map fun i =>
        added || (files.take (i + 1)).any fun t => (readLines t).any (replaces e)
  | added, [] => rfl
  | added, text :: rest => by
    simp only [forPaths, forLines_eq, Prod.map, id, List.map_cons,
      forPaths_opened e _ rest, List.length_cons, List.range_succ_eq_map, List.map_map]
    simp [Function.comp_def, List.take_succ_cons, Bool.or_assoc]

section Codes

variable {codes : List Str} (hc : ∀ c ∈ codes, ∀ ch ∈ c, isSpace ch = false)
include hc

theorem expected_eq : ∃ b, expected codes = b ++ ['\n'] ∧ NoBreak b ∧
    isAssignment (b ++ ['\n']) = true := by
  refine ⟨assignment ++ join [' '] codes ++ ['"'], by simp [expected],
    ((NoBreak.append (by decide) (noBreak_join_space hc)).append (by decide)), ?_⟩
  have hs : strip (assignment ++ join [' '] codes ++ ['"'] ++ ['\n']) =
      assignment ++ join [' '] codes ++ ['"'] :=
    strip_append_newline (by simp [assignment]; decide) (by simp; decide)
  rw [isAssignment, hs, List.append_assoc]
  have hp : assignment.isPrefixOf (assignment ++ (join [' '] codes ++ ['"'])) = true :=
    List.isPrefixOf_iff_prefix.mpr (List.prefix_append _ _)
  simp [hp, assignment, List.isPrefixOf]

/-- `sync_linguas` on the configure files: in every file each assignment line becomes the
expected one and every other line stays as and where it was; the result is set exactly when
a line was replaced; and a second call on the files as written returns `False`. -/
theorem syncLinguas_spec (files : List Str) :
    (syncLinguas codes files).2.map (fun f => readLines f.1) =
        files.map (fun t => (readLines t).map (setLine (expected codes))) ∧
      (∀ f ∈ (syncLinguas codes files).2, ∀ l ∈ readLines f.1,
        assignment.isPrefixOf (strip l) = true → l = expected codes) ∧
      ((syncLinguas codes files).1 = true ↔
        ∃ t ∈ files, ∃ l ∈ readLines t, isAssignment l = true ∧ l ≠ expected codes) ∧
      (syncLinguas codes ((syncLinguas codes files).2.map Prod.fst)).1 = false := by
  obtain ⟨b, he, hb, ha⟩ := expected_eq hc
  have hw : ∃ b, expected codes = b ++ ['\n'] ∧ NoBreak b := ⟨b, he, hb⟩
  rw [← he] at ha
  obtain ⟨hlines, hflag⟩ := forPaths_spec (expected codes) hw false files
  have hread : ∀ f ∈ (syncLinguas codes files).2,
      ∃ t ∈ files, readLines f.1 = (readLines t).map (setLine (expected codes)) := by
    intro f hf
    have := List.mem_map_of_mem (fun f => readLines f.1) hf
    rw [syncLinguas, hlines] at this
    obtain ⟨t, ht, e⟩ := List.mem_map.mp this
    exact ⟨t, ht, e.symm⟩
  refine ⟨hlines, ?_, ?_, ?_⟩
  · intro f hf l hl hp
    obtain ⟨t, -, e⟩ := hread f hf
    rw [e] at hl
    obtain ⟨l0, -, rfl⟩ := List.mem_map.mp hl
    by_cases h0 : isAssignment l0 = true
    · simp [setLine, h0]
    · simp only [setLine, h0] at hp ⊢
      exact absurd (isAssignment_of_startswith hp) h0
  · rw [syncLinguas, hflag]
    simp [replaces]
  · rw [syncLinguas, (forPaths_spec (expected codes) hw false _).2]
    simp only [Bool.false_or, List.any_eq_false, List.mem_map]
    rintro _ ⟨f, hf, rfl⟩
    obtain ⟨t, -, e⟩ := hread f hf
    rw [e]
    simpa using not_any_replaces_map _ (readLines t)

end Codes

/-- Two configure files, one with an indented assignment and a commented one. -/
theorem syncLinguas_spec_two_files :
    (∀ c ∈ ["de".toList, "fr".toList], ∀ ch ∈ c, isSpace ch = false) ∧
      ((syncLinguas ["de".toList, "fr".toList]
            ["  ALL_LINGUAS=\"de\"\n# ALL_LINGUAS=\"x\"\n".toList, "AC_INIT\n".toList]).2.map
          (fun f => readLines f.1) =
        ["  ALL_LINGUAS=\"de\"\n# ALL_LINGUAS=\"x\"\n".toList, "AC_INIT\n".toList].map
          (fun t => (readLines t).map (setLine (expected ["de".toList, "fr".toList]))) ∧
      (∀ f ∈ (syncLinguas ["de".toList, "fr".toList]
            ["  ALL_LINGUAS=\"de\"\n# ALL_LINGUAS=\"x\"\n".toList, "AC_INIT\n".toList]).2,
        ∀ l ∈ readLines f.1, assignment.isPrefixOf (strip l) = true →
          l = expected ["de".toList, "fr".toList]) ∧
      ((syncLinguas ["de".toList, "fr".toList]
            ["  ALL_LINGUAS=\"de\"\n# ALL_LINGUAS=\"x\"\n".toList, "AC_INIT\n".toList]).1 = true ↔
        ∃ t ∈ ["  ALL_LINGUAS=\"de\"\n# ALL_LINGUAS=\"x\"\n".toList, "AC_INIT\n".toList],
          ∃ l ∈ readLines t, isAssignment l = true ∧ l ≠ expected ["de".toList, "fr".toList]) ∧
      (syncLinguas ["de".toList, "fr".toList]
          ((syncLinguas ["de".toList, "fr".toList]
            ["  ALL_LINGUAS=\"de\"\n# ALL_LINGUAS=\"x\"\n".toList,
              "AC_INIT\n".toList]).2.map Prod.fst)).1 = false) :=
  ⟨by decide, @syncLinguas_spec ["de".toList, "fr".toList] (by decide) _⟩

/-- The files that sync_linguas opens for writing: file `i` is written exactly when one of the
files up to and including it had a line replaced, so every file after the first one changed is
written back too. -/
theorem syncLinguas_opened (codes files : List Str) :
    (syncLinguas codes files).2.map Prod.snd =
      (List.range files.length).map fun i =>
        (files.take (i + 1)).any fun t => (readLines t).any (replaces (expected codes)) := by
  simp only [syncLinguas, forPaths_opened, Bool.false_or]

/-- Two configure files, the first out of date and the second up to date but with CRLF line
endings: no line of the second file is replaced, yet it is opened for writing and written
back with LF line endings. -/
theorem syncLinguas_rewrites_up_to_date :
    (readLines "ALL_LINGUAS=\"de\"\r\n".toList).any (replaces (expected ["de".toList])) = false ∧
      syncLinguas ["de".toList] ["ALL_LINGUAS=\"fr\"\n".toList, "ALL_LINGUAS=\"de\"\r\n".toList] =
        (true, [("ALL_LINGUAS=\"de\"\n".toList, true), ("ALL_LINGUAS=\"de\"\n".toList, true)]) := by
  decide

/-! ## The add-on on the component

`open(path)` reads a file as text and raises `UnicodeDecodeError` on one that does not
decode. Such a file exists for `get_configure_paths`, `can_install` passes over it, and
`sync_linguas` raises at its `readlines()`, after writing back the files before it. -/

/-- `("configure", "configure.in", "configure.ac")`. -/
def configureNames : List Str := ["configure".toList, "configure.in".toList, "configure.ac".toList]

/-- The component's files as `open(path)` reads them: a file that exists holds text, or does
not decode. -/
structure Disk extends Host where
  undecodable : Str → Bool
  files_of_undecodable : ∀ p, undecodable p = true → files p = none

/-- `os.path.exists(path)`. -/
def Disk.pathExists (d : Disk) (p : Str) : Bool := (d.files p).isSome || d.undecodable p

/-- `open(path, "w").writelines(...)`, leaving `text` in the file. -/
def Disk.write (d : Disk) (path text : Str) : Disk where
  toHost := d.toHost.setFile path (some text)
  undecodable p := if p = path then false else d.undecodable p
  files_of_undecodable p hp := by
    by_cases h : p = path
    · simp [h] at hp
    · simp only [h, if_false] at hp
      rw [Host.setFile_files_ne _ h]
      exact d.files_of_undecodable p hp

@[simp] theorem Disk.write_files_self (d : Disk) (path text : Str) :
    (d.write path text).files path = some text := by
  simp [Disk.write]

@[simp] theorem Disk.write_files_ne (d : Disk) {path p : Str} (h : p ≠ path) (text : Str) :
    (d.write path text).files p = d.files p := by
  simp [Disk.write, h]

theorem Disk.write_undecodable (d : Disk) (path text p : Str) :
    (d.write path text).undecodable p = if p = path then false else d.undecodable p := rfl

/-- `UpdateConfigureAddon.get_configure_paths(component)`: those of the files under the
component's directory that exist. -/
def getConfigurePaths (d : Disk) (fullPath : Str) : List Str :=
  (configureNames.map (pathJoin fullPath)).filter d.pathExists

/-- `UpdateConfigureAddon.can_install(component, user)`, after `super().can_install`: some
configure file holds `ALL_LINGUAS="`. A file that does not decode has no text and is passed
over, as `except UnicodeDecodeError: continue` does. -/
def canInstall (superCanInstall : Bool) (d : Disk) (fullPath : Str) : Bool :=
  superCanInstall && (getConfigurePaths d fullPath).any fun path =>
    (d.files path).any fun text => decide (assignment <:+: decodeNewlines text)

/-- The loop `for path in paths` of `sync_linguas` on the component: each file read, its lines
rewritten, and the file written back once the flag `added` is set. A file that cannot be read
raises at `readlines()`: the loop ends with `none`, and the files written before stay written. -/
def forPathsAt (d : Disk) (expected : Str) (added : Bool) : List Str → Disk × Option Bool
  | [] => (d, some added)
  | path :: rest =>
    match d.files path with
    | none => (d, none)
    | some text =>
      let (lines, added) := forLines expected added (readLines text)
      forPathsAt (if added then d.write path (writeLines lines) else d) expected added rest

/-- `UpdateConfigureAddon.sync_linguas(component, paths)` on the component: the component
afterwards, and the flag returned, or `none` when it raises. -/
def syncLinguasAt (d : Disk) (paths : List Str) (codes : List Str) : Disk × Option Bool :=
  forPathsAt d (expected codes) false paths

/-- `UpdateConfigureAddon.daily(component)`: the component afterwards, and the calls made, or
`none` when `sync_linguas` raises. -/
def daily (d : Disk) (fullPath : Str) (codes : List Str) : Disk × Option (List Call) :=
  let paths := getConfigurePaths d fullPath
  let r := syncLinguasAt d paths codes
  (r.1, r.2.map fun added => if added then [.commitAndPush paths false] else [])

/-- `UpdateConfigureAddon.post_add(translation)`: the translation's commit files afterwards, or
`none` when `sync_linguas` raises. -/
def postAdd (d : Disk) (fullPath : Str) (codes : List Str) (commitFiles : List Str) :
    Disk × Option (List Str) :=
  let paths := getConfigurePaths d fullPath
  let r := syncLinguasAt d paths codes
  (r.1, r.2.map fun added => if added then commitFiles ++ paths else commitFiles)

/-- Daily runs with the same codes: the component afterwards, and each run's calls, or `none`
for a run that raised. -/
def dailyRuns (fullPath : Str) (codes : List Str) :
    Nat → Disk → Disk × List (Option (List Call))
  | 0, d => (d, [])
  | n + 1, d =>
    let r := daily d fullPath codes
    let rs := dailyRuns fullPath codes n r.1
    (rs.1, r.2 :: rs.2)

/-! ## Runs of the add-on -/

theorem nodup_getConfigurePaths (d : Disk) (fullPath : Str) :
    (getConfigurePaths d fullPath).Nodup := by
  have hroot : ∀ x ∈ configureNames, ['/'].isPrefixOf x = false := by decide
  refine List.Nodup.filter _ (List.Nodup.map_on (fun x hx y hy hxy => ?_) (by decide))
  simp only [pathJoin, hroot x hx, hroot y hy, Bool.false_eq_true, if_false] at hxy
  split at hxy
  · exact List.append_cancel_left hxy
  · exact (List.cons.inj (List.append_cancel_left hxy)).2

theorem files_isNone_eq_undecodable {d : Disk} {fullPath p : Str}
    (hp : p ∈ getConfigurePaths d fullPath) : (d.files p).isNone = d.undecodable p := by
  have he : ((d.files p).isSome || d.undecodable p) = true := (List.mem_filter.mp hp).2
  cases hu : d.undecodable p
  · cases hf : d.files p <;> simp_all
  · simp [d.files_of_undecodable p hu]

theorem any_files_isNone (d : Disk) (fullPath : Str) :
    (getConfigurePaths d fullPath).any (fun p => (d.files p).isNone) =
      (getConfigurePaths d fullPath).any d.undecodable :=
  Bool.eq_iff_iff.mpr <| by
    simp only [List.any_eq_true]
    exact exists_congr fun p => and_congr_right fun hp => by rw [files_isNone_eq_undecodable hp]

theorem forPathsAt_cons {d : Disk} {e : Str} {a : Bool} {p : Str} {ps : List Str} {text : Str}
    (ht : d.files p = some text) :
    forPathsAt d e a (p :: ps) =
      forPathsAt (if a || (readLines text).any (replaces e) then
          d.write p (writeLines ((readLines text).map (setLine e))) else d)
        e (a || (readLines text).any (replaces e)) ps := by
  simp [forPathsAt, ht, forLines_eq]

theorem forPathsAt_of_none {d : Disk} {e : Str} {a : Bool} {p : Str} (ps : List Str)
    (ht : d.files p = none) : forPathsAt d e a (p :: ps) = (d, none) := by
  simp [forPathsAt, ht]

theorem files_ite_write_ne {d : Disk} {c : Bool} {p q t : Str} (hq : q ≠ p) :
    (if c then d.write p t else d).files q = d.files q ∧
      (if c then d.write p t else d).undecodable q = d.undecodable q := by
  split
  · exact ⟨Disk.write_files_ne _ hq _, by simp [Disk.write_undecodable, hq]⟩
  · exact ⟨rfl, rfl⟩

theorem forPathsAt_files {e : Str} {paths : List Str} : ∀ {d : Disk} {a : Bool},
    (∀ q ∉ paths, (forPathsAt d e a paths).1.files q = d.files q ∧
      (forPathsAt d e a paths).1.undecodable q = d.undecodable q) ∧
    ∀ q, (forPathsAt d e a paths).1.pathExists q = d.pathExists q := by
  induction paths with
  | nil => intro d a; exact ⟨fun _ _ => ⟨rfl, rfl⟩, fun _ => rfl⟩
  | cons p ps ih =>
    intro d a
    cases ht : d.files p with
    | none => rw [forPathsAt_of_none ps ht]; exact ⟨fun _ _ => ⟨rfl, rfl⟩, fun _ => rfl⟩
    | some text =>
      rw [forPathsAt_cons ht]
      refine ⟨fun q hq => ?_, fun q => ?_⟩
      · obtain ⟨h1, h2⟩ := ih.1 q fun hm => hq (List.mem_cons_of_mem _ hm)
        rw [h1, h2]
        exact files_ite_write_ne fun e => hq (e ▸ List.mem_cons_self _ _)
      · rw [ih.2 q]
        by_cases hqp : q = p
        · subst hqp
          split <;> simp [Disk.pathExists, Disk.write_undecodable, ht]
        · simp only [Disk.pathExists, (files_ite_write_ne hqp).1, (files_ite_write_ne hqp).2]

theorem getConfigurePaths_forPathsAt (d : Disk) (e : Str) (a : Bool) (paths : List Str)
    (fullPath : Str) :
    getConfigurePaths (forPathsAt d e a paths).1 fullPath = getConfigurePaths d fullPath :=
  List.filter_congr fun q _ => by rw [forPathsAt_files.2 q]

theorem forPathsAt_snd_isNone {e : Str} {paths : List Str} : ∀ {d : Disk} {a : Bool},
    (forPathsAt d e a paths).2.isNone = paths.any fun p => (d.files p).isNone := by
  induction paths with
  | nil => intro d a; rfl
  | cons p ps ih =>
    intro d a
    cases ht : d.files p with
    | none => simp [forPathsAt_of_none ps ht, ht]
    | some text =>
      rw [forPathsAt_cons ht, ih, List.any_cons, ht, Option.isNone_some, Bool.false_or]
      congr 1
      funext q
      by_cases hqp : q = p
      · subst hqp
        split <;> simp [ht]
      · rw [(files_ite_write_ne hqp).1]

theorem forPathsAt_quiet {d : Disk} {e : Str} {paths : List Str}
    (hq : ∀ p ∈ paths, ∀ t, d.files p = some t → (readLines t).any (replaces e) = false) :
    forPathsAt d e false paths =
      (d, if paths.any (fun p => (d.files p).isNone) then none else some false) := by
  induction paths with
  | nil => rfl
  | cons p ps ih =>
    cases ht : d.files p with
    | none => simp [forPathsAt_of_none ps ht, ht]
    | some t =>
      rw [forPathsAt_cons ht, hq p (List.mem_cons_self _ _) t ht]
      simp only [Bool.false_or, Bool.false_eq_true, if_false]
      rw [ih fun q hm => hq q (List.mem_cons_of_mem _ hm)]
      simp [ht]

theorem forPathsAt_rerun {e : Str} (hw : ∃ b, e = b ++ ['\n'] ∧ NoBreak b) {paths : List Str}
    (hnd : paths.Nodup) : ∀ {d : Disk} {a : Bool},
      forPathsAt (forPathsAt d e a paths).1 e false paths =
        ((forPathsAt d e a paths).1, (forPathsAt d e a paths).2.map fun _ => false) := by
  obtain ⟨b, rfl, hb⟩ := hw
  induction paths with
  | nil => intro d a; rfl
  | cons p ps ih =>
    intro d a
    obtain ⟨hp, hnd⟩ := List.nodup_cons.mp hnd
    cases ht : d.files p with
    | none => simp [forPathsAt_of_none ps ht]
    | some text =>
      rw [forPathsAt_cons ht]
      set a1 := a || (readLines text).any (replaces (b ++ ['\n']))
      set d1 := if a1 then d.write p (writeLines ((readLines text).map (setLine (b ++ ['\n']))))
        else d
      have hform : ReadForm ((readLines text).map (setLine (b ++ ['\n']))) :=
        (readForm_readLines text).map hb fun l => by unfold setLine; split <;> simp
      obtain ⟨t', ht', hany⟩ : ∃ t', d1.files p = some t' ∧
          (readLines t').any (replaces (b ++ ['\n'])) = false := by
        by_cases ha : a1 = true
        · refine ⟨writeLines ((readLines text).map (setLine (b ++ ['\n']))),
            by simp only [d1, ha, if_true, Disk.write_files_self], ?_⟩
          rw [readLines_writeLines hform]
          exact not_any_replaces_map _ _
        · simp only [a1, Bool.or_eq_true, not_or, Bool.not_eq_true] at ha
          exact ⟨text, by simpa [d1, a1, ha] using ht, ha.2⟩
      rw [forPathsAt_cons ((forPathsAt_files.1 p hp).1.trans ht'), hany]
      simpa using ih hnd

theorem forPaths_cons (e : Str) (a : Bool) (t : Str) (ts : List Str) :
    forPaths e a (t :: ts) =
      Prod.map id (((if a || (readLines t).any (replaces e) then
          writeLines ((readLines t).map (setLine e)) else t),
        a || (readLines t).any (replaces e)) :: ·)
        (forPaths e (a || (readLines t).any (replaces e)) ts) := by
  simp only [forPaths, forLines_eq]

theorem forPathsAt_eq_forPaths {e : Str} {read rest texts : List Str}
    (hnd : (read ++ rest).Nodup) : ∀ {d : Disk} {a : Bool},
      List.Forall₂ (fun p t => d.files p = some t) read texts →
      (∀ p ∈ rest.head?, d.files p = none) →
      (forPathsAt d e a (read ++ rest)).2 =
          (if rest = [] then some (forPaths e a texts).1 else none) ∧
        List.Forall₂ (fun p f => (forPathsAt d e a (read ++ rest)).1.files p = some f.1) read
          (forPaths e a texts).2 ∧
        ∀ q ∉ read, (forPathsAt d e a (read ++ rest)).1.files q = d.files q ∧
          (forPathsAt d e a (read ++ rest)).1.undecodable q = d.undecodable q := by
  induction read generalizing texts with
  | nil =>
    intro d a ht hrest
    cases ht
    cases rest with
    | nil => exact ⟨rfl, .nil, fun _ _ => ⟨rfl, rfl⟩⟩
    | cons p ps =>
      rw [List.nil_append, forPathsAt_of_none ps (hrest p rfl)]
      exact ⟨rfl, .nil, fun _ _ => ⟨rfl, rfl⟩⟩
  | cons p ps ih =>
    intro d a ht hrest
    rw [List.cons_append] at hnd
    obtain ⟨hp, hnd⟩ := List.nodup_cons.mp hnd
    cases ht with
    | @cons _ t _ ts hpt hts =>
      rw [List.cons_append, forPathsAt_cons hpt, forPaths_cons]
      set a1 := a || (readLines t).any (replaces e)
      set d1 := if a1 then d.write p (writeLines ((readLines t).map (setLine e))) else d
      have hts' : List.Forall₂ (fun q u => d1.files q = some u) ps ts :=
        ((List.forall₂_and_left (p := fun q => q ≠ p) ps ts).2
          ⟨fun q hq (e : q = p) => hp (e ▸ List.mem_append_left rest hq), hts⟩).imp
          fun q _ hq => (files_ite_write_ne hq.1).1.trans hq.2
      have hrest' : ∀ q ∈ rest.head?, d1.files q = none := fun q hq =>
        have hqp : q ≠ p := fun e => hp (e ▸ List.mem_append_right ps (List.mem_of_mem_head? hq))
        (files_ite_write_ne hqp).1.trans (hrest q hq)
      obtain ⟨hflag, hfiles, hout⟩ := ih hnd hts' hrest'
      refine ⟨hflag, .cons ?_ hfiles, fun q hq => ?_⟩
      · rw [(hout p fun hm => hp (List.mem_append_left _ hm)).1]
        by_cases ha : a1 = true
        · simp only [d1, ha, if_true, Disk.write_files_self]
        · simpa only [d1, ha, if_false, Bool.false_eq_true] using hpt
      · obtain ⟨h1, h2⟩ := hout q fun hm => hq (List.mem_cons_of_mem _ hm)
        rw [h1, h2]
        exact files_ite_write_ne fun e => hq (e ▸ List.mem_cons_self _ _)

/-- `sync_linguas` on the component's configure files does what it does on the texts of those
before the first that does not decode, read in the order `get_configure_paths` yields them: it
leaves in each of them the text the text-level run gives it, returns that run's flag when every
file decodes and raises otherwise, and touches no other file. -/
theorem syncLinguasAt_eq_syncLinguas (d : Disk) (fullPath : Str) (codes : List Str) :
    let paths := getConfigurePaths d fullPath
    let read := paths.takeWhile fun p => !d.undecodable p
    let texts := read.map fun p => (d.files p).getD []
    (syncLinguasAt d paths codes).2 =
        (if paths.all fun p => !d.undecodable p then some (syncLinguas codes texts).1 else none) ∧
      List.Forall₂ (fun p f => (syncLinguasAt d paths codes).1.files p = some f.1) read
        (syncLinguas codes texts).2 ∧
      ∀ q ∉ read, (syncLinguasAt d paths codes).1.files q = d.files q ∧
        (syncLinguasAt d paths codes).1.undecodable q = d.undecodable q := by
  intro paths read texts
  have hsplit : read ++ paths.dropWhile (fun p => !d.undecodable p) = paths :=
    List.takeWhile_append_dropWhile _ _
  have hread : List.Forall₂ (fun p t => d.files p = some t) read texts :=
    List.forall₂_map_right_iff.2 (List.forall₂_same.2 fun p hp => by
      have hn := files_isNone_eq_undecodable ((List.takeWhile_prefix _).subset hp)
      rw [show d.undecodable p = false by simpa using List.mem_takeWhile_imp hp] at hn
      cases ht : d.files p <;> simp_all)
  have hrest : ∀ p ∈ (paths.dropWhile fun p => !d.undecodable p).head?, d.files p = none :=
    fun p hp => by
      have h := List.head?_dropWhile_not (fun p => !d.undecodable p) paths
      rw [hp] at h
      exact d.files_of_undecodable p (by simpa using h)
  have hall : (paths.all fun p => !d.undecodable p) = true ↔
      (paths.dropWhile fun p => !d.undecodable p) = [] := by
    rw [List.dropWhile_eq_nil_iff, List.all_eq_true]
  obtain ⟨h1, h2, h3⟩ := forPathsAt_eq_forPaths (e := expected codes) (a := false)
    (by rw [hsplit]; exact nodup_getConfigurePaths d fullPath) hread hrest
  rw [hsplit] at h1 h2 h3
  refine ⟨?_, h2, h3⟩
  simp only [syncLinguasAt, h1, hall, syncLinguas]

/-- A component whose `configure` is out of date and whose `configure.ac` does not decode. -/
def mixedDisk : Disk :=
  ⟨⟨fun _ => none, fun p =>
      if p = "/src/configure".toList then some "ALL_LINGUAS=\"fr\"\n".toList else none⟩,
    fun p => decide (p = "/src/configure.ac".toList), fun p h => by simp at h; simp [h]⟩

/-- `sync_linguas` rewrites `configure`, then raises at `configure.ac`: the rewrite stays. -/
example :
    (syncLinguasAt mixedDisk (getConfigurePaths mixedDisk "/src".toList) ["de".toList]).2 =
        none ∧
      (syncLinguasAt mixedDisk (getConfigurePaths mixedDisk "/src".toList)
        ["de".toList]).1.files "/src/configure".toList = some "ALL_LINGUAS=\"de\"\n".toList := by
  decide

section Codes

variable {codes : List Str} (hc : ∀ c ∈ codes, ∀ ch ∈ c, isSpace ch = false)
include hc

theorem syncLinguasAt_settles (d : Disk) (fullPath : Str) :
    syncLinguasAt (syncLinguasAt d (getConfigurePaths d fullPath) codes).1
        (getConfigurePaths (syncLinguasAt d (getConfigurePaths d fullPath) codes).1 fullPath)
        codes =
      ((syncLinguasAt d (getConfigurePaths d fullPath) codes).1,
        (syncLinguasAt d (getConfigurePaths d fullPath) codes).2.map fun _ => false) := by
  obtain ⟨b, he, hb, -⟩ := expected_eq hc
  simp only [syncLinguasAt, getConfigurePaths_forPathsAt]
  exact forPathsAt_rerun ⟨b, he, hb⟩ (nodup_getConfigurePaths d fullPath)

theorem daily_settles (d : Disk) (fullPath : Str) :
    daily (daily d fullPath codes).1 fullPath codes =
      ((daily d fullPath codes).1, (daily d fullPath codes).2.map fun _ => []) := by
  simp only [daily, syncLinguasAt_settles hc, Option.map_map]
  rfl

/-- With the same codes, daily runs of the configure add-on leave the component as the first
run leaves it: each later run raises when the first one raised, and otherwise writes no file
and commits nothing. -/
theorem dailyRuns_eq_daily (fullPath : Str) (n : Nat) : ∀ d : Disk,
    dailyRuns fullPath codes (n + 1) d =
      ((daily d fullPath codes).1, (daily d fullPath codes).2 ::
        List.replicate n ((daily d fullPath codes).2.map fun _ => [])) := by
  induction n with
  | zero => intro d; rfl
  | succ n ih =>
    intro d
    show ((dailyRuns fullPath codes (n + 1) (daily d fullPath codes).1).1,
      (daily d fullPath codes).2 :: (dailyRuns fullPath codes (n + 1) (daily d fullPath codes).1).2) = _
    rw [ih, daily_settles hc, Option.map_map]
    rfl

/-- `post_add` raises exactly when a configure file does not decode; a daily run after it with
the same codes writes no file, commits nothing, and raises exactly when `post_add` did. -/
theorem daily_after_postAdd (d : Disk) (fullPath : Str) (commitFiles : List Str) :
    (postAdd d fullPath codes commitFiles).2.isNone =
        (getConfigurePaths d fullPath).any d.undecodable ∧
      daily (postAdd d fullPath codes commitFiles).1 fullPath codes =
        ((postAdd d fullPath codes commitFiles).1,
          if (getConfigurePaths d fullPath).any d.undecodable then none else some []) := by
  have hraise : (syncLinguasAt d (getConfigurePaths d fullPath) codes).2.isNone =
      (getConfigurePaths d fullPath).any d.undecodable := by
    rw [syncLinguasAt, forPathsAt_snd_isNone, any_files_isNone]
  refine ⟨by simpa [postAdd] using hraise, ?_⟩
  simp only [postAdd, daily, syncLinguasAt_settles hc, Option.map_map, ← hraise]
  cases (syncLinguasAt d (getConfigurePaths d fullPath) codes).2 <;> rfl

end Codes

/-- A component at `/src` whose `configure.ac` lists `fr` only. -/
def acDisk : Disk :=
  ⟨⟨fun _ => none, fun p =>
      if p = "/src/configure.ac".toList then some "AC_INIT\nALL_LINGUAS=\"fr\"\n".toList else none⟩,
    fun _ => false, fun _ h => absurd h Bool.false_ne_true⟩

/-- Three daily runs with the codes `cs` and `de`. -/
theorem dailyRuns_eq_daily_ac :
    (∀ c ∈ ["cs".toList, "de".toList], ∀ ch ∈ c, isSpace ch = false) ∧
      dailyRuns "/src".toList ["cs".toList, "de".toList] 3 acDisk =
        ((daily acDisk "/src".toList ["cs".toList, "de".toList]).1,
          (daily acDisk "/src".toList ["cs".toList, "de".toList]).2 :: List.replicate 2
            ((daily acDisk "/src".toList ["cs".toList, "de".toList]).2.map fun _ => [])) :=
  have hc : ∀ c ∈ ["cs".toList, "de".toList], ∀ ch ∈ c, isSpace ch = false := by decide
  ⟨hc, dailyRuns_eq_daily hc "/src".toList 2 acDisk⟩

/-- A translation added to that component with the codes `cs` and `de`, then a daily run. -/
theorem daily_after_postAdd_ac :
    (∀ c ∈ ["cs".toList, "de".toList], ∀ ch ∈ c, isSpace ch = false) ∧
      (postAdd acDisk "/src".toList ["cs".toList, "de".toList] []).2.isNone =
          (getConfigurePaths acDisk "/src".toList).any acDisk.undecodable ∧
        daily (postAdd acDisk "/src".toList ["cs".toList, "de".toList] []).1 "/src".toList
            ["cs".toList, "de".toList] =
          ((postAdd acDisk "/src".toList ["cs".toList, "de".toList] []).1,
            if (getConfigurePaths acDisk "/src".toList).any acDisk.undecodable then none
            else some []) :=
  have hc : ∀ c ∈ ["cs".toList, "de".toList], ∀ ch ∈ c, isSpace ch = false := by decide
  ⟨hc, daily_after_postAdd hc acDisk "/src".toList []⟩

/-- A component that `can_install` refuses for want of `ALL_LINGUAS="` in its configure files
is left as it is by `daily`, whatever the codes: no file is written and nothing is committed,
and `daily` raises when one of the configure files does not decode. -/
theorem daily_of_not_canInstall (d : Disk) (fullPath : Str) (codes : List Str)
    (hci : canInstall true d fullPath = false) :
    daily d fullPath codes =
      (d, if (getConfigurePaths d fullPath).any d.undecodable then none else some []) := by
  have hnone : ∀ p ∈ getConfigurePaths d fullPath, ∀ t, d.files p = some t →
      (readLines t).any (replaces (expected codes)) = false := by
    intro p hp t ht
    refine List.any_eq_false.mpr fun l hl hrep => ?_
    have hpre : assignment <+: strip l := by
      have := (Bool.and_eq_true _ _).mp (Bool.and_eq_true _ _ |>.mp hrep).1
      exact List.isPrefixOf_iff_prefix.mp this.2
    have hinf : assignment <:+: decodeNewlines t :=
      hpre.isInfix.trans ((strip_isInfix_self l).trans (infix_of_mem_readLines hl))
    simp only [canInstall, Bool.true_and, List.any_eq_false] at hci
    exact hci p hp (by simp [ht, hinf])
  simp only [daily, syncLinguasAt, forPathsAt_quiet hnone, any_files_isNone]
  split <;> rfl

/-- A component at `/src` whose only configure file, `configure`, does not decode. -/
def latinDisk : Disk :=
  ⟨⟨fun _ => none, fun _ => none⟩, fun p => decide (p = "/src/configure".toList), fun _ _ => rfl⟩

/-- `can_install` refuses that component. -/
theorem daily_of_not_canInstall_latin :
    canInstall true latinDisk "/src".toList = false ∧
      daily latinDisk "/src".toList ["de".toList] =
        (latinDisk, if (getConfigurePaths latinDisk "/src".toList).any latinDisk.undecodable
          then none else some []) :=
  have hci : canInstall true latinDisk "/src".toList = false := by decide
  ⟨hci, daily_of_not_canInstall latinDisk "/src".toList ["de".toList] hci⟩

/-- `daily` raises on that component. -/
example : (daily latinDisk "/src".toList ["de".toList]).2 = none := by decide

end UpdateConfigureAddon

end WeblateGettext
