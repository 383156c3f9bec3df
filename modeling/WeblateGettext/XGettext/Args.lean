import Mathlib.Data.List.Dedup
import WeblateGettext.Host

/-!
# `XGettextAddon`: its configuration and its inputs

The directory and input list the add-on passes to `xgettext`, the arguments it builds
from its configuration, and `load_file_list`, which reads `POTFILES.in` the way gettext
does: `#` lines are comments, trailing blanks are dropped, leading ones are kept.
-/

namespace WeblateGettext

set_option autoImplicit false

/-- A line boundary of `str.splitlines`. -/
def isLineBoundary (c : Char) : Bool :=
  let n := c.toNat
  (10 ≤ n && n ≤ 13) || (28 ≤ n && n ≤ 30) || n == 133 || n == 8232 || n == 8233

/-- `str.splitlines` with the current line, reversed, as accumulator. -/
def splitlinesAux (cur : Str) : Str → List Str
  | [] => if cur = [] then [] else [cur.reverse]
  | '\r' :: '\n' :: s => cur.reverse :: splitlinesAux [] s
  | c :: s => if isLineBoundary c then cur.reverse :: splitlinesAux [] s
              else splitlinesAux (c :: cur) s

/-- `s.splitlines()`. -/
def splitlines (s : Str) : List Str := splitlinesAux [] s

namespace XGettextAddon

/-- `XGettextAddon.name`. -/
def name : Str := "weblate.gettext.xgettext".toList

/-- `XGettextAddon.alert`. -/
def alert : Str := "XGettextAddonError".toList

/-- The configuration the add-on reads, each key unset or set. -/
structure Config where
  directory : Option Str
  filesFrom : Option Str
  fromCode : Option Str
  addComments : Option Bool
  addCommentsTags : Option Str
  noDefaultKeywords : Option Bool
  keywords : Option Str
  flags : Option Str

/-- `XGettextAddon.get_directory`. -/
def getDirectory (config : Config) : Str :=
  let path := config.directory.getD []
  if path = ['.'] then [] else path

/-- `XGettextAddon.get_files_from`, for `component.get_new_base_filename()`. -/
def getFilesFrom (config : Config) (base : Option Str) : Option Str :=
  base.map fun b => pathJoin (dirname b) (config.filesFrom.getD "POTFILES.in".toList)

/-- `f"--{option}={value}"` for each non-empty line of a configured text. -/
def optionLines (option : Str) (text : Str) : List Str :=
  ((splitlines text).filter (· ≠ [])).map fun v => "--".toList ++ option ++ ['='] ++ v

/-- `XGettextAddon.get_xgettext_args`. -/
def getXgettextArgs (config : Config) (base : Option Str) (reportSourceBugs : Str)
    (customize : Option GettextCustomizeAddon.Config) : List Str :=
  ["--files-from=".toList ++ (getFilesFrom config base).getD "None".toList] ++
    (if getDirectory config ≠ [] then ["--directory=".toList ++ getDirectory config] else []) ++
    (if config.fromCode.getD "UTF-8".toList ≠ [] then
      ["--from-code=".toList ++ config.fromCode.getD "UTF-8".toList] else []) ++
    (if config.addComments.getD false then ["--add-comments".toList]
      else optionLines "add-comments".toList (config.addCommentsTags.getD [])) ++
    (if config.noDefaultKeywords.getD false then ["--keyword".toList] else []) ++
    optionLines "keyword".toList (config.keywords.getD []) ++
    optionLines "flag".toList (config.flags.getD []) ++
    (if reportSourceBugs ≠ [] then ["--msgid-bugs-address=".toList ++ reportSourceBugs]
      else []) ++
    (customize.map GettextCustomizeAddon.getXgettextArgs).getD []

/-- `XGettextAddon.load_file_list` on the text of the input list. -/
def loadFileList (text : Str) : List Str :=
  ((readLines text).filter fun l => l ≠ [] && !(['#'].isPrefixOf l)).map
    fun l => rstrip (fun c => c == ' ' || c == '\t' || c == '\r') (rstrip (· == '\n') l)

/-- A path `load_file_list` reads back as written: a line of its own, not a comment, and
not ending in a blank it strips. -/
def ListablePath (p : Str) : Prop :=
  NoBreak p ∧ p.head? ≠ some '#' ∧ ∀ c ∈ p.getLast?, c ≠ ' ' ∧ c ≠ '\t'

instance (p : Str) : Decidable (ListablePath p) := inferInstanceAs (Decidable (_ ∧ _ ∧ _))

theorem rstrip_newline_of_noBreak {b : Str} (hb : NoBreak b) :
    rstrip (· == '\n') b = b ∧ rstrip (· == '\n') (b ++ ['\n']) = b := by
  have hlast : ∀ c ∈ b.getLast?, (c == '\n') = false := fun c hc => by
    have := List.mem_of_getLast?_eq_some hc
    simpa using fun e : c = '\n' => hb.1 (e ▸ this)
  exact ⟨by simpa using rstrip_append_of_pos (t := []) (by simp) hlast,
    rstrip_append_of_pos (by simp) hlast⟩

theorem listablePath_of_mem_loadFileList {text p : Str} (hp : p ∈ loadFileList text) :
    ListablePath p := by
  obtain ⟨l, hl, rfl⟩ := List.mem_map.mp hp
  obtain ⟨hmem, hkeep⟩ := List.mem_filter.mp hl
  simp only [Bool.and_eq_true, bne_iff_ne, ne_eq, Bool.not_eq_true'] at hkeep
  obtain ⟨b, hb, hlb⟩ := (readForm_readLines text).exists_of_mem hmem
  have hnl : rstrip (· == '\n') l = b := by
    rcases hlb with rfl | rfl
    exacts [(rstrip_newline_of_noBreak hb).2, (rstrip_newline_of_noBreak hb).1]
  rw [hnl]
  have hpre := rstrip_isPrefix_self (fun c => c == ' ' || c == '\t' || c == '\r') b
  refine ⟨⟨fun h => hb.1 (hpre.subset h), fun h => hb.2 (hpre.subset h)⟩, ?_,
    fun c hc => ?_⟩
  · intro hhead
    have hb' : b.head? = some '#' := by
      obtain ⟨t, ht⟩ := hpre
      rw [← ht, List.head?_append, hhead]
      rfl
    have hl' : l.head? = some '#' := by rcases hlb with rfl | rfl <;> simp [hb']
    obtain ⟨rest, rfl⟩ := List.head?_eq_some_iff.mp hl'
    simp [List.isPrefixOf] at hkeep
  · have h := getLast_rstrip _ b c hc
    simp only [Bool.or_eq_false_iff, beq_eq_false_iff_ne] at h
    exact h.1

theorem loadFileList_writeLines {ps : List Str} (h : ∀ p ∈ ps, ListablePath p) :
    loadFileList (writeLines (ps.map (· ++ ['\n']))) = ps := by
  rw [loadFileList, readLines_writeLines (readForm_map_newline fun p hp => (h p hp).1),
    List.filter_eq_self.mpr, List.map_map]
  · refine (List.map_congr_left fun p hp => ?_).trans (List.map_id ps)
    obtain ⟨hb, -, hlast⟩ := h p hp
    simp only [Function.comp_apply, (rstrip_newline_of_noBreak hb).2, id]
    refine (congrArg _ (List.append_nil p).symm).trans (rstrip_append_of_pos (by simp) ?_)
    intro c hc
    have := List.mem_of_getLast?_eq_some hc
    have hr : c ≠ '\r' := fun e => hb.2 (e ▸ this)
    simp [(hlast c hc).1, (hlast c hc).2, hr]
  · intro l hl
    obtain ⟨p, hp, rfl⟩ := List.mem_map.mp hl
    have hhead := (h p hp).2.1
    cases p with
    | nil => decide
    | cons c p =>
      have hc : c ≠ '#' := fun e => hhead (by simp [e])
      simp [List.isPrefixOf, Ne.symm hc]

/-- `POTFILES.in` as a format: every entry `load_file_list` returns is a listable path, and
listable paths written one per line are read back as they were. -/
theorem loadFileList_format :
    (∀ text, ∀ p ∈ loadFileList text, ListablePath p) ∧
      ∀ ps : List Str, (∀ p ∈ ps, ListablePath p) →
        loadFileList (writeLines (ps.map (· ++ ['\n']))) = ps :=
  ⟨fun _ _ hp => listablePath_of_mem_loadFileList hp, fun _ h => loadFileList_writeLines h⟩

/-- Two sources and a blank entry, written one per line. -/
theorem loadFileList_format_sources :
    (∀ p ∈ ["src/a.c".toList, [], "lib/b c.py".toList], ListablePath p) ∧
      loadFileList (writeLines (["src/a.c".toList, [], "lib/b c.py".toList].map (· ++ ['\n']))) =
        ["src/a.c".toList, [], "lib/b c.py".toList] :=
  have h : ∀ p ∈ ["src/a.c".toList, [], "lib/b c.py".toList], ListablePath p := by decide
  ⟨h, loadFileList_format.2 _ h⟩

/-- `{cleanup_path(os.path.join(directory, input_path)) for input_path in input_files}`,
the set listed without repetition; `cleanup_path` is not among the sources and is a
parameter. -/
def repoFiles (cleanupPath : Str → Str) (directory : Str) (inputFiles : List Str) : List Str :=
  (inputFiles.map fun p => cleanupPath (pathJoin directory p)).dedup

theorem mem_repoFiles {cleanupPath : Str → Str} {directory : Str} {inputFiles : List Str}
    {p : Str} : p ∈ repoFiles cleanupPath directory inputFiles ↔
      ∃ e ∈ inputFiles, cleanupPath (pathJoin directory e) = p := by
  simp [repoFiles, List.mem_dedup]

/-- The spec's manifest: a comment, a path with trailing blanks, a blank line. -/
example : loadFileList "# comment\nsrc/a.c  \n\nsrc/b.c\n".toList =
    ["src/a.c".toList, [], "src/b.c".toList] := by decide

end XGettextAddon

end WeblateGettext
