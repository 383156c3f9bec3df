import WeblateGettext.XGettext.Args
import WeblateGettext.XGettext.PotFiles

/-!
# `XGettextAddon.post_update`

The run is the spec's state machine for the POT regeneration: the input list is looked up
(missing: alert), the change gate may skip the run, the listed paths are resolved (invalid:
alert), and `xgettext` writes to a fresh temporary file in the POT's directory, which
replaces the POT only when `pot_files_same` finds a difference (failure: alert).

`postUpdate_cases` lists the six ways a run can end, with what each leaves behind; the laws
of the run (what becomes of the POT and of the temporary file, when `commit_and_push` is
called, the alert left pending) are read off it.
-/

namespace WeblateGettext

set_option autoImplicit false

namespace XGettextAddon

/-- How the `xgettext` process ends: failing, with the captured output and the error text;
or succeeding, after writing its `-o` file (`some`) or without writing it, as `xgettext`
does when it finds no message. -/
inductive Outcome where
  | failed (output error : Str)
  | succeeded (written : Option Str)

/-- What a run reads from the add-on, the component and its collaborators. -/
structure Env where
  config : Config
  customize : Option GettextCustomizeAddon.Config
  /-- `component.report_source_bugs` -/
  reportSourceBugs : Str
  /-- `component.get_new_base_filename()` -/
  base : Option Str
  /-- `self.get_new_base_filename()`, the POT file the run writes -/
  output : Str
  /-- `self.new_base`, the path it commits -/
  newBase : Str
  previousHead : Str
  /-- `repository.list_changed_files(repository.ref_to_remote.format(previous_head))` -/
  changedFiles : List Str
  /-- `repository.resolve_symlinks(repo_path)`: the text of the error it raises, if any. -/
  resolveSymlinks : Str → Option Str
  /-- `tmpfile.name` -/
  tmp : Str
  xgettext : Outcome
  skipPush : Bool

/-- Where a run ends. -/
inductive Exit where
  | inputListNotFound
  | inputFilesNotUpdated
  | inputListInvalid
  | processFailed
  | noUpdates
  | committed
  deriving DecidableEq

/-- The alert of a run that ends before `xgettext` runs. -/
def inputAlert (output error : Str) : Alert := ⟨name, "xgettext".toList, some output, error⟩

/-- Modelled from the spec: the alert `execute_process` appends when the command fails, with
the command line, the captured output and the error text. -/
def processAlert (command : List Str) (output error : Str) : Alert :=
  ⟨name, join [' '] command, some output, error⟩

/-- `["xgettext", *args, "-o", tmpfile.name]`. -/
def command (env : Env) : List Str :=
  "xgettext".toList :: getXgettextArgs env.config env.base env.reportSourceBugs env.customize ++
    ["-o".toList, env.tmp]

/-- The text of `files_from`, when it is set and exists. -/
def manifestText (env : Env) (h : Host) : Option Str :=
  match getFilesFrom env.config env.base with
  | some filesFrom => if filesFrom = [] then none else h.files filesFrom
  | none => none

/-- `repo_files` for the text of the input list. -/
def inputRepoFiles (cleanupPath : Str → Str) (env : Env) (text : Str) : List Str :=
  repoFiles cleanupPath (getDirectory env.config) (loadFileList text)

/-- The change gate: a previous head, no pending alert, and no changed file among the
repository paths of the input files. -/
def gateSkips (env : Env) (h : Host) (repoFiles : List Str) : Bool :=
  env.previousHead ≠ [] && (h.alerts alert).isNone &&
    !env.changedFiles.any fun c => repoFiles.contains c

/-- The temporary file once a successful process has ended: written, or left as it was. -/
def afterProcess (h : Host) (tmp : Str) : Option Str → Host
  | some text => h.setFile tmp (some text)
  | none => h

@[simp] theorem afterProcess_setFile (h : Host) (tmp : Str) (written : Option Str) :
    afterProcess (h.setFile tmp (some [])) tmp written = h.setFile tmp (some (written.getD [])) := by
  cases written <;> simp [afterProcess]

/-- The block `with tempfile.NamedTemporaryFile(...)`: the temporary file is created empty,
`xgettext` runs with it as `-o`, and on leaving the block it is removed. -/
def runXgettext (env : Env) (h : Host) : Exit × List Call × Host :=
  let cmd := command env
  let h := h.setFile env.tmp (some [])
  match env.xgettext with
  | .failed output error =>
    let alerts := [processAlert cmd output error]
    (.processFailed, [.executeProcess cmd, .triggerAlerts alert alerts],
      (h.triggerAlerts alert alerts).setFile env.tmp none)
  | .succeeded written =>
    let h := afterProcess h env.tmp written
    if (h.files env.output).isSome &&
        potFilesSame ((h.files env.tmp).getD []) ((h.files env.output).getD []) then
      (.noUpdates, [.executeProcess cmd], h.setFile env.tmp none)
    else
      (.committed, [.executeProcess cmd, .commitAndPush [env.newBase] env.skipPush],
        (h.setFile env.output (h.files env.tmp)).setFile env.tmp none)

/-- `XGettextAddon.post_update(component, previous_head, skip_push, child)`: where the run
ends, the calls made in order, and the component afterwards. `cleanup_path` is not among the
sources and is a parameter. -/
def postUpdate (cleanupPath : Str → Str) (env : Env) (h : Host) : Exit × List Call × Host :=
  match manifestText env h with
  | none =>
    let alerts := [inputAlert env.output "Input list (POTFILES.in) file not found".toList]
    (.inputListNotFound, [.triggerAlerts alert alerts], h.triggerAlerts alert alerts)
  | some text =>
    let repoFiles := inputRepoFiles cleanupPath env text
    if gateSkips env h repoFiles then (.inputFilesNotUpdated, [], h)
    else
      match repoFiles.findSome? env.resolveSymlinks with
      | some error =>
        let alerts := [inputAlert env.output error]
        (.inputListInvalid, [.triggerAlerts alert alerts], h.triggerAlerts alert alerts)
      | none => runXgettext env h

/-! ## The six ends of a run -/

section Run

variable (cleanupPath : Str → Str) (env : Env) (h : Host)

theorem runXgettext_cases (hd : env.tmp ≠ env.output) :
    (∃ output error, env.xgettext = .failed output error ∧
      runXgettext env h = (.processFailed,
        [.executeProcess (command env),
          .triggerAlerts alert [processAlert (command env) output error]],
        (h.triggerAlerts alert [processAlert (command env) output error]).setFile env.tmp none)) ∨
    (∃ written old, env.xgettext = .succeeded written ∧ h.files env.output = some old ∧
      potFilesSame (written.getD []) old = true ∧
      runXgettext env h = (.noUpdates, [.executeProcess (command env)], h.setFile env.tmp none)) ∨
    (∃ written, env.xgettext = .succeeded written ∧
      (∀ old, h.files env.output = some old → potFilesSame (written.getD []) old = false) ∧
      runXgettext env h = (.committed,
        [.executeProcess (command env), .commitAndPush [env.newBase] env.skipPush],
        (h.setFile env.output (some (written.getD []))).setFile env.tmp none)) := by
  have ho : env.output ≠ env.tmp := Ne.symm hd
  cases hx : env.xgettext with
  | failed output error =>
    exact .inl ⟨output, error, rfl, by simp [runXgettext, hx, Host.setFile_triggerAlerts]⟩
  | succeeded written =>
    cases hf : h.files env.output with
    | none =>
      refine .inr (.inr ⟨written, rfl, by simp, ?_⟩)
      simp [runXgettext, hx, ho, hf]
    | some old =>
      by_cases hs : potFilesSame (written.getD []) old = true
      · exact .inr (.inl ⟨written, old, rfl, rfl, hs, by simp [runXgettext, hx, ho, hf, hs]⟩)
      · refine .inr (.inr ⟨written, rfl, by simpa using hs, ?_⟩)
        simp [runXgettext, hx, ho, hf, hs]

theorem postUpdate_cases :
    (manifestText env h = none ∧ postUpdate cleanupPath env h = (.inputListNotFound,
      [.triggerAlerts alert
        [inputAlert env.output "Input list (POTFILES.in) file not found".toList]],
      h.triggerAlerts alert
        [inputAlert env.output "Input list (POTFILES.in) file not found".toList])) ∨
    (∃ text, manifestText env h = some text ∧
      gateSkips env h (inputRepoFiles cleanupPath env text) = true ∧
      postUpdate cleanupPath env h = (.inputFilesNotUpdated, [], h)) ∨
    (∃ error, postUpdate cleanupPath env h = (.inputListInvalid,
      [.triggerAlerts alert [inputAlert env.output error]],
      h.triggerAlerts alert [inputAlert env.output error])) ∨
    (∃ text, manifestText env h = some text ∧
      gateSkips env h (inputRepoFiles cleanupPath env text) = false ∧
      postUpdate cleanupPath env h = runXgettext env h) := by
  cases hm : manifestText env h with
  | none => exact .inl ⟨rfl, by simp [postUpdate, hm]⟩
  | some text =>
    by_cases hg : gateSkips env h (inputRepoFiles cleanupPath env text) = true
    · exact .inr (.inl ⟨text, rfl, hg, by simp [postUpdate, hm, hg]⟩)
    · cases hr : (inputRepoFiles cleanupPath env text).findSome? env.resolveSymlinks with
      | some error => exact .inr (.inr (.inl ⟨error, by simp [postUpdate, hm, hg, hr]⟩))
      | none => exact .inr (.inr (.inr ⟨text, rfl, by simpa using hg,
          by simp [postUpdate, hm, hg, hr]⟩))

theorem runXgettext_fst_ne : (runXgettext env h).1 ≠ .inputFilesNotUpdated := by
  cases hx : env.xgettext with
  | failed => simp [runXgettext, hx]
  | succeeded w => simp only [runXgettext, hx]; split <;> simp

theorem runXgettext_files_of_ne {p : Str} (hpo : p ≠ env.output) (hpt : p ≠ env.tmp) :
    (runXgettext env h).2.2.files p = h.files p := by
  cases hx : env.xgettext with
  | failed => simp [runXgettext, hx, hpt]
  | succeeded w => simp only [runXgettext, hx]; split <;> simp [hpo, hpt]

theorem runXgettext_files_tmp : (runXgettext env h).2.2.files env.tmp = none := by
  cases hx : env.xgettext with
  | failed => simp [runXgettext, hx]
  | succeeded w => simp only [runXgettext, hx]; split <;> simp

theorem runXgettext_alerts_of_ne {n : Str} (hn : n ≠ alert) :
    (runXgettext env h).2.2.alerts n = h.alerts n := by
  cases hx : env.xgettext with
  | failed => simp [runXgettext, hx, hn]
  | succeeded w => simp only [runXgettext, hx]; split <;> simp

theorem postUpdate_alerts_of_ne {n : Str} (hn : n ≠ alert) :
    (postUpdate cleanupPath env h).2.2.alerts n = h.alerts n := by
  rcases postUpdate_cases cleanupPath env h with ⟨-, e⟩ | ⟨_, -, -, e⟩ | ⟨_, e⟩ | ⟨_, -, -, e⟩ <;>
    simp only [e, Host.triggerAlerts_alerts_ne _ hn, runXgettext_alerts_of_ne env h hn]

theorem postUpdate_files_of_ne {p : Str} (hpo : p ≠ env.output) (hpt : p ≠ env.tmp) :
    (postUpdate cleanupPath env h).2.2.files p = h.files p := by
  rcases postUpdate_cases cleanupPath env h with ⟨-, e⟩ | ⟨_, -, -, e⟩ | ⟨_, e⟩ | ⟨_, -, -, e⟩ <;>
    simp only [e, Host.triggerAlerts_files, runXgettext_files_of_ne env h hpo hpt]

theorem postUpdate_tmp_removed (hfresh : h.files env.tmp = none) :
    (postUpdate cleanupPath env h).2.2.files env.tmp = none := by
  rcases postUpdate_cases cleanupPath env h with ⟨-, e⟩ | ⟨_, -, -, e⟩ | ⟨_, e⟩ | ⟨_, -, -, e⟩ <;>
    simp only [e, Host.triggerAlerts_files, hfresh, runXgettext_files_tmp]

/-- What becomes of the POT: either the run does not commit, and leaves the POT and calls no
`commit_and_push`; or it commits once, after `xgettext` succeeded, no POT existed or
`pot_files_same` found a difference, and the POT now holds the temporary file's text, which
is empty when `xgettext` wrote nothing. -/
theorem postUpdate_pot (hd : env.tmp ≠ env.output) :
    ((postUpdate cleanupPath env h).1 ≠ .committed ∧
      (postUpdate cleanupPath env h).2.2.files env.output = h.files env.output ∧
      ∀ files skipPush, Call.commitAndPush files skipPush ∉ (postUpdate cleanupPath env h).2.1) ∨
    ((postUpdate cleanupPath env h).1 = .committed ∧
      (∃ written, env.xgettext = .succeeded written ∧
        (∀ old, h.files env.output = some old → potFilesSame (written.getD []) old = false) ∧
        (postUpdate cleanupPath env h).2.2.files env.output = some (written.getD [])) ∧
      (postUpdate cleanupPath env h).2.1.filter (fun c => c matches .commitAndPush _ _) =
        [.commitAndPush [env.newBase] env.skipPush]) := by
  rcases postUpdate_cases cleanupPath env h with ⟨-, e⟩ | ⟨_, -, -, e⟩ | ⟨_, e⟩ | ⟨_, -, -, e⟩ <;>
    rw [e]
  · exact .inl ⟨by simp, rfl, by simp⟩
  · exact .inl ⟨by simp, rfl, by simp⟩
  · exact .inl ⟨by simp, rfl, by simp⟩
  · rcases runXgettext_cases env h hd with ⟨_, _, -, e⟩ | ⟨_, _, -, -, -, e⟩ | ⟨w, hx, hs, e⟩ <;>
      rw [e]
    · exact .inl ⟨by simp, by simp [Ne.symm hd], by simp⟩
    · exact .inl ⟨by simp, by simp [Ne.symm hd], by simp⟩
    · exact .inr ⟨rfl, ⟨w, hx, hs, by simp [Ne.symm hd]⟩, by simp⟩

/-- A first run whose `xgettext` writes a changed POT: the POT is replaced and committed. -/
theorem postUpdate_pot_first_run :
    let env : Env := ⟨⟨none, none, none, none, none, none, none, none⟩, none, [],
      some "po/x.pot".toList, "po/x.pot".toList, "po/x.pot".toList, [], [], fun _ => none,
      "po/tmpk3f9".toList, .succeeded (some "msgid \"b\"\n".toList), false⟩
    let h : Host := ⟨fun _ => none, fun p =>
      if p = "po/POTFILES.in".toList then some "src/a.c\n".toList
      else if p = "po/x.pot".toList then some "msgid \"a\"\n".toList else none⟩
    env.tmp ≠ env.output ∧
      (((postUpdate id env h).1 ≠ .committed ∧
          (postUpdate id env h).2.2.files env.output = h.files env.output ∧
          ∀ files skipPush, Call.commitAndPush files skipPush ∉ (postUpdate id env h).2.1) ∨
        ((postUpdate id env h).1 = .committed ∧
          (∃ written, env.xgettext = .succeeded written ∧
            (∀ old, h.files env.output = some old → potFilesSame (written.getD []) old = false) ∧
            (postUpdate id env h).2.2.files env.output = some (written.getD [])) ∧
          (postUpdate id env h).2.1.filter (fun c => c matches .commitAndPush _ _) =
            [.commitAndPush [env.newBase] env.skipPush])) :=
  ⟨by decide, postUpdate_pot id _ _ (by decide)⟩

/-- A component whose one source has no translatable string: `xgettext` succeeds without
writing its output, the empty temporary file differs from the POT, and replaces it. -/
theorem postUpdate_empties_pot :
    let env : Env := ⟨⟨none, none, none, none, none, none, none, none⟩, none, [],
      some "po/x.pot".toList, "po/x.pot".toList, "po/x.pot".toList, [], [], fun _ => none,
      "po/tmpk3f9".toList, .succeeded none, false⟩
    let h : Host := ⟨fun _ => none, fun p =>
      if p = "po/POTFILES.in".toList then some "src/a.c\n".toList
      else if p = "po/x.pot".toList then some "msgid \"\"\nmsgstr \"\"\n".toList else none⟩
    h.files env.output = some "msgid \"\"\nmsgstr \"\"\n".toList ∧
      (postUpdate id env h).1 = .committed ∧
      (postUpdate id env h).2.2.files env.output = some [] ∧
      Call.commitAndPush [env.newBase] false ∈ (postUpdate id env h).2.1 := by
  decide

/-! ## The change gate -/

theorem gateSkips_iff (repoFiles : List Str) :
    gateSkips env h repoFiles = true ↔
      env.previousHead ≠ [] ∧ h.alerts alert = none ∧ ∀ c ∈ env.changedFiles, c ∉ repoFiles := by
  simp [gateSkips, Option.isNone_iff_eq_none, and_assoc]

/-- Under a previous head, no pending alert and an existing input list, the run stops at the
change gate exactly when no changed file is the cleaned repository path of an entry of the
list; the list file itself, and the files the listed links resolve to, are not looked at. -/
theorem postUpdate_skips_iff {text : Str} (hm : manifestText env h = some text)
    (hp : env.previousHead ≠ []) (ha : h.alerts alert = none) :
    (postUpdate cleanupPath env h).1 = .inputFilesNotUpdated ↔
      ∀ c ∈ env.changedFiles, ∀ e ∈ loadFileList text,
        cleanupPath (pathJoin (getDirectory env.config) e) ≠ c := by
  have hg : gateSkips env h (inputRepoFiles cleanupPath env text) = true ↔
      ∀ c ∈ env.changedFiles, ∀ e ∈ loadFileList text,
        cleanupPath (pathJoin (getDirectory env.config) e) ≠ c := by
    simp [gateSkips_iff, hp, ha, inputRepoFiles, mem_repoFiles]
  rw [← hg]
  by_cases hs : gateSkips env h (inputRepoFiles cleanupPath env text) = true
  · simp [postUpdate, hm, hs]
  · simp only [postUpdate, hm, hs, if_false, Bool.false_eq_true, iff_false]
    split
    · simp
    · exact runXgettext_fst_ne env h

end Run

/-- An input list with a source, and a change elsewhere: the gate skips the run. -/
theorem postUpdate_skips_readme :
    let env : Env := ⟨⟨none, none, none, none, none, none, none, none⟩, none, [],
      some "po/x.pot".toList, "po/x.pot".toList, "po/x.pot".toList, "abc123".toList,
      ["README".toList], fun _ => none, "po/tmpk3f9".toList, .succeeded none, false⟩
    let h : Host := ⟨fun _ => none, fun p =>
      if p = "po/POTFILES.in".toList then some "src/a.c\n".toList else none⟩
    manifestText env h = some "src/a.c\n".toList ∧ env.previousHead ≠ [] ∧
      h.alerts alert = none ∧
      ((postUpdate id env h).1 = .inputFilesNotUpdated ↔
        ∀ c ∈ env.changedFiles, ∀ e ∈ loadFileList "src/a.c\n".toList,
          id (pathJoin (getDirectory env.config) e) ≠ c) :=
  ⟨by decide, by decide, rfl, postUpdate_skips_iff _ _ _ (by decide) (by decide) rfl⟩

/-- The input list's last source commented out: the list file is the only changed file, and
the gate skips the run, which leaves that source's strings in the POT. -/
theorem postUpdate_skips_list_edit :
    let env : Env := ⟨⟨none, none, none, none, none, none, none, none⟩, none, [],
      some "po/x.pot".toList, "po/x.pot".toList, "po/x.pot".toList, "abc123".toList,
      ["po/POTFILES.in".toList], fun _ => none, "po/tmpk3f9".toList, .succeeded none, false⟩
    let h : Host := ⟨fun _ => none, fun p =>
      if p = "po/POTFILES.in".toList then some "# src/a.c\n".toList else none⟩
    getFilesFrom env.config env.base = some "po/POTFILES.in".toList ∧
      manifestText env h = some "# src/a.c\n".toList ∧
      "po/POTFILES.in".toList ∈ env.changedFiles ∧ env.previousHead ≠ [] ∧
      h.alerts alert = none ∧ (postUpdate id env h).1 = .inputFilesNotUpdated := by
  decide

/-! ## The POT against the last comparison -/

/-- The text `xgettext` wrote, for a run that compared it with the POT: one that found no
updates or replaced the POT. -/
def comparedText : Exit → Outcome → Option Str
  | .noUpdates, .succeeded written => some (written.getD [])
  | .committed, .succeeded written => some (written.getD [])
  | _, _ => none

/-- The POT `pot` after runs that started from the POT `before`: with a last comparison of
text `w`, a text `pot_files_same` finds the same as `w`; with none, the POT as it was. -/
def PotTracks (before pot : Option Str) : Option Str → Prop
  | none => pot = before
  | some w => ∃ t, pot = some t ∧ potFilesSame t w = true

theorem PotTracks.or {before mid after c c' : Option Str} (h1 : PotTracks before mid c)
    (h2 : PotTracks mid after c') : PotTracks before after (c'.or c) := by
  cases c' with
  | none =>
    obtain rfl : after = mid := h2
    exact h1
  | some w => exact h2

theorem postUpdate_tracks_pot (cleanupPath : Str → Str) (env : Env) (h : Host)
    (hd : env.tmp ≠ env.output) :
    PotTracks (h.files env.output) ((postUpdate cleanupPath env h).2.2.files env.output)
      (comparedText (postUpdate cleanupPath env h).1 env.xgettext) := by
  have ho : env.output ≠ env.tmp := Ne.symm hd
  rcases postUpdate_cases cleanupPath env h with ⟨-, e⟩ | ⟨_, -, -, e⟩ | ⟨_, e⟩ | ⟨_, -, -, e⟩ <;>
    rw [e]
  · rfl
  · rfl
  · rfl
  · rcases runXgettext_cases env h hd with ⟨_, _, hx, e⟩ | ⟨w, old, hx, hold, hs, e⟩ |
      ⟨w, hx, -, e⟩ <;> simp only [e, hx, comparedText, PotTracks]
    · simp [ho]
    · exact ⟨old, by simp [ho, hold], potFilesSame_symm hs⟩
    · exact ⟨_, by simp [ho], potFilesSame_refl _⟩

end XGettextAddon

end WeblateGettext
