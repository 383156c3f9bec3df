import WeblateGettext.Host

/-!
# `MsgmergeAddon.update_translations`

After the change gate (skip when the new base did not change and no alert is pending), the
add-on merges every translation file with the template through `update_bilingual`. A
failure of one file is recorded as one alert and the loop goes on; `trigger_alerts` is
called once, after the last file.
-/

namespace WeblateGettext

set_option autoImplicit false

namespace MsgmergeAddon

/-- `MsgmergeAddon.name`. -/
def name : Str := "weblate.gettext.msgmerge".toList

/-- `MsgmergeAddon.alert`. -/
def alert : Str := "MsgmergeAddonError".toList

/-- The configuration the add-on reads: `fuzzy` and `previous` (true when unset) and
`no_location` (false when unset). -/
structure Config where
  fuzzy : Option Bool
  previous : Option Bool
  noLocation : Option Bool

/-- `MsgmergeAddon.get_msgmerge_args`, with the customize add-on's configuration if it is
installed on the component. -/
def getMsgmergeArgs (config : Config) (customize : Option GettextCustomizeAddon.Config) :
    List Str :=
  (if !config.fuzzy.getD true then ["--no-fuzzy-matching".toList] else []) ++
    (if config.previous.getD true then ["--previous".toList] else []) ++
    (if config.noLocation.getD false then ["--no-location".toList] else []) ++
    (customize.map GettextCustomizeAddon.getMsgmergeArgs).getD []

/-- The fields of a translation the loop reads: `is_source`, `is_template`,
`get_filename()`. -/
structure Translation where
  isSource : Bool
  isTemplate : Bool
  filename : Option Str

/-- An `UpdateError` raised by `update_bilingual`: `error.cmd`, `str(error.output)`,
`str(error)`. -/
structure UpdateError where
  cmd : Str
  output : Str
  message : Str

/-- What the run reads from the component and its collaborators. -/
structure Env where
  config : Config
  customize : Option GettextCustomizeAddon.Config
  previousHead : Str
  /-- `repository.list_changed_files(repository.ref_to_remote.format(previous_head))` -/
  changedFiles : List Str
  /-- `component.new_base` -/
  newBase : Str
  /-- `component.get_new_base_filename()` -/
  template : Option Str
  /-- `component.translation_set.iterator()` -/
  translations : List Translation
  /-- How `file_format_cls.update_bilingual` ends on each file: `none` when it returns. -/
  updateBilingual : Str → Option UpdateError

/-- The alert appended for an `UpdateError`. -/
def errorAlert (e : UpdateError) : Alert := ⟨name, e.cmd, some e.output, e.message⟩

/-- The alert appended when the template is missing. -/
def templateAlert (template : Option Str) : Alert :=
  ⟨name, "msgmerge".toList, template, "Template for new translations not found".toList⟩

/-- The loop `for translation in component.translation_set.iterator()`: the calls made and
the alerts appended, in order. -/
def forTranslations (env : Env) (h : Host) (template : Str) (args : List Str) :
    List Translation → List Call × List Alert
  | [] => ([], [])
  | t :: ts =>
    let rest := forTranslations env h template args ts
    match t.filename with
    | none => rest
    | some filename =>
      if (t.isSource && !t.isTemplate) || filename = [] || (h.files filename).isNone then rest
      else
        match env.updateBilingual filename with
        | none => (.updateBilingual filename template args :: rest.1, rest.2)
        | some e => (.updateBilingual filename template args :: rest.1, errorAlert e :: rest.2)

/-- The change gate: a previous head, no pending alert, and the new base not among the
changed files. -/
def gateSkips (env : Env) (h : Host) : Bool :=
  env.previousHead ≠ [] && (h.alerts alert).isNone && !env.changedFiles.contains env.newBase

/-- `MsgmergeAddon.update_translations(component, previous_head)`: the calls made, in order,
and the component afterwards. -/
def updateTranslations (env : Env) (h : Host) : List Call × Host :=
  if gateSkips env h then ([], h)
  else
    match env.template with
    | some template =>
      if template ≠ [] && (h.files template).isSome then
        let (calls, alerts) :=
          forTranslations env h template (getMsgmergeArgs env.config env.customize)
            env.translations
        (calls ++ [.triggerAlerts alert alerts], h.triggerAlerts alert alerts)
      else
        ([.triggerAlerts alert [templateAlert env.template]],
          h.triggerAlerts alert [templateAlert env.template])
    | none =>
      ([.triggerAlerts alert [templateAlert none]], h.triggerAlerts alert [templateAlert none])

/-! ## The merge loop -/

/-- The file the loop merges for a translation: not a source that is not the template, and a
non-empty filename that exists. -/
def mergedFile (h : Host) (t : Translation) : Option Str :=
  match t.filename with
  | none => none
  | some f => if (t.isSource && !t.isTemplate) || f = [] || (h.files f).isNone then none else some f

theorem forTranslations_eq (env : Env) (h : Host) (template : Str) (args : List Str)
    (ts : List Translation) :
    forTranslations env h template args ts =
      ((ts.filterMap (mergedFile h)).map (fun f => Call.updateBilingual f template args),
        ((ts.filterMap (mergedFile h)).filterMap env.updateBilingual).map errorAlert) := by
  induction ts with
  | nil => rfl
  | cons t ts ih =>
    rw [forTranslations]
    cases hf : t.filename with
    | none => simp [mergedFile, hf, ih]
    | some f =>
      by_cases hs : ((t.isSource && !t.isTemplate) || f = [] || (h.files f).isNone) = true
      · simp only [hs, if_true, List.filterMap_cons, mergedFile, hf, ih]
      · simp only [hs, if_false, Bool.false_eq_true, List.filterMap_cons, mergedFile, hf, ih,
          List.map_cons]
        cases env.updateBilingual f <;> simp

/-- Once the template exists and the gate lets the run through, `update_translations` calls
`update_bilingual` once for each merged translation in iteration order, whatever the
earlier outcomes, collects one alert per `UpdateError` in the same order, and calls
`trigger_alerts` once, after the last file. -/
theorem updateTranslations_merges (env : Env) (h : Host) {template : Str}
    (ht : env.template = some template) (hne : template ≠ []) (hex : (h.files template).isSome)
    (hg : gateSkips env h = false) :
    (updateTranslations env h).1 =
      (env.translations.filterMap (mergedFile h)).map
          (fun f => Call.updateBilingual f template (getMsgmergeArgs env.config env.customize)) ++
        [.triggerAlerts alert
          (((env.translations.filterMap (mergedFile h)).filterMap env.updateBilingual).map
            errorAlert)] := by
  simp [updateTranslations, hg, ht, hne, hex, forTranslations_eq]

/-! ## The component after a run -/

theorem updateTranslations_of_gateSkips {env : Env} {h : Host} (hg : gateSkips env h = true) :
    updateTranslations env h = ([], h) := by
  simp [updateTranslations, hg]

theorem updateTranslations_triggers {env : Env} {h : Host} (hg : gateSkips env h = false) :
    ∃ calls alerts, (∀ c ∈ calls, ∀ n a, c ≠ Call.triggerAlerts n a) ∧
      updateTranslations env h = (calls ++ [.triggerAlerts alert alerts],
        h.triggerAlerts alert alerts) := by
  unfold updateTranslations
  rw [if_neg (by simp [hg])]
  split
  · split
    · rw [forTranslations_eq]
      refine ⟨_, _, fun c hc n a => ?_, rfl⟩
      obtain ⟨f, -, rfl⟩ := List.mem_map.mp hc
      simp
    · exact ⟨[], _, by simp, rfl⟩
  · exact ⟨[], _, by simp, rfl⟩

theorem updateTranslations_alerts_of_ne (env : Env) (h : Host) {n : Str} (hn : n ≠ alert) :
    (updateTranslations env h).2.alerts n = h.alerts n := by
  cases hg : gateSkips env h with
  | true => rw [updateTranslations_of_gateSkips hg]
  | false =>
    obtain ⟨_, _, -, e⟩ := updateTranslations_triggers hg
    rw [e, Host.triggerAlerts_alerts_ne _ hn]

theorem updateTranslations_files (env : Env) (h : Host) :
    (updateTranslations env h).2.files = h.files := by
  cases hg : gateSkips env h with
  | true => rw [updateTranslations_of_gateSkips hg]
  | false =>
    obtain ⟨_, _, -, e⟩ := updateTranslations_triggers hg
    rw [e, Host.triggerAlerts_files]

/-- A source translation that is not the template is skipped; the failure of `de.po` does
not stop `fr.po` from being merged. -/
theorem updateTranslations_merges_failing_middle :
    let env : Env := ⟨⟨none, none, none⟩, none, [], [], "po/x.pot".toList, some "po/x.pot".toList,
      [⟨true, false, some "po/en.po".toList⟩, ⟨false, false, some "po/de.po".toList⟩,
        ⟨false, false, some "po/fr.po".toList⟩],
      fun f => if f = "po/de.po".toList then some ⟨"msgmerge".toList, [], "failed".toList⟩ else none⟩
    let h : Host := ⟨fun _ => none, fun f => if f = [] then none else some []⟩
    env.template = some "po/x.pot".toList ∧ "po/x.pot".toList ≠ [] ∧
      (h.files "po/x.pot".toList).isSome = true ∧ gateSkips env h = false ∧
      (updateTranslations env h).1 =
        (env.translations.filterMap (mergedFile h)).map
            (fun f => Call.updateBilingual f "po/x.pot".toList (getMsgmergeArgs env.config env.customize)) ++
          [.triggerAlerts alert
            (((env.translations.filterMap (mergedFile h)).filterMap env.updateBilingual).map
              errorAlert)] :=
  ⟨rfl, by decide, rfl, rfl, updateTranslations_merges _ _ rfl (by decide) rfl rfl⟩

end MsgmergeAddon

end WeblateGettext
