import WeblateGettext.Msgmerge
import WeblateGettext.XGettext.PostUpdate

/-!
# Runs of the gettext add-ons on one component

A component sees runs of `MsgmergeAddon.update_translations` and of
`XGettextAddon.post_update` in any order. Each add-on keeps one alert on the component, set
and cleared by `trigger_alerts`. For `msgmerge` the pending alert is always the one the most
recent run past the change gate collected (`runAll_alerts_msgmerge`): every such run ends
with `trigger_alerts`. `post_update` calls it only on its failures, so its alert is the one
of its most recent failure (`runAll_alerts_xgettext`), and a success after a failure leaves
the failure's alert in place (`postUpdate_success_keeps_alert`). Both laws are one run
invariant (`runAll_alerts_of_step`) applied to a step lemma per add-on.
-/

namespace WeblateGettext

set_option autoImplicit false

/-- One run on the component. -/
inductive Run where
  | msgmerge (env : MsgmergeAddon.Env)
  | xgettext (cleanupPath : Str → Str) (env : XGettextAddon.Env)

namespace Run

/-- The name of the alert of the run's add-on. -/
def alertName : Run → Str
  | .msgmerge _ => MsgmergeAddon.alert
  | .xgettext _ _ => XGettextAddon.alert

/-- The calls a run makes, and the component after it. -/
def result (h : Host) : Run → List Call × Host
  | .msgmerge env => MsgmergeAddon.updateTranslations env h
  | .xgettext cleanupPath env => (XGettextAddon.postUpdate cleanupPath env h).2

/-- The component after a run. -/
def apply (h : Host) (r : Run) : Host := (r.result h).2

/-- Whether the change gate skipped the run. -/
def skipped (h : Host) : Run → Bool
  | .msgmerge env => MsgmergeAddon.gateSkips env h
  | .xgettext cleanupPath env =>
    (XGettextAddon.postUpdate cleanupPath env h).1 == .inputFilesNotUpdated

/-- The alerts a `trigger_alerts` call passes on. -/
def triggered : Call → Option (List Alert)
  | .triggerAlerts _ alerts => some alerts
  | _ => none

/-- The alerts a run collected: those it passed to `trigger_alerts`, none when it made no
such call. -/
def collected (h : Host) (r : Run) : List Alert :=
  ((r.result h).1.findSome? triggered).getD []

end Run

/-- The alerts collected by a run of the add-on raising `name` that the gate did not skip. -/
def Run.collectedPast (name : Str) (h : Host) (r : Run) : Option (List Alert) :=
  if r.alertName = name ∧ r.skipped h = false then some (r.collected h) else none

/-- The alerts of a run of the add-on raising `name` that collected any. -/
def Run.raised (name : Str) (h : Host) (r : Run) : Option (List Alert) :=
  if r.alertName = name ∧ r.collected h ≠ [] then some (r.collected h) else none

/-- The component after runs in order. -/
def runAll (h : Host) (runs : List Run) : Host := runs.foldl Run.apply h

/-- What `select` gives for the most recent run for which it gives something. -/
def lastSelected (select : Host → Run → Option (List Alert)) :
    Host → List Run → Option (List Alert)
  | _, [] => none
  | h, r :: rs => (lastSelected select (r.apply h) rs).or (select h r)

/-- The alerts collected by the most recent run of the add-on raising `name` that the gate did
not skip, if there is one. -/
def lastCollected (name : Str) : Host → List Run → Option (List Alert) :=
  lastSelected (Run.collectedPast name)

/-- The pending alert `trigger_alerts` leaves for the alerts of a run. -/
def pendingOf (alerts : List Alert) : Option (List Alert) :=
  if alerts = [] then none else some alerts

theorem runAll_alerts_of_step (name : Str) (select : Host → Run → Option (List Alert))
    (f : List Alert → Option (List Alert))
    (hstep : ∀ h r, (r.apply h).alerts name = (select h r).elim (h.alerts name) f)
    (h : Host) (runs : List Run) :
    (runAll h runs).alerts name = (lastSelected select h runs).elim (h.alerts name) f := by
  induction runs generalizing h with
  | nil => rfl
  | cons r rs ih =>
    rw [runAll, List.foldl_cons, ← runAll, ih, lastSelected]
    cases lastSelected select (r.apply h) rs with
    | some a => rfl
    | none => rw [Option.none_or, hstep]; rfl

theorem alert_ne : XGettextAddon.alert ≠ MsgmergeAddon.alert := by decide

theorem Run.apply_alerts_msgmerge (h : Host) (r : Run) :
    (r.apply h).alerts MsgmergeAddon.alert =
      (r.collectedPast MsgmergeAddon.alert h).elim (h.alerts MsgmergeAddon.alert) pendingOf := by
  cases r with
  | msgmerge env =>
    cases hg : MsgmergeAddon.gateSkips env h with
    | true =>
      simp [Run.apply, Run.result, Run.collectedPast, Run.skipped, hg,
        MsgmergeAddon.updateTranslations_of_gateSkips]
    | false =>
      obtain ⟨calls, alerts, hc, e⟩ := MsgmergeAddon.updateTranslations_triggers hg
      have hn : calls.findSome? Run.triggered = none :=
        List.findSome?_eq_none_iff.mpr fun c hm => by
          cases c with
          | triggerAlerts n a => exact absurd rfl (hc _ hm n a)
          | _ => rfl
      simp [Run.apply, Run.result, Run.collectedPast, Run.skipped, Run.alertName, Run.collected,
        hg, e, hn, List.findSome?_append, Run.triggered, pendingOf]
  | xgettext cleanupPath env =>
    simp [Run.apply, Run.result, Run.collectedPast, Run.alertName, alert_ne,
      XGettextAddon.postUpdate_alerts_of_ne cleanupPath env h (Ne.symm alert_ne)]

/-- Over any runs of the two add-ons, in any order, the pending `msgmerge` alert is the one
collected by the most recent `msgmerge` run past the change gate; with no such run, it is the
one pending before. -/
theorem runAll_alerts_msgmerge (h : Host) (runs : List Run) :
    (runAll h runs).alerts MsgmergeAddon.alert =
      (lastCollected MsgmergeAddon.alert h runs).elim (h.alerts MsgmergeAddon.alert) pendingOf :=
  runAll_alerts_of_step _ _ _ Run.apply_alerts_msgmerge h runs

theorem Run.apply_alerts_xgettext (h : Host) (r : Run) :
    (r.apply h).alerts XGettextAddon.alert =
      (r.raised XGettextAddon.alert h).elim (h.alerts XGettextAddon.alert) some := by
  cases r with
  | msgmerge env =>
    simp [Run.apply, Run.result, Run.raised, Run.alertName, Ne.symm alert_ne,
      MsgmergeAddon.updateTranslations_alerts_of_ne env h alert_ne]
  | xgettext cleanupPath env =>
    simp only [Run.raised, Run.alertName, Run.apply, Run.result, Run.collected, true_and]
    rcases XGettextAddon.postUpdate_cases cleanupPath env h with
      ⟨-, e⟩ | ⟨_, -, -, e⟩ | ⟨_, e⟩ | ⟨_, -, -, e⟩ <;> rw [e]
    · simp [Run.triggered]
    · simp
    · simp [Run.triggered]
    · cases hx : env.xgettext with
      | failed => simp [XGettextAddon.runXgettext, hx, Run.triggered]
      | succeeded w =>
        simp only [XGettextAddon.runXgettext, hx]
        split <;> simp [Run.triggered]

/-- Over any runs of the two add-ons, the pending `xgettext` alert is the one collected by the
most recent `xgettext` run that collected any: a run that succeeds never clears it. -/
theorem runAll_alerts_xgettext (h : Host) (runs : List Run) :
    (runAll h runs).alerts XGettextAddon.alert =
      (lastSelected (Run.raised XGettextAddon.alert) h runs).elim
        (h.alerts XGettextAddon.alert) some :=
  runAll_alerts_of_step _ _ _ Run.apply_alerts_xgettext h runs

/-- A failing `xgettext` run, then one that succeeds with the POT unchanged: the second run is
let through by the pending alert and collects no alert, yet the first run's alert stays. -/
theorem postUpdate_success_keeps_alert :
    let env : XGettextAddon.Env := ⟨⟨none, none, none, none, none, none, none, none⟩, none, [],
      some "po/x.pot".toList, "po/x.pot".toList, "po/x.pot".toList, "abc123".toList,
      ["src/a.c".toList], fun _ => none, "po/tmpk3f9".toList,
      .failed [] "exit status 1".toList, false⟩
    let h : Host := ⟨fun _ => none, fun p =>
      if p = "po/POTFILES.in".toList then some "src/a.c\n".toList
      else if p = "po/x.pot".toList then some "msgid \"a\"\n".toList else none⟩
    let runs := [Run.xgettext id env,
      Run.xgettext id { env with xgettext := .succeeded (some "msgid \"a\"\n".toList) }]
    lastCollected XGettextAddon.alert h runs = some [] ∧
      ((runAll h runs).alerts XGettextAddon.alert).isSome = true := by
  decide

/-! ## The POT over runs -/

/-- The text `xgettext` wrote in a run that compared it with the POT; none for other runs. -/
def Run.compared (h : Host) : Run → Option Str
  | .msgmerge _ => none
  | .xgettext cleanupPath env =>
    XGettextAddon.comparedText (XGettextAddon.postUpdate cleanupPath env h).1 env.xgettext

/-- The text of the most recent comparison with the POT over runs in order. -/
def lastCompared : Host → List Run → Option Str
  | _, [] => none
  | h, r :: rs => (lastCompared (r.apply h) rs).or (r.compared h)

theorem Run.apply_pot {pot : Str} (h : Host) (r : Run)
    (hr : ∀ cleanupPath env, r = .xgettext cleanupPath env → env.output = pot ∧ env.tmp ≠ pot) :
    XGettextAddon.PotTracks (h.files pot) ((r.apply h).files pot) (r.compared h) := by
  cases r with
  | msgmerge env =>
    show (MsgmergeAddon.updateTranslations env h).2.files pot = h.files pot
    rw [MsgmergeAddon.updateTranslations_files]
  | xgettext cleanupPath env =>
    obtain ⟨rfl, hd⟩ := hr cleanupPath env rfl
    exact XGettextAddon.postUpdate_tracks_pot cleanupPath env h hd

/-- Over any runs of the two add-ons in which every `xgettext` run writes the one POT through a
temporary file other than it, and no `msgmerge` run merges a translation file at the POT's
path: the POT afterwards is one that `pot_files_same` finds the same as the text `xgettext`
wrote in the most recent run that compared its output with the POT, and the POT from before
when no run did. -/
theorem runAll_pot (pot : Str) (h : Host) (runs : List Run)
    (hruns : ∀ cleanupPath env, Run.xgettext cleanupPath env ∈ runs →
      env.output = pot ∧ env.tmp ≠ pot)
    (hmerged : ∀ env, Run.msgmerge env ∈ runs → ∀ t ∈ env.translations, t.filename ≠ some pot) :
    XGettextAddon.PotTracks (h.files pot) ((runAll h runs).files pot) (lastCompared h runs) := by
  induction runs generalizing h with
  | nil => rfl
  | cons r rs ih =>
    have hr : ∀ cleanupPath env, r = .xgettext cleanupPath env →
        env.output = pot ∧ env.tmp ≠ pot := fun c env e =>
      hruns c env (e ▸ List.mem_cons_self _ _)
    exact (Run.apply_pot h r hr).or
      (ih (r.apply h) (fun c env hm => hruns c env (List.mem_cons_of_mem _ hm))
        fun env hm => hmerged env (List.mem_cons_of_mem _ hm))

/-- A POT `po/x.pot` as `xgettext` writes it on a given creation date. -/
def datedPot (date : Char) : Str :=
  "\"POT-Creation-Date: ".toList ++ [date] ++ "\\n\"\nmsgid \"a\"\n".toList

/-- An `xgettext` run on `po/POTFILES.in` writing `written`, with no previous head. -/
def potEnv (written : Str) : XGettextAddon.Env :=
  ⟨⟨none, none, none, none, none, none, none, none⟩, none, [], some "po/x.pot".toList,
    "po/x.pot".toList, "po/x.pot".toList, [], [], fun _ => none, "po/tmpk3f9".toList,
    .succeeded (some written), false⟩

/-- A component with an input list and no POT yet. -/
def potHost : Host :=
  ⟨fun _ => none, fun p => if p = "po/POTFILES.in".toList then some "src/a.c\n".toList else none⟩

/-- A POT regenerated with only its creation date changed, after a run that wrote it. -/
theorem runAll_pot_new_date :
    (∀ cleanupPath env, Run.xgettext cleanupPath env ∈
        [Run.xgettext id (potEnv (datedPot '1')), Run.xgettext id (potEnv (datedPot '2'))] →
      env.output = "po/x.pot".toList ∧ env.tmp ≠ "po/x.pot".toList) ∧
      (∀ env, Run.msgmerge env ∈
          [Run.xgettext id (potEnv (datedPot '1')), Run.xgettext id (potEnv (datedPot '2'))] →
        ∀ t ∈ env.translations, t.filename ≠ some "po/x.pot".toList) ∧
      XGettextAddon.PotTracks (potHost.files "po/x.pot".toList)
        ((runAll potHost [Run.xgettext id (potEnv (datedPot '1')),
          Run.xgettext id (potEnv (datedPot '2'))]).files "po/x.pot".toList)
        (lastCompared potHost [Run.xgettext id (potEnv (datedPot '1')),
          Run.xgettext id (potEnv (datedPot '2'))]) :=
  have hruns : ∀ cleanupPath env, Run.xgettext cleanupPath env ∈
      [Run.xgettext id (potEnv (datedPot '1')), Run.xgettext id (potEnv (datedPot '2'))] →
      env.output = "po/x.pot".toList ∧ env.tmp ≠ "po/x.pot".toList := by
    intro c e hm
    simp only [List.mem_cons, Run.xgettext.injEq, List.mem_nil_iff, or_false] at hm
    rcases hm with ⟨-, rfl⟩ | ⟨-, rfl⟩ <;> decide
  have hmerged : ∀ env, Run.msgmerge env ∈
      [Run.xgettext id (potEnv (datedPot '1')), Run.xgettext id (potEnv (datedPot '2'))] →
      ∀ t ∈ env.translations, t.filename ≠ some "po/x.pot".toList := by
    simp
  ⟨hruns, hmerged, runAll_pot "po/x.pot".toList potHost _ hruns hmerged⟩

/-- Those two runs: the second compares its output with the POT and finds no update, and the
POT keeps the first run's date. -/
example :
    lastCompared potHost [Run.xgettext id (potEnv (datedPot '1')),
        Run.xgettext id (potEnv (datedPot '2'))] = some (datedPot '2') ∧
      (runAll potHost [Run.xgettext id (potEnv (datedPot '1')),
        Run.xgettext id (potEnv (datedPot '2'))]).files "po/x.pot".toList =
        some (datedPot '1') := by
  decide

end WeblateGettext
