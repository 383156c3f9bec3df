import WeblateGettext.Text

/-!
# The component, as the add-on runs see it

An add-on run reads the component's pending alerts and files, asks its collaborators for
work (`update_bilingual`, an external process, `trigger_alerts`, `commit_and_push`), and
leaves the component changed. The calls are returned in order, so that properties of a
run can speak of what was asked and when.
-/

namespace WeblateGettext

set_option autoImplicit false

/-- One occurrence the add-ons append to `self.alerts`:
`{"addon": ..., "command": ..., "output": ..., "error": ...}`. -/
structure Alert where
  addon : Str
  command : Str
  output : Option Str
  error : Str
  deriving DecidableEq

/-- What an add-on run asks of the rest of Weblate. -/
inductive Call where
  | updateBilingual (filename template : Str) (args : List Str)
  | executeProcess (command : List Str)
  | triggerAlerts (name : Str) (alerts : List Alert)
  | commitAndPush (files : List Str) (skipPush : Bool)
  deriving DecidableEq

/-- The component: its pending alerts by name, with their occurrences, and its files. -/
structure Host where
  alerts : Str → Option (List Alert)
  files : Str → Option Str

/-- Modelled from the spec: `trigger_alerts(component)` records the run's collected alerts as
the component's alert of the add-on's name, or clears that alert when there are none. -/
def Host.triggerAlerts (h : Host) (name : Str) (alerts : List Alert) : Host :=
  { h with alerts := fun n => if n = name then (if alerts = [] then none else some alerts)
                                else h.alerts n }

@[simp] theorem Host.triggerAlerts_alerts_self (h : Host) (name : Str) (alerts : List Alert) :
    (h.triggerAlerts name alerts).alerts name = if alerts = [] then none else some alerts := by
  simp [Host.triggerAlerts]

@[simp] theorem Host.triggerAlerts_alerts_ne (h : Host) {name n : Str} (hn : n ≠ name)
    (alerts : List Alert) : (h.triggerAlerts name alerts).alerts n = h.alerts n := by
  simp [Host.triggerAlerts, hn]

@[simp] theorem Host.triggerAlerts_files (h : Host) (name : Str) (alerts : List Alert) :
    (h.triggerAlerts name alerts).files = h.files := rfl

/-- The component with the file at `path` written (`some`) or removed (`none`). -/
def Host.setFile (h : Host) (path : Str) (content : Option Str) : Host :=
  { h with files := fun p => if p = path then content else h.files p }

@[simp] theorem Host.setFile_files_self (h : Host) (path : Str) (content : Option Str) :
    (h.setFile path content).files path = content := by
  simp [Host.setFile]

@[simp] theorem Host.setFile_files_ne (h : Host) {path p : Str} (hp : p ≠ path)
    (content : Option Str) : (h.setFile path content).files p = h.files p := by
  simp [Host.setFile, hp]

@[simp] theorem Host.setFile_alerts (h : Host) (path : Str) (content : Option Str) :
    (h.setFile path content).alerts = h.alerts := rfl

@[simp] theorem Host.setFile_setFile_self (h : Host) (path : Str) (c d : Option Str) :
    (h.setFile path c).setFile path d = h.setFile path d := by
  simp only [Host.setFile, Host.mk.injEq, true_and]
  funext p
  split <;> rfl

@[simp] theorem Host.setFile_setFile_setFile_self (h : Host) (path p : Str) (c d e : Option Str) :
    ((h.setFile path c).setFile p d).setFile path e = (h.setFile p d).setFile path e := by
  simp only [Host.setFile, Host.mk.injEq, true_and]
  funext x
  by_cases hx : x = path
  · simp [hx]
  · simp [hx]

theorem Host.setFile_triggerAlerts (h : Host) (path : Str) (content : Option Str) (name : Str)
    (alerts : List Alert) :
    (h.setFile path content).triggerAlerts name alerts =
      (h.triggerAlerts name alerts).setFile path content := rfl

namespace GettextCustomizeAddon

/-- The configuration `GettextCustomizeAddon` reads: `width`, 77 when unset. -/
structure Config where
  width : Option Int

/-- `GettextCustomizeAddon.get_msgmerge_args`. -/
def getMsgmergeArgs (config : Config) : List Str :=
  if config.width.getD 77 ≠ 77 then ["--no-wrap".toList] else []

/-- `GettextCustomizeAddon.get_xgettext_args`. -/
def getXgettextArgs (config : Config) : List Str := getMsgmergeArgs config

end GettextCustomizeAddon

end WeblateGettext
