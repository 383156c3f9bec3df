import WeblateGettext.Linguas.Listing
import WeblateGettext.Linguas.Enumeration
import WeblateGettext.Host

/-!
# Daily runs of the LINGUAS add-on

`daily` runs `sync_linguas` on the LINGUAS file and commits it when the file changed. With
the component's codes unchanged, a run either leaves a file the next run keeps as it is, or
rewrites a line naming several codes to one naming at most one, so the lines of several
codes bound the number of runs that still commit. The order in which Python enumerates the
code set may differ from one run to the next; the bound holds for any orders.
-/

namespace WeblateGettext

set_option autoImplicit false

namespace UpdateLinguasAddon

/-- The lines whose code part holds a space: the lines at which `update_linguas` stops. -/
def spaceLines (lines : List Str) : Nat := lines.countP fun l => ' ' ∈ stripped l

/-- The lines `update_linguas` returns unchanged, reporting no change. -/
def Settled (codes : CodeSet) (lines : List Str) : Prop :=
  updateLinguas lines codes = (false, lines)

theorem spaceLines_cons_of_not_mem {line : Str} (h : ' ' ∉ stripped line) (rest : List Str) :
    spaceLines (line :: rest) = spaceLines rest := by
  simp [spaceLines, List.countP_cons, h]

theorem spaceLines_rerun_lt {codes : List Str} (hc : ∀ c ∈ codes, IsCode c) {L : List Str}
    (hs : rerunStable codes L = false) :
    spaceLines (reconcile codes L).result.2 < spaceLines L := by
  induction codes, L using rerunStable.induct with
  | case1 => simp [rerunStable] at hs
  | case2 _ _ _ hb ih =>
    rw [rerunStable, if_pos hb] at hs
    rw [reconcile_of_blank hb, Reconciled.result_keep_snd,
      spaceLines_cons_of_not_mem (by simp [hb]), spaceLines_cons_of_not_mem (by simp [hb])]
    exact ih hc hs
  | case3 codes line rest _ hm =>
    rw [rerunStable, if_neg (List.ne_nil_of_mem hm), if_pos hm] at hs
    have h2 : ¬2 ≤ codes.length := by simpa using (Bool.or_eq_false_iff.mp hs).1
    have hnot : ' ' ∉ expected codes := fun h => h2 ((space_mem_expected_iff hc).mp h)
    rw [reconcile_of_rewrite hm fun e => hnot (e ▸ hm)]
    simp only [Reconciled.result, List.map_nil, List.append_nil]
    rw [spaceLines_cons_of_not_mem (by rwa [stripped_expected_line hc])]
    simp [spaceLines, List.countP_cons, hm]
  | case4 _ _ _ hb hm hcm ih =>
    rw [rerunStable, if_neg hb, if_neg hm, if_pos hcm] at hs
    rw [reconcile_of_mem hb hm hcm, Reconciled.result_keep_snd, spaceLines_cons_of_not_mem hm,
      spaceLines_cons_of_not_mem hm]
    exact ih (fun c h => hc c (List.mem_of_mem_erase h)) hs
  | case5 _ _ _ hb hm hcm ih =>
    rw [rerunStable, if_neg hb, if_neg hm, if_neg hcm] at hs
    rw [reconcile_of_not_mem hb hm hcm, Reconciled.result_drop_snd, spaceLines_cons_of_not_mem hm]
    exact ih hc hs

theorem settled_or_spaceLines_lt (lines : List Str) {codes : CodeSet}
    (hc : ∀ c ∈ codes.elems, IsCode c) :
    Settled codes (updateLinguas lines codes).2 ∨
      spaceLines (updateLinguas lines codes).2 < spaceLines lines := by
  cases hs : rerunStable codes.elems lines
  · rw [updateLinguas_eq]
    exact .inr (spaceLines_rerun_lt hc hs)
  · left
    rw [Settled, updateLinguas_eq lines, updateLinguas_eq, reconcile_rerun codes.nodup hc hs]
    simp [Reconciled.result]

theorem Settled.of_perm {c1 c2 : CodeSet} (hp : c1.elems.Perm c2.elems) {lines : List Str}
    (h : Settled c1 lines) : Settled c2 lines := by
  obtain ⟨hl, he, pending, h1, h2⟩ := reconcile_enumerations c1.elems lines c2.elems c1.nodup hp
  rw [Settled, updateLinguas_eq, Reconciled.result, Prod.mk.injEq] at h ⊢
  have hnil : c1.elems.filter pending = [] := by
    simpa [h1] using (Bool.or_eq_false_iff.mp h.1).2
  have hnil2 : c2.elems.filter pending = [] := by simpa [hnil] using (hp.filter pending).symm
  rw [h1, hnil] at h
  rw [hl, he, h2, hnil2]
  exact ⟨by simpa using h.1, h.2⟩

/-! ## The add-on on the component -/

/-- What `get_linguas_path` reads of the component: `get_new_base_filename()`, `full_path`
and `filemask`. -/
structure LinguasComponent where
  newBase : Option Str
  fullPath : Str
  filemask : Str

/-- `UpdateLinguasAddon.get_linguas_path(component)`: `LINGUAS` next to the new base file, or,
without one, next to the file the mask names with `*` read as `x`. -/
def getLinguasPath (c : LinguasComponent) : Str :=
  let base := match c.newBase with
    | some b => if b.isEmpty then none else some b
    | none => none
  let base :=
    base.getD (pathJoin c.fullPath (c.filemask.map fun ch => if ch = '*' then 'x' else ch))
  pathJoin (dirname base) "LINGUAS".toList

/-- `get_linguas_path` puts `LINGUAS` in the directory of the new base file, or, without one,
in that of the file the mask names with `*` read as `x`; also when that file has no directory
part or lies at the root. -/
theorem dirname_getLinguasPath (c : LinguasComponent) :
    (∀ b, c.newBase = some b → b ≠ [] → dirname (getLinguasPath c) = dirname b) ∧
      (c.newBase = none ∨ c.newBase = some [] →
        dirname (getLinguasPath c) =
          dirname (pathJoin c.fullPath
            (c.filemask.map fun ch => if ch = '*' then 'x' else ch))) := by
  have hdir : ∀ base, dirname (pathJoin (dirname base) "LINGUAS".toList) = dirname base :=
    fun base => dirname_pathJoin (dirname_shape base) (by decide)
  refine ⟨fun b hb hne => ?_, fun h => ?_⟩
  · simpa [getLinguasPath, hb, hne] using hdir b
  · rcases h with h | h <;> simpa [getLinguasPath, h] using hdir _

/-- A new base file with no directory part, and, without a new base, a mask at the root. -/
theorem dirname_getLinguasPath_edges :
    dirname (getLinguasPath ⟨some "app.pot".toList, "/src".toList, "po/*.po".toList⟩) =
        dirname "app.pot".toList ∧
      dirname (getLinguasPath ⟨none, "/".toList, "*.po".toList⟩) =
        dirname (pathJoin "/".toList "x.po".toList) :=
  ⟨(dirname_getLinguasPath ⟨some "app.pot".toList, "/src".toList, "po/*.po".toList⟩).1 _ rfl
      (by decide),
    (dirname_getLinguasPath ⟨none, "/".toList, "*.po".toList⟩).2 (.inl rfl)⟩

/-- `UpdateLinguasAddon.can_install(component, user)`, after `super().can_install`: the LINGUAS
path is not empty and the file exists. -/
def canInstall (superCanInstall : Bool) (h : Host) (c : LinguasComponent) : Bool :=
  superCanInstall && !(getLinguasPath c).isEmpty && (h.files (getLinguasPath c)).isSome

/-- `sync_linguas(component, path)` on the component: the file read, edited and written back
when changed; `none` when the file is missing, as `open(path)` raises. -/
def syncLinguasAt (h : Host) (path : Str) (codes : CodeSet) : Option (Host × Bool) :=
  (h.files path).map fun text =>
    ((if (syncLinguas text codes).1 then h.setFile path (some (syncLinguas text codes).2) else h),
      (syncLinguas text codes).1)

/-- `UpdateLinguasAddon.daily(component)`. -/
def daily (h : Host) (c : LinguasComponent) (codes : CodeSet) : Option (Host × List Call) :=
  (syncLinguasAt h (getLinguasPath c) codes).map fun (h, changed) =>
    (h, if changed then [.commitAndPush [getLinguasPath c] false] else [])

/-- `UpdateLinguasAddon.post_add(translation)`: the translation's commit files afterwards. -/
def postAdd (h : Host) (c : LinguasComponent) (codes : CodeSet) (commitFiles : List Str) :
    Option (Host × List Str) :=
  (syncLinguasAt h (getLinguasPath c) codes).map fun (h, changed) =>
    (h, if changed then commitFiles ++ [getLinguasPath c] else commitFiles)

/-- Daily runs of the add-on, each with its own enumeration of the component's codes. -/
def dailyRuns (c : LinguasComponent) : List CodeSet → Host → Option (Host × List Call)
  | [], h => some (h, [])
  | codes :: rest, h => (daily h c codes).bind fun (h, calls) =>
    (dailyRuns c rest h).map fun (h', calls') => (h', calls ++ calls')

theorem syncLinguasAt_eq {h : Host} {path text : Str} (ht : h.files path = some text)
    (codes : CodeSet) :
    syncLinguasAt h path codes = some (if (updateLinguas (readLines text) codes).1 then
      (h.setFile path (some (writeLines (updateLinguas (readLines text) codes).2)), true)
      else (h, false)) := by
  rw [syncLinguasAt, ht, Option.map_some', syncLinguas]
  cases updateLinguas (readLines text) codes with
  | mk changed lines => cases changed <;> rfl

theorem daily_eq {h : Host} {c : LinguasComponent} {text : Str}
    (ht : h.files (getLinguasPath c) = some text) (codes : CodeSet) :
    daily h c codes = some (if (updateLinguas (readLines text) codes).1 then
      (h.setFile (getLinguasPath c) (some (writeLines (updateLinguas (readLines text) codes).2)),
        [.commitAndPush [getLinguasPath c] false])
      else (h, [])) := by
  rw [daily, syncLinguasAt_eq ht]
  cases (updateLinguas (readLines text) codes).1 <;> rfl

theorem syncLinguasAt_reads {h : Host} {path text : Str} (ht : h.files path = some text)
    (codes : CodeSet) (hM : ∀ l ∈ (updateLinguas (readLines text) codes).2, FullLine l) :
    ∃ h' changed text', syncLinguasAt h path codes = some (h', changed) ∧
      h'.files path = some text' ∧ readLines text' = (updateLinguas (readLines text) codes).2 := by
  rw [syncLinguasAt_eq ht]
  cases hch : (updateLinguas (readLines text) codes).1
  · exact ⟨h, false, text, rfl, ht, (updateLinguas_of_not_changed hch).symm⟩
  · exact ⟨_, true, _, rfl, Host.setFile_files_self _ _ _,
      readLines_writeLines (ReadForm.of_fullLine hM)⟩

theorem daily_of_settled {h : Host} {c : LinguasComponent} {text : Str} {codes : CodeSet}
    (ht : h.files (getLinguasPath c) = some text) (hs : Settled codes (readLines text)) :
    daily h c codes = some (h, []) := by
  rw [daily_eq ht, hs]
  rfl

theorem dailyRuns_commits_aux (c : LinguasComponent) {codes : CodeSet}
    (hc : ∀ x ∈ codes.elems, IsCode x) :
    ∀ (runs : List CodeSet), (∀ r ∈ runs, r.elems.Perm codes.elems) →
      ∀ (h : Host) (text : Str), h.files (getLinguasPath c) = some text →
        (∀ l ∈ readLines text, FullLine l) →
        ∃ h' k, dailyRuns c runs h = some (h', List.replicate k
            (.commitAndPush [getLinguasPath c] false)) ∧
          k ≤ spaceLines (readLines text) + 1 ∧ (Settled codes (readLines text) → k = 0)
  | [], _, h, _, _, _ => ⟨h, 0, rfl, Nat.zero_le _, fun _ => rfl⟩
  | r :: runs, hp, h, text, ht, hL => by
    have hpr := hp r (List.mem_cons_self _ _)
    have hcr : ∀ x ∈ r.elems, IsCode x := fun x hx => hc x (hpr.subset hx)
    have hruns := fun r' hr' => hp r' (List.mem_cons_of_mem _ hr')
    cases hch : (updateLinguas (readLines text) r).1
    · have hsettled : Settled r (readLines text) := Prod.ext hch (updateLinguas_of_not_changed hch)
      obtain ⟨h', k, hrun, hk, hk0⟩ := dailyRuns_commits_aux c hc runs hruns h text ht hL
      have hk' : k = 0 := hk0 (hsettled.of_perm hpr)
      refine ⟨h', k, ?_, hk, fun _ => hk'⟩
      simp [dailyRuns, daily_eq ht, hch, hrun]
    · have hstep := settled_or_spaceLines_lt (readLines text) hcr
      set M := (updateLinguas (readLines text) r).2 with hMdef
      have hM : ∀ l ∈ M, FullLine l := fullLine_updateLinguas hcr hL
      have hread : readLines (writeLines M) = M := readLines_writeLines (ReadForm.of_fullLine hM)
      obtain ⟨h', k, hrun, hk, hk0⟩ := dailyRuns_commits_aux c hc runs hruns
        (h.setFile (getLinguasPath c) (some (writeLines M))) (writeLines M) (by simp)
        (by rw [hread]; exact hM)
      rw [hread] at hk hk0
      refine ⟨h', k + 1, ?_, ?_, fun hs => ?_⟩
      · simp [dailyRuns, daily_eq ht, hch, hrun, ← hMdef, List.replicate_succ]
      · rcases hstep with hs | hlt
        · rw [hk0 (hs.of_perm hpr)]
          omega
        · omega
      · have := (hs.of_perm hpr.symm)
        rw [Settled] at this
        simp [this] at hch

/-- Daily runs with the component's codes unchanged, each run enumerating the code set in its
own order, on a LINGUAS file whose lines all end in a newline: every run succeeds, and the
runs together commit the file at most once more than it has lines naming several codes. -/
theorem dailyRuns_commits_le (c : LinguasComponent) (codes : CodeSet)
    (hc : ∀ x ∈ codes.elems, IsCode x) (runs : List CodeSet)
    (hp : ∀ r ∈ runs, r.elems.Perm codes.elems) (h : Host) (text : Str)
    (ht : h.files (getLinguasPath c) = some text)
    (hnl : ∀ l ∈ readLines text, l.getLast? = some '\n') :
    ∃ h' k, dailyRuns c runs h =
        some (h', List.replicate k (.commitAndPush [getLinguasPath c] false)) ∧
      k ≤ spaceLines (readLines text) + 1 := by
  obtain ⟨h', k, hrun, hk, -⟩ :=
    dailyRuns_commits_aux c hc runs hp h text ht ((readForm_readLines text).fullLine hnl)
  exact ⟨h', k, hrun, hk⟩

/-- On a component the add-on can be installed on, whose LINGUAS file has lines that end in a
newline and name one code at most each: `post_add` opens the file, and a daily run after it,
with the same codes enumerated in any order, finds the file up to date, so it writes nothing and
commits nothing. -/
theorem daily_idle_after_postAdd (c : LinguasComponent) (h : Host) (codes : CodeSet)
    (hc : ∀ x ∈ codes.elems, IsCode x) (hci : canInstall true h c = true)
    (hfile : ∀ text, h.files (getLinguasPath c) = some text →
      (∀ l ∈ readLines text, l.getLast? = some '\n') ∧ spaceLines (readLines text) = 0)
    (commitFiles : List Str) (later : CodeSet) (hp : later.elems.Perm codes.elems) :
    ∃ h' files, postAdd h c codes commitFiles = some (h', files) ∧
      daily h' c later = some (h', []) := by
  obtain ⟨text, ht⟩ := Option.isSome_iff_exists.mp (by simp [canInstall] at hci; exact hci.2)
  obtain ⟨hnl, hzero⟩ := hfile text ht
  have hL := (readForm_readLines text).fullLine hnl
  have hset : Settled codes (updateLinguas (readLines text) codes).2 :=
    (settled_or_spaceLines_lt _ hc).resolve_right (by omega)
  obtain ⟨h', changed, text', hs, ht', hr⟩ :=
    syncLinguasAt_reads ht codes (fullLine_updateLinguas hc hL)
  refine ⟨h', _, by rw [postAdd, hs]; rfl, daily_of_settled ht' ?_⟩
  rw [hr]
  exact hset.of_perm hp.symm

/-- A component whose new base file is `po/app.pot`. -/
def poComponent : LinguasComponent :=
  ⟨some "po/app.pot".toList, "/srv".toList, "po/*.po".toList⟩

/-- `po/LINGUAS` with two lines naming several codes and a code line after them. -/
def legacyLinguas : Host :=
  ⟨fun _ => none, fun p =>
    if p = "po/LINGUAS".toList then some "en fr\nde es\nit\n".toList else none⟩

def codesIt : CodeSet := ⟨["it".toList], by decide⟩

/-- Four daily runs with the one code `it`: the bound allows three commits, and the runs make
three (`it`, then a blank line for `de es`, then the second `it` dropped). -/
theorem dailyRuns_commits_le_legacy :
    (∀ x ∈ codesIt.elems, IsCode x) ∧
      (∀ r ∈ [codesIt, codesIt, codesIt, codesIt], r.elems.Perm codesIt.elems) ∧
      legacyLinguas.files (getLinguasPath poComponent) = some "en fr\nde es\nit\n".toList ∧
      (∀ l ∈ readLines "en fr\nde es\nit\n".toList, l.getLast? = some '\n') ∧
      ∃ h' k, dailyRuns poComponent [codesIt, codesIt, codesIt, codesIt] legacyLinguas =
          some (h', List.replicate k (.commitAndPush [getLinguasPath poComponent] false)) ∧
        k ≤ spaceLines (readLines "en fr\nde es\nit\n".toList) + 1 :=
  have hc : ∀ x ∈ codesIt.elems, IsCode x := by decide
  have hp : ∀ r ∈ [codesIt, codesIt, codesIt, codesIt], r.elems.Perm codesIt.elems := by decide
  have ht : legacyLinguas.files (getLinguasPath poComponent) =
      some "en fr\nde es\nit\n".toList := by
    decide
  have hnl : ∀ l ∈ readLines "en fr\nde es\nit\n".toList, l.getLast? = some '\n' := by decide
  ⟨hc, hp, ht, hnl, dailyRuns_commits_le poComponent codesIt hc _ hp legacyLinguas _ ht hnl⟩

/-- `po/LINGUAS` listing `de` and `fr`, one a line. -/
def linguasDeFr : Host :=
  ⟨fun _ => none, fun p => if p = "po/LINGUAS".toList then some "de\nfr\n".toList else none⟩

def codesDeIt : CodeSet := ⟨["de".toList, "it".toList], by decide⟩

def codesItDe : CodeSet := ⟨["it".toList, "de".toList], by decide⟩

/-- A translation to `it` added next to `de`, `fr` dropped, then a daily run enumerating the
codes the other way round. -/
theorem daily_idle_after_postAdd_it :
    (∀ x ∈ codesDeIt.elems, IsCode x) ∧ canInstall true linguasDeFr poComponent = true ∧
      (∀ text, linguasDeFr.files (getLinguasPath poComponent) = some text →
        (∀ l ∈ readLines text, l.getLast? = some '\n') ∧ spaceLines (readLines text) = 0) ∧
      codesItDe.elems.Perm codesDeIt.elems ∧
      ∃ h' files, postAdd linguasDeFr poComponent codesDeIt [] = some (h', files) ∧
        daily h' poComponent codesItDe = some (h', []) :=
  have hc : ∀ x ∈ codesDeIt.elems, IsCode x := by decide
  have hci : canInstall true linguasDeFr poComponent = true := by decide
  have hfile : ∀ text, linguasDeFr.files (getLinguasPath poComponent) = some text →
      (∀ l ∈ readLines text, l.getLast? = some '\n') ∧ spaceLines (readLines text) = 0 :=
    fun text ht => by
      obtain rfl := Option.some.inj ((show linguasDeFr.files (getLinguasPath poComponent) =
        some "de\nfr\n".toList by decide).symm.trans ht)
      decide
  have hp : codesItDe.elems.Perm codesDeIt.elems := List.Perm.swap _ _ []
  ⟨hc, hci, hfile, hp,
    daily_idle_after_postAdd poComponent linguasDeFr codesDeIt hc hci hfile [] codesItDe hp⟩

/-- The three commits of those runs. -/
example :
    (dailyRuns poComponent [codesIt, codesIt, codesIt, codesIt] legacyLinguas).map Prod.snd =
      some (List.replicate 3 (.commitAndPush ["po/LINGUAS".toList] false)) := by
  decide

end UpdateLinguasAddon

end WeblateGettext
