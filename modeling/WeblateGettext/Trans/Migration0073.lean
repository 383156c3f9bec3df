import WeblateGettext.Text

/-!
# The migration `trans.0073`: `calculate_id_hash`

The migration fills the new column `content_hash` of `Comment`, `Check` and `Suggestion` and
the new column `id_hash` of `Source`. For each unit it sets and saves the unit's two hashes
and writes them into the rows its filters select; afterwards every row whose column is
still 0 is deleted as stale. `calculate_hash` comes from `weblate.utils.hash`, which is not
part of the repository, and is a parameter here.

The filter of the content models is written in the source as two keyword arguments and a
`Q` expression with no comma before it; it is read here as the conjunction of its three
conditions.
-/

namespace WeblateGettext

namespace Trans

set_option autoImplicit false

/-- The fields of a `Unit` that the migration reads or writes; `project`, `subproject`,
`template` and `language` are reached through `unit.translation`, and `template` is read as
the condition of `if unit.translation.subproject.template`. -/
structure Unit where
  source : Str
  context : Str
  contentsum : Str
  checksum : Str
  project : Nat
  subproject : Nat
  template : Bool
  language : Nat
  contentHash : Int
  idHash : Int
deriving DecidableEq, Repr

/-- A row of `Comment`, `Check` or `Suggestion`: the fields the migration reads or writes. -/
structure ContentRow where
  project : Nat
  contentsum : Str
  language : Option Nat
  contentHash : Int
deriving DecidableEq, Repr

/-- A row of `Source`: the fields the migration reads or writes. -/
structure SourceRow where
  subproject : Nat
  checksum : Str
  idHash : Int
deriving DecidableEq, Repr

inductive ContentModel
  | comment
  | check
  | suggestion
deriving DecidableEq, Repr

/-- `content_models = (Comment, Check, Suggestion)`. -/
def contentModels : List ContentModel := [.comment, .check, .suggestion]

structure Tables where
  comments : List ContentRow
  checks : List ContentRow
  suggestions : List ContentRow
  sources : List SourceRow
deriving DecidableEq, Repr

structure Db where
  units : List Unit
  tables : Tables
deriving DecidableEq, Repr

namespace Tables

def content (t : Tables) : ContentModel → List ContentRow
  | .comment => t.comments
  | .check => t.checks
  | .suggestion => t.suggestions

/-- One statement on the rows of one content model. -/
def modifyContent (t : Tables) (f : List ContentRow → List ContentRow) : ContentModel → Tables
  | .comment => { t with comments := f t.comments }
  | .check => { t with checks := f t.checks }
  | .suggestion => { t with suggestions := f t.suggestions }

/-- `for model in content_models:` the same statement on each content model. -/
def forContentModels (t : Tables) (f : List ContentRow → List ContentRow) : Tables :=
  contentModels.foldl (fun t m => t.modifyContent f m) t

@[simp] theorem content_forContentModels (t : Tables) (f : List ContentRow → List ContentRow)
    (m : ContentModel) : (t.forContentModels f).content m = f (t.content m) := by
  cases m <;> rfl

@[simp] theorem sources_forContentModels (t : Tables) (f : List ContentRow → List ContentRow) :
    (t.forContentModels f).sources = t.sources := rfl

@[simp] theorem content_with_sources (t : Tables) (s : List SourceRow) (m : ContentModel) :
    ({ t with sources := s } : Tables).content m = t.content m := by
  cases m <;> rfl

theorem ext_content {t t' : Tables} (h : ∀ m, t.content m = t'.content m)
    (hs : t.sources = t'.sources) : t = t' := by
  cases t
  cases t'
  have := h .comment
  have := h .check
  have := h .suggestion
  simp_all [content]

/-- The state the migration starts from: the new columns still hold their default 0. -/
def Unmigrated (t : Tables) : Prop :=
  (∀ m, ∀ row ∈ t.content m, row.contentHash = 0) ∧ ∀ row ∈ t.sources, row.idHash = 0

end Tables

/-! ## Hash columns

The content models and `Source` are updated and cleaned by the same two statements, each on
its own column, so the statements and their laws are stated once for a column. -/

/-- A hash column of a table: reading it and writing it. -/
structure HashColumn (α : Type) where
  get : α → Int
  set : α → Int → α
  get_set : ∀ row value, get (set row value) = value
  set_set : ∀ row v w, set (set row v) w = set row w

def contentHashColumn : HashColumn ContentRow :=
  ⟨ContentRow.contentHash, fun row v => { row with contentHash := v }, fun _ _ => rfl,
    fun _ _ _ => rfl⟩

def idHashColumn : HashColumn SourceRow :=
  ⟨SourceRow.idHash, fun row v => { row with idHash := v }, fun _ _ => rfl, fun _ _ _ => rfl⟩

namespace HashColumn

variable {α : Type} (col : HashColumn α)

/-- `Model.objects.filter(selected).update(column=value)`. -/
def update (selected : α → Bool) (value : Int) (rows : List α) : List α :=
  rows.map fun row => if selected row then col.set row value else row

/-- `Model.objects.filter(column=0).delete()`. -/
def deleteZero (rows : List α) : List α := rows.filter fun row => col.get row != 0

section Units

variable (sel : Unit → α → Bool) (val : Unit → Int)

/-- A row after the updates of `units`, in order: it holds the value of the last unit whose
filter selects it. -/
def lastValue (units : List Unit) (row : α) : α :=
  match units.reverse.find? (sel · row) with
  | none => row
  | some u => col.set row (val u)

/-- What the migration makes of a row whose column is 0: kept with the value of the last unit
that selects it, unless that value is 0; deleted when no unit selects it. -/
def migrated (units : List Unit) (row : α) : Option α :=
  (units.reverse.find? (sel · row)).bind fun u =>
    if val u = 0 then none else some (col.set row (val u))

@[simp] theorem lastValue_nil : col.lastValue sel val [] = id := rfl

variable {sel} (hsel : ∀ u row v, sel u (col.set row v) = sel u row)
include hsel

theorem lastValue_cons (u : Unit) (units : List Unit) (row : α) :
    col.lastValue sel val (u :: units) row =
      col.lastValue sel val units (if sel u row then col.set row (val u) else row) := by
  have hfind : ∀ v, units.reverse.find? (sel · (col.set row v)) =
      units.reverse.find? (sel · row) := fun v => by simp only [hsel]
  unfold lastValue
  rw [List.reverse_cons, List.find?_append]
  by_cases hu : sel u row = true
  · rw [if_pos hu, hfind]
    cases units.reverse.find? (sel · row) <;> simp [hu, col.set_set]
  · rw [if_neg hu]
    cases units.reverse.find? (sel · row) <;> simp [hu]

theorem map_update_lastValue (u : Unit) (units rows : List _) :
    (col.update (sel u) (val u) rows).map (col.lastValue sel val units) =
      rows.map (col.lastValue sel val (u :: units)) := by
  simp only [update, List.map_map]
  exact List.map_congr_left fun row _ => (col.lastValue_cons val hsel u units row).symm

theorem lastValue_lastValue (units : List Unit) (row : α) :
    col.lastValue sel val units (col.lastValue sel val units row) =
      col.lastValue sel val units row := by
  unfold lastValue
  cases h : units.reverse.find? (sel · row) with
  | none => simp [h]
  | some u => simp only [hsel, h, col.set_set]

end Units

theorem lastValue_perm {sel : Unit → α → Bool} {val : Unit → Int} {units units' : List Unit}
    (hp : units.Perm units') (row : α)
    (hagree : ∀ u ∈ units, ∀ v ∈ units, sel u row → sel v row → val u = val v) :
    col.lastValue sel val units row = col.lastValue sel val units' row := by
  unfold lastValue
  cases h : units.reverse.find? (sel · row) with
  | none =>
    cases h' : units'.reverse.find? (sel · row) with
    | none => rfl
    | some v =>
      have hv := hp.symm.subset (List.mem_reverse.mp (List.mem_of_find?_eq_some h'))
      exact absurd (List.find?_some h') (List.find?_eq_none.mp h v (List.mem_reverse.mpr hv))
  | some u =>
    have hu := List.mem_reverse.mp (List.mem_of_find?_eq_some h)
    cases h' : units'.reverse.find? (sel · row) with
    | none =>
      exact absurd (List.find?_some h)
        (List.find?_eq_none.mp h' u (List.mem_reverse.mpr (hp.subset hu)))
    | some v =>
      have hv := hp.symm.subset (List.mem_reverse.mp (List.mem_of_find?_eq_some h'))
      show col.set row (val u) = col.set row (val v)
      rw [hagree u hu v hv (by simpa using List.find?_some h) (by simpa using List.find?_some h')]

theorem lastValue_map {sel : Unit → α → Bool} {val : Unit → Int} (f : Unit → Unit)
    (hf : ∀ u row, sel (f u) row = sel u row) (hv : ∀ u, val (f u) = val u)
    (units : List Unit) :
    col.lastValue sel val (units.map f) = col.lastValue sel val units := by
  funext row
  unfold lastValue
  rw [← List.map_reverse, List.find?_map]
  have hcomp : ((sel · row) ∘ f) = (sel · row) := funext fun u => hf u row
  rw [hcomp]
  cases units.reverse.find? (sel · row) <;> simp [hv]

theorem lastValue_perm_map {sel : Unit → α → Bool} {val : Unit → Int} {f : Unit → Unit}
    {units units' : List Unit} (hp : units.Perm (units'.map f))
    (hagree : ∀ row, ∀ u ∈ units', ∀ v ∈ units', sel u row → sel v row → val u = val v)
    (hf : ∀ u row, sel (f u) row = sel u row) (hv : ∀ u, val (f u) = val u) :
    col.lastValue sel val units = col.lastValue sel val units' := by
  funext row
  refine (col.lastValue_perm hp row fun u hu v hv' => ?_).trans
    (congrFun (col.lastValue_map f hf hv units') row)
  obtain ⟨u₀, hu₀, rfl⟩ := List.mem_map.mp (hp.subset hu)
  obtain ⟨v₀, hv₀, rfl⟩ := List.mem_map.mp (hp.subset hv')
  simpa only [hf, hv] using hagree row u₀ hu₀ v₀ hv₀

variable {sel : Unit → α → Bool} (val : Unit → Int)

theorem deleteZero_map_deleteZero (hsel : ∀ u row v, sel u (col.set row v) = sel u row)
    (units : List Unit) (rows : List α) :
    col.deleteZero ((col.deleteZero (rows.map (col.lastValue sel val units))).map
        (col.lastValue sel val units)) =
      col.deleteZero (rows.map (col.lastValue sel val units)) := by
  have hfix : (col.deleteZero (rows.map (col.lastValue sel val units))).map
      (col.lastValue sel val units) = col.deleteZero (rows.map (col.lastValue sel val units)) := by
    refine (List.map_congr_left (g := id) fun x hx => ?_).trans (List.map_id _)
    obtain ⟨row, -, rfl⟩ := List.mem_map.mp (List.mem_filter.mp hx).1
    exact col.lastValue_lastValue val hsel units row
  rw [hfix]
  simp only [deleteZero, List.filter_filter, Bool.and_self]

theorem deleteZero_map_lastValue (units : List Unit) :
    ∀ rows : List α, (∀ row ∈ rows, col.get row = 0) →
      col.deleteZero (rows.map (col.lastValue sel val units)) =
        rows.filterMap (col.migrated sel val units)
  | [], _ => rfl
  | row :: rows, hz => by
    have ih := deleteZero_map_lastValue units rows fun r hr => hz r (List.mem_cons_of_mem _ hr)
    simp only [deleteZero, List.map_cons, List.filter_cons, List.filterMap_cons] at ih ⊢
    rw [← ih]
    unfold lastValue migrated
    cases units.reverse.find? (sel · row) with
    | none => simp [hz row (List.mem_cons_self _ _)]
    | some u => by_cases hv : val u = 0 <;> simp [hv, col.get_set]

theorem migrated_of_ne_zero {units : List Unit} (hnz : ∀ u ∈ units, val u ≠ 0) (row : α) :
    col.migrated sel val units row =
      (units.reverse.find? (sel · row)).map fun u => col.set row (val u) := by
  unfold migrated
  cases h : units.reverse.find? (sel · row) with
  | none => rfl
  | some u => simp [hnz u (List.mem_reverse.mp (List.mem_of_find?_eq_some h))]

end HashColumn

/-! ## The migration -/

/-- The filter of the content models for `unit`: its project, its `contentsum`, and its
language or none. -/
def selectsContent (unit : Unit) (row : ContentRow) : Bool :=
  row.project == unit.project && row.contentsum == unit.contentsum &&
    (row.language == some unit.language || row.language == none)

/-- `Source.objects.filter(subproject=unit.translation.subproject, checksum=unit.checksum)`. -/
def selectsSource (unit : Unit) (row : SourceRow) : Bool :=
  row.subproject == unit.subproject && row.checksum == unit.checksum

theorem selectsContent_set (unit : Unit) (row : ContentRow) (v : Int) :
    selectsContent unit (contentHashColumn.set row v) = selectsContent unit row := rfl

theorem selectsSource_set (unit : Unit) (row : SourceRow) (v : Int) :
    selectsSource unit (idHashColumn.set row v) = selectsSource unit row := rfl

/-- The updates of the loop body for a unit whose hashes are set. -/
def updateRows (tables : Tables) (unit : Unit) : Tables :=
  let tables :=
    tables.forContentModels (contentHashColumn.update (selectsContent unit) unit.contentHash)
  { tables with sources := idHashColumn.update (selectsSource unit) unit.idHash tables.sources }

section Migration

variable (calculateHash : Option Str → Str → Int)

/-- The hashes the loop sets on `unit` before `unit.save(update_fields=...)`. -/
def setHashes (unit : Unit) : Unit :=
  let contentHash := calculateHash (some unit.source) unit.context
  { unit with
    contentHash := contentHash
    idHash := if unit.template then calculateHash none unit.context else contentHash }

/-- One pass of `for unit in units.iterator()`: the units saved so far and the tables. -/
def forUnit (acc : List Unit × Tables) (unit : Unit) : List Unit × Tables :=
  let unit := setHashes calculateHash unit
  (acc.1 ++ [unit], updateRows acc.2 unit)

/-- `calculate_id_hash(apps, schema_editor)`. -/
def calculateIdHash (db : Db) : Db :=
  let (units, tables) := db.units.foldl (forUnit calculateHash) ([], db.tables)
  let tables := tables.forContentModels contentHashColumn.deleteZero
  { units := units, tables := { tables with sources := idHashColumn.deleteZero tables.sources } }

/-- What the migration makes of a row of a content model. -/
def migratedContent (units : List Unit) : ContentRow → Option ContentRow :=
  contentHashColumn.migrated selectsContent (fun u => calculateHash (some u.source) u.context)
    units

/-- What the migration makes of a row of `Source`. -/
def migratedSource (units : List Unit) : SourceRow → Option SourceRow :=
  idHashColumn.migrated selectsSource (fun u => (setHashes calculateHash u).idHash) units

theorem foldl_forUnit (units : List Unit) : ∀ (saved : List Unit) (t : Tables),
    (units.foldl (forUnit calculateHash) (saved, t)).1 =
        saved ++ units.map (setHashes calculateHash) ∧
      (∀ m, (units.foldl (forUnit calculateHash) (saved, t)).2.content m =
        (t.content m).map (contentHashColumn.lastValue selectsContent
          (fun u => calculateHash (some u.source) u.context) units)) ∧
      (units.foldl (forUnit calculateHash) (saved, t)).2.sources =
        t.sources.map (idHashColumn.lastValue selectsSource
          (fun u => (setHashes calculateHash u).idHash) units) := by
  induction units with
  | nil => simp
  | cons u units ih =>
    intro saved t
    obtain ⟨h1, h2, h3⟩ := ih (saved ++ [setHashes calculateHash u])
      (updateRows t (setHashes calculateHash u))
    refine ⟨by simp [forUnit, h1], fun m => ?_, ?_⟩
    · rw [List.foldl_cons, forUnit, h2]
      simp only [updateRows, Tables.content_with_sources, Tables.content_forContentModels]
      exact contentHashColumn.map_update_lastValue _ selectsContent_set u units _
    · rw [List.foldl_cons, forUnit, h3]
      exact idHashColumn.map_update_lastValue _ selectsSource_set u units _

theorem calculateIdHash_units (db : Db) :
    (calculateIdHash calculateHash db).units = db.units.map (setHashes calculateHash) := by
  simpa using (foldl_forUnit calculateHash db.units [] db.tables).1

/-- From columns still at 0, each row of a content model is deleted when no unit selects it,
and otherwise kept with `calculate_hash(source, context)` of the last unit that selects it,
unless that hash is 0; each row of `Source` likewise with the last selecting unit's
`id_hash`. -/
theorem calculateIdHash_tables (db : Db) (hz : db.tables.Unmigrated) :
    (∀ m, (calculateIdHash calculateHash db).tables.content m =
        (db.tables.content m).filterMap (migratedContent calculateHash db.units)) ∧
      (calculateIdHash calculateHash db).tables.sources =
        db.tables.sources.filterMap (migratedSource calculateHash db.units) := by
  obtain ⟨-, h2, h3⟩ := foldl_forUnit calculateHash db.units [] db.tables
  refine ⟨fun m => ?_, ?_⟩
  · simp only [calculateIdHash, Tables.content_with_sources, Tables.content_forContentModels, h2]
    exact contentHashColumn.deleteZero_map_lastValue _ _ _ (hz.1 m)
  · simp only [calculateIdHash, Tables.sources_forContentModels, h3]
    exact idHashColumn.deleteZero_map_lastValue _ _ _ hz.2

/-- One source string in two translations of a subproject without template: a comment on the
string in no language, a check on the German translation, an unrelated comment, and the
string's `Source` row next to one of another subproject. -/
def twoTranslations : Db where
  units :=
    [⟨"Hello".toList, [], "c1".toList, "k1".toList, 1, 1, false, 1, 0, 0⟩,
      ⟨"Hello".toList, [], "c1".toList, "k1".toList, 1, 1, false, 2, 0, 0⟩]
  tables :=
    { comments := [⟨1, "c1".toList, none, 0⟩, ⟨1, "c2".toList, some 1, 0⟩]
      checks := [⟨1, "c1".toList, some 2, 0⟩]
      suggestions := []
      sources := [⟨1, "k1".toList, 0⟩, ⟨2, "k1".toList, 0⟩] }

theorem calculateIdHash_tables_two_translations :
    twoTranslations.tables.Unmigrated ∧
      (∀ m, (calculateIdHash (fun _ _ => 7) twoTranslations).tables.content m =
          (twoTranslations.tables.content m).filterMap
            (migratedContent (fun _ _ => 7) twoTranslations.units)) ∧
        (calculateIdHash (fun _ _ => 7) twoTranslations).tables.sources =
          twoTranslations.tables.sources.filterMap
            (migratedSource (fun _ _ => 7) twoTranslations.units) :=
  have hz : twoTranslations.tables.Unmigrated := ⟨fun m => by cases m <;> decide, by decide⟩
  ⟨hz, calculateIdHash_tables (fun _ _ => 7) twoTranslations hz⟩

/-- The same database, with a `calculate_hash` that returns 0 for the units' source and
context only: the comment, the check and the `Source` row that the units select are deleted
as stale. -/
example :
    (∀ row ∈ twoTranslations.tables.comments.take 1 ++ twoTranslations.tables.checks,
        twoTranslations.units.any (selectsContent · row) = true) ∧
      twoTranslations.units.any (selectsSource · ⟨1, "k1".toList, 0⟩) = true ∧
      (calculateIdHash (fun source _ => if source = some "Hello".toList then 0 else 7)
          twoTranslations).tables =
        { comments := [], checks := [], suggestions := [], sources := [] } := by
  decide

theorem content_calculateIdHash (db : Db) (m : ContentModel) :
    (calculateIdHash calculateHash db).tables.content m =
      contentHashColumn.deleteZero ((db.tables.content m).map (contentHashColumn.lastValue
        selectsContent (fun u => calculateHash (some u.source) u.context) db.units)) := by
  simp only [calculateIdHash, Tables.content_with_sources, Tables.content_forContentModels,
    (foldl_forUnit calculateHash db.units [] db.tables).2.1]

theorem sources_calculateIdHash (db : Db) :
    (calculateIdHash calculateHash db).tables.sources =
      idHashColumn.deleteZero (db.tables.sources.map (idHashColumn.lastValue
        selectsSource (fun u => (setHashes calculateHash u).idHash) db.units)) := by
  simp only [calculateIdHash, Tables.sources_forContentModels,
    (foldl_forUnit calculateHash db.units [] db.tables).2.2]

theorem agree_selectsContent {units : List Unit}
    (hcontent : ∀ u ∈ units, ∀ v ∈ units, u.project = v.project → u.contentsum = v.contentsum →
      calculateHash (some u.source) u.context = calculateHash (some v.source) v.context)
    (row : ContentRow) :
    ∀ u ∈ units, ∀ v ∈ units, selectsContent u row → selectsContent v row →
      calculateHash (some u.source) u.context = calculateHash (some v.source) v.context := by
  intro u hu v hv hsu hsv
  simp only [selectsContent, Bool.and_eq_true, beq_iff_eq] at hsu hsv
  exact hcontent u hu v hv (hsu.1.1.symm.trans hsv.1.1) (hsu.1.2.symm.trans hsv.1.2)

theorem agree_selectsSource {units : List Unit}
    (hsource : ∀ u ∈ units, ∀ v ∈ units, u.subproject = v.subproject →
      u.checksum = v.checksum →
        (setHashes calculateHash u).idHash = (setHashes calculateHash v).idHash)
    (row : SourceRow) :
    ∀ u ∈ units, ∀ v ∈ units, selectsSource u row → selectsSource v row →
      (setHashes calculateHash u).idHash = (setHashes calculateHash v).idHash := by
  intro u hu v hv hsu hsv
  simp only [selectsSource, Bool.and_eq_true, beq_iff_eq] at hsu hsv
  exact hsource u hu v hv (hsu.1.symm.trans hsv.1) (hsu.2.symm.trans hsv.2)

theorem Db.ext_units {a b : Db} (hu : a.units = b.units) (ht : a.tables = b.tables) :
    a = b := by
  cases a
  cases b
  simp_all

/-- `units.iterator()` has no order, so a second run may visit the saved units in another one.
When the units that one filter selects write the same hash, running the migration again on the
database it left, over its units in any order, changes nothing: every unit keeps its hashes, no
row is updated to another value and no row is deleted. -/
theorem calculateIdHash_rerun (db : Db) (units : List Unit)
    (hp : units.Perm (calculateIdHash calculateHash db).units)
    (hcontent : ∀ u ∈ db.units, ∀ v ∈ db.units, u.project = v.project →
      u.contentsum = v.contentsum →
        calculateHash (some u.source) u.context = calculateHash (some v.source) v.context)
    (hsource : ∀ u ∈ db.units, ∀ v ∈ db.units, u.subproject = v.subproject →
      u.checksum = v.checksum →
        (setHashes calculateHash u).idHash = (setHashes calculateHash v).idHash) :
    calculateIdHash calculateHash { calculateIdHash calculateHash db with units := units } =
      { calculateIdHash calculateHash db with units := units } := by
  rw [calculateIdHash_units] at hp
  refine Db.ext_units ?_ (Tables.ext_content (fun m => ?_) ?_)
  · rw [calculateIdHash_units]
    refine (List.map_congr_left fun u hu => ?_).trans (List.map_id _)
    obtain ⟨u₀, -, rfl⟩ := List.mem_map.mp (hp.subset hu)
    rfl
  · simp only [content_calculateIdHash]
    rw [contentHashColumn.lastValue_perm_map hp (agree_selectsContent calculateHash hcontent)
      (fun _ _ => rfl) fun _ => rfl]
    exact contentHashColumn.deleteZero_map_deleteZero _ selectsContent_set _ _
  · simp only [sources_calculateIdHash]
    rw [idHashColumn.lastValue_perm_map hp (agree_selectsSource calculateHash hsource)
      (fun _ _ => rfl) fun _ => rfl]
    exact idHashColumn.deleteZero_map_deleteZero _ selectsSource_set _ _

/-- The second run over the two saved units in the other order. -/
theorem calculateIdHash_rerun_two_translations :
    (calculateIdHash (fun _ _ => 7) twoTranslations).units.reverse.Perm
        (calculateIdHash (fun _ _ => 7) twoTranslations).units ∧
      (∀ u ∈ twoTranslations.units, ∀ v ∈ twoTranslations.units, u.project = v.project →
        u.contentsum = v.contentsum →
          (fun _ _ => 7 : Option Str → Str → Int) (some u.source) u.context =
            (fun _ _ => 7 : Option Str → Str → Int) (some v.source) v.context) ∧
      (∀ u ∈ twoTranslations.units, ∀ v ∈ twoTranslations.units,
        u.subproject = v.subproject → u.checksum = v.checksum →
          (setHashes (fun _ _ => 7) u).idHash = (setHashes (fun _ _ => 7) v).idHash) ∧
      calculateIdHash (fun _ _ => 7) { calculateIdHash (fun _ _ => 7) twoTranslations with
          units := (calculateIdHash (fun _ _ => 7) twoTranslations).units.reverse } =
        { calculateIdHash (fun _ _ => 7) twoTranslations with
          units := (calculateIdHash (fun _ _ => 7) twoTranslations).units.reverse } :=
  have hp : (calculateIdHash (fun _ _ => 7) twoTranslations).units.reverse.Perm
      (calculateIdHash (fun _ _ => 7) twoTranslations).units := List.reverse_perm _
  have hc : ∀ u ∈ twoTranslations.units, ∀ v ∈ twoTranslations.units,
      u.project = v.project → u.contentsum = v.contentsum →
        (fun _ _ => 7 : Option Str → Str → Int) (some u.source) u.context =
          (fun _ _ => 7 : Option Str → Str → Int) (some v.source) v.context :=
    fun _ _ _ _ _ _ => rfl
  have hs : ∀ u ∈ twoTranslations.units, ∀ v ∈ twoTranslations.units,
      u.subproject = v.subproject → u.checksum = v.checksum →
        (setHashes (fun _ _ => 7) u).idHash = (setHashes (fun _ _ => 7) v).idHash := by decide
  ⟨hp, hc, hs, calculateIdHash_rerun (fun _ _ => 7) twoTranslations _ hp hc hs⟩

/-- `units.iterator()` has no order. When the units that one filter selects write the same
hash (units of one project with one `contentsum` hash to one content hash, and units of one
subproject with one `checksum` to one id hash), the migration leaves the same tables for any
order of the units, and the same units in that order. -/
theorem calculateIdHash_units_perm (db : Db) (units : List Unit) (hp : units.Perm db.units)
    (hcontent : ∀ u ∈ db.units, ∀ v ∈ db.units, u.project = v.project →
      u.contentsum = v.contentsum →
        calculateHash (some u.source) u.context = calculateHash (some v.source) v.context)
    (hsource : ∀ u ∈ db.units, ∀ v ∈ db.units, u.subproject = v.subproject →
      u.checksum = v.checksum →
        (setHashes calculateHash u).idHash = (setHashes calculateHash v).idHash) :
    (calculateIdHash calculateHash { db with units := units }).units.Perm
        (calculateIdHash calculateHash db).units ∧
      (calculateIdHash calculateHash { db with units := units }).tables =
        (calculateIdHash calculateHash db).tables := by
  refine ⟨by simpa only [calculateIdHash_units] using hp.map _,
    Tables.ext_content (fun m => ?_) ?_⟩
  · simp only [content_calculateIdHash]
    congr 1
    exact List.map_congr_left fun row _ => contentHashColumn.lastValue_perm hp row
      (agree_selectsContent calculateHash
        (fun u hu v hv => hcontent u (hp.subset hu) v (hp.subset hv)) row)
  · simp only [sources_calculateIdHash]
    congr 1
    exact List.map_congr_left fun row _ => idHashColumn.lastValue_perm hp row
      (agree_selectsSource calculateHash
        (fun u hu v hv => hsource u (hp.subset hu) v (hp.subset hv)) row)

/-- The two translations' units taken in the other order. -/
theorem calculateIdHash_units_perm_two_translations :
    twoTranslations.units.reverse.Perm twoTranslations.units ∧
      (∀ u ∈ twoTranslations.units, ∀ v ∈ twoTranslations.units, u.project = v.project →
        u.contentsum = v.contentsum →
          (fun _ _ => 7 : Option Str → Str → Int) (some u.source) u.context =
            (fun _ _ => 7 : Option Str → Str → Int) (some v.source) v.context) ∧
      (∀ u ∈ twoTranslations.units, ∀ v ∈ twoTranslations.units,
        u.subproject = v.subproject → u.checksum = v.checksum →
          (setHashes (fun _ _ => 7) u).idHash = (setHashes (fun _ _ => 7) v).idHash) ∧
      (calculateIdHash (fun _ _ => 7)
          { twoTranslations with units := twoTranslations.units.reverse }).units.Perm
          (calculateIdHash (fun _ _ => 7) twoTranslations).units ∧
        (calculateIdHash (fun _ _ => 7)
            { twoTranslations with units := twoTranslations.units.reverse }).tables =
          (calculateIdHash (fun _ _ => 7) twoTranslations).tables :=
  have hp : twoTranslations.units.reverse.Perm twoTranslations.units := List.reverse_perm _
  have hc : ∀ u ∈ twoTranslations.units, ∀ v ∈ twoTranslations.units,
      u.project = v.project → u.contentsum = v.contentsum →
        (fun _ _ => 7 : Option Str → Str → Int) (some u.source) u.context =
          (fun _ _ => 7 : Option Str → Str → Int) (some v.source) v.context :=
    fun _ _ _ _ _ _ => rfl
  have hs : ∀ u ∈ twoTranslations.units, ∀ v ∈ twoTranslations.units,
      u.subproject = v.subproject → u.checksum = v.checksum →
        (setHashes (fun _ _ => 7) u).idHash = (setHashes (fun _ _ => 7) v).idHash := by decide
  ⟨hp, hc, hs, calculateIdHash_units_perm (fun _ _ => 7) twoTranslations _ hp hc hs⟩

end Migration

end Trans

end WeblateGettext
