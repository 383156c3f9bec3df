import WeblateGettext.Text

/-!
# `UpdateLinguasAddon.update_linguas`

The loop of `update_linguas` is `forLines`: it records the indices of the lines to drop
and, at the first line naming several codes, rewrites that line and stops. The recorded
lines are then deleted from the last to the first, and the codes never met are appended.
`reconcile` reads the same computation line by line; `updateLinguas_eq` says that the two
agree, and the properties of the add-on are proved about `reconcile`.
-/

namespace WeblateGettext

set_option autoImplicit false

/-- A language code as it can stand on a LINGUAS line: non-empty, no whitespace, no `#`. -/
def IsCode (c : Str) : Prop := c ≠ [] ∧ ∀ ch ∈ c, isSpace ch = false ∧ ch ≠ '#'

instance (c : Str) : Decidable (IsCode c) := inferInstanceAs (Decidable (_ ∧ _))

/-- A Python `set` of `str`, listed in its iteration order. -/
structure CodeSet where
  elems : List Str
  nodup : elems.Nodup

namespace CodeSet

/-- `codes.remove(c)`. -/
def erase (s : CodeSet) (c : Str) : CodeSet := ⟨s.elems.erase c, s.nodup.erase c⟩

/-- `set()`. -/
def empty : CodeSet := ⟨[], List.nodup_nil⟩

@[simp] theorem erase_elems (s : CodeSet) (c : Str) : (s.erase c).elems = s.elems.erase c := rfl

@[simp] theorem empty_elems : empty.elems = [] := rfl

end CodeSet

namespace UpdateLinguasAddon

/-- `line.split("#", 1)[0].strip()`. -/
def stripped (line : Str) : Str := strip (beforeHash line)

/-- `" ".join(sorted(codes))`. -/
def expected (codes : List Str) : Str := join [' '] (sorted codes)

/-- The variables of `update_linguas` in its loop. -/
structure Vars where
  lines : List Str
  codes : CodeSet
  changed : Bool
  remove : List Nat

/-- `for i, line in enumerate(lines)`, from index `i` on. -/
def forLines (v : Vars) : Nat → List Str → Vars
  | _, [] => v
  | i, line :: rest =>
    if stripped line = [] then forLines v (i + 1) rest
    else if ' ' ∈ stripped line then
      if stripped line ≠ expected v.codes.elems then
        { v with lines := v.lines.set i (expected v.codes.elems ++ ['\n']), changed := true,
                 codes := .empty }
      else { v with codes := .empty }
    else if stripped line ∈ v.codes.elems then
      forLines { v with codes := v.codes.erase (stripped line) } (i + 1) rest
    else forLines { v with remove := v.remove ++ [i] } (i + 1) rest

/-- `for i in reversed(remove): del lines[i]`. -/
def delReversed (remove : List Nat) (lines : List Str) : List Str :=
  remove.reverse.foldl List.eraseIdx lines

/-- `UpdateLinguasAddon.update_linguas(lines, codes)`. -/
def updateLinguas (lines : List Str) (codes : CodeSet) : Bool × List Str :=
  let v := forLines ⟨lines, codes, false, []⟩ 0 lines
  let (changed, lines) :=
    if v.remove ≠ [] then (true, delReversed v.remove v.lines) else (v.changed, v.lines)
  if v.codes.elems ≠ [] then (true, lines ++ v.codes.elems.map (· ++ ['\n']))
  else (changed, lines)

/-! ## The computation read line by line -/

/-- What `update_linguas` does to a document: the lines it leaves before the append, the
codes it still appends, and whether it dropped or rewrote a line. -/
structure Reconciled where
  lines : List Str
  codes : List Str
  edited : Bool

def Reconciled.keep (line : Str) (r : Reconciled) : Reconciled := { r with lines := line :: r.lines }

def Reconciled.drop (r : Reconciled) : Reconciled := { r with edited := true }

/-- The pair `update_linguas` returns. -/
def Reconciled.result (r : Reconciled) : Bool × List Str :=
  (r.edited || !r.codes.isEmpty, r.lines ++ r.codes.map (· ++ ['\n']))

@[simp] theorem Reconciled.keep_lines (line : Str) (r : Reconciled) :
    (r.keep line).lines = line :: r.lines := rfl
@[simp] theorem Reconciled.keep_codes (line : Str) (r : Reconciled) :
    (r.keep line).codes = r.codes := rfl
@[simp] theorem Reconciled.keep_edited (line : Str) (r : Reconciled) :
    (r.keep line).edited = r.edited := rfl
@[simp] theorem Reconciled.drop_lines (r : Reconciled) : r.drop.lines = r.lines := rfl
@[simp] theorem Reconciled.drop_codes (r : Reconciled) : r.drop.codes = r.codes := rfl
@[simp] theorem Reconciled.drop_edited (r : Reconciled) : r.drop.edited = true := rfl

/-- Each line kept, dropped, or (the first naming several codes) rewritten to end the scan. -/
def reconcile (codes : List Str) : List Str → Reconciled
  | [] => ⟨[], codes, false⟩
  | line :: rest =>
    if stripped line = [] then (reconcile codes rest).keep line
    else if ' ' ∈ stripped line then
      if stripped line ≠ expected codes then ⟨(expected codes ++ ['\n']) :: rest, [], true⟩
      else ⟨line :: rest, [], false⟩
    else if stripped line ∈ codes then (reconcile (codes.erase (stripped line)) rest).keep line
    else (reconcile codes rest).drop

section Branches

variable {codes : List Str} {line : Str} {rest : List Str}

theorem reconcile_of_blank (h : stripped line = []) :
    reconcile codes (line :: rest) = (reconcile codes rest).keep line := by
  rw [reconcile, if_pos h]

theorem reconcile_of_rewrite (hm : ' ' ∈ stripped line) (he : stripped line ≠ expected codes) :
    reconcile codes (line :: rest) = ⟨(expected codes ++ ['\n']) :: rest, [], true⟩ := by
  rw [reconcile, if_neg (List.ne_nil_of_mem hm), if_pos hm, if_pos he]

theorem reconcile_of_expected (hm : ' ' ∈ stripped line) (he : stripped line = expected codes) :
    reconcile codes (line :: rest) = ⟨line :: rest, [], false⟩ := by
  rw [reconcile, if_neg (List.ne_nil_of_mem hm), if_pos hm, if_neg (not_not.mpr he)]

theorem reconcile_of_mem (hb : stripped line ≠ []) (hm : ' ' ∉ stripped line)
    (hc : stripped line ∈ codes) :
    reconcile codes (line :: rest) = (reconcile (codes.erase (stripped line)) rest).keep line := by
  rw [reconcile, if_neg hb, if_neg hm, if_pos hc]

theorem reconcile_of_not_mem (hb : stripped line ≠ []) (hm : ' ' ∉ stripped line)
    (hc : stripped line ∉ codes) :
    reconcile codes (line :: rest) = (reconcile codes rest).drop := by
  rw [reconcile, if_neg hb, if_neg hm, if_neg hc]

end Branches

@[simp] theorem Reconciled.result_keep_snd (line : Str) (r : Reconciled) :
    (r.keep line).result.2 = line :: r.result.2 := rfl

@[simp] theorem Reconciled.result_drop_snd (r : Reconciled) : r.drop.result.2 = r.result.2 := rfl

/-! ## Deleting the recorded lines -/

@[simp] theorem delReversed_nil (xs : List Str) : delReversed [] xs = xs := rfl

theorem delReversed_concat (rs : List Nat) (i : Nat) (xs : List Str) :
    delReversed (rs ++ [i]) xs = delReversed rs (xs.eraseIdx i) := by
  simp [delReversed]

theorem delReversed_append {rs : List Nat} (hrs : rs.Pairwise (· < ·)) :
    ∀ {pre : List Str}, (∀ r ∈ rs, r < pre.length) → ∀ suf : List Str,
      delReversed rs (pre ++ suf) = delReversed rs pre ++ suf := by
  induction rs using List.reverseRecOn with
  | nil => simp [delReversed]
  | append_singleton rs m ih =>
    intro pre hlt suf
    obtain ⟨hrs, -, hm⟩ := List.pairwise_append.mp hrs
    have hmp : m < pre.length := hlt m (by simp)
    have hlt' : ∀ r ∈ rs, r < (pre.eraseIdx m).length := fun r hr => by
      have := hm r hr m (by simp)
      rw [List.length_eraseIdx_of_lt hmp]; omega
    rw [delReversed_concat, delReversed_concat, List.eraseIdx_append_of_lt_length hmp,
      ih hrs hlt']

theorem forLines_spec : ∀ (suf pre : List Str) (v : Vars), v.lines = pre ++ suf →
    (∀ r ∈ v.remove, r < pre.length) → v.remove.Pairwise (· < ·) →
    (forLines v pre.length suf).codes.elems = (reconcile v.codes.elems suf).codes ∧
    delReversed (forLines v pre.length suf).remove (forLines v pre.length suf).lines =
      delReversed v.remove pre ++ (reconcile v.codes.elems suf).lines ∧
    ((forLines v pre.length suf).changed || !(forLines v pre.length suf).remove.isEmpty) =
      (v.changed || !v.remove.isEmpty || (reconcile v.codes.elems suf).edited)
  | [], pre, v, hv, hlt, hrs => by
    simp [forLines, reconcile, hv, delReversed_append hrs hlt]
  | line :: rest, pre, v, hv, hlt, hrs => by
    have hv' : v.lines = (pre ++ [line]) ++ rest := by simp [hv]
    have hlen : (pre ++ [line]).length = pre.length + 1 := by simp
    have hlt' : ∀ r ∈ v.remove, r < (pre ++ [line]).length := fun r hr => by
      rw [hlen]; exact Nat.lt_succ_of_lt (hlt r hr)
    have hkeep := delReversed_append hrs hlt [line]
    by_cases hb : stripped line = []
    · have ih := forLines_spec rest (pre ++ [line]) v hv' hlt' hrs
      rw [hlen] at ih
      simp only [forLines, reconcile, hb, if_true, Reconciled.keep_lines, Reconciled.keep_codes,
        Reconciled.keep_edited]
      refine ⟨ih.1, ?_, ih.2.2⟩
      rw [ih.2.1, hkeep, List.append_assoc, List.singleton_append]
    by_cases hm : ' ' ∈ stripped line
    · have hset : (pre ++ line :: rest).set pre.length (expected v.codes.elems ++ ['\n']) =
          pre ++ (expected v.codes.elems ++ ['\n']) :: rest := by simp
      by_cases he : stripped line ≠ expected v.codes.elems
      · simp [forLines, reconcile, hb, hm, he, hv, hset, delReversed_append hrs hlt]
      · simp [forLines, reconcile, hb, hm, he, hv, delReversed_append hrs hlt]
    by_cases hc : stripped line ∈ v.codes.elems
    · have ih := forLines_spec rest (pre ++ [line]) { v with codes := v.codes.erase (stripped line) }
        hv' hlt' hrs
      rw [hlen] at ih
      simp only [forLines, reconcile, hb, hm, hc, if_true, if_false, Reconciled.keep_lines,
        Reconciled.keep_codes, Reconciled.keep_edited, CodeSet.erase_elems] at ih ⊢
      refine ⟨ih.1, ?_, ih.2.2⟩
      rw [ih.2.1, hkeep, List.append_assoc, List.singleton_append]
    · have ih := forLines_spec rest (pre ++ [line]) { v with remove := v.remove ++ [pre.length] }
        hv' (fun r hr => by
          rcases List.mem_append.mp hr with hr | hr
          · exact hlt' r hr
          · simp at hr; omega)
        (List.pairwise_append.mpr ⟨hrs, by simp, fun a ha b hb => by simp at hb; simpa [hb] using hlt a ha⟩)
      rw [hlen] at ih
      simp only [forLines, reconcile, hb, hm, hc, if_false, Reconciled.drop_lines,
        Reconciled.drop_codes, Reconciled.drop_edited] at ih ⊢
      refine ⟨ih.1, ?_, by rw [ih.2.2]; simp⟩
      rw [ih.2.1, delReversed_concat, List.eraseIdx_append_of_length_le (le_refl _)]
      simp

theorem updateLinguas_eq (lines : List Str) (codes : CodeSet) :
    updateLinguas lines codes = (reconcile codes.elems lines).result := by
  obtain ⟨hc, hl, hch⟩ := forLines_spec lines [] ⟨lines, codes, false, []⟩ rfl (by simp) (by simp)
  simp only [List.length_nil, delReversed_nil, List.nil_append, Bool.false_or, List.isEmpty_nil,
    Bool.not_true] at hc hl hch
  simp only [updateLinguas, Reconciled.result]
  generalize forLines ⟨lines, codes, false, []⟩ 0 lines = v at hc hl hch
  rw [hc, ← hl, ← hch]
  by_cases hr : v.remove = [] <;> by_cases hcs : (reconcile codes.elems lines).codes = [] <;>
    simp [hr, hcs]

end UpdateLinguasAddon

end WeblateGettext
