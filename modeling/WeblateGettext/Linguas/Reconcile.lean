import WeblateGettext.Linguas.Update

/-!
# What `update_linguas` may change

`Edited` says how the lines left before the append relate to the input: lines are kept
in order, lines naming one code may be dropped, and the first line naming several codes
is rewritten, the lines after it left as they are. `updateLinguas_changed_iff` says that
the flag `update_linguas` returns is set exactly when the document changed.
-/

namespace WeblateGettext

set_option autoImplicit false

theorem IsCode.clean {c : Str} (h : IsCode c) : Clean c := by
  refine ⟨fun hm => (h.2 '#' hm).2 rfl, fun x hx => (h.2 x (List.mem_of_mem_head? hx)).1,
    fun x hx => (h.2 x (List.mem_of_mem_getLast? hx)).1⟩

theorem IsCode.space_not_mem {c : Str} (h : IsCode c) : ' ' ∉ c :=
  fun hm => absurd (h.2 ' ' hm).1 (by decide)

namespace UpdateLinguasAddon

/-! ## Lines the add-on writes -/

theorem stripped_code_line {c : Str} (h : IsCode c) : stripped (c ++ ['\n']) = c :=
  strip_beforeHash_newline h.clean

section Codes

variable {codes : List Str} (hc : ∀ c ∈ codes, IsCode c)
include hc

theorem clean_expected : Clean (expected codes) :=
  clean_join (by decide) fun x hx =>
    have h := hc x ((perm_sorted codes).subset hx)
    ⟨h.clean, h.1⟩

theorem stripped_expected_line : stripped (expected codes ++ ['\n']) = expected codes :=
  strip_beforeHash_newline (clean_expected hc)

theorem space_mem_expected_iff : ' ' ∈ expected codes ↔ 2 ≤ codes.length := by
  rw [expected, mem_join, (perm_sorted codes).length_eq]
  have : ' ' ∉ (sorted codes).flatten := by
    simp only [List.mem_flatten, not_exists, not_and]
    exact fun x hx => (hc x ((perm_sorted codes).subset hx)).space_not_mem
  simp [this]

end Codes

/-! ## The frame of the edit -/

/-- How `update_linguas` may change a document before its append: a line naming no code or
one code is kept, one naming a code may be dropped, and the first line naming several codes
is replaced (perhaps by itself), with the lines after it left as they are. -/
inductive Edited : List Str → List Str → Prop
  | nil : Edited [] []
  | keep {line : Str} {L M : List Str} : ' ' ∉ stripped line → Edited L M →
      Edited (line :: L) (line :: M)
  | drop {line : Str} {L M : List Str} : stripped line ≠ [] → ' ' ∉ stripped line →
      Edited L M → Edited (line :: L) M
  | rewrite {line : Str} (new : Str) (L : List Str) : ' ' ∈ stripped line →
      Edited (line :: L) (new :: L)

theorem Edited.blank_sublist {L M : List Str} (h : Edited L M) :
    (L.filter fun l => (stripped l).isEmpty).Sublist M := by
  induction h with
  | nil => exact .slnil
  | @keep line L M _ _ ih =>
    by_cases hb : (stripped line).isEmpty
    · simpa [List.filter_cons, hb] using ih.cons₂ line
    · simpa [List.filter_cons, hb] using ih.cons line
  | @drop line L M hne _ _ ih => simpa [List.filter_cons, hne] using ih
  | @rewrite line new L hm =>
    have hne : (stripped line).isEmpty = false := by
      cases h : stripped line with
      | nil => rw [h] at hm; simp at hm
      | cons _ _ => rfl
    simp [List.filter_cons, hne, (List.filter_sublist L).cons new]

theorem edited_reconcile (codes L : List Str) : Edited L (reconcile codes L).lines := by
  induction codes, L using reconcile.induct with
  | case1 => exact .nil
  | case2 _ line rest hb ih => simpa [reconcile_of_blank hb] using Edited.keep (by simp [hb]) ih
  | case3 _ _ rest _ hm he => simpa [reconcile_of_rewrite hm he] using Edited.rewrite _ rest hm
  | case4 _ line rest _ hm he =>
    simpa [reconcile_of_expected hm (not_not.mp he)] using Edited.rewrite line rest hm
  | case5 _ _ _ hb hm hc ih => simpa [reconcile_of_mem hb hm hc] using Edited.keep hm ih
  | case6 _ _ _ hb hm hc ih => simpa [reconcile_of_not_mem hb hm hc] using Edited.drop hb hm ih

theorem updateLinguas_edits (lines : List Str) (codes : CodeSet) :
    ∃ kept added, (updateLinguas lines codes).2 = kept ++ added ∧ Edited lines kept ∧
      (lines.filter fun l => (stripped l).isEmpty).Sublist kept :=
  have h := edited_reconcile codes.elems lines
  ⟨_, _, by rw [updateLinguas_eq]; rfl, h, h.blank_sublist⟩

/-! ## The flag `changed` -/

theorem reconcile_lines_of_not_edited {codes L : List Str}
    (h : (reconcile codes L).edited = false) : (reconcile codes L).lines = L := by
  induction codes, L using reconcile.induct with
  | case1 => rfl
  | case2 _ _ _ hb ih =>
    simp only [reconcile_of_blank hb, Reconciled.keep_edited, Reconciled.keep_lines] at h ⊢
    rw [ih h]
  | case3 _ _ _ _ hm he => simp [reconcile_of_rewrite hm he] at h
  | case4 _ _ _ _ hm he => rw [reconcile_of_expected hm (not_not.mp he)]
  | case5 _ _ _ hb hm hc ih =>
    simp only [reconcile_of_mem hb hm hc, Reconciled.keep_edited, Reconciled.keep_lines] at h ⊢
    rw [ih h]
  | case6 _ _ _ hb hm hc ih => simp [reconcile_of_not_mem hb hm hc] at h

theorem length_reconcile_lines_le (codes L : List Str) :
    (reconcile codes L).lines.length ≤ L.length := by
  induction codes, L using reconcile.induct with
  | case1 => exact le_refl _
  | case2 _ _ _ hb ih => simpa [reconcile_of_blank hb] using ih
  | case3 _ _ _ _ hm he => simp [reconcile_of_rewrite hm he]
  | case4 _ _ _ _ hm he => simp [reconcile_of_expected hm (not_not.mp he)]
  | case5 _ _ _ hb hm hc ih => simpa [reconcile_of_mem hb hm hc] using ih
  | case6 _ _ _ hb hm hc ih => simpa [reconcile_of_not_mem hb hm hc] using Nat.le_succ_of_le ih

theorem reconcile_codes_sublist (codes L : List Str) : (reconcile codes L).codes.Sublist codes := by
  induction codes, L using reconcile.induct with
  | case1 => exact .refl _
  | case2 _ _ _ hb ih => simpa [reconcile_of_blank hb] using ih
  | case3 _ _ _ _ hm he => simp [reconcile_of_rewrite hm he]
  | case4 _ _ _ _ hm he => simp [reconcile_of_expected hm (not_not.mp he)]
  | case5 _ _ _ hb hm hc ih =>
    simpa [reconcile_of_mem hb hm hc] using ih.trans (List.erase_sublist _ _)
  | case6 _ _ _ hb hm hc ih => simpa [reconcile_of_not_mem hb hm hc] using ih

theorem stripped_not_mem_reconcile_codes {codes : List Str} (hnd : codes.Nodup) {L : List Str} :
    ∀ l ∈ L, stripped l ≠ [] → stripped l ∉ (reconcile codes L).codes := by
  induction codes, L using reconcile.induct with
  | case1 => simp
  | case2 _ _ _ hb ih =>
    intro l hl hne
    rw [reconcile_of_blank hb, Reconciled.keep_codes]
    rcases List.mem_cons.mp hl with rfl | hl
    · exact absurd hb hne
    · exact ih hnd l hl hne
  | case3 _ _ _ _ hm he => simp [reconcile_of_rewrite hm he]
  | case4 _ _ _ _ hm he => simp [reconcile_of_expected hm (not_not.mp he)]
  | case5 _ _ rest hb hm hc ih =>
    intro l hl hne
    rw [reconcile_of_mem hb hm hc, Reconciled.keep_codes]
    rcases List.mem_cons.mp hl with rfl | hl
    · exact fun h => hnd.not_mem_erase ((reconcile_codes_sublist _ rest).subset h)
    · exact ih (hnd.erase _) l hl hne
  | case6 codes _ rest hb hm hc ih =>
    intro l hl hne
    rw [reconcile_of_not_mem hb hm hc, Reconciled.drop_codes]
    rcases List.mem_cons.mp hl with rfl | hl
    · exact fun h => hc ((reconcile_codes_sublist codes rest).subset h)
    · exact ih hnd l hl hne

theorem reconcile_lines_ne_of_edited {codes : List Str} (hc : ∀ c ∈ codes, IsCode c)
    {L : List Str} (h : (reconcile codes L).edited = true) : (reconcile codes L).lines ≠ L := by
  induction codes, L using reconcile.induct with
  | case1 => simp [reconcile] at h
  | case2 _ _ _ hb ih =>
    simp only [reconcile_of_blank hb, Reconciled.keep_edited, Reconciled.keep_lines] at h ⊢
    exact fun e => ih hc h (List.cons.inj e).2
  | case3 _ _ _ _ hm he =>
    rw [reconcile_of_rewrite hm he]
    exact fun e => he (by rw [← (List.cons.inj e).1, stripped_expected_line hc])
  | case4 _ _ _ _ hm he => simp [reconcile_of_expected hm (not_not.mp he)] at h
  | case5 _ _ _ hb hm hcm ih =>
    simp only [reconcile_of_mem hb hm hcm, Reconciled.keep_edited, Reconciled.keep_lines] at h ⊢
    exact fun e => ih (fun c hc' => hc c (List.mem_of_mem_erase hc')) h (List.cons.inj e).2
  | case6 codes _ rest hb hm hcm =>
    rw [reconcile_of_not_mem hb hm hcm, Reconciled.drop_lines]
    intro e
    have := length_reconcile_lines_le codes rest
    rw [e, List.length_cons] at this
    omega

/-- `update_linguas` reports a change exactly when the lines it returns differ from its input. -/
theorem updateLinguas_changed_iff (lines : List Str) (codes : CodeSet)
    (hc : ∀ c ∈ codes.elems, IsCode c) :
    (updateLinguas lines codes).1 = true ↔ (updateLinguas lines codes).2 ≠ lines := by
  rw [updateLinguas_eq, Reconciled.result]
  constructor
  · intro hch
    cases hcs : (reconcile codes.elems lines).codes with
    | nil =>
      have he : (reconcile codes.elems lines).edited = true := by simpa [hcs] using hch
      simpa using reconcile_lines_ne_of_edited hc he
    | cons c cs =>
      have hcm : c ∈ (reconcile codes.elems lines).codes := by simp [hcs]
      have hcode := hc c ((reconcile_codes_sublist _ _).subset hcm)
      have hs := stripped_code_line hcode
      intro e
      have hl : c ++ ['\n'] ∈ lines := by
        rw [← e]; simp
      exact stripped_not_mem_reconcile_codes codes.nodup _ hl (by rw [hs]; exact hcode.1)
        (by rw [hs]; exact hcm)
  · intro hne
    cases he : (reconcile codes.elems lines).edited
    · cases hcs : (reconcile codes.elems lines).codes with
      | nil => exact absurd (by simp [hcs, reconcile_lines_of_not_edited he]) hne
      | cons c cs => simp
    · simp

/-- The spec's legacy line with the codes `fr`, `de`, `es`: rewritten, and reported. -/
theorem updateLinguas_changed_iff_legacy :
    (∀ c ∈ ["fr".toList, "de".toList, "es".toList], IsCode c) ∧
      ((updateLinguas ["en fr de\n".toList] ⟨["fr".toList, "de".toList, "es".toList], by decide⟩).1 =
          true ↔
        (updateLinguas ["en fr de\n".toList]
          ⟨["fr".toList, "de".toList, "es".toList], by decide⟩).2 ≠ ["en fr de\n".toList]) :=
  ⟨by decide, updateLinguas_changed_iff _ _ (by decide)⟩

end UpdateLinguasAddon

end WeblateGettext
