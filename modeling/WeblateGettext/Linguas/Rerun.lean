import WeblateGettext.Linguas.Reconcile

/-!
# Running `update_linguas` twice

A second run with the same codes changes nothing, unless the first run shrank a line
naming several codes to one naming at most one while code lines follow it: then the
second run no longer stops at that line and edits the lines after it.
-/

namespace WeblateGettext

set_option autoImplicit false

namespace UpdateLinguasAddon

/-- The scan of `update_linguas` meets no line naming several codes, or when it meets the
first one, at least two codes are still to be met or no code line follows. -/
def rerunStable (codes : List Str) : List Str → Bool
  | [] => true
  | line :: rest =>
    if stripped line = [] then rerunStable codes rest
    else if ' ' ∈ stripped line then 2 ≤ codes.length || rest.all fun l => (stripped l).isEmpty
    else if stripped line ∈ codes then rerunStable (codes.erase (stripped line)) rest
    else rerunStable codes rest

theorem reconcile_blank (codes : List Str) {L : List Str}
    (h : ∀ l ∈ L, (stripped l).isEmpty) : reconcile codes L = ⟨L, codes, false⟩ := by
  induction L with
  | nil => rfl
  | cons line rest ih =>
    have hb : stripped line = [] := by simpa using h line (by simp)
    rw [reconcile, if_pos hb, ih fun l hl => h l (List.mem_cons_of_mem _ hl)]
    rfl

theorem reconcile_code_lines {P : List Str} (hnd : P.Nodup) (hc : ∀ c ∈ P, IsCode c) :
    reconcile P (P.map (· ++ ['\n'])) = ⟨P.map (· ++ ['\n']), [], false⟩ := by
  induction P with
  | nil => rfl
  | cons c P ih =>
    have hcode := hc c (by simp)
    have hs := stripped_code_line hcode
    simp only [List.map_cons, reconcile, hs, hcode.1, hcode.space_not_mem, List.mem_cons_self,
      List.erase_cons_head, if_false, if_true,
      ih (List.nodup_cons.mp hnd).2 fun x hx => hc x (List.mem_cons_of_mem _ hx)]
    rfl

theorem expected_singleton (c : Str) : expected [c] = c := by
  simp [expected, sorted, join]

theorem reconcile_expected_singleton {c : Str} (hc : IsCode c) (rest : List Str) :
    reconcile [c] ((expected [c] ++ ['\n']) :: rest) =
      (reconcile [] rest).keep (expected [c] ++ ['\n']) := by
  have hs := stripped_code_line hc
  rw [expected_singleton, reconcile_of_mem (by rw [hs]; exact hc.1)
    (by rw [hs]; exact hc.space_not_mem) (by rw [hs]; exact List.mem_singleton_self c), hs,
    List.erase_cons_head]

theorem reconcile_expected_short {codes : List Str} (hc : ∀ c ∈ codes, IsCode c)
    (hlen : codes.length < 2) {rest : List Str} (hr : ∀ l ∈ rest, (stripped l).isEmpty) :
    reconcile codes ((expected codes ++ ['\n']) :: rest) =
      ⟨(expected codes ++ ['\n']) :: rest, [], false⟩ := by
  match codes, hlen with
  | [], _ =>
    rw [reconcile_of_blank (by decide), reconcile_blank [] hr]
    rfl
  | [c], _ =>
    rw [reconcile_expected_singleton (hc c (List.mem_singleton_self c)), reconcile_blank [] hr]
    rfl

theorem reconcile_rerun {codes : List Str} (hnd : codes.Nodup) (hc : ∀ c ∈ codes, IsCode c)
    {L : List Str} (hs : rerunStable codes L = true) :
    reconcile codes (reconcile codes L).result.2 = ⟨(reconcile codes L).result.2, [], false⟩ := by
  induction codes, L using rerunStable.induct with
  | case1 => exact reconcile_code_lines hnd hc
  | case2 _ _ _ hb ih =>
    rw [rerunStable, if_pos hb] at hs
    rw [reconcile_of_blank hb, Reconciled.result_keep_snd, reconcile_of_blank hb, ih hnd hc hs]
    rfl
  | case3 codes line _ hb hm =>
    rw [rerunStable, if_neg hb, if_pos hm] at hs
    by_cases he : stripped line = expected codes
    · rw [reconcile_of_expected hm he]
      simpa [Reconciled.result] using reconcile_of_expected hm he
    rw [reconcile_of_rewrite hm he]
    simp only [Reconciled.result, List.map_nil, List.append_nil]
    by_cases h2 : 2 ≤ codes.length
    · have hm' : ' ' ∈ stripped (expected codes ++ ['\n']) := by
        rw [stripped_expected_line hc]; exact (space_mem_expected_iff hc).mpr h2
      exact reconcile_of_expected hm' (stripped_expected_line hc)
    · exact reconcile_expected_short hc (by omega) (by simpa [h2] using hs)
  | case4 _ _ _ hb hm hcm ih =>
    rw [rerunStable, if_neg hb, if_neg hm, if_pos hcm] at hs
    rw [reconcile_of_mem hb hm hcm, Reconciled.result_keep_snd, reconcile_of_mem hb hm hcm,
      ih (hnd.erase _) (fun c h => hc c (List.mem_of_mem_erase h)) hs]
    rfl
  | case5 _ _ _ hb hm hcm ih =>
    rw [rerunStable, if_neg hb, if_neg hm, if_neg hcm] at hs
    rw [reconcile_of_not_mem hb hm hcm, Reconciled.result_drop_snd]
    exact ih hnd hc hs

theorem reconcile_nil_edited {rest : List Str} (h : ∃ l ∈ rest, stripped l ≠ []) :
    (reconcile [] rest).edited = true := by
  induction rest with
  | nil => simp at h
  | cons line rest ih =>
    by_cases hb : stripped line = []
    · rw [reconcile_of_blank hb, Reconciled.keep_edited]
      obtain ⟨l, hl, hne⟩ := h
      rcases List.mem_cons.mp hl with rfl | hl
      · exact absurd hb hne
      · exact ih ⟨l, hl, hne⟩
    by_cases hm : ' ' ∈ stripped line
    · rw [reconcile_of_rewrite hm (by rw [show expected [] = [] from rfl]; exact hb)]
    · rw [reconcile_of_not_mem hb hm (List.not_mem_nil _), Reconciled.drop_edited]

theorem reconcile_rerun_edited {codes : List Str} (hc : ∀ c ∈ codes, IsCode c)
    {L : List Str} (hs : rerunStable codes L = false) :
    (reconcile codes (reconcile codes L).result.2).edited = true := by
  induction codes, L using rerunStable.induct with
  | case1 => simp [rerunStable] at hs
  | case2 _ _ _ hb ih =>
    rw [rerunStable, if_pos hb] at hs
    rw [reconcile_of_blank hb, Reconciled.result_keep_snd, reconcile_of_blank hb,
      Reconciled.keep_edited, ih hc hs]
  | case3 codes line rest hb hm =>
    rw [rerunStable, if_neg hb, if_pos hm] at hs
    simp only [Bool.or_eq_false_iff, decide_eq_false_iff_not, List.all_eq_false,
      Bool.not_eq_true, List.isEmpty_eq_false] at hs
    obtain ⟨h2, l, hl, hne⟩ := hs
    have hcode : ∃ l ∈ rest, stripped l ≠ [] := ⟨l, hl, by simpa using hne⟩
    have he : stripped line ≠ expected codes := fun e =>
      h2 ((space_mem_expected_iff hc).mp (e ▸ hm))
    rw [reconcile_of_rewrite hm he]
    simp only [Reconciled.result, List.map_nil, List.append_nil]
    match codes, h2 with
    | [], _ =>
      rw [reconcile_of_blank (by decide), Reconciled.keep_edited]
      exact reconcile_nil_edited hcode
    | [c], _ =>
      rw [reconcile_expected_singleton (hc c (List.mem_singleton_self c)), Reconciled.keep_edited]
      exact reconcile_nil_edited hcode
    | _ :: _ :: _, h2 => simp at h2
  | case4 _ _ _ hb hm hcm ih =>
    rw [rerunStable, if_neg hb, if_neg hm, if_pos hcm] at hs
    rw [reconcile_of_mem hb hm hcm, Reconciled.result_keep_snd, reconcile_of_mem hb hm hcm,
      Reconciled.keep_edited, ih (fun c h => hc c (List.mem_of_mem_erase h)) hs]
  | case5 _ _ _ hb hm hcm ih =>
    rw [rerunStable, if_neg hb, if_neg hm, if_neg hcm] at hs
    rw [reconcile_of_not_mem hb hm hcm, Reconciled.result_drop_snd]
    exact ih hc hs

/-- A second run of `update_linguas` with the same codes returns `(False, L')` on the document
`L'` the first run left exactly when the first scan was stable. -/
theorem updateLinguas_rerun_iff (lines : List Str) (codes : CodeSet)
    (hc : ∀ c ∈ codes.elems, IsCode c) :
    updateLinguas (updateLinguas lines codes).2 codes = (false, (updateLinguas lines codes).2) ↔
      rerunStable codes.elems lines = true := by
  rw [updateLinguas_eq lines, updateLinguas_eq]
  constructor
  · intro h
    by_contra hs
    have he := reconcile_rerun_edited hc (Bool.eq_false_iff.mpr hs)
    generalize (reconcile codes.elems lines).result.2 = L' at h he
    simp [Reconciled.result, he] at h
  · intro hs
    rw [reconcile_rerun codes.nodup hc hs]
    simp [Reconciled.result]

/-- A legacy line followed by a code line, with two codes: the first run rewrites the legacy
line, the second changes nothing. -/
theorem updateLinguas_rerun_legacy :
    (∀ c ∈ ["de".toList, "fr".toList], IsCode c) ∧
      (updateLinguas (updateLinguas ["en fr de\n".toList, "es\n".toList]
          ⟨["de".toList, "fr".toList], by decide⟩).2 ⟨["de".toList, "fr".toList], by decide⟩ =
        (false, (updateLinguas ["en fr de\n".toList, "es\n".toList]
          ⟨["de".toList, "fr".toList], by decide⟩).2) ↔
        rerunStable ["de".toList, "fr".toList] ["en fr de\n".toList, "es\n".toList] = true) :=
  ⟨by decide, updateLinguas_rerun_iff _ _ (by decide)⟩

/-- The document `en de` / `fr` with the single code `de`: the first run rewrites the first
line to `de` and stops; the second run then reaches `fr` and drops it. -/
theorem updateLinguas_second_run_drops :
    updateLinguas ["en de\n".toList, "fr\n".toList] ⟨["de".toList], by decide⟩ =
        (true, ["de\n".toList, "fr\n".toList]) ∧
      updateLinguas ["de\n".toList, "fr\n".toList] ⟨["de".toList], by decide⟩ =
        (true, ["de\n".toList]) := by
  decide

end UpdateLinguasAddon

end WeblateGettext
