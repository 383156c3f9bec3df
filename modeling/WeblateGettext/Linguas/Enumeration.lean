import WeblateGettext.Linguas.Update

/-!
# The iteration order of the code set

`update_linguas` appends the codes it never met in the iteration order of the set, and the
order of a set of `str` changes from one process to the next. Two enumerations of one set
give the same flag and the same lines before the appended block; the block lists the same
codes, in each enumeration's own order.
-/

namespace WeblateGettext

set_option autoImplicit false

namespace UpdateLinguasAddon

theorem expected_eq_of_perm {c1 c2 : List Str} (h : c1.Perm c2) : expected c1 = expected c2 := by
  rw [expected, expected, sorted_eq_of_perm h]

theorem reconcile_enumerations (c1 lines : List Str) : ∀ c2 : List Str, c1.Nodup → c1.Perm c2 →
    (reconcile c2 lines).lines = (reconcile c1 lines).lines ∧
      (reconcile c2 lines).edited = (reconcile c1 lines).edited ∧
      ∃ pending : Str → Bool, (reconcile c1 lines).codes = c1.filter pending ∧
        (reconcile c2 lines).codes = c2.filter pending := by
  induction c1, lines using reconcile.induct with
  | case1 c1 => exact fun c2 _ _ => ⟨rfl, rfl, fun _ => true, by simp [reconcile], by simp [reconcile]⟩
  | case2 c1 line rest hb ih =>
    intro c2 hn hp
    obtain ⟨hl, hrest⟩ := ih c2 hn hp
    rw [reconcile_of_blank hb, reconcile_of_blank hb]
    exact ⟨congrArg (line :: ·) hl, hrest⟩
  | case3 c1 line rest _ hm he =>
    intro c2 _ hp
    have he2 : stripped line ≠ expected c2 := expected_eq_of_perm hp ▸ he
    rw [reconcile_of_rewrite hm he, reconcile_of_rewrite hm he2, expected_eq_of_perm hp]
    exact ⟨rfl, rfl, fun _ => false, by simp, by simp⟩
  | case4 c1 line rest _ hm he =>
    intro c2 _ hp
    have he2 : stripped line = expected c2 := expected_eq_of_perm hp ▸ not_not.mp he
    rw [reconcile_of_expected hm (not_not.mp he), reconcile_of_expected hm he2]
    exact ⟨rfl, rfl, fun _ => false, by simp, by simp⟩
  | case5 c1 line rest hb hm hc ih =>
    intro c2 hn hp
    have hc2 : stripped line ∈ c2 := hp.mem_iff.mp hc
    have hn2 : c2.Nodup := hp.nodup_iff.mp hn
    have hp' : (c1.erase (stripped line)).Perm (c2.erase (stripped line)) := by
      rw [hn.erase_eq_filter, hn2.erase_eq_filter]
      exact hp.filter _
    obtain ⟨hl, he, pending, h1, h2⟩ := ih (c2.erase (stripped line)) (hn.erase _) hp'
    rw [reconcile_of_mem hb hm hc, reconcile_of_mem hb hm hc2]
    refine ⟨congrArg (line :: ·) hl, he, fun a => pending a && a != stripped line, ?_, ?_⟩
    · rw [Reconciled.keep_codes, h1, hn.erase_eq_filter, List.filter_filter]
    · rw [Reconciled.keep_codes, h2, hn2.erase_eq_filter, List.filter_filter]
  | case6 c1 line rest hb hm hc ih =>
    intro c2 hn hp
    have hc2 : stripped line ∉ c2 := fun h => hc (hp.mem_iff.mpr h)
    obtain ⟨hl, -, hpending⟩ := ih c2 hn hp
    rw [reconcile_of_not_mem hb hm hc, reconcile_of_not_mem hb hm hc2]
    exact ⟨hl, rfl, hpending⟩

/-- Two enumerations of one code set: `update_linguas` returns the same flag, and the same
lines up to the appended block, which appends one subset of the set in each enumeration's
order. -/
theorem updateLinguas_enumerations (lines : List Str) (c1 c2 : CodeSet)
    (hp : c1.elems.Perm c2.elems) :
    (updateLinguas lines c1).1 = (updateLinguas lines c2).1 ∧
      ∃ (kept : List Str) (pending : Str → Bool),
        (updateLinguas lines c1).2 = kept ++ (c1.elems.filter pending).map (· ++ ['\n']) ∧
        (updateLinguas lines c2).2 = kept ++ (c2.elems.filter pending).map (· ++ ['\n']) := by
  obtain ⟨hl, he, pending, h1, h2⟩ := reconcile_enumerations c1.elems lines c2.elems c1.nodup hp
  simp only [updateLinguas_eq, Reconciled.result, h1, h2, hl, he, (hp.filter pending).isEmpty_eq]
  exact ⟨trivial, _, pending, rfl, rfl⟩

theorem updateLinguas_enumerations_three_codes :
    ["cs".toList, "de".toList, "fr".toList].Perm ["fr".toList, "cs".toList, "de".toList] ∧
      (updateLinguas ["cs\n".toList] ⟨["cs".toList, "de".toList, "fr".toList], by decide⟩).1 =
        (updateLinguas ["cs\n".toList] ⟨["fr".toList, "cs".toList, "de".toList], by decide⟩).1 ∧
      ∃ (kept : List Str) (pending : Str → Bool),
        (updateLinguas ["cs\n".toList] ⟨["cs".toList, "de".toList, "fr".toList], by decide⟩).2 =
            kept ++ (["cs".toList, "de".toList, "fr".toList].filter pending).map (· ++ ['\n']) ∧
          (updateLinguas ["cs\n".toList] ⟨["fr".toList, "cs".toList, "de".toList], by decide⟩).2 =
            kept ++ (["fr".toList, "cs".toList, "de".toList].filter pending).map (· ++ ['\n']) :=
  have hp : ["cs".toList, "de".toList, "fr".toList].Perm ["fr".toList, "cs".toList, "de".toList] :=
    by decide
  ⟨hp, updateLinguas_enumerations ["cs\n".toList] ⟨_, by decide⟩ ⟨_, by decide⟩ hp⟩

/-- A LINGUAS file listing `cs`, and the set {cs, de, fr} enumerated in two orders: the two
runs write `de` and `fr` in two orders. -/
theorem updateLinguas_order_dependent :
    ["cs".toList, "de".toList, "fr".toList].Perm ["fr".toList, "cs".toList, "de".toList] ∧
      updateLinguas ["cs\n".toList] ⟨["cs".toList, "de".toList, "fr".toList], by decide⟩ =
        (true, ["cs\n".toList, "de\n".toList, "fr\n".toList]) ∧
      updateLinguas ["cs\n".toList] ⟨["fr".toList, "cs".toList, "de".toList], by decide⟩ =
        (true, ["cs\n".toList, "fr\n".toList, "de\n".toList]) := by
  decide

end UpdateLinguasAddon

end WeblateGettext
