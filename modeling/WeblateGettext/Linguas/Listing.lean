import WeblateGettext.Linguas.Sync

/-!
# What `sync_linguas` lists

On a LINGUAS file whose every line ends in a newline, in either format the spec names (one
code per line, or no two lines listing codes), `sync_linguas` leaves a file that lists every
code of the component once and no other (`syncLinguas_lists_codes`). The last line's newline
is what the append relies on (`syncLinguas_glues_last_line`).

The codes of a line are the words of `str.split()` before its `#`; the first part of the
module relates them to the line's `strip()`ped text, which is what `update_linguas` reads.
-/

namespace WeblateGettext

set_option autoImplicit false

/-! ## `str.split()` -/

/-- Text without whitespace. -/
def SpaceFree (u : Str) : Prop := ∀ c ∈ u, isSpace c = false

section Words

variable {s t u : Str} {c : Char}

theorem words_nil : words [] = [] := rfl

theorem words_cons_of_space (hc : isSpace c = true) (s : Str) : words (c :: s) = words s := by
  simp [words, List.splitOnP_cons, hc]

theorem words_cons_ne_nil (hc : isSpace c = false) (s : Str) : words (c :: s) ≠ [] := by
  obtain ⟨x, xs, e⟩ := List.exists_cons_of_ne_nil (List.splitOnP_ne_nil isSpace s)
  simp [words, List.splitOnP_cons, hc, e]

theorem words_of_spaceFree (hu : SpaceFree u) : words u = if u = [] then [] else [u] := by
  rw [words, List.splitOnP_eq_single _ _ fun x hx => by simp [hu x hx]]
  cases u <;> simp

theorem words_append_cons (hu : SpaceFree u) (hc : isSpace c = true) (t : Str) :
    words (u ++ c :: t) = (if u = [] then [] else [u]) ++ words t := by
  rw [words, List.splitOnP_first _ _ (fun x hx => by simp [hu x hx]) c hc]
  cases u <;> simp [words]

theorem words_eq_nil_iff : words t = [] ↔ ∀ c ∈ t, isSpace c = true := by
  induction t with
  | nil => simp [words_nil]
  | cons c t ih =>
    cases hc : isSpace c
    · simp [words_cons_ne_nil hc, hc]
    · simp [words_cons_of_space hc, ih, hc]

theorem spaceFree_or_split (t : Str) :
    SpaceFree t ∨ ∃ u c v, t = u ++ c :: v ∧ SpaceFree u ∧ isSpace c = true := by
  induction t with
  | nil => exact .inl fun _ h => absurd h (List.not_mem_nil _)
  | cons c t ih =>
    cases hc : isSpace c
    · rcases ih with h | ⟨u, d, v, rfl, hu, hd⟩
      · exact .inl (List.forall_mem_cons.mpr ⟨hc, h⟩)
      · exact .inr ⟨c :: u, d, v, rfl, List.forall_mem_cons.mpr ⟨hc, hu⟩, hd⟩
    · exact .inr ⟨[], c, t, rfl, fun _ h => absurd h (List.not_mem_nil _), hc⟩

theorem words_append_of_space {post : Str} (hp : ∀ c ∈ post, isSpace c = true) (t : Str) :
    words (t ++ post) = words t := by
  obtain ⟨n, hn⟩ : ∃ n, t.length = n := ⟨_, rfl⟩
  induction n using Nat.strong_induction_on generalizing t with
  | _ n ih =>
    rcases spaceFree_or_split t with ht | ⟨u, c, v, rfl, hu, hc⟩
    · cases post with
      | nil => rw [List.append_nil]
      | cons d post =>
        rw [words_append_cons ht (hp d (List.mem_cons_self _ _)), words_of_spaceFree ht,
          words_eq_nil_iff.mpr fun x hx => hp x (List.mem_cons_of_mem _ hx), List.append_nil]
    · have hv : v.length < n := by rw [← hn]; simp; omega
      rw [List.append_assoc, List.cons_append, words_append_cons hu hc, ih _ hv v rfl,
        words_append_cons hu hc]

theorem words_dropWhile (s : Str) : words (s.dropWhile isSpace) = words s := by
  induction s with
  | nil => rfl
  | cons c s ih =>
    cases hc : isSpace c
    · simp [List.dropWhile_cons, hc]
    · rw [List.dropWhile_cons, if_pos hc, ih, words_cons_of_space hc]

theorem words_strip (s : Str) : words (strip s) = words s := by
  have h := rstrip_append isSpace (s.dropWhile isSpace)
  rw [strip, ← words_dropWhile s]
  conv_rhs => rw [← h]
  exact (words_append_of_space (fun c hc => List.mem_takeWhile_imp (List.mem_reverse.mp hc)) _).symm

theorem strip_eq_nil_of_space (h : ∀ c ∈ s, isSpace c = true) : strip s = [] := by
  rw [strip, List.dropWhile_eq_nil_iff.mpr h]
  rfl

theorem two_le_length_words (h : ¬SpaceFree (strip s)) : 2 ≤ (words s).length := by
  rw [← words_strip]
  rcases spaceFree_or_split (strip s) with hf | ⟨u, c, v, e, hu, hc⟩
  · exact absurd hf h
  have hhead := head_strip s
  have hlast := getLast_strip s
  rw [e] at hhead hlast ⊢
  have hu0 : u ≠ [] := by
    rintro rfl
    simp [hc] at hhead
  have hv : words v ≠ [] := by
    intro hv
    have hx := List.getLast_mem (List.cons_ne_nil c v)
    rw [List.getLast?_append, List.getLast?_eq_getLast _ (List.cons_ne_nil c v)] at hlast
    have := hlast ((c :: v).getLast (List.cons_ne_nil c v)) (by simp)
    rcases List.mem_cons.mp hx with hx | hx
    · rw [hx, hc] at this; exact absurd this (by decide)
    · rw [words_eq_nil_iff.mp hv _ hx] at this; exact absurd this (by decide)
  rw [words_append_cons hu hc, if_neg hu0, List.singleton_append, List.length_cons]
  exact Nat.succ_le_succ (List.length_pos.mpr hv)

theorem words_join {xs : List Str} (h : ∀ x ∈ xs, IsCode x) : words (join [' '] xs) = xs := by
  induction xs with
  | nil => rfl
  | cons x xs ih =>
    have hx := h x (List.mem_cons_self x xs)
    have hxs := fun y hy => h y (List.mem_cons_of_mem x hy)
    cases xs with
    | nil => simpa [join, hx.1] using words_of_spaceFree fun c hc => (hx.2 c hc).1
    | cons y ys =>
      rw [join, List.append_assoc, List.singleton_append,
        words_append_cons (fun c hc => (hx.2 c hc).1) (by decide), if_neg hx.1, ih hxs]
      rfl

end Words

/-! ## Lines that end in a newline -/

/-- A line ending in a newline, with no other line break. -/
def FullLine (l : Str) : Prop := ∃ b, l = b ++ ['\n'] ∧ NoBreak b

theorem IsCode.noBreak {c : Str} (h : IsCode c) : NoBreak c :=
  ⟨fun hm => absurd (h.2 _ hm).1 (by decide), fun hm => absurd (h.2 _ hm).1 (by decide)⟩

theorem ReadForm.of_fullLine {ls : List Str} (h : ∀ l ∈ ls, FullLine l) : ReadForm ls := by
  induction ls with
  | nil => exact .nil
  | cons l ls ih =>
    obtain ⟨b, rfl, hb⟩ := h l (List.mem_cons_self _ _)
    exact .cons hb (ih fun l' hl' => h l' (List.mem_cons_of_mem _ hl'))

theorem ReadForm.fullLine {ls : List Str} (h : ReadForm ls)
    (hnl : ∀ l ∈ ls, l.getLast? = some '\n') : ∀ l ∈ ls, FullLine l := by
  induction h with
  | nil => simp
  | @last b hb _ =>
    intro l hl
    rw [List.mem_singleton] at hl
    subst hl
    exact absurd (List.mem_of_getLast?_eq_some (hnl _ (List.mem_singleton_self _))) hb.1
  | cons hb _ ih =>
    intro l hl
    rcases List.mem_cons.mp hl with rfl | hl
    · exact ⟨_, rfl, hb⟩
    · exact ih (fun l' hl' => hnl l' (List.mem_cons_of_mem _ hl')) l hl

/-! ## The codes of a line -/

namespace UpdateLinguasAddon

/-- The codes a line lists: the words before its `#`. -/
def lineCodes (line : Str) : List Str := words (beforeHash line)

theorem lineCodes_eq (line : Str) : lineCodes line = words (stripped line) :=
  (words_strip _).symm

theorem lineCodes_of_blank {line : Str} (h : stripped line = []) : lineCodes line = [] := by
  rw [lineCodes_eq, h, words_nil]

theorem lineCodes_ne_nil {line : Str} (h : stripped line ≠ []) : lineCodes line ≠ [] :=
  fun e => h (strip_eq_nil_of_space (words_eq_nil_iff.mp e))

theorem space_not_mem_of_length_le {line : Str} (h : (lineCodes line).length ≤ 1) :
    ' ' ∉ stripped line := fun hm =>
  absurd (two_le_length_words fun hf => absurd (hf ' ' hm) (by decide)) (by
    rw [lineCodes] at h; omega)

theorem lineCodes_of_isCode {line : Str} (h : IsCode (stripped line)) :
    lineCodes line = [stripped line] := by
  rw [lineCodes_eq, words_of_spaceFree fun c hc => (h.2 c hc).1, if_neg h.1]

theorem lineCodes_code_line {c : Str} (h : IsCode c) : lineCodes (c ++ ['\n']) = [c] := by
  rw [lineCodes_of_isCode (by rw [stripped_code_line h]; exact h), stripped_code_line h]

theorem lineCodes_expected {codes : List Str} (hc : ∀ c ∈ codes, IsCode c) {line : Str}
    (h : stripped line = expected codes) : lineCodes line = sorted codes := by
  rw [lineCodes_eq, h, expected, words_join fun x hx => hc x ((perm_sorted codes).subset hx)]

theorem flatMap_code_lines {cs : List Str} (h : ∀ c ∈ cs, IsCode c) :
    (cs.map (· ++ ['\n'])).flatMap lineCodes = cs := by
  induction cs with
  | nil => rfl
  | cons c cs ih =>
    rw [List.map_cons, List.flatMap_cons, lineCodes_code_line (h c (List.mem_cons_self c cs)),
      ih fun x hx => h x (List.mem_cons_of_mem c hx)]
    rfl

/-! ## The codes of the document `update_linguas` returns -/

theorem perm_cons_erase_of_mem {a : Str} {l : List Str} (h : a ∈ l) :
    l.Perm (a :: l.erase a) := by
  induction l with
  | nil => cases h
  | cons b l ih =>
    by_cases hb : b = a
    · subst hb
      rw [List.erase_cons_head]
    · rw [List.erase_cons_tail (by simpa using hb)]
      exact ((ih (by simpa [Ne.symm hb] using h)).cons b).trans (List.Perm.swap a b _)

theorem reconcile_lists {codes : List Str} (hnd : codes.Nodup) (hc : ∀ c ∈ codes, IsCode c)
    {L : List Str} (hL : L.Pairwise fun a b => ' ' ∈ stripped a → lineCodes b = []) :
    ((reconcile codes L).lines.flatMap lineCodes ++ (reconcile codes L).codes).Perm codes := by
  induction codes, L using reconcile.induct with
  | case1 => rfl
  | case2 _ _ _ hb ih =>
    rw [reconcile_of_blank hb]
    simpa [lineCodes_of_blank hb] using ih hnd hc hL.of_cons
  | case3 codes _ rest _ hm he =>
    have hr : rest.flatMap lineCodes = [] := by
      simpa using fun l hl => (List.pairwise_cons.mp hL).1 l hl hm
    rw [reconcile_of_rewrite hm he]
    simpa [lineCodes_expected hc (stripped_expected_line hc), hr] using perm_sorted codes
  | case4 codes _ rest _ hm he =>
    have hr : rest.flatMap lineCodes = [] := by
      simpa using fun l hl => (List.pairwise_cons.mp hL).1 l hl hm
    rw [reconcile_of_expected hm (not_not.mp he)]
    simpa [lineCodes_expected hc (not_not.mp he), hr] using perm_sorted codes
  | case5 _ _ _ hb hm hcm ih =>
    rw [reconcile_of_mem hb hm hcm]
    have := ih (hnd.erase _) (fun c h => hc c (List.mem_of_mem_erase h)) hL.of_cons
    simpa [lineCodes_of_isCode (hc _ hcm)] using (this.cons _).trans (perm_cons_erase_of_mem hcm).symm
  | case6 _ _ _ hb hm hcm ih =>
    rw [reconcile_of_not_mem hb hm hcm]
    simpa using ih hnd hc hL.of_cons

theorem updateLinguas_lists (lines : List Str) (codes : CodeSet) (hc : ∀ c ∈ codes.elems, IsCode c)
    (hL : lines.Pairwise fun a b => ' ' ∈ stripped a → lineCodes b = []) :
    ((updateLinguas lines codes).2.flatMap lineCodes).Perm codes.elems := by
  rw [updateLinguas_eq, Reconciled.result, List.flatMap_append,
    flatMap_code_lines fun c h => hc c ((reconcile_codes_sublist _ _).subset h)]
  exact reconcile_lists codes.nodup hc hL

theorem updateLinguas_of_not_changed {lines : List Str} {codes : CodeSet}
    (h : (updateLinguas lines codes).1 = false) : (updateLinguas lines codes).2 = lines := by
  rw [updateLinguas_eq, Reconciled.result] at h ⊢
  simp only [Bool.or_eq_false_iff, Bool.not_eq_false', List.isEmpty_iff] at h
  rw [h.2, reconcile_lines_of_not_edited h.1, List.map_nil, List.append_nil]

theorem noBreak_expected {codes : List Str} (hc : ∀ c ∈ codes, IsCode c) :
    NoBreak (expected codes) :=
  noBreak_join_space fun x hx ch hch => ((hc x ((perm_sorted codes).subset hx)).2 ch hch).1

theorem fullLine_reconcile {codes : List Str} (hc : ∀ c ∈ codes, IsCode c) {L : List Str}
    (hL : ∀ l ∈ L, FullLine l) : ∀ l ∈ (reconcile codes L).lines, FullLine l := by
  induction codes, L using reconcile.induct with
  | case1 => exact hL
  | case2 _ _ _ hb ih =>
    rw [List.forall_mem_cons] at hL
    rw [reconcile_of_blank hb, Reconciled.keep_lines, List.forall_mem_cons]
    exact ⟨hL.1, ih hc hL.2⟩
  | case3 _ _ _ _ hm he =>
    rw [List.forall_mem_cons] at hL
    rw [reconcile_of_rewrite hm he]
    exact List.forall_mem_cons.mpr ⟨⟨_, rfl, noBreak_expected hc⟩, hL.2⟩
  | case4 _ _ _ _ hm he => rw [reconcile_of_expected hm (not_not.mp he)]; exact hL
  | case5 _ _ _ hb hm hcm ih =>
    rw [List.forall_mem_cons] at hL
    rw [reconcile_of_mem hb hm hcm, Reconciled.keep_lines, List.forall_mem_cons]
    exact ⟨hL.1, ih (fun c h => hc c (List.mem_of_mem_erase h)) hL.2⟩
  | case6 _ _ _ hb hm hcm ih =>
    rw [reconcile_of_not_mem hb hm hcm, Reconciled.drop_lines]
    exact ih hc fun l h => hL l (List.mem_cons_of_mem _ h)

theorem fullLine_updateLinguas {lines : List Str} {codes : CodeSet}
    (hc : ∀ c ∈ codes.elems, IsCode c) (hL : ∀ l ∈ lines, FullLine l) :
    ∀ l ∈ (updateLinguas lines codes).2, FullLine l := by
  rw [updateLinguas_eq, Reconciled.result]
  intro l hl
  rcases List.mem_append.mp hl with hl | hl
  · exact fullLine_reconcile hc hL l hl
  · obtain ⟨c, hcm, rfl⟩ := List.mem_map.mp hl
    exact ⟨c, rfl, (hc c ((reconcile_codes_sublist _ _).subset hcm)).noBreak⟩

/-! ## The file `sync_linguas` leaves -/

/-- On a LINGUAS file whose every line ends in a newline, with each line listing at most one
code or no two lines listing codes, `sync_linguas` leaves a file listing every code of the
component once and no other. -/
theorem syncLinguas_lists_codes (text : Str) (codes : CodeSet) (hc : ∀ c ∈ codes.elems, IsCode c)
    (hnl : ∀ l ∈ readLines text, l.getLast? = some '\n')
    (hf : (∀ l ∈ readLines text, (lineCodes l).length ≤ 1) ∨
      (readLines text).Pairwise fun a b => lineCodes a = [] ∨ lineCodes b = []) :
    (listedCodes (syncLinguas text codes).2).Perm codes.elems := by
  have hL : (readLines text).Pairwise fun a b => ' ' ∈ stripped a → lineCodes b = [] := by
    rcases hf with hf | hf
    · exact (List.pairwise_of_forall fun _ _ => trivial).imp_of_mem
        fun ha _ _ hm => absurd hm (space_not_mem_of_length_le (hf _ ha))
    · exact hf.imp fun h hm => h.resolve_left (lineCodes_ne_nil (List.ne_nil_of_mem hm))
  have hread : readLines (syncLinguas text codes).2 = (updateLinguas (readLines text) codes).2 := by
    simp only [syncLinguas]
    cases hch : (updateLinguas (readLines text) codes).1
    · exact (updateLinguas_of_not_changed hch).symm
    · exact readLines_writeLines (ReadForm.of_fullLine
        (fullLine_updateLinguas hc ((readForm_readLines text).fullLine hnl)))
  show ((readLines (syncLinguas text codes).2).flatMap lineCodes).Perm codes.elems
  rw [hread]
  exact updateLinguas_lists _ codes hc hL

/-- The spec's legacy line and a comment, with the codes `de` and `fr`: the line is rewritten
to `de fr`. -/
theorem syncLinguas_lists_codes_legacy :
    (∀ c ∈ ["de".toList, "fr".toList], IsCode c) ∧
      (∀ l ∈ readLines "en fr de\n# comment\n".toList, l.getLast? = some '\n') ∧
      ((∀ l ∈ readLines "en fr de\n# comment\n".toList, (lineCodes l).length ≤ 1) ∨
        (readLines "en fr de\n# comment\n".toList).Pairwise
          fun a b => lineCodes a = [] ∨ lineCodes b = []) ∧
      (listedCodes (syncLinguas "en fr de\n# comment\n".toList
        ⟨["de".toList, "fr".toList], by decide⟩).2).Perm ["de".toList, "fr".toList] :=
  ⟨by decide, by decide, .inr (by decide),
    syncLinguas_lists_codes _ _ (by decide) (by decide) (.inr (by decide))⟩

end UpdateLinguasAddon

end WeblateGettext
