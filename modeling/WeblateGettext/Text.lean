import Mathlib.Data.List.Sort
import Mathlib.Data.Char

/-!
# Python text, as the gettext add-ons see it

A Python `str` is a sequence of code points, so text is a `List Char` here. The
`str` methods the add-ons call (`strip`, `rstrip`, `split("#", 1)[0]`,
`startswith`, `" ".join`, `sorted`) are written out over lists, together with
reading a text file (`readlines`, universal newlines) and writing it back
(`writelines`, on a POSIX system where `\n` is written as is).
-/

namespace WeblateGettext

set_option autoImplicit false

/-- A Python `str`. -/
abbrev Str := List Char

/-- `str.isspace` of one character: the characters `str.strip()` removes. -/
def isSpace (c : Char) : Bool :=
  let n := c.toNat
  (9 ≤ n && n ≤ 13) || (28 ≤ n && n ≤ 32) || n == 133 || n == 160 || n == 5760 ||
    (8192 ≤ n && n ≤ 8202) || n == 8232 || n == 8233 || n == 8239 || n == 8287 || n == 12288

/-- `s.rstrip(chars)` for the characters satisfying `p`. -/
def rstrip (p : Char → Bool) (s : Str) : Str := (s.reverse.dropWhile p).reverse

/-- `s.strip()`. -/
def strip (s : Str) : Str := rstrip isSpace (s.dropWhile isSpace)

/-- `s.split("#", 1)[0]`: the text before the first `#`. -/
def beforeHash (s : Str) : Str := s.takeWhile (fun c => c != '#')

/-- `sep.join(xs)`. -/
def join (sep : Str) : List Str → Str
  | [] => []
  | [x] => x
  | x :: y :: xs => x ++ sep ++ join sep (y :: xs)

/-- Python's order on `str`: code points compared left to right, a proper prefix first. -/
def strLe : Str → Str → Bool
  | [], _ => true
  | _ :: _, [] => false
  | a :: s, b :: t => a < b || (a == b && strLe s t)

/-- `sorted(xs)` for a collection of `str`. -/
def sorted (xs : List Str) : List Str := xs.insertionSort (fun a b => strLe a b = true)

/-- Universal newlines on reading: `\r\n` and a lone `\r` read as `\n`. -/
def decodeNewlines : Str → Str
  | '\r' :: '\n' :: s => '\n' :: decodeNewlines s
  | '\r' :: s => '\n' :: decodeNewlines s
  | c :: s => c :: decodeNewlines s
  | [] => []

/-- The lines of decoded text, each keeping its `\n`, as iterating a text file yields them. -/
def splitLines : Str → List Str
  | [] => []
  | '\n' :: s => ['\n'] :: splitLines s
  | c :: s =>
    match splitLines s with
    | [] => [[c]]
    | l :: ls => (c :: l) :: ls

/-- `open(path).readlines()` of a file holding `text`. -/
def readLines (text : Str) : List Str := splitLines (decodeNewlines text)

/-- The text `open(path, "w").writelines(lines)` leaves in the file. -/
def writeLines (lines : List Str) : Str := lines.flatten

/-- `posixpath.join(a, b)`. -/
def pathJoin (a b : Str) : Str :=
  if ['/'].isPrefixOf b then b
  else if a = [] || ['/'].isSuffixOf a then a ++ b
  else a ++ '/' :: b

/-- `posixpath.dirname(p)`: up to the last `/`, without the trailing ones unless all are. -/
def dirname (p : Str) : Str :=
  let head := (p.reverse.dropWhile (· != '/')).reverse
  if head ≠ [] && !head.all (· == '/') then rstrip (· == '/') head else head

/-- Text holding no line break. -/
def NoBreak (b : Str) : Prop := '\n' ∉ b ∧ '\r' ∉ b

instance (b : Str) : Decidable (NoBreak b) := inferInstanceAs (Decidable (_ ∧ _))

/-- The lists `readlines` returns: every line is a `NoBreak` text and `\n`, but the last
line may be a non-empty `NoBreak` text alone. -/
inductive ReadForm : List Str → Prop
  | nil : ReadForm []
  | last {b : Str} : NoBreak b → b ≠ [] → ReadForm [b]
  | cons {b : Str} {ls : List Str} : NoBreak b → ReadForm ls → ReadForm ((b ++ ['\n']) :: ls)

/-- Text that `strip` leaves as it is and that holds no `#`. -/
def Clean (s : Str) : Prop :=
  '#' ∉ s ∧ (∀ c ∈ s.head?, isSpace c = false) ∧ (∀ c ∈ s.getLast?, isSpace c = false)

theorem perm_sorted (xs : List Str) : (sorted xs).Perm xs := List.perm_insertionSort _ _

/-! ## `sorted` is a function of the collection

Python's order on `str` is total, transitive and antisymmetric, so `sorted` returns the same
list for any two enumerations of one collection. -/

theorem strLe_total : ∀ s t : Str, strLe s t = true ∨ strLe t s = true
  | [], _ | _ :: _, [] => by simp [strLe]
  | a :: s, b :: t => by
    rcases lt_trichotomy a b with h | rfl | h
    · simp [strLe, h]
    · simpa [strLe] using strLe_total s t
    · simp [strLe, h]

theorem strLe_trans : ∀ r s t : Str, strLe r s = true → strLe s t = true → strLe r t = true
  | [], _, _ => by simp [strLe]
  | _ :: _, [], _ => by simp [strLe]
  | _ :: _, _ :: _, [] => by simp [strLe]
  | a :: r, b :: s, c :: t => by
    simp only [strLe, Bool.or_eq_true, decide_eq_true_eq, Bool.and_eq_true, beq_iff_eq]
    rintro (hab | ⟨rfl, hrs⟩) (hbc | ⟨rfl, hst⟩)
    · exact Or.inl (hab.trans hbc)
    · exact Or.inl hab
    · exact Or.inl hbc
    · exact Or.inr ⟨rfl, strLe_trans r s t hrs hst⟩

theorem strLe_antisymm : ∀ s t : Str, strLe s t = true → strLe t s = true → s = t
  | [], [], _, _ => rfl
  | [], _ :: _, _, h | _ :: _, [], h, _ => by simp [strLe] at h
  | a :: s, b :: t, h1, h2 => by
    simp only [strLe, Bool.or_eq_true, decide_eq_true_eq, Bool.and_eq_true, beq_iff_eq] at h1 h2
    rcases h1 with h1 | ⟨rfl, h1⟩
    · rcases h2 with h2 | ⟨rfl, -⟩
      · exact absurd (h1.trans h2) (lt_irrefl a)
      · exact absurd h1 (lt_irrefl _)
    · rcases h2 with h2 | ⟨-, h2⟩
      · exact absurd h2 (lt_irrefl _)
      · rw [strLe_antisymm s t h1 h2]

instance : IsTotal Str (fun a b => strLe a b = true) := ⟨strLe_total⟩
instance : IsTrans Str (fun a b => strLe a b = true) := ⟨strLe_trans⟩
instance : IsAntisymm Str (fun a b => strLe a b = true) := ⟨strLe_antisymm⟩

theorem sorted_eq_of_perm {xs ys : List Str} (h : xs.Perm ys) : sorted xs = sorted ys :=
  List.eq_of_perm_of_sorted ((perm_sorted xs).trans (h.trans (perm_sorted ys).symm))
    (List.sorted_insertionSort _ _) (List.sorted_insertionSort _ _)

/-! ## Reading and writing a file -/

theorem not_mem_decodeNewlines (s : Str) : '\r' ∉ decodeNewlines s := by
  induction s using decodeNewlines.induct <;> simp_all [decodeNewlines, eq_comm]

theorem decodeNewlines_of_not_mem {s : Str} (h : '\r' ∉ s) : decodeNewlines s = s := by
  induction s using decodeNewlines.induct <;> simp_all [decodeNewlines]

theorem splitLines_cons {c : Char} (hc : c ≠ '\n') (s : Str) :
    splitLines (c :: s) = match splitLines s with
      | [] => [[c]]
      | l :: ls => (c :: l) :: ls := by
  simp [splitLines, hc]

theorem splitLines_line_append {b : Str} (hb : '\n' ∉ b) (t : Str) :
    splitLines (b ++ '\n' :: t) = (b ++ ['\n']) :: splitLines t := by
  induction b with
  | nil => simp [splitLines]
  | cons c b ih =>
    simp only [List.mem_cons, not_or] at hb
    simp [splitLines_cons (Ne.symm hb.1), ih hb.2]

theorem splitLines_of_not_mem {b : Str} (hb : '\n' ∉ b) (hne : b ≠ []) : splitLines b = [b] := by
  induction b with
  | nil => exact absurd rfl hne
  | cons c b ih =>
    simp only [List.mem_cons, not_or] at hb
    cases b with
    | nil => simp [splitLines_cons (Ne.symm hb.1), splitLines]
    | cons d b => simp [splitLines_cons (Ne.symm hb.1), ih hb.2 (List.cons_ne_nil _ _)]

theorem noBreak_cons {c : Char} {b : Str} :
    NoBreak (c :: b) ↔ c ≠ '\n' ∧ c ≠ '\r' ∧ NoBreak b := by
  simp only [NoBreak, List.mem_cons, not_or]
  constructor
  · rintro ⟨⟨h1, h2⟩, h3, h4⟩; exact ⟨Ne.symm h1, Ne.symm h3, h2, h4⟩
  · rintro ⟨h1, h3, h2, h4⟩; exact ⟨⟨Ne.symm h1, h2⟩, Ne.symm h3, h4⟩

theorem ReadForm.not_mem_flatten {ls : List Str} (h : ReadForm ls) : '\r' ∉ ls.flatten := by
  induction h with
  | nil => simp
  | last hb _ => simpa using hb.2
  | cons hb _ ih => simp_all [NoBreak]

theorem ReadForm.splitLines_flatten {ls : List Str} (h : ReadForm ls) :
    splitLines ls.flatten = ls := by
  induction h with
  | nil => rfl
  | last hb hne => simpa using splitLines_of_not_mem hb.1 hne
  | cons hb _ ih => simp [splitLines_line_append hb.1, ih]

theorem readLines_writeLines {ls : List Str} (h : ReadForm ls) : readLines (writeLines ls) = ls := by
  rw [readLines, writeLines, decodeNewlines_of_not_mem h.not_mem_flatten, h.splitLines_flatten]

theorem readForm_splitLines {t : Str} (ht : '\r' ∉ t) : ReadForm (splitLines t) := by
  induction t with
  | nil => exact .nil
  | cons c s ih =>
    simp only [List.mem_cons, not_or] at ht
    have hr : c ≠ '\r' := Ne.symm ht.1
    by_cases hc : c = '\n'
    · subst hc
      simpa [splitLines] using ReadForm.cons (b := []) (by simp [NoBreak]) (ih ht.2)
    · rw [splitLines_cons hc]
      generalize splitLines s = r at ih
      rcases ih ht.2 with _ | ⟨hb, _⟩ | ⟨hb, hls⟩
      · exact .last (noBreak_cons.mpr ⟨hc, hr, by simp [NoBreak]⟩) (List.cons_ne_nil _ _)
      · exact .last (noBreak_cons.mpr ⟨hc, hr, hb⟩) (List.cons_ne_nil _ _)
      · exact .cons (b := c :: _) (noBreak_cons.mpr ⟨hc, hr, hb⟩) hls

theorem readForm_readLines (t : Str) : ReadForm (readLines t) :=
  readForm_splitLines (not_mem_decodeNewlines t)

theorem flatten_splitLines (s : Str) : (splitLines s).flatten = s := by
  induction s using splitLines.induct with
  | case1 => rfl
  | case2 s ih => simp [splitLines, ih]
  | case3 c s hc hnil ih => simp [splitLines, hc, hnil] at ih ⊢; exact ih
  | case4 c s hc l ls hcons ih => simp [splitLines, hc, hcons] at ih ⊢; exact ih

theorem infix_of_mem_readLines {text l : Str} (hl : l ∈ readLines text) :
    l <:+: decodeNewlines text := by
  have h := List.infix_of_mem_flatten hl
  rwa [readLines, flatten_splitLines] at h

theorem ReadForm.exists_of_mem {ls : List Str} (h : ReadForm ls) {l : Str} (hl : l ∈ ls) :
    ∃ b, NoBreak b ∧ (l = b ++ ['\n'] ∨ l = b) := by
  induction h with
  | nil => simp at hl
  | @last b hb _ => exact ⟨b, hb, .inr (List.mem_singleton.mp hl)⟩
  | @cons b _ hb _ ih =>
    rcases List.mem_cons.mp hl with rfl | hl
    · exact ⟨b, hb, .inl rfl⟩
    · exact ih hl

theorem readForm_map_newline {ps : List Str} (h : ∀ p ∈ ps, NoBreak p) :
    ReadForm (ps.map (· ++ ['\n'])) := by
  induction ps with
  | nil => exact .nil
  | cons p ps ih =>
    exact .cons (h p (List.mem_cons_self _ _)) (ih fun q hq => h q (List.mem_cons_of_mem _ hq))

theorem ReadForm.map {ls : List Str} (h : ReadForm ls) {f : Str → Str} {b : Str} (hb : NoBreak b)
    (hf : ∀ l, f l = l ∨ f l = b ++ ['\n']) : ReadForm (ls.map f) := by
  induction h with
  | nil => exact .nil
  | @last b' hb' hne =>
    rcases hf b' with e | e <;> rw [List.map_singleton, e]
    · exact .last hb' hne
    · exact .cons hb .nil
  | @cons b' ls hb' _ ih =>
    rcases hf (b' ++ ['\n']) with e | e <;> rw [List.map_cons, e]
    · exact .cons hb' ih
    · exact .cons hb ih

/-! ## `strip`, `split("#")` and `join` -/

theorem beforeHash_of_not_mem {s : Str} (h : '#' ∉ s) : beforeHash s = s :=
  List.takeWhile_eq_self_iff.mpr fun c hc => by simpa using fun e : c = '#' => h (e ▸ hc)

theorem rstrip_isPrefix_self (p : Char → Bool) (s : Str) : rstrip p s <+: s := by
  have h := List.reverse_prefix.mpr (List.dropWhile_suffix (l := s.reverse) p)
  rwa [List.reverse_reverse] at h

theorem strip_isInfix_self (s : Str) : strip s <:+: s :=
  (rstrip_isPrefix_self _ _).isInfix.trans (List.dropWhile_suffix _).isInfix

theorem getLast_rstrip (p : Char → Bool) (s : Str) :
    ∀ c ∈ (rstrip p s).getLast?, p c = false := by
  intro c hc
  rw [rstrip, List.getLast?_reverse, Option.mem_def] at hc
  have h := List.head?_dropWhile_not p s.reverse
  rwa [hc] at h

theorem rstrip_append (p : Char → Bool) (t : Str) :
    rstrip p t ++ (t.reverse.takeWhile p).reverse = t := by
  rw [rstrip, ← List.reverse_append, List.takeWhile_append_dropWhile, List.reverse_reverse]

theorem head_strip (s : Str) : ∀ c ∈ (strip s).head?, isSpace c = false := by
  intro c hc
  obtain ⟨xs, e⟩ := List.head?_eq_some_iff.mp hc
  have hpre := rstrip_append isSpace (s.dropWhile isSpace)
  have hnot := List.head?_dropWhile_not isSpace s
  rw [strip] at e
  rw [e, List.cons_append] at hpre
  rw [← hpre] at hnot
  exact hnot

theorem getLast_strip (s : Str) : ∀ c ∈ (strip s).getLast?, isSpace c = false := by
  intro c hc
  have hnot := List.head?_dropWhile_not isSpace (s.dropWhile isSpace).reverse
  rw [strip, rstrip, List.getLast?_reverse] at hc
  rw [hc] at hnot
  exact hnot

theorem rstrip_append_of_pos {p : Char → Bool} {s t : Str} (ht : ∀ c ∈ t, p c)
    (hs : ∀ c ∈ s.getLast?, p c = false) : rstrip p (s ++ t) = s := by
  rw [rstrip, List.reverse_append, List.dropWhile_append_of_pos (by simpa using ht)]
  cases h : s.reverse with
  | nil => simp_all
  | cons c r =>
    have : p c = false := hs c (by simp [List.getLast?_eq_head?_reverse, h])
    rw [List.dropWhile_cons_of_neg (p := p) (by simp [this]), ← h, List.reverse_reverse]

theorem dirname_eq (p : Str) : dirname p =
    if rstrip (· != '/') p ≠ [] && !(rstrip (· != '/') p).all (· == '/') then
      rstrip (· == '/') (rstrip (· != '/') p) else rstrip (· != '/') p := rfl

theorem rstrip_slash_append {s name : Str} (hs : ∀ c ∈ s.getLast?, c = '/') (hn : '/' ∉ name) :
    rstrip (· != '/') (s ++ name) = s :=
  rstrip_append_of_pos (fun c hc => by simpa using fun e : c = '/' => hn (e ▸ hc))
    fun c hc => by simp [hs c hc]

theorem dirname_shape (p : Str) :
    (∀ c ∈ dirname p, c = '/') ∨ ∀ c ∈ (dirname p).getLast?, c ≠ '/' := by
  rw [dirname_eq]
  split
  · exact .inr fun c hc => by simpa using getLast_rstrip _ _ c hc
  · rename_i h
    refine .inl fun c hc => by_contra fun hc' => h ?_
    simpa using ⟨List.ne_nil_of_mem hc, c, hc, hc'⟩

theorem dirname_pathJoin {d name : Str}
    (hd : (∀ c ∈ d, c = '/') ∨ ∀ c ∈ d.getLast?, c ≠ '/') (hn : '/' ∉ name) :
    dirname (pathJoin d name) = d := by
  have hpre : ['/'].isPrefixOf name = false := by
    cases name with
    | nil => rfl
    | cons c name =>
      simpa [List.isPrefixOf] using fun e : '/' = c => hn (e ▸ List.mem_cons_self _ _)
  by_cases hall : ∀ c ∈ d, c = '/'
  · have hj : pathJoin d name = d ++ name := by
      rcases d.eq_nil_or_concat with rfl | ⟨L, b, rfl⟩
      · simp [pathJoin, hpre]
      · simp [pathJoin, hpre, hall b (by simp)]
    have hs : ∀ c ∈ d.getLast?, c = '/' := fun c hc => hall c (List.mem_of_getLast?_eq_some hc)
    rw [hj, dirname_eq, rstrip_slash_append hs hn, if_neg (by simpa using fun _ => hall)]
  · have hlast : ∀ c ∈ d.getLast?, c ≠ '/' := hd.resolve_left hall
    obtain ⟨L, b, rfl⟩ := d.eq_nil_or_concat.resolve_left fun h => hall (by simp [h])
    simp only [List.concat_eq_append] at hall hlast ⊢
    have hb : b ≠ '/' := hlast b (by simp)
    have hj : pathJoin (L ++ [b]) name = (L ++ [b] ++ ['/']) ++ name := by
      simp [pathJoin, hpre, List.isSuffixOf, List.isPrefixOf, Ne.symm hb]
    rw [hj, dirname_eq, rstrip_slash_append (by simp) hn, if_pos (by simp [hb]),
      rstrip_append_of_pos (by simp) fun c hc => by simpa using hlast c hc]

theorem dropWhile_append_of_head {p : Char → Bool} {s t : Str}
    (hs : ∀ c ∈ s.head?, p c = false) (hne : s ≠ []) : (s ++ t).dropWhile p = s ++ t := by
  cases s with
  | nil => exact absurd rfl hne
  | cons c s => exact List.dropWhile_cons_of_neg (p := p) (by simp [hs c rfl])

theorem strip_append_space {s : Str} (h1 : ∀ c ∈ s.head?, isSpace c = false)
    (h2 : ∀ c ∈ s.getLast?, isSpace c = false) {c : Char} (hc : isSpace c = true) :
    strip (s ++ [c]) = s := by
  rw [strip]
  by_cases hs : s = []
  · subst hs
    simp [List.dropWhile_cons, hc, rstrip]
  · rw [dropWhile_append_of_head h1 hs, rstrip_append_of_pos (by simpa using hc) h2]

theorem strip_append_newline {s : Str} (h1 : ∀ c ∈ s.head?, isSpace c = false)
    (h2 : ∀ c ∈ s.getLast?, isSpace c = false) : strip (s ++ ['\n']) = s :=
  strip_append_space h1 h2 rfl

theorem strip_beforeHash_newline {s : Str} (h : Clean s) :
    strip (beforeHash (s ++ ['\n'])) = s := by
  rw [beforeHash_of_not_mem (by simp [h.1]), strip_append_newline h.2.1 h.2.2]

theorem mem_join {sep : Str} {c : Char} : ∀ {xs : List Str},
    c ∈ join sep xs ↔ c ∈ xs.flatten ∨ (2 ≤ xs.length ∧ c ∈ sep)
  | [] => by simp [join]
  | [x] => by simp [join]
  | x :: y :: xs => by
    have ih := @mem_join sep c (y :: xs)
    simp only [join, List.mem_append, ih, List.flatten_cons, List.length_cons,
      show 2 ≤ xs.length + 1 + 1 by omega, true_and]
    by_cases hs : c ∈ sep <;> simp [hs]

theorem NoBreak.append {a b : Str} (ha : NoBreak a) (hb : NoBreak b) : NoBreak (a ++ b) :=
  ⟨by simp [ha.1, hb.1], by simp [ha.2, hb.2]⟩

theorem noBreak_join_space {xs : List Str} (h : ∀ x ∈ xs, ∀ c ∈ x, isSpace c = false) :
    NoBreak (join [' '] xs) := by
  have hj : ∀ c ∈ join [' '] xs, isSpace c = false ∨ c = ' ' := fun c hc => by
    rcases mem_join.mp hc with hc | ⟨-, hc⟩
    · obtain ⟨x, hx, hcx⟩ := List.mem_flatten.mp hc
      exact .inl (h x hx c hcx)
    · exact .inr (List.mem_singleton.mp hc)
  exact ⟨fun hm => by rcases hj _ hm with e | e <;> revert e <;> decide,
    fun hm => by rcases hj _ hm with e | e <;> revert e <;> decide⟩

theorem join_ne_nil {sep x : Str} (hx : x ≠ []) : ∀ {xs : List Str}, join sep (x :: xs) ≠ []
  | [] => hx
  | _ :: _ => by simp [join, hx]

theorem Clean.append {a b sep : Str} (ha : Clean a) (hb : Clean b) (hsep : '#' ∉ sep)
    (hna : a ≠ []) (hnb : b ≠ []) : Clean (a ++ sep ++ b) := by
  obtain ⟨a1, a2, -⟩ := ha
  obtain ⟨b1, -, b3⟩ := hb
  refine ⟨by simp [a1, b1, hsep], ?_, ?_⟩
  · obtain ⟨c, s, rfl⟩ := List.exists_cons_of_ne_nil hna
    simpa using a2
  · obtain ⟨s, c, rfl⟩ := (List.eq_nil_or_concat b).resolve_left hnb
    simpa using b3

theorem clean_join {sep : Str} (hsep : '#' ∉ sep) : ∀ {xs : List Str},
    (∀ x ∈ xs, Clean x ∧ x ≠ []) → Clean (join sep xs)
  | [], _ => by simp [join, Clean]
  | [x], h => (h x (by simp)).1
  | x :: y :: xs, h => by
    have hx := h x (by simp)
    have hy := (h y (by simp)).2
    exact hx.1.append (clean_join hsep fun z hz => h z (List.mem_cons_of_mem _ hz)) hsep hx.2
      (join_ne_nil hy)

end WeblateGettext
