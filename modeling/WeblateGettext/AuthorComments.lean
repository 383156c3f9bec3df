import Mathlib.Data.List.Infix
import WeblateGettext.Text

/-!
# `GettextAuthorComments.pre_commit`

The add-on reads the commit author, skips the Weblate no-reply address, and otherwise splits
`Name <email>` at `<` into the name and the address it records as a contributor of the PO
file. The split is unpacked into two values, so an author holding two `<` raises
`ValueError`. An author written as `Name <email>` from a name and an address that
`pre_commit` could have recorded is read back as that pair (`preCommit_format`).
-/

namespace WeblateGettext

set_option autoImplicit false

namespace GettextAuthorComments

/-- How `pre_commit` ends for an author: skipped, a contributor recorded through
`store.updatecontributor(name, email)`, or `ValueError` from the unpacking. -/
inductive Outcome where
  | skipped
  | contributor (name : Str) (email : Option Str)
  | valueError
  deriving DecidableEq

/-- `GettextAuthorComments.pre_commit(translation, author)`. -/
def preCommit (author : Str) : Outcome :=
  if "noreply@weblate.org".toList <:+: author then .skipped
  else if '<' ∈ author then
    match author.splitOn '<' with
    | [name, email] => .contributor (strip name) (some (rstrip (· == '>') email))
    | _ => .valueError
  else .contributor author none

theorem length_splitOnP (p : Char → Bool) (s : Str) :
    (s.splitOnP p).length = (s.filter p).length + 1 := by
  induction s with
  | nil => rfl
  | cons c s ih =>
    obtain ⟨x, xs, e⟩ := List.exists_cons_of_ne_nil (List.splitOnP_ne_nil p s)
    rw [List.splitOnP_cons, List.filter_cons, e]
    rw [e, List.length_cons] at ih
    cases p c <;> simp <;> omega

theorem length_splitOn (author : Str) (sep : Char) :
    (author.splitOn sep).length = author.count sep + 1 := by
  rw [List.splitOn, length_splitOnP, List.count_eq_countP, List.countP_eq_length_filter]

theorem splitOn_of_not_mem {s : Str} {sep : Char} (h : sep ∉ s) : s.splitOn sep = [s] :=
  List.splitOnP_eq_single _ _ fun x hx => by simpa using fun e : x = sep => h (e ▸ hx)

theorem not_mem_of_splitOn_eq {s n e : Str} {sep : Char} (h : s.splitOn sep = [n, e]) :
    sep ∉ n ∧ sep ∉ e := by
  have hl := length_splitOn s sep
  have hs : [sep].intercalate (s.splitOn sep) = s := List.intercalate_splitOn s sep
  rw [h] at hl hs
  subst hs
  simp only [List.intercalate, List.intersperse, List.flatten, List.append_nil, List.count_append,
    List.count_singleton_self, List.length_cons, List.length_nil] at hl
  exact ⟨List.count_eq_zero.mp (by omega), List.count_eq_zero.mp (by omega)⟩

/-- An author as `Name <email>`: the name, a space, and the address in angle brackets. -/
def authorOf (name email : Str) : Str := name ++ " <".toList ++ email ++ ">".toList

/-- A name and an address in the form `pre_commit` records from `Name <email>`: neither holds
`<`, the name neither starts nor ends with whitespace, and the address does not end in `>`. -/
def Recorded (name email : Str) : Prop :=
  '<' ∉ name ∧ (∀ c ∈ name.head?, isSpace c = false) ∧
    (∀ c ∈ name.getLast?, isSpace c = false) ∧ '<' ∉ email ∧ ∀ c ∈ email.getLast?, c ≠ '>'

instance (name email : Str) : Decidable (Recorded name email) :=
  inferInstanceAs (Decidable (_ ∧ _ ∧ _ ∧ _ ∧ _))

theorem splitOn_authorOf {name email : Str} (hn : '<' ∉ name) (he : '<' ∉ email) :
    (authorOf name email).splitOn '<' = [name ++ [' '], email ++ ['>']] := by
  have h : authorOf name email = (name ++ [' ']) ++ '<' :: (email ++ ['>']) := by
    simp [authorOf]
  have hname : ∀ x ∈ name ++ [' '], ¬(x == '<') = true := fun x hx => by
    rw [beq_iff_eq]
    rintro rfl
    simp [hn] at hx
  rw [h, List.splitOn, List.splitOnP_first _ _ hname '<' (by simp), ← List.splitOn,
    splitOn_of_not_mem (by simpa using he)]

theorem preCommit_eq_valueError_iff (author : Str) : preCommit author = .valueError ↔
    ¬"noreply@weblate.org".toList <:+: author ∧ 2 ≤ author.count '<' := by
  have hl := length_splitOn author '<'
  unfold preCommit
  split_ifs with hr hm
  · exact iff_of_false (by decide) fun h => h.1 hr
  · split
    · rename_i n e he
      rw [he, List.length_cons, List.length_cons, List.length_nil] at hl
      simp only [reduceCtorEq, false_iff, not_and, not_le]
      omega
    · rename_i hne
      have h2 : (author.splitOn '<').length ≠ 2 := fun h2 =>
        let ⟨n, e, he⟩ := List.length_eq_two.mp h2
        hne n e he
      have h1 := List.count_pos_iff.mpr hm
      exact iff_of_true rfl ⟨hr, by omega⟩
  · simp [List.count_eq_zero.mpr hm]

theorem recorded_of_preCommit {author name email : Str}
    (h : preCommit author = .contributor name (some email)) : Recorded name email := by
  unfold preCommit at h
  split_ifs at h
  · split at h
    · rename_i n e he
      simp only [Outcome.contributor.injEq, Option.some.injEq] at h
      obtain ⟨rfl, rfl⟩ := h
      obtain ⟨hn, he'⟩ := not_mem_of_splitOn_eq he
      exact ⟨fun hm => hn ((strip_isInfix_self n).subset hm), head_strip n, getLast_strip n,
        fun hm => he' ((rstrip_isPrefix_self _ e).subset hm),
        fun c hc => by simpa using getLast_rstrip _ e c hc⟩
    · cases h
  · cases h

theorem preCommit_authorOf {name email : Str} (h : Recorded name email)
    (hr : ¬"noreply@weblate.org".toList <:+: authorOf name email) :
    preCommit (authorOf name email) = .contributor name (some email) := by
  obtain ⟨hn, hhead, hlast, he, helast⟩ := h
  rw [preCommit, if_neg hr, if_pos (by simp [authorOf]), splitOn_authorOf hn he]
  dsimp only
  rw [strip_append_space hhead hlast (c := ' ') rfl,
    rstrip_append_of_pos (p := (· == '>')) (by simp) fun c hc => by simpa using helast c hc]

end GettextAuthorComments

end WeblateGettext
