import WeblateGettext.Text

/-!
# `XGettextAddon.pot_files_same`

The two files are compared line by line, padded with `None` to the longer one; two lines
that differ are forgiven when both have the shape of the header's `POT-Creation-Date`
line. Every line of that shape is forgiven, not only the header's: the comparison is
equality up to a wildcard on date-shaped lines (`potFilesSame_iff`).
-/

namespace WeblateGettext

set_option autoImplicit false

namespace XGettextAddon

/-- `XGettextAddon.is_pot_creation_date`. -/
def isPotCreationDate : Option Str → Bool
  | none => false
  | some line =>
    "\"POT-Creation-Date: ".toList.isPrefixOf line && "\\n\"\n".toList.isSuffixOf line

/-- `itertools.zip_longest(a, b)`. -/
def zipLongest : List Str → List Str → List (Option Str × Option Str)
  | [], bs => bs.map fun b => (none, some b)
  | a :: as, [] => (some a, none) :: zipLongest as []
  | a :: as, b :: bs => (some a, some b) :: zipLongest as bs

/-- The loop `for line_a, line_b in itertools.zip_longest(f_a, f_b)`. -/
def forLinePairs : List (Option Str × Option Str) → Bool
  | [] => true
  | (lineA, lineB) :: rest =>
    if lineA ≠ lineB then
      if !isPotCreationDate lineA then false
      else if !isPotCreationDate lineB then false
      else forLinePairs rest
    else forLinePairs rest

/-- `XGettextAddon.pot_files_same` on the texts of the two files. -/
def potFilesSame (fileA fileB : Str) : Bool :=
  forLinePairs (zipLongest (readLines fileA) (readLines fileB))

/-- Two lines the comparison accepts: equal, or both of the creation date's shape. -/
def LinesMatch (x y : Str) : Prop :=
  x = y ∨ isPotCreationDate (some x) = true ∧ isPotCreationDate (some y) = true

instance (x y : Str) : Decidable (LinesMatch x y) := inferInstanceAs (Decidable (_ ∨ _))

theorem forLinePairs_zipLongest (a b : List Str) :
    forLinePairs (zipLongest a b) = true ↔ List.Forall₂ LinesMatch a b := by
  induction a generalizing b with
  | nil => cases b <;> simp [zipLongest, forLinePairs, isPotCreationDate]
  | cons x a ih =>
    cases b with
    | nil => simp [zipLongest, forLinePairs, isPotCreationDate]
    | cons y b =>
      by_cases hxy : x = y
      · simp [zipLongest, forLinePairs, hxy, ih, LinesMatch]
      · simp [zipLongest, forLinePairs, hxy, ih, LinesMatch, and_assoc]

/-- `pot_files_same` holds exactly when the files have as many lines and each pair of lines
is equal or both are date-shaped, wherever they stand. -/
theorem potFilesSame_iff (fileA fileB : Str) :
    potFilesSame fileA fileB = true ↔ List.Forall₂ LinesMatch (readLines fileA) (readLines fileB) :=
  forLinePairs_zipLongest _ _

/-! ## The comparison is an equivalence -/

theorem linesMatch_equivalence : Equivalence LinesMatch where
  refl _ := .inl rfl
  symm := by
    rintro x y (rfl | ⟨hx, hy⟩)
    exacts [.inl rfl, .inr ⟨hy, hx⟩]
  trans := by
    rintro x y z (rfl | ⟨hx, hy⟩) hyz
    · exact hyz
    · rcases hyz with rfl | ⟨-, hz⟩
      exacts [.inr ⟨hx, hy⟩, .inr ⟨hx, hz⟩]

theorem forall₂_linesMatch_trans {a b c : List Str} (hab : List.Forall₂ LinesMatch a b)
    (hbc : List.Forall₂ LinesMatch b c) : List.Forall₂ LinesMatch a c := by
  induction hab generalizing c with
  | nil => exact hbc
  | cons hxy _ ih =>
    cases hbc with
    | cons hyz hbc => exact .cons (linesMatch_equivalence.trans hxy hyz) (ih hbc)

theorem potFilesSame_refl (a : Str) : potFilesSame a a = true :=
  (forLinePairs_zipLongest _ _).2 (List.forall₂_same.2 fun _ _ => .inl rfl)

theorem potFilesSame_symm {a b : Str} (h : potFilesSame a b = true) : potFilesSame b a = true :=
  (forLinePairs_zipLongest _ _).2
    (((forLinePairs_zipLongest _ _).1 h).imp fun _ _ => linesMatch_equivalence.symm).flip

/-- `pot_files_same` is an equivalence on files: a file matches itself, the order of the two
files does not matter, and two files that match a third match each other. -/
theorem potFilesSame_equivalence : Equivalence fun a b => potFilesSame a b = true :=
  ⟨potFilesSame_refl, potFilesSame_symm, fun hab hbc => (forLinePairs_zipLongest _ _).2
    (forall₂_linesMatch_trans ((forLinePairs_zipLongest _ _).1 hab)
      ((forLinePairs_zipLongest _ _).1 hbc))⟩

/-! ## One wildcard line -/

/-- The comparison the docstring of a timestamp-blind diff suggests: the lines with the first
date-shaped line, the header's, replaced by a placeholder `none`. -/
def maskFirstDate : List Str → List (Option Str)
  | [] => []
  | l :: ls => if isPotCreationDate (some l) then none :: ls.map some else some l :: maskFirstDate ls

/-- Two POT files whose header dates differ and whose source strings differ in a line of the
header's shape (a PO header template quoted in a source): `pot_files_same` accepts them,
though with the header date masked they still differ. -/
theorem potFilesSame_body_date_line :
    potFilesSame
        "\"POT-Creation-Date: 2024-01-01\\n\"\nmsgid \"\"\n\"POT-Creation-Date: A\\n\"\n".toList
        "\"POT-Creation-Date: 2024-02-02\\n\"\nmsgid \"\"\n\"POT-Creation-Date: B\\n\"\n".toList =
      true ∧
    maskFirstDate (readLines
        "\"POT-Creation-Date: 2024-01-01\\n\"\nmsgid \"\"\n\"POT-Creation-Date: A\\n\"\n".toList) ≠
      maskFirstDate (readLines
        "\"POT-Creation-Date: 2024-02-02\\n\"\nmsgid \"\"\n\"POT-Creation-Date: B\\n\"\n".toList) := by
  decide

end XGettextAddon

end WeblateGettext
