import WeblateGettext.Linguas.Rerun

/-!
# `UpdateLinguasAddon.sync_linguas`

The LINGUAS file is read with `readlines`, edited by `update_linguas` and written back
with `writelines` when the edit reports a change. Appended codes go after the last line
as read, so a file whose last line has no newline gets the first appended code glued to
that line.
-/

namespace WeblateGettext

set_option autoImplicit false

/-- `s.split()`: the maximal runs of non-whitespace characters. -/
def words (s : Str) : List Str := (s.splitOnP isSpace).filter fun w => !w.isEmpty

namespace UpdateLinguasAddon

/-- `sync_linguas(component, path)` on a file holding `text`, with the codes of the
component's translations: the result and the file's text afterwards. -/
def syncLinguas (text : Str) (codes : CodeSet) : Bool × Str :=
  let (changed, lines) := updateLinguas (readLines text) codes
  (changed, if changed then writeLines lines else text)

/-- The codes a LINGUAS text lists: the words before the `#` of each of its lines. -/
def listedCodes (text : Str) : List Str := (readLines text).flatMap fun l => words (beforeHash l)

/-- The file `fr` without a final newline, with the codes `fr` and `de`: the line `de` is
appended after `fr` and both are written as the one line `frde`. -/
theorem syncLinguas_glues_last_line :
    syncLinguas "fr".toList ⟨["fr".toList, "de".toList], by decide⟩ = (true, "frde\n".toList) ∧
      listedCodes "frde\n".toList = ["frde".toList] := by
  decide

end UpdateLinguasAddon

end WeblateGettext
