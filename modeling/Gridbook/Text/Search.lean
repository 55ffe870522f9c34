/-
Gridbook/Text/Search.lean

Substring search on lists of characters.  `occursIn needle hay` tries every
place of `hay`.

Main statement: `occursIn` decides "is a contiguous part of"
(`occursIn_iff_infix`).
-/
namespace Gridbook.Text

/-- Does `needle` occur in `hay` as a contiguous part? -/
def occursIn (needle : List Char) : List Char → Bool
  | [] => needle.isEmpty
  | c :: hay => needle.isPrefixOf (c :: hay) || occursIn needle hay

theorem occursIn_iff_infix {needle hay : List Char} :
    occursIn needle hay ↔ needle <:+: hay := by
  induction hay with
  | nil => simp [occursIn]
  | cons c hay ih => simp [occursIn, ih, List.infix_cons_iff]

end Gridbook.Text
