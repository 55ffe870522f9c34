/-
Gridbook/Proofs/Text/Blank.lean

What trimming leaves.  A text without blanks is left as it is (`trimBy_eq_self`),
and so is a text that has been trimmed before (`trimBy_trimBy`, `strip_strip`).
What it takes off stands at both ends (`exists_trimBy`, `trimBy_append`).
-/
import Mathlib.Data.List.DropRight
import Gridbook.Text.Blank

namespace Gridbook.Text

variable {p : Char → Bool}

theorem dropWhile_eq_self {cs : List Char} (h : ∀ c ∈ cs, p c = false) :
    cs.dropWhile p = cs := by
  cases cs with
  | nil => rfl
  | cons c cs => rw [List.dropWhile_cons_of_neg (by simp [h c List.mem_cons_self])]

theorem trimBy_eq_self {cs : List Char} (h : ∀ c ∈ cs, p c = false) : trimBy p cs = cs := by
  have hr : ∀ c ∈ cs.reverse, p c = false := fun c hc => h c (List.mem_reverse.1 hc)
  rw [trimBy, dropWhile_eq_self h, dropWhile_eq_self hr, List.reverse_reverse]

/-- What is left starts with no member of the class: it is a prefix of a text
that does not. -/
theorem dropWhile_trimBy (cs : List Char) : (trimBy p cs).dropWhile p = trimBy p cs := by
  rw [List.dropWhile_eq_self_iff]
  intro hpos hp
  have hprefix : trimBy p cs <+: cs.dropWhile p := List.rdropWhile_prefix p (cs.dropWhile p)
  have hlen : 0 < (cs.dropWhile p).length := Nat.lt_of_lt_of_le hpos hprefix.length_le
  have hfirst : (trimBy p cs)[0] = (cs.dropWhile p)[0] := hprefix.getElem hpos
  rw [hfirst] at hp
  exact absurd hp (by simpa using List.dropWhile_get_zero_not p cs hlen)

theorem trimBy_trimBy (cs : List Char) : trimBy p (trimBy p cs) = trimBy p cs := by
  show ((trimBy p cs).dropWhile p).rdropWhile p = trimBy p cs
  rw [dropWhile_trimBy]
  exact List.rdropWhile_idempotent p (cs.dropWhile p)

/-- Trimming takes members of the class off both ends and nothing else. -/
theorem exists_trimBy (cs : List Char) :
    ∃ lead tail, cs = lead ++ trimBy p cs ++ tail ∧ (∀ c ∈ lead, p c) ∧ ∀ c ∈ tail, p c := by
  refine ⟨cs.takeWhile p, (cs.dropWhile p).rtakeWhile p, ?_, fun c => List.mem_takeWhile_imp, ?_⟩
  · have hrest : trimBy p cs ++ (cs.dropWhile p).rtakeWhile p = cs.dropWhile p :=
      List.rdropWhile_append_rtakeWhile
    rw [List.append_assoc, hrest, List.takeWhile_append_dropWhile]
  · exact fun c => List.mem_rtakeWhile_imp

/-- What no member of the class starts or ends is left of what stands around it. -/
theorem trimBy_append {lead cs tail : List Char} (hlead : ∀ c ∈ lead, p c)
    (htail : ∀ c ∈ tail, p c) (hcs : ∀ c ∈ cs, p c = false) (hne : cs ≠ []) :
    trimBy p (lead ++ cs ++ tail) = cs := by
  have hfront : (cs ++ tail).dropWhile p = cs ++ tail := by
    obtain ⟨c, cs, rfl⟩ := List.exists_cons_of_ne_nil hne
    exact List.dropWhile_cons_of_neg (by simp [hcs c])
  have hr : ∀ c ∈ cs.reverse, p c = false := fun c hc => hcs c (List.mem_reverse.1 hc)
  have htail' : ∀ c ∈ tail.reverse, p c := fun c hc => htail c (List.mem_reverse.1 hc)
  rw [trimBy, List.append_assoc, List.dropWhile_append_of_pos hlead, hfront, List.reverse_append,
    List.dropWhile_append_of_pos htail', dropWhile_eq_self hr, List.reverse_reverse]

theorem strip_strip (s : String) : strip (strip s) = strip s := by
  simp only [strip, trim, String.toList_ofList, trimBy_trimBy]

end Gridbook.Text
