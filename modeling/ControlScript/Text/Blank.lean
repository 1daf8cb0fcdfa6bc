import ControlScript.Text.Bytes

/-!
# White space

The characters with the Unicode property `White_Space`, and the removal of white space
at the end of a text. Source lines are compiled, and faults keep their source, without it.
-/

namespace ControlScript

/-- The characters with the property `White_Space`. -/
def isBlank (c : Char) : Bool :=
  let n := c.toNat
  (0x09 ≤ n && n ≤ 0x0D) || n == 0x20 || n == 0x85 || n == 0xA0 || n == 0x1680 ||
    (0x2000 ≤ n && n ≤ 0x200A) || n == 0x2028 || n == 0x2029 || n == 0x202F || n == 0x205F ||
    n == 0x3000

/-- The text without the white space at its end. -/
def trimEnd (cs : List Char) : List Char := (cs.reverse.dropWhile isBlank).reverse

/-- What `trimEnd` removes is white space. -/
theorem exists_trimEnd_append (cs : List Char) :
    ∃ blanks, trimEnd cs ++ blanks = cs ∧ ∀ c ∈ blanks, isBlank c := by
  refine ⟨(cs.reverse.takeWhile isBlank).reverse, ?_, ?_⟩
  · rw [trimEnd, ← List.reverse_append, List.takeWhile_append_dropWhile, List.reverse_reverse]
  · intro c hc
    exact List.all_eq_true.mp List.all_takeWhile c (List.mem_reverse.mp hc)

/-- No white space is left at the end. -/
theorem isBlank_getLast_trimEnd (cs : List Char) (nonempty : trimEnd cs ≠ []) :
    isBlank ((trimEnd cs).getLast nonempty) = false := by
  have rest : cs.reverse.dropWhile isBlank ≠ [] := by simpa [trimEnd] using nonempty
  simpa [trimEnd, List.getLast_reverse] using List.head_dropWhile_not isBlank rest

end ControlScript
