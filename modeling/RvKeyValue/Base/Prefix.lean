import Mathlib.Data.List.Infix

/-!
# Positions in prefixes

Facts about a list and its prefixes read by position, in the forms a log needs.
-/

namespace List

variable {α : Type*}

/-- A prefix's entries stand at the same positions in the whole list. -/
theorem IsPrefix.getElem?_of_some {pre list : List α} (isPrefix : pre <+: list) {position : Nat}
    {entry : α} (found : pre[position]? = some entry) : list[position]? = some entry := by
  obtain ⟨rest, rfl⟩ := isPrefix
  rw [List.getElem?_append_left (List.getElem?_eq_some_iff.mp found).1]
  exact found

end List
