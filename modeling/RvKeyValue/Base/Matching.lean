import RvKeyValue.Base.Prefix

/-!
# Logs that match

Two logs of entries with terms match when equal terms at a position mean equal logs up to it.
Copying a log over a matching one leaves the old log when it has the copied one as a prefix, and
the copied one otherwise. Copies of prefixes of one log can be made in any order and repeated.
-/

namespace Matching

variable {α : Type*}

/-- Two logs with entries of one term at a position are the same up to it. -/
def Matches (term : α → Nat) (left right : List α) : Prop :=
  ∀ position leftEntry rightEntry, left[position]? = some leftEntry →
    right[position]? = some rightEntry → term leftEntry = term rightEntry →
    left.take (position + 1) = right.take (position + 1)

variable {term : α → Nat} {left right third pre : List α}

/-- A log matches its prefixes. -/
theorem Matches.isPrefix (shorter : pre <+: left) : Matches term left pre := by
  obtain ⟨rest, rfl⟩ := shorter
  intro position leftEntry rightEntry atLeft atRight same
  exact List.take_append_of_le_length (List.getElem?_eq_some_iff.mp atRight).1

variable [DecidableEq α]

instance (term : α → Nat) (left right : List α) : Decidable (Matches term left right) :=
  decidable_of_iff (∀ position < min left.length right.length,
    (left[position]?).map term = (right[position]?).map term →
      left.take (position + 1) = right.take (position + 1)) <| by
    constructor
    · intro matching position leftEntry rightEntry atLeft atRight same
      have inLeft := (List.getElem?_eq_some_iff.mp atLeft).1
      have inRight := (List.getElem?_eq_some_iff.mp atRight).1
      refine matching position (by omega) ?_
      rw [atLeft, atRight, Option.map_some, Option.map_some, same]
    · intro matching position inside same
      have atLeft : left[position]? = some left[position] := List.getElem?_eq_getElem (by omega)
      have atRight : right[position]? = some right[position] := List.getElem?_eq_getElem (by omega)
      rw [atLeft, atRight, Option.map_some, Option.map_some] at same
      exact matching position _ _ atLeft atRight (Option.some.inj same)

/-- What a log becomes when another is copied over it. -/
def overlay (old new : List α) : List α := if new <+: old then old else new

variable {old new earlier : List α}

/-- What is copied is there. -/
theorem isPrefix_overlay (old new : List α) : new <+: overlay old new := by
  unfold overlay
  split
  · rename_i present
    exact present
  · exact List.prefix_rfl

/-- Copying what is there changes nothing. -/
theorem overlay_of_isPrefix (present : new <+: old) : overlay old new = old := if_pos present

/-- The copy replaces a log that does not have it. -/
theorem overlay_of_not_isPrefix (absent : ¬ new <+: old) : overlay old new = new := if_neg absent

/-- An earlier copy does not matter to a later one. -/
theorem overlay_overlay (older : earlier <+: new) :
    overlay (overlay old earlier) new = overlay old new := by
  by_cases present : earlier <+: old
  · rw [overlay_of_isPrefix present]
  · have absent : ¬ new <+: old := fun there => present (older.trans there)
    rw [overlay_of_not_isPrefix present, overlay_of_not_isPrefix absent]
    by_cases same : new <+: earlier
    · rw [overlay_of_isPrefix same]
      exact older.eq_of_length_le same.length_le
    · exact overlay_of_not_isPrefix same

/-- A late copy of an earlier log changes nothing. -/
theorem overlay_late (older : earlier <+: new) :
    overlay (overlay old new) earlier = overlay old new :=
  overlay_of_isPrefix (older.trans (isPrefix_overlay old new))

/-- A log that matches both matches the copy. -/
theorem Matches.overlay (matchesOld : Matches term third old) (matchesNew : Matches term third new) :
    Matches term third (overlay old new) := by
  unfold Matching.overlay
  split
  · exact matchesOld
  · exact matchesNew

end Matching
