import Mathlib.Data.Finset.Card

/-!
# Quorums

A quorum system is a family of finite sets of which any two meet. Majorities of a fixed
finite membership are the instance used with counted votes.
-/

/-- A family of finite sets any two of which share a member. -/
structure Quorums (N : Type*) where
  /-- The sets that decide. -/
  IsQuorum : Finset N → Prop
  /-- Two deciding sets always share a member. -/
  meet : ∀ left right, IsQuorum left → IsQuorum right → ∃ member, member ∈ left ∧ member ∈ right

namespace Quorums

variable {N : Type*} [DecidableEq N]

/-- The sets of members that hold more than half of a finite membership. -/
def majority (members : Finset N) : Quorums N where
  IsQuorum chosen := chosen ⊆ members ∧ members.card < 2 * chosen.card
  meet left right leftMajority rightMajority := by
    have overlap : (left ∩ right).Nonempty :=
      Finset.inter_nonempty_of_card_lt_card_add_card leftMajority.1 rightMajority.1
        (by have := leftMajority.2; have := rightMajority.2; omega)
    obtain ⟨member, shared⟩ := overlap
    exact ⟨member, (Finset.mem_inter.mp shared).1, (Finset.mem_inter.mp shared).2⟩

/-- Majorities of two memberships that differ in one member at most share a member. -/
theorem majority_meet_of_close {first second : Finset N}
    (close : (first \ second).card + (second \ first).card ≤ 1) {left right : Finset N}
    (leftMajority : (majority first).IsQuorum left)
    (rightMajority : (majority second).IsQuorum right) :
    ∃ member, member ∈ left ∧ member ∈ right := by
  obtain ⟨leftInside, leftHalf⟩ := leftMajority
  obtain ⟨rightInside, rightHalf⟩ := rightMajority
  have firstSize := Finset.card_sdiff_add_card_inter first second
  have secondSize := Finset.card_sdiff_add_card_inter second first
  have all := Finset.card_sdiff_add_card second first
  rw [Finset.inter_comm] at secondSize
  have inSecond : right ⊆ second ∪ first := rightInside.trans Finset.subset_union_left
  have overlap : (left ∩ right).Nonempty :=
    Finset.inter_nonempty_of_card_lt_card_add_card (leftInside.trans Finset.subset_union_right)
      inSecond (by omega)
  obtain ⟨member, shared⟩ := overlap
  exact ⟨member, (Finset.mem_inter.mp shared).1, (Finset.mem_inter.mp shared).2⟩

/-- A list of distinct members that reaches the count `half + 1` is a majority. -/
theorem majority_of_count {members chosen : List N} (distinct : chosen.Nodup)
    (inside : ∀ member ∈ chosen, member ∈ members)
    (enough : members.length / 2 + 1 ≤ chosen.length) :
    (majority members.toFinset).IsQuorum chosen.toFinset := by
  have size := List.toFinset_card_of_nodup distinct
  have bound := List.toFinset_card_le members
  refine ⟨fun member found => List.mem_toFinset.mpr (inside _ (List.mem_toFinset.mp found)), ?_⟩
  omega

end Quorums
