import Mathlib.Data.Finset.Card
import Mathlib.Data.List.Perm.Subperm

/-!
# Counting answers

Everyone on a list is asked once, and the answers are counted as they come. The list may name somebody
twice: then that name is asked twice and may be counted twice. So the count is of places on the list;
it is of different names when the list repeats nobody.
-/

namespace Ballot

variable {α : Type*} {asked waiting voters : List α} {granted granted' : α → Prop} {votes quorum : Nat}
  {peer : α}

/-- A count that starts at one: the others counted are on the list, apart from those waited for. -/
def Count (asked : List α) (granted : α → Prop) (votes : Nat) (waiting : List α) : Prop :=
  ∃ voters : List α, (voters ++ waiting).Subperm asked ∧ votes = voters.length + 1 ∧
    ∀ voter ∈ voters, granted voter

/-- Enough of those on the list have granted, with one more. -/
def Carried (asked : List α) (granted : α → Prop) (quorum : Nat) : Prop :=
  ∃ voters : List α, voters.Subperm asked ∧ quorum ≤ voters.length + 1 ∧ ∀ voter ∈ voters, granted voter

/-- Nobody has answered. -/
theorem Count.start (asked : List α) (granted : α → Prop) : Count asked granted 1 asked :=
  ⟨[], by simpa using List.Subperm.refl asked, rfl, by simp⟩

/-- What a grant stands for may be weakened. -/
theorem Count.imp (count : Count asked granted votes waiting)
    (weaker : ∀ voter, granted voter → granted' voter) : Count asked granted' votes waiting := by
  obtain ⟨voters, listed, counted, grants⟩ := count
  exact ⟨voters, listed, counted, fun voter among => weaker voter (grants voter among)⟩

/-- So it may when enough have granted. -/
theorem Carried.imp (carried : Carried asked granted quorum)
    (weaker : ∀ voter, granted voter → granted' voter) : Carried asked granted' quorum := by
  obtain ⟨voters, listed, enough, grants⟩ := carried
  exact ⟨voters, listed, enough, fun voter among => weaker voter (grants voter among)⟩

/-- The order in which answers are waited for does not matter. -/
theorem Count.perm {waiting' : List α} (count : Count asked granted votes waiting)
    (same : waiting.Perm waiting') : Count asked granted votes waiting' := by
  obtain ⟨voters, listed, counted, grants⟩ := count
  exact ⟨voters, (same.symm.append_left voters).subperm.trans listed, counted, grants⟩

/-- An answer that is not counted. -/
theorem Count.drop (count : Count asked granted votes (peer :: waiting)) :
    Count asked granted votes waiting := by
  obtain ⟨voters, listed, counted, grants⟩ := count
  have fewer : (voters ++ waiting).Sublist (voters ++ peer :: waiting) :=
    (List.sublist_cons_self peer waiting).append_left voters
  exact ⟨voters, fewer.subperm.trans listed, counted, grants⟩

/-- An answer that is counted. -/
theorem Count.grant (count : Count asked granted votes (peer :: waiting)) (yes : granted peer) :
    Count asked granted (votes + 1) waiting := by
  obtain ⟨voters, listed, counted, grants⟩ := count
  refine ⟨peer :: voters, ?_, by simp [counted], List.forall_mem_cons.mpr ⟨yes, grants⟩⟩
  have moved : (peer :: voters ++ waiting).Perm (voters ++ peer :: waiting) := List.perm_middle.symm
  exact moved.subperm.trans listed

/-- A count that reaches the quorum. -/
theorem Count.carried (count : Count asked granted votes waiting) (enough : quorum ≤ votes) :
    Carried asked granted quorum := by
  obtain ⟨voters, listed, counted, grants⟩ := count
  have part : voters.Subperm (voters ++ waiting) := (List.sublist_append_left voters waiting).subperm
  exact ⟨voters, part.trans listed, by omega, grants⟩

/-- One alone is enough. -/
theorem Carried.alone (asked : List α) (granted : α → Prop) (enough : quorum ≤ 1) :
    Carried asked granted quorum :=
  (Count.start asked granted).carried enough

/-- On a list without repetitions, that many different names have granted, with one that is not on
the list. -/
theorem Carried.distinct [DecidableEq α] (carried : Carried asked granted quorum) {self : α}
    (distinct : (self :: asked).Nodup) : ∃ names : Finset α, names ⊆ (self :: asked).toFinset ∧
      quorum ≤ names.card ∧ self ∈ names ∧ ∀ name ∈ names, name ≠ self → granted name := by
  obtain ⟨voters, listed, enough, grants⟩ := carried
  obtain ⟨apart, once⟩ := List.nodup_cons.mp distinct
  have different : (self :: voters).Nodup := by
    refine List.nodup_cons.mpr ⟨fun among => apart (listed.subset among), ?_⟩
    obtain ⟨kept, same, part⟩ := listed
    exact same.nodup_iff.mp (once.sublist part)
  refine ⟨(self :: voters).toFinset, fun name among => ?_, ?_, by simp, fun name among other => ?_⟩
  · rw [List.mem_toFinset, List.mem_cons] at among ⊢
    exact among.imp_right fun voter => listed.subset voter
  · rw [List.toFinset_card_of_nodup different]
    exact enough
  · rw [List.mem_toFinset, List.mem_cons] at among
    exact grants name (among.resolve_left other)

end Ballot
