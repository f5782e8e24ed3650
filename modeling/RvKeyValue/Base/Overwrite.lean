import Mathlib.Logic.Function.Basic
import Mathlib.Data.List.Basic

/-!
# Last write wins

A store from keys to values and a list of writes to it. What a list of writes leaves at a key is the
last write to the key, or what was there before. So a list that is replayed over a store that already
has some of its writes leaves what it leaves over the store it was first applied to.
-/

namespace Overwrite

variable {κ ν : Type*} [DecidableEq κ]

/-- Apply writes in order. -/
def replay (store : κ → ν) : List (κ × ν) → κ → ν
  | [] => store
  | write :: rest => replay (Function.update store write.1 write.2) rest

/-- Writes are applied one list after the other. -/
theorem replay_append (store : κ → ν) (first second : List (κ × ν)) :
    replay store (first ++ second) = replay (replay store first) second := by
  induction first generalizing store with
  | nil => rfl
  | cons write rest ih => exact ih _

/-- A key that is not written keeps its value. -/
theorem replay_of_notMem {store : κ → ν} {writes : List (κ × ν)} {key : κ}
    (unwritten : ∀ write ∈ writes, write.1 ≠ key) : replay store writes key = store key := by
  induction writes generalizing store with
  | nil => rfl
  | cons write rest ih =>
    obtain ⟨first, later⟩ := List.forall_mem_cons.mp unwritten
    exact (ih later).trans (Function.update_of_ne first.symm _ _)

/-- What is left at a key depends on the store only there, and not at all on it when the key is
written. -/
theorem replay_congr {left right : κ → ν} {writes : List (κ × ν)} {key : κ}
    (same : left key = right key ∨ ∃ write ∈ writes, write.1 = key) :
    replay left writes key = replay right writes key := by
  induction writes generalizing left right with
  | nil => exact same.resolve_right (by simp)
  | cons write rest ih =>
    refine ih ?_
    by_cases here : write.1 = key
    · refine Or.inl ?_
      rw [← here, Function.update_self, Function.update_self]
    · refine same.imp (fun equal => ?_) fun later => ?_
      · rw [Function.update_of_ne (Ne.symm here), Function.update_of_ne (Ne.symm here)]
        exact equal
      · obtain ⟨other, listed, there⟩ := later
        refine ⟨other, (List.mem_cons.mp listed).resolve_left fun first => here ?_, there⟩
        rw [← first]
        exact there

/-- What is left at a key was there or was written. -/
theorem replay_eq_or_mem (store : κ → ν) (writes : List (κ × ν)) (key : κ) :
    replay store writes key = store key ∨ (key, replay store writes key) ∈ writes := by
  induction writes generalizing store with
  | nil => exact Or.inl rfl
  | cons write rest ih =>
    cases ih (Function.update store write.1 write.2) with
    | inr listed => exact Or.inr (List.mem_cons_of_mem _ listed)
    | inl kept =>
      by_cases here : key = write.1
      · refine Or.inr (List.mem_cons.mpr (Or.inl ?_))
        rw [replay, kept, here, Function.update_self]
      · rw [replay, kept]
        exact Or.inl (Function.update_of_ne here _ _)

/-- With one write to each key, every write is there afterwards. -/
theorem replay_of_mem {store : κ → ν} {writes : List (κ × ν)}
    (distinct : writes.Pairwise fun left right => left.1 ≠ right.1) {write : κ × ν}
    (listed : write ∈ writes) : replay store writes write.1 = write.2 := by
  induction writes generalizing store with
  | nil => contradiction
  | cons first rest ih =>
    obtain ⟨apart, later⟩ := List.pairwise_cons.mp distinct
    cases List.mem_cons.mp listed with
    | inl here =>
      rw [here, replay, replay_of_notMem fun other among => (apart other among).symm,
        Function.update_self]
    | inr among => exact ih later among

/-- Writes that the store already has, replayed as the start of a longer list, are lost in it. -/
theorem replay_replay (store : κ → ν) {first whole : List (κ × ν)} (within : ∀ write ∈ first, write ∈ whole) :
    replay (replay store first) whole = replay store whole := by
  funext key
  refine replay_congr ?_
  by_cases written : ∃ write ∈ first, write.1 = key
  · obtain ⟨write, listed, there⟩ := written
    exact Or.inr ⟨write, within write listed, there⟩
  · refine Or.inl (replay_of_notMem fun write listed there => written ⟨write, listed, there⟩)

/-- Writes that the store already shows change nothing. -/
theorem replay_eq_self {store : κ → ν} {writes : List (κ × ν)}
    (shown : ∀ write ∈ writes, store write.1 = write.2) : replay store writes = store := by
  induction writes with
  | nil => rfl
  | cons write rest ih =>
    obtain ⟨first, later⟩ := List.forall_mem_cons.mp shown
    rw [replay, ← first, Function.update_eq_self]
    exact ih later

/-- A store has the last write to each key that some writes name. -/
def Shows (store : κ → ν) (writes : List (κ × ν)) : Prop :=
  ∀ key, (∃ write ∈ writes, write.1 = key) → ∀ base, store key = replay base writes key

/-- Writes that are replayed over a store are shown after those that it shows. -/
theorem Shows.append {store : κ → ν} {first second : List (κ × ν)} (shows : Shows store first) :
    Shows (replay store second) (first ++ second) := by
  intro key written base
  rw [replay_append]
  refine replay_congr ?_
  by_cases later : ∃ write ∈ second, write.1 = key
  · exact Or.inr later
  · obtain ⟨write, listed, there⟩ := written
    refine Or.inl (shows key ⟨write, ?_, there⟩ base)
    exact (List.mem_append.mp listed).resolve_right fun among => later ⟨write, among, there⟩

/-- What is left at a key depends on the writes to the key only. -/
theorem replay_filter (store : κ → ν) (writes : List (κ × ν)) (key : κ) :
    replay store (writes.filter fun write => decide (write.1 = key)) key = replay store writes key := by
  induction writes generalizing store with
  | nil => rfl
  | cons write rest ih =>
    by_cases here : write.1 = key
    · rw [List.filter_cons_of_pos (by simpa using here)]
      exact ih _
    · rw [List.filter_cons_of_neg (by simpa using here), ih]
      refine replay_congr (Or.inl ?_)
      exact (Function.update_of_ne (Ne.symm here) ..).symm

/-- Two stores that show the same writes to a key hold the same there. -/
theorem Shows.agree {left right : κ → ν} {first second : List (κ × ν)} (shows : Shows left first)
    (others : Shows right second) {key : κ} (written : ∃ write ∈ first, write.1 = key)
    (same : (first.filter fun write => decide (write.1 = key)) =
      second.filter fun write => decide (write.1 = key)) : left key = right key := by
  have there : ∃ write ∈ second, write.1 = key := by
    obtain ⟨write, listed, here⟩ := written
    have among : write ∈ second.filter fun write => decide (write.1 = key) := by
      rw [← same]
      exact List.mem_filter.mpr ⟨listed, decide_eq_true here⟩
    exact ⟨write, (List.mem_filter.mp among).1, here⟩
  calc left key = replay left first key := shows key written left
    _ = replay left (first.filter fun write => decide (write.1 = key)) key := (replay_filter ..).symm
    _ = replay left (second.filter fun write => decide (write.1 = key)) key := by rw [same]
    _ = replay left second key := replay_filter ..
    _ = right key := (others key there left).symm

end Overwrite
