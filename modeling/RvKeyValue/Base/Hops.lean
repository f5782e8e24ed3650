import Mathlib.Logic.Relation

/-!
# Following a partial function

A partial function on places is followed from one place to the next until it is undefined. If its
places have ranks, and a hop rises in rank whenever another hop can follow it, then no place is
reached from itself. If the ranks are bounded, following ends.
-/

namespace Hops

variable {α : Type*} {next : α → Option α} {inside : α → Prop} {rank : α → Nat}

/-- Where one stands after a number of hops, absent when there was no next place before. -/
def after (next : α → Option α) (start : α) : Nat → Option α
  | 0 => some start
  | hops + 1 => (after next start hops).bind next

/-- The first hop can be taken first. -/
theorem after_succ (next : α → Option α) (start : α) (hops : Nat) :
    after next start (hops + 1) = (next start).bind fun place => after next place hops := by
  induction hops with
  | zero =>
    show (some start).bind next = (next start).bind some
    rw [Option.bind_some, Option.bind_fun_some]
  | succ hops ih =>
    rw [after, ih, Option.bind_assoc]
    rfl

/-- A hop leads from place to place, and rises if another can follow it. -/
structure Climbs (next : α → Option α) (inside : α → Prop) (rank : α → Nat) : Prop where
  /-- Hops stay inside. -/
  closed : ∀ {i j}, inside i → next i = some j → inside j
  /-- A hop that can be followed by another rises. -/
  rise : ∀ {i j k}, inside i → next i = some j → next j = some k → rank i < rank j

namespace Climbs

/-- Hops that can be followed by another rise. -/
theorem rise_all (climbs : Climbs next inside rank) {i j k : α}
    (path : Relation.TransGen (fun i j => inside i ∧ next i = some j) i j) (more : next j = some k) :
    rank i < rank j := by
  induction path generalizing k with
  | single hop => exact climbs.rise hop.1 hop.2 more
  | tail _ hop ih => exact Nat.lt_trans (ih hop.2) (climbs.rise hop.1 hop.2 more)

/-- No place is reached from itself. -/
theorem acyclic (climbs : Climbs next inside rank) (i : α) :
    ¬ Relation.TransGen (fun i j => inside i ∧ next i = some j) i i := by
  intro cycle
  obtain ⟨j, first, -⟩ := Relation.TransGen.head'_iff.mp cycle
  exact Nat.lt_irrefl _ (climbs.rise_all cycle first.2)

/-- Following ends below a bound of the ranks. -/
theorem ends (climbs : Climbs next inside rank) {bound : Nat}
    (bounded : ∀ i, inside i → rank i ≤ bound) {start : α} (here : inside start) :
    ∃ hops, after next start hops = none := by
  -- what is left to climb shrinks with every hop that another follows
  induction left : bound - rank start using Nat.strongRecOn generalizing start with
  | ind left ih =>
    cases first : next start with
    | none => exact ⟨1, by rw [after_succ, first, Option.bind_none]⟩
    | some place =>
      cases second : next place with
      | none =>
        refine ⟨2, ?_⟩
        rw [after_succ, first, Option.bind_some, after_succ, second, Option.bind_none]
      | some other =>
        have there := climbs.closed here first
        have higher := climbs.rise here first second
        have low := bounded place there
        obtain ⟨hops, gone⟩ := ih (bound - rank place) (by omega) there rfl
        exact ⟨hops + 1, by rw [after_succ, first, Option.bind_some, gone]⟩

end Climbs

end Hops
