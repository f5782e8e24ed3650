import RvKeyValue.Program.Steps

/-!
# The spacing of elections

`RunElectionTimer` sets a new timer in every turn of its loop, of `MinElectionTimeout` at least. So
between two elections of a node, and between a reset of its timer and its next election, at least that
time passes; a crash between them changes nothing, since a process that is started again waits first.
-/

open Raft (NodeId Members Label)
open Store (Json)
open Transition (Reach)

namespace Program

/-- Where a timer stands, as far from an earlier time as it should. -/
def TimerStage.Due (now time : Nat) : TimerStage → Prop
  | waiting deadline => time + minElectionTimeout ≤ deadline
  | fired => time + minElectionTimeout ≤ now
  | starting => time + minElectionTimeout ≤ now
  | _ => True

/-- Time passes. -/
theorem TimerStage.Due.mono {now later time : Nat} {stage : TimerStage} (due : stage.Due now time)
    (passed : now ≤ later) : stage.Due later time := by
  cases stage with
  | fired => exact Nat.le_trans due passed
  | starting => exact Nat.le_trans due passed
  | _ => exact due

/-- An election is apart from what its node's timer did before. -/
def Moment.Apart (earlier later : Moment) : Prop :=
  earlier.node = later.node → later.pulse = .election → earlier.time + minElectionTimeout ≤ later.time

section

variable {json : Json} {members : Members} {p p' : Program} {action : Action}

/-- Whatever a step does to a timer, it stays as far from the past as it should. -/
theorem AtNode.due {id : NodeId} (at_ : AtNode json members p p' id) (passed : p.now ≤ p'.now)
    {time : Nat} (past : time ≤ p.now) (due : (p.loops id).timer.Due p.now time) :
    (p'.loops id).timer.Due p'.now time := by
  cases at_ with
  | rests server timer =>
    rw [timer]
    exact due.mono passed
  | turns server timer turns =>
    rw [timer]
    cases turns with
    | arm arming least =>
      show time + minElectionTimeout ≤ _
      omega
    | fire waiting ends =>
      rw [waiting] at due
      replace due : time + minElectionTimeout ≤ _ := due
      show time + minElectionTimeout ≤ p'.now
      omega
    | follows fired role =>
      rw [fired] at due
      exact Nat.le_trans due passed
    | reset waiting => trivial
    | leads fired => trivial
    | halt waiting => trivial
  | elects starting timer reacted server =>
    rw [timer]
    trivial
  | reacts other reacted server timer =>
    rcases timer with same | ⟨-, arming | stopped⟩
    · rw [same]
      exact due.mono passed
    · rw [arming]
      trivial
    · rw [stopped]
      trivial

/-- Time does not go back, and what is written down is the reset of a timer or an election that it
starts. -/
theorem Does.journal (does : Does json members p action p') : p.now ≤ p'.now ∧
    (p'.journal = p.journal ∨ ∃ moment, p'.journal = p.journal ++ [moment] ∧ moment.time = p.now ∧
      (∀ now time, (p'.loops moment.node).timer.Due now time) ∧
      (moment.pulse = .election → (p.loops moment.node).timer = .starting)) := by
  cases does with
  | serves free stepped =>
    unfold hear
    split
    · exact ⟨le_rfl, Or.inl rfl⟩
    · exact ⟨le_rfl, Or.inl rfl⟩
  | @elects node service starting stepped =>
    refine ⟨le_rfl, Or.inr ⟨⟨node, p.now, .election⟩, rfl, rfl, fun now time => ?_, fun _ => starting⟩⟩
    simp only [note, set_loops, if_true]
    trivial
  | beats starting stepped => exact ⟨le_rfl, Or.inl rfl⟩
  | @resets node turns =>
    refine ⟨le_rfl, Or.inr ⟨⟨node, p.now, .reset⟩, rfl, rfl, fun now time => ?_, by simp⟩⟩
    simp only [note, set_loops, if_true]
    trivial
  | turns silent turns => exact ⟨le_rfl, Or.inl rfl⟩
  | moves silent timer => exact ⟨le_rfl, Or.inl rfl⟩
  | elapses duration => exact ⟨Nat.le_add_right .., Or.inl rfl⟩

/-- The journal of the timers, and where they stand. -/
structure Spaced (p : Program) : Prop where
  /-- What is written down is past. -/
  past : ∀ moment ∈ p.journal, moment.time ≤ p.now
  /-- Timers are on their way from it. -/
  due : ∀ moment ∈ p.journal, (p.loops moment.node).timer.Due p.now moment.time
  /-- Elections are apart from what was before them. -/
  apart : p.journal.Pairwise Moment.Apart

/-- A step keeps elections apart. -/
theorem Spaced.step (spaced : p.Spaced) (stepped : p.step json members action = some p') :
    p'.Spaced := by
  have does := step_does stepped
  obtain ⟨passed, written⟩ := does.journal
  have past : ∀ moment ∈ p.journal, moment.time ≤ p'.now :=
    fun moment listed => (spaced.past moment listed).trans passed
  have due : ∀ moment ∈ p.journal, (p'.loops moment.node).timer.Due p'.now moment.time :=
    fun moment listed =>
      (does.atNode moment.node).due passed (spaced.past moment listed) (spaced.due moment listed)
  rcases written with same | ⟨moment, added, time, fresh, elects⟩
  · exact ⟨by rwa [same], by rwa [same], by rw [same]; exact spaced.apart⟩
  · refine ⟨?_, ?_, ?_⟩
    all_goals rw [added]
    · refine List.forall_mem_append.mpr ⟨past, List.forall_mem_singleton.mpr ?_⟩
      rw [time]
      exact passed
    · exact List.forall_mem_append.mpr
        ⟨due, List.forall_mem_singleton.mpr (fresh p'.now moment.time)⟩
    · refine List.pairwise_append.mpr ⟨spaced.apart, List.pairwise_singleton .., ?_⟩
      intro earlier old later new node pulse
      rw [List.mem_singleton.mp new] at node pulse ⊢
      -- the timer had fired since the earlier moment
      have waited := spaced.due earlier old
      rw [node, elects pulse] at waited
      rw [time]
      exact waited

/-- In every run of the program, whoever crashes, at least `MinElectionTimeout` passes between two
elections that a node starts, and between a reset of its timer and the next election it starts. -/
theorem elections_spaced (run : Reach (step json members) (fun _ _ => True) (initial members) p) :
    p.journal.Pairwise Moment.Apart := by
  have spaced : p.Spaced := run.invariant (P := Spaced)
    ⟨by simp [initial], by simp [initial], List.Pairwise.nil⟩
    fun _ _ _ spaced _ stepped => spaced.step stepped
  exact spaced.apart

end

/-- `A` is elected and sends a heartbeat that resets the timer of `B`; `B` starts an election, crashes
and starts another. -/
def resetThenElections : List Action :=
  timedCampaign "A" 0 1 [("C", 0)] ++ [.timer "B" (.arm 0), .heartbeat "A" .tick, .heartbeat "A" .look,
    .heartbeat "A" .start] ++
  ofLabels (Label.sections "A" 1 5 ++
    [⟨"B", .serve ⟨"A", "B", 1, .appendRequest ⟨1, "A", 0, 0, [], 0⟩⟩ true⟩]) ++
  [.notify "B", .timer "B" .reset] ++ timeout "B" ++ ofLabels [⟨"B", .crash⟩] ++ timeout "B"

/-- The election follows the reset, and the next election the first, by the shortest timeout. -/
theorem elections_spaced_reset : ∃ p : Program,
    Reach (step Store.wire Raft.threeNodes) (fun _ _ => True) (initial Raft.threeNodes) p ∧
      p.journal = [⟨"A", 150000000, .election⟩, ⟨"B", 150000000, .reset⟩, ⟨"B", 300000000, .election⟩,
        ⟨"B", 450000000, .election⟩] ∧
      p.journal.Pairwise Moment.Apart := by
  have passed : (Transition.exec (step Store.wire Raft.threeNodes) (fun _ _ => True)
      (initial Raft.threeNodes) resetThenElections).any (fun p => decide (p.journal =
        [⟨"A", 150000000, .election⟩, ⟨"B", 150000000, .reset⟩, ⟨"B", 300000000, .election⟩,
          ⟨"B", 450000000, .election⟩])) = true := by
    decide +kernel
  obtain ⟨p, run, test⟩ := Reach.of_exec_test passed
  exact ⟨p, run, of_decide_eq_true test, elections_spaced run⟩

end Program
