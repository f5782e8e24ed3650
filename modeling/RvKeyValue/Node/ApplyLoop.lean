import RvKeyValue.Cluster.Call
import RvKeyValue.Node.Contiguity

/-!
# The apply loop

`applyCommittedLoop` of `cmd/node/main.go` beside the operations of its node and the `ApplyCommitted`
calls of request handlers. Whoever raises the commit index fills the one-slot channel `commitReady`
in the same section; only the loop empties it. The loop's last `nextCommittedEntry` and its receive
are separate steps, and whatever is committed between them leaves the slot full.
-/

namespace Raft

open Transition (Reach)

/-- `snapshotThresholdEntries`. -/
def snapshotThresholdEntries : Nat := 64

/-- Where `applyCommittedLoop` stands, with what is known of its `ApplyCommitted`. -/
inductive LoopStage (κ : Type)
  /-- In `ApplyCommitted`. -/
  | applying (call : κ)
  /-- Before `ShouldSnapshot`. -/
  | deciding
  /-- Before `stateMachine.Snapshot`. -/
  | snapshotting
  /-- Before `Compact`. -/
  | compacting (snapshot : Bytes)
  /-- At the receive from `CommitReady`. -/
  | waiting
  /-- Returned an error. -/
  | returned
deriving DecidableEq, Repr

namespace LoopStage

variable {κ : Type}

/-- `ApplyCommitted` returns to the loop, nil or an error. -/
def back (failed : Bool) : LoopStage κ := if failed then .returned else .deciding

/-- The loop goes on outside `ApplyCommitted`, which it enters again as `start`. `snapshot` is what
`stateMachine.Snapshot` returns, and `ready` says whether there is something to receive. -/
def next (n : RaftNode) (save : Bool) (snapshot : Option Bytes) (ready : Bool) (start : κ) :
    LoopStage κ → Option (LoopStage κ)
  | deciding => some (if n.shouldSnapshot snapshotThresholdEntries then snapshotting else waiting)
  | snapshotting => some (match snapshot with
      | some bytes => compacting bytes
      | none => returned)
  | compacting bytes => some (if (n.compact save bytes).err.isSome then returned else waiting)
  | waiting => if ready then some (applying start) else none
  | _ => none

/-- What that does to the node. -/
def effect (n : RaftNode) (save : Bool) : LoopStage κ → RaftNode
  | compacting bytes => (n.compact save bytes).node
  | waiting => { n with commitReady := false }
  | _ => n

end LoopStage

/-- A node, the `ApplyCommitted` calls of handlers, and the loop. -/
structure Process where
  /-- The node. -/
  node : RaftNode
  /-- The calls of handlers. -/
  callers : List ApplyStage := []
  /-- The loop. -/
  loop : LoopStage ApplyStage := .applying .fetching

/-- What happens in a process. -/
inductive ProcessEvent
  /-- An operation of the node, other than the sections of `ApplyCommitted`. -/
  | operate (op : Operation) (save : Bool)
  /-- A handler calls `ApplyCommitted`. -/
  | call
  /-- One of these calls takes its next section; `applied` says whether `sm.Apply` succeeds. -/
  | caller (position : Nat) (save applied : Bool)
  /-- The loop goes on; `snapshot` is what `stateMachine.Snapshot` returns, if that is next. -/
  | loop (save applied : Bool) (snapshot : Option Bytes)
  /-- The process is restarted over its store. -/
  | restart

namespace Process

variable (unmarshal : Bytes → Option MembershipCommand)

/-- The loop in `ApplyCommitted`: it returns nil only from `nextCommittedEntry`. -/
def applyNext (p : Process) (save applied : Bool) (stage : ApplyStage) : Option Process :=
  (Call.applyStep unmarshal p.node save applied stage).map fun turn =>
    { p with
      node := turn.node
      loop := match turn.call, stage with
        | some (.apply next), _ => .applying next
        | _, .fetching => .back false
        | _, _ => .back true }

/-- The loop goes on. -/
def loopNext (p : Process) (save applied : Bool) (snapshot : Option Bytes) : Option Process :=
  match p.loop with
  | .applying stage => p.applyNext unmarshal save applied stage
  | stage => (stage.next p.node save snapshot p.node.commitReady .fetching).map fun loop =>
      { p with node := stage.effect p.node save, loop }

/-- A call of a handler takes its next section. -/
def callerNext (p : Process) (position : Nat) (save applied : Bool) : Option Process :=
  (p.callers[position]?).bind fun stage =>
    (Call.applyStep unmarshal p.node save applied stage).map fun turn =>
      { p with
        node := turn.node
        callers := match turn.call with
          | some (.apply next) => p.callers.set position next
          | _ => p.callers.eraseIdx position }

/-- One event; `peers` is the command line's peer list. -/
def next (peers : List NodeId) (p : Process) : ProcessEvent → Option Process
  | .operate op save =>
    if op.applies then none else some { p with node := p.node.perform unmarshal save op }
  | .call => some { p with callers := p.callers ++ [.fetching] }
  | .caller position save applied => p.callerNext unmarshal position save applied
  | .loop save applied snapshot => p.loopNext unmarshal save applied snapshot
  | .restart => some { node := newRaftNode p.node.id peers p.node.store }

end Process

/-- The entry a call of `ApplyCommitted` has fetched and not yet marked. -/
def ApplyStage.entry? : ApplyStage → Option LogEntry
  | fetching => none
  | holding entry => some entry
  | marking entry => some entry

/-- The loop has left `ApplyCommitted` and not yet received from `CommitReady`. -/
def LoopStage.settled {κ : Type} : LoopStage κ → Bool
  | applying _ => false
  | returned => false
  | _ => true

/-- A call of a handler or the loop has fetched an entry. -/
def Process.Holds (p : Process) (entry : LogEntry) : Prop :=
  (∃ stage ∈ p.callers, stage.entry? = some entry) ∨
    ∃ stage, p.loop = .applying stage ∧ stage.entry? = some entry

section

variable {unmarshal : Bytes → Option MembershipCommand} {peers : List NodeId}

/-- What a section of `ApplyCommitted` does. -/
structure ApplySection (unmarshal : Bytes → Option MembershipCommand) (n : RaftNode) (save : Bool)
    (stage : ApplyStage) (turn : Turn) : Prop where
  /-- It leaves the node, or applies or marks the entry it holds. -/
  node : turn.node = n ∨ ∃ entry, stage.entry? = some entry ∧
    (turn.node = n.perform unmarshal save (.applyEntry entry) ∨
      turn.node = n.perform unmarshal save (.markApplied entry.index))
  /-- It goes on with that entry, or with the next committed one. -/
  held : ∀ next entry, turn.call = some (.apply next) → next.entry? = some entry →
    stage.entry? = some entry ∨ n.nextCommittedEntry = some entry
  /-- A fetch that ends the call has found nothing. -/
  done : stage = .fetching → (∀ next, turn.call ≠ some (.apply next)) →
    n.nextCommittedEntry = none ∧ turn.node = n

/-- `Call.applyStep` is such a section. -/
theorem Call.applyStep_section {n : RaftNode} {save applied : Bool} {stage : ApplyStage} {turn : Turn}
    (stepped : Call.applyStep unmarshal n save applied stage = some turn) :
    ApplySection unmarshal n save stage turn := by
  cases stage with
  | fetching =>
    obtain rfl := Option.some.inj stepped
    cases found : n.nextCommittedEntry with
    | none => exact ⟨Or.inl rfl, by simp, fun _ _ => ⟨found, rfl⟩⟩
    | some entry =>
      refine ⟨Or.inl rfl, ?_, fun _ stops => absurd rfl (stops _)⟩
      intro next held call holds
      cases call
      exact Or.inr (found.trans holds)
  | holding entry =>
    obtain rfl := Option.some.inj stepped
    cases decoded : decodeMembershipChange unmarshal entry.command with
    | none =>
      refine ⟨Or.inl rfl, ?_, by simp⟩
      intro next held call holds
      cases applied with
      | false => cases call
      | true =>
        cases call
        exact Or.inl holds
    | some result =>
      cases result with
      | error err => exact ⟨Or.inl rfl, by simp, by simp⟩
      | ok change =>
        refine ⟨Or.inr ⟨entry, rfl, Or.inl ?_⟩, ?_, by simp⟩
        · simp only [RaftNode.perform, RaftNode.applyEntry, decoded]
        · intro next held call holds
          dsimp only at call
          split at call
          · cases call
          · cases call
            cases holds
  | marking entry =>
    obtain rfl := Option.some.inj stepped
    refine ⟨Or.inr ⟨entry, rfl, Or.inr rfl⟩, ?_, by simp⟩
    intro next held call holds
    cases call
    cases holds

namespace Process

variable {p p' : Process} {event : ProcessEvent}

/-- What an event does, other than the loop's receive and a restart. -/
structure Advances (unmarshal : Bytes → Option MembershipCommand) (event : ProcessEvent)
    (p p' : Process) : Prop where
  /-- The node stays, or it takes an operation: the event's, a `Compact`, or one for a held entry. -/
  node : p'.node = p.node ∨ ∃ op save, p'.node = p.node.perform unmarshal save op ∧
    (op.marks = 0 ∧ (event = .operate op save ∨ ∃ bytes, op = .compact bytes) ∨
      ∃ entry, p.Holds entry ∧ (op = .applyEntry entry ∨ op = .markApplied entry.index))
  /-- A held entry was held before, or it is the next committed one. -/
  held : ∀ entry, p'.Holds entry → p.Holds entry ∨ p.node.nextCommittedEntry = some entry
  /-- The loop leaves `ApplyCommitted` only when nothing committed is left. -/
  settled : p'.loop.settled = true → p.loop.settled = true ∨
    p.node.nextCommittedEntry = none ∧ p'.node = p.node

/-- A section of a call takes an operation for the entry the call holds. -/
theorem section_operation {n : RaftNode} {save : Bool} {stage : ApplyStage} {turn : Turn}
    (does : ApplySection unmarshal n save stage turn) (same : p.node = n)
    (holds : ∀ entry, stage.entry? = some entry → p.Holds entry) :
    turn.node = p.node ∨ ∃ op save, turn.node = p.node.perform unmarshal save op ∧
      (op.marks = 0 ∧ (event = .operate op save ∨ ∃ bytes, op = .compact bytes) ∨
        ∃ entry, p.Holds entry ∧ (op = .applyEntry entry ∨ op = .markApplied entry.index)) := by
  subst same
  rcases does.node with kept | ⟨entry, stage, applied | marked⟩
  · exact Or.inl kept
  · exact Or.inr ⟨_, save, applied, Or.inr ⟨entry, holds entry stage, Or.inl rfl⟩⟩
  · exact Or.inr ⟨_, save, marked, Or.inr ⟨entry, holds entry stage, Or.inr rfl⟩⟩

/-- The loop in `ApplyCommitted`. -/
theorem applyNext_advances {save applied : Bool} {stage : ApplyStage} (stands : p.loop = .applying stage)
    (stepped : p.applyNext unmarshal save applied stage = some p') :
    Advances unmarshal event p p' := by
  obtain ⟨turn, taken, rfl⟩ := Option.map_eq_some_iff.mp stepped
  have does := Call.applyStep_section taken
  have holds : ∀ entry, stage.entry? = some entry → p.Holds entry :=
    fun entry found => Or.inr ⟨stage, stands, found⟩
  refine ⟨section_operation does rfl holds, ?_, ?_⟩
  · rintro entry (⟨other, member, found⟩ | ⟨next, goes, found⟩)
    · exact Or.inl (Or.inl ⟨other, member, found⟩)
    · dsimp only at goes
      split at goes
      · rename_i call
        cases goes
        exact (does.held _ entry call found).imp_left (holds entry)
      · cases goes
      · cases goes
  · intro settled
    dsimp only at settled
    split at settled
    · cases settled
    · rename_i stops
      exact Or.inr (does.done rfl fun next call => stops next call)
    · cases settled

/-- A call of a handler. -/
theorem callerNext_advances {position : Nat} {save applied : Bool}
    (stepped : p.callerNext unmarshal position save applied = some p') :
    Advances unmarshal event p p' := by
  obtain ⟨stage, found, stepped⟩ := Option.bind_eq_some_iff.mp stepped
  obtain ⟨turn, taken, rfl⟩ := Option.map_eq_some_iff.mp stepped
  have does := Call.applyStep_section taken
  have member : stage ∈ p.callers := List.mem_of_getElem? found
  have holds : ∀ entry, stage.entry? = some entry → p.Holds entry :=
    fun entry held => Or.inl ⟨stage, member, held⟩
  refine ⟨section_operation does rfl holds, ?_, fun settled => Or.inl settled⟩
  rintro entry (⟨other, among, held⟩ | inLoop)
  · dsimp only at among
    split at among
    · rename_i next call
      rcases List.mem_or_eq_of_mem_set among with before | rfl
      · exact Or.inl (Or.inl ⟨other, before, held⟩)
      · exact (does.held _ entry call held).imp_left (holds entry)
    · exact Or.inl (Or.inl ⟨other, List.mem_of_mem_eraseIdx among, held⟩)
  · exact Or.inl (Or.inr inLoop)

/-- Outside `ApplyCommitted` the loop holds no entry, before and after. -/
theorem outside_advances (stands : p.loop.settled = true) (callers : p'.callers = p.callers)
    (outside : ∀ stage, p'.loop ≠ .applying stage)
    (node : p'.node = p.node ∨ ∃ bytes save, p'.node = p.node.perform unmarshal save (.compact bytes)) :
    Advances unmarshal event p p' := by
  refine ⟨node.imp_right ?_, ?_, fun _ => Or.inl stands⟩
  · rintro ⟨bytes, save, same⟩
    exact ⟨.compact bytes, save, same, Or.inl ⟨rfl, Or.inr ⟨bytes, rfl⟩⟩⟩
  · rintro entry (⟨stage, member, found⟩ | ⟨stage, goes, -⟩)
    · exact Or.inl (Or.inl ⟨stage, callers ▸ member, found⟩)
    · exact absurd goes (outside stage)

/-- What an event can do. -/
theorem next_cases (stepped : p.next unmarshal peers event = some p') :
    Advances unmarshal event p p' ∨
      p.loop = .waiting ∧
        p' = { p with node := { p.node with commitReady := false }, loop := .applying .fetching } ∨
      p' = { node := newRaftNode p.node.id peers p.node.store } := by
  cases event with
  | operate op save =>
    simp only [next] at stepped
    split at stepped
    · cases stepped
    rename_i idle
    obtain rfl := Option.some.inj stepped
    refine Or.inl ⟨Or.inr ⟨op, save, rfl, Or.inl ⟨?_, Or.inl rfl⟩⟩, fun _ held => Or.inl held,
      fun settled => Or.inl settled⟩
    cases op with
    | applyEntry entry => exact absurd rfl idle
    | markApplied index => exact absurd rfl idle
    | _ => rfl
  | call =>
    obtain rfl := Option.some.inj stepped
    refine Or.inl ⟨Or.inl rfl, ?_, fun settled => Or.inl settled⟩
    rintro entry (⟨stage, member, found⟩ | inLoop)
    · rcases List.mem_append.mp member with before | new
      · exact Or.inl (Or.inl ⟨stage, before, found⟩)
      · obtain rfl := List.mem_singleton.mp new
        cases found
    · exact Or.inl (Or.inr inLoop)
  | caller position save applied => exact Or.inl (callerNext_advances stepped)
  | loop save applied snapshot =>
    simp only [next, loopNext] at stepped
    split at stepped
    · rename_i stage stands
      exact Or.inl (applyNext_advances stands stepped)
    · obtain ⟨loop, goes, rfl⟩ := Option.map_eq_some_iff.mp stepped
      cases stands : p.loop with
      | waiting =>
        rw [stands] at goes
        simp only [LoopStage.next] at goes
        split at goes <;> cases goes
        exact Or.inr (Or.inl ⟨rfl, rfl⟩)
      | applying stage => simp [stands, LoopStage.next] at goes
      | returned => simp [stands, LoopStage.next] at goes
      | _ =>
        refine Or.inl (outside_advances (by rw [stands]; rfl) rfl (fun stage => ?_) ?_)
        · rw [stands] at goes
          obtain rfl := Option.some.inj goes
          dsimp only
          split <;> simp
        · first | exact Or.inl rfl | exact Or.inr ⟨_, save, rfl⟩
  | restart =>
    obtain rfl := Option.some.inj stepped
    exact Or.inr (Or.inr rfl)

/-- The snapshot is applied, and a loop that has left `ApplyCommitted` has applied what is committed or
finds the slot full. -/
structure Awake (p : Process) : Prop where
  /-- The snapshot is applied. -/
  included : p.node.lastIncludedIndex ≤ p.node.lastApplied
  /-- Nothing committed is forgotten. -/
  settled : p.loop.settled = true →
    p.node.commitReady = true ∨ p.node.commitIndex ≤ p.node.lastApplied

/-- A started process. -/
theorem Awake.start (id : NodeId) (peers : List NodeId) (store : Option PersistentState) :
    Awake { node := newRaftNode id peers store } := by
  refine ⟨?_, by simp [LoopStage.settled]⟩
  cases store <;> exact le_refl _

/-- An operation keeps the snapshot applied, and what it commits fills the slot. -/
theorem Awake.perform (awake : p.Awake) (unmarshal : Bytes → Option MembershipCommand) (save : Bool)
    (op : Operation) :
    (p.node.perform unmarshal save op).lastIncludedIndex ≤
        (p.node.perform unmarshal save op).lastApplied ∧
      (p.node.commitReady = true ∨ p.node.commitIndex ≤ p.node.lastApplied →
        (p.node.perform unmarshal save op).commitReady = true ∨
          (p.node.perform unmarshal save op).commitIndex ≤
            (p.node.perform unmarshal save op).lastApplied) := by
  have prepared := p.node.perform_prepared unmarshal save op
  have applied := prepared.applied
  have included := prepared.included
  have before := awake.included
  refine ⟨by omega, fun kept => ?_⟩
  rcases kept with full | caught
  · exact Or.inl (prepared.signals.full full)
  · rcases prepared.signals.raised with same | ready
    · exact Or.inr (by omega)
    · exact Or.inl ready

/-- An event keeps it, when a fetch finds nothing only if nothing committed is left. -/
theorem Awake.next (awake : p.Awake) (stepped : p.next unmarshal peers event = some p')
    (found : p.node.nextCommittedEntry = none → p.node.commitIndex ≤ p.node.lastApplied) :
    p'.Awake := by
  rcases next_cases stepped with advances | ⟨-, rfl⟩ | rfl
  · rcases advances.node with same | ⟨op, save, same, -⟩
    · refine ⟨by rw [same]; exact awake.included, fun settled => ?_⟩
      rw [same]
      rcases advances.settled settled with before | ⟨nothing, -⟩
      · exact awake.settled before
      · exact Or.inr (found nothing)
    · obtain ⟨included, kept⟩ := awake.perform unmarshal save op
      refine ⟨by rw [same]; exact included, fun settled => ?_⟩
      rcases advances.settled settled with before | ⟨nothing, stays⟩
      · rw [same]
        exact kept (awake.settled before)
      · rw [stays]
        exact Or.inr (found nothing)
  · exact ⟨awake.included, by simp [LoopStage.settled]⟩
  · exact Awake.start _ _ _

end Process

/-- Below the last log index a fetch finds an entry, whatever the log holds there. -/
theorem RaftNode.nextCommittedEntry_none {n : RaftNode} (included : n.lastIncludedIndex ≤ n.lastApplied)
    (inLog : n.commitIndex ≤ n.lastLogIndexLocked) (word : n.commitIndex < Word.limit)
    (nothing : n.nextCommittedEntry = none) : n.commitIndex ≤ n.lastApplied := by
  by_contra left
  have next : Word.add n.lastApplied 1 = n.lastApplied + 1 := Word.add_eq (by omega)
  have first : n.firstLogIndexLocked = n.lastIncludedIndex + 1 := Word.add_eq (by omega)
  unfold RaftNode.nextCommittedEntry at nothing
  simp only [next] at nothing
  split at nothing
  · rename_i stops
    rcases stops with beyond | absent
    · omega
    · simp only [RaftNode.containsLogIndexLocked, first, Bool.and_eq_false_iff, decide_eq_false_iff_not]
        at absent
      omega
  · cases nothing

/-- The commit index is a word and does not exceed the last log index. -/
def Process.CommitInLog (p : Process) : Prop :=
  p.node.commitIndex < Word.limit ∧ p.node.commitIndex ≤ p.node.lastLogIndexLocked

instance (p : Process) : Decidable p.CommitInLog := by
  unfold Process.CommitInLog
  infer_instance

/-- No wake-up is lost while the commit index stays in the log, whatever requests the node handles: a
loop that waits at an empty slot has applied everything committed. -/
theorem Process.nothing_committed_left {id : NodeId} {store : Option PersistentState} {p : Process}
    (run : Reach (Process.next unmarshal peers) (fun p _ => p.CommitInLog)
      { node := newRaftNode id peers store } p)
    (waits : p.loop = .waiting) (empty : p.node.commitReady = false) :
    p.node.commitIndex ≤ p.node.lastApplied := by
  have awake : p.Awake := run.invariant (Awake.start id peers store)
    fun _ _ _ awake inLog stepped => awake.next stepped
      (RaftNode.nextCommittedEntry_none awake.included inLog.2 inLog.1)
  have settled := awake.settled (by rw [waits]; rfl)
  rw [empty] at settled
  exact settled.resolve_left Bool.false_ne_true

/-- An operation keeps the log numbered. -/
def Process.Known (p : Process) : ProcessEvent → Prop
  | .operate op save => KnownPrev p.node (.perform op save)
  | _ => True

instance (p : Process) (event : ProcessEvent) : Decidable (p.Known event) := by
  cases event <;> unfold Process.Known <;> infer_instance

/-- The commit index does not exceed the last log index, and an operation keeps the log numbered. -/
def Process.Careful (p : Process) (event : ProcessEvent) : Prop :=
  p.node.commitIndex ≤ p.node.lastLogIndexLocked ∧ p.Known event

instance (p : Process) (event : ProcessEvent) : Decidable (p.Careful event) := by
  unfold Process.Careful
  infer_instance

/-- Only committed entries are applied or held. -/
structure Process.Behind (p : Process) : Prop where
  /-- The log is numbered. -/
  numbered : Numbered p.node
  /-- What is applied is committed. -/
  applied : p.node.lastApplied ≤ p.node.commitIndex
  /-- What is held is committed. -/
  held : ∀ entry, p.Holds entry → entry.index ≤ p.node.commitIndex

namespace Process

variable {p p' : Process} {event : ProcessEvent}

/-- A started process over a numbered store. -/
theorem Behind.start {state : PersistentState} {full : List LogEntry}
    (rep : Represents (newRaftNode "" [] (some state)) full) (id : NodeId) (peers : List NodeId) :
    Behind { node := newRaftNode id peers (some state) } := by
  refine ⟨Numbered.start rep id peers, le_refl _, ?_⟩
  rintro entry (⟨stage, member, -⟩ | ⟨stage, goes, found⟩)
  · cases member
  · cases goes
    cases found

/-- In a numbered log the next committed entry has the next index. -/
theorem Behind.fetched (behind : p.Behind) {entry : LogEntry}
    (found : p.node.nextCommittedEntry = some entry) : entry.index ≤ p.node.commitIndex := by
  obtain ⟨full, rep⟩ := behind.numbered.memory
  unfold RaftNode.nextCommittedEntry at found
  dsimp only at found
  split at found
  · cases found
  rename_i ready
  rw [not_or, Bool.not_eq_false, rep.containsLogIndex] at ready
  obtain ⟨committed, above, inside⟩ := ready
  have held : full[Word.add p.node.lastApplied 1 - 1]? = some full[Word.add p.node.lastApplied 1 - 1] :=
    List.getElem?_eq_getElem (by omega)
  have index := rep.indexed _ _ held
  rw [rep.entryAt above held] at found
  rw [← Option.some.inj found]
  omega

/-- An event that keeps the log numbered keeps it. -/
theorem Behind.next (behind : p.Behind) (known : p.Known event)
    (stepped : p.next unmarshal peers event = some p') : p'.Behind := by
  rcases next_cases stepped with advances | ⟨-, rfl⟩ | rfl
  · have committed : ∀ entry, p'.Holds entry → entry.index ≤ p.node.commitIndex := by
      intro entry holds
      rcases advances.held entry holds with before | found
      · exact behind.held entry before
      · exact behind.fetched found
    rcases advances.node with same | ⟨op, save, same, operation⟩
    · refine ⟨?_, ?_, ?_⟩
      · rw [same]
        exact behind.numbered
      · rw [same]
        exact behind.applied
      · rw [same]
        exact committed
    · have prepared := p.node.perform_prepared unmarshal save op
      have commit := prepared.signals.commit
      have most := prepared.marked
      have before := behind.applied
      -- an operation marks nothing, or an entry that was held and so is committed
      have both : op.marks ≤ p.node.commitIndex ∧ KnownPrev p.node (.perform op save) := by
        rcases operation with ⟨none, rfl | ⟨bytes, rfl⟩⟩ | ⟨entry, holds, rfl | rfl⟩
        · exact ⟨none ▸ Nat.zero_le _, known⟩
        · exact ⟨Nat.zero_le _, trivial⟩
        · exact ⟨behind.held entry holds, trivial⟩
        · exact ⟨behind.held entry holds, trivial⟩
      refine ⟨?_, ?_, fun entry holds => ?_⟩
      · rw [same]
        exact behind.numbered.perform both.2
      · rw [same]
        have := both.1
        omega
      · rw [same]
        exact (committed entry holds).trans commit
  · obtain ⟨⟨full, rep⟩, store⟩ := behind.numbered
    refine ⟨⟨⟨full, rep.congr rfl rfl rfl⟩, store⟩, behind.applied, ?_⟩
    rintro entry (inCall | ⟨stage, goes, found⟩)
    · exact behind.held entry (Or.inl inCall)
    · cases goes
      cases found
  · obtain ⟨-, state, stored, full, disk⟩ := behind.numbered
    rw [stored]
    exact Behind.start disk p.node.id peers

end Process

/-- In every run of a process over an empty or saved store whose steps all keep the condition: a loop
that waits at an empty slot has applied exactly what is committed. -/
theorem waiting_loop_applied {id : NodeId} {state : PersistentState} {p : Process}
    (saved : SavedStore unmarshal state)
    (run : Reach (Process.next unmarshal peers) Process.Careful
      { node := newRaftNode id peers (some state) } p)
    (waits : p.loop = .waiting) (empty : p.node.commitReady = false) :
    p.node.lastApplied = p.node.commitIndex := by
  obtain ⟨full, rep⟩ := saved.numbered
  have both : p.Awake ∧ p.Behind := by
    refine run.invariant (P := fun p => p.Awake ∧ p.Behind)
      ⟨Process.Awake.start id peers (some state), Process.Behind.start rep id peers⟩ ?_
    rintro before event after ⟨awake, behind⟩ careful stepped
    have word : before.node.commitIndex < Word.limit := by
      obtain ⟨log, held⟩ := behind.numbered.memory
      have bounded := held.bounded
      have last := held.lastLogIndex
      have inLog := careful.1
      omega
    exact ⟨awake.next stepped (RaftNode.nextCommittedEntry_none awake.included careful.1 word),
      behind.next careful.2 stepped⟩
  have settled := both.1.settled (by rw [waits]; rfl)
  rw [empty] at settled
  exact le_antisymm both.2.applied (settled.resolve_left Bool.false_ne_true)

/-- Two entries are committed one by one, the second after the loop's last fetch and before its receive,
and a handler applies beside the loop. -/
theorem waiting_loop_applied_between : ∃ p : Process,
    Reach (Process.next plainCommands ["B"]) Process.Careful
      { node := newRaftNode "A" ["B"] (some {}) } p ∧
      p.loop = .waiting ∧ p.node.commitReady = false ∧ p.node.commitIndex = 2 ∧
      p.node.lastApplied = p.node.commitIndex := by
  let go : ProcessEvent := .loop true true none
  have passed : (Transition.exec (Process.next plainCommands ["B"]) Process.Careful
      { node := newRaftNode "A" ["B"] (some {}) }
      [.operate (.handleAppendEntries ⟨1, "B", 0, 0, [⟨1, 0, [88]⟩, ⟨1, 0, [89]⟩], 1⟩) true,
        .call, .caller 0 true true, go, go, go, go, go, go, go,
        .operate (.handleAppendEntries ⟨1, "B", 2, 1, [], 2⟩) true, .caller 0 true true,
        .caller 0 true true, go, go, go, go, go, go, go]).any (fun p =>
        decide (p.loop = .waiting ∧ p.node.commitReady = false ∧ p.node.commitIndex = 2)) = true := by
    decide +kernel
  obtain ⟨p, run, test⟩ := Reach.of_exec_test passed
  obtain ⟨waits, empty, commit⟩ := of_decide_eq_true test
  exact ⟨p, run, waits, empty, commit, waiting_loop_applied .empty run waits empty⟩

/-- A request with term zero for the absent index 10 puts an entry with index 11 at position 2 and commits
index 3: the loop fetches it as the third entry, marks index 11 and waits. -/
theorem waiting_loop_ahead : ∃ p : Process,
    Reach (Process.next plainCommands ["B"]) (fun p _ => p.CommitInLog)
      { node := newRaftNode "A" ["B"] (some {}) } p ∧
      p.loop = .waiting ∧ p.node.commitReady = false ∧ p.CommitInLog ∧
      p.node.commitIndex = 3 ∧ p.node.lastApplied = 11 := by
  let go : ProcessEvent := .loop true true none
  have passed : (Transition.exec (Process.next plainCommands ["B"]) (fun p _ => p.CommitInLog)
      { node := newRaftNode "A" ["B"] (some {}) }
      [.operate (.handleAppendEntries ⟨1, "B", 0, 0, [⟨1, 0, [88]⟩, ⟨1, 0, [89]⟩], 0⟩) true,
        .operate (.handleAppendEntries ⟨1, "B", 10, 0, [⟨1, 0, [90]⟩], 3⟩) true,
        go, go, go, go, go, go, go, go, go, go, go, go, go, go]).any (fun p =>
        decide (p.loop = .waiting ∧ p.node.commitReady = false ∧ p.CommitInLog ∧
          p.node.commitIndex = 3 ∧ p.node.lastApplied = 11)) = true := by
    decide +kernel
  obtain ⟨p, run, test⟩ := Reach.of_exec_test passed
  exact ⟨p, run, of_decide_eq_true test⟩

end

end Raft
