import RvKeyValue.Cluster.Steady

/-!
# What reaches the state machine

`ApplyCommitted` fetches the next committed entry, applies it and marks it in three sections, and
any number of callers may run it. If no caller fetches while another holds an entry, the entries
applied since the process started are the committed log from its snapshot on, each once and in
order. The code does not keep callers apart, and two that overlap apply an entry twice.
-/

namespace Raft

open Transition (Reach)

/-- What was applied since a process started, and the index of the snapshot it started from. -/
structure History where
  /-- The snapshot index. -/
  base : Nat := 0
  /-- Entries applied to the state machine, and membership changes applied to the node. -/
  applied : List LogEntry := []
deriving DecidableEq, Repr

/-- The entry a step applies: `sm.Apply` succeeds, or `applyMembershipChangeLocked` does. -/
def Server.applies (unmarshal : Bytes → Option MembershipCommand) (sv : Server) :
    Event → Option LogEntry
  | .step tag _ applied =>
    match sv.calls tag with
    | some (.apply (.holding entry)) =>
      match decodeMembershipChange unmarshal entry.command with
      | some (.error _) => none
      | some (.ok change) =>
        if (sv.node.applyMembershipChangeLocked change).2.isSome then none else some entry
      | none => if applied then some entry else none
    | _ => none
  | _ => none

/-- The history after a step that takes a process to another state. -/
def History.next (unmarshal : Bytes → Option MembershipCommand) (history : History) (sv : Server)
    (event : Event) (after : Server) : History :=
  match event with
  | .crash => ⟨after.node.lastIncludedIndex, []⟩
  | _ => { history with applied := history.applied ++ (sv.applies unmarshal event).toList }

/-- A step that neither applies an entry nor restarts the process leaves the history. -/
theorem History.next_still {unmarshal : Bytes → Option MembershipCommand} {history : History}
    {sv after : Server} {event : Event} (going : event ≠ .crash)
    (none : sv.applies unmarshal event = none) :
    history.next unmarshal sv event after = history := by
  unfold History.next
  split
  · exact absurd rfl going
  · rw [none, Option.toList_none, List.append_nil]

/-- A step of a call that is no `ApplyCommitted` applies nothing. -/
theorem Server.applies_none {unmarshal : Bytes → Option MembershipCommand} {sv : Server} {event : Event}
    (other : ∀ tag call, event.call = some tag → sv.calls tag = some call → call.isApply = false) :
    sv.applies unmarshal event = none := by
  cases event with
  | step tag save applied =>
    simp only [Server.applies]
    split
    · rename_i running
      have apart := other tag _ rfl running
      contradiction
    · rfl
  | _ => rfl

/-- A cluster with the history of each process. -/
structure Traced where
  /-- The cluster. -/
  cluster : Cluster
  /-- What each process applied. -/
  history : NodeId → History

namespace Traced

/-- Every process has been started on an empty store. -/
def initial (members : Members) : Traced := ⟨.initial members, fun _ => {}⟩

/-- One step of the cluster, recorded. -/
def step (unmarshal : Bytes → Option MembershipCommand) (members : Members) (t : Traced)
    (label : Label) : Option Traced :=
  (t.cluster.step unmarshal members label).map fun c =>
    { cluster := c
      history := Function.update t.history label.node ((t.history label.node).next unmarshal
        (t.cluster.servers label.node) label.event (c.servers label.node)) }

end Traced

/-- Nothing wraps, committed entries stay, and nobody fetches an entry while another one is held. -/
def AppliesAlone (t : Traced) (label : Label) : Prop :=
  t.cluster.nothingWraps label = true ∧ t.cluster.committedKept label = true ∧
    t.cluster.fetchesAlone label = true

instance (t : Traced) (label : Label) : Decidable (AppliesAlone t label) := by
  unfold AppliesAlone
  infer_instance

section

variable {unmarshal : Bytes → Option MembershipCommand} {peers : List NodeId} {sv : Server}
  {event : Event} {reaction : Reaction}

/-- What a step that restarts nothing does to the indices of a process: it may mark what an
`ApplyCommitted` holds. -/
structure IndexStep (sv : Server) (event : Event) (after : Server) : Prop where
  /-- The commit index does not fall. -/
  commit : sv.node.commitIndex ≤ after.node.commitIndex
  /-- It rises no higher than the log. -/
  commitLe : after.node.commitIndex ≤ sv.node.commitIndex ∨ after.node.commitIndex ≤ after.full.length
  /-- The snapshot stays or covers what was applied. -/
  included : after.node.lastIncludedIndex = sv.node.lastIncludedIndex ∨
    after.node.lastIncludedIndex = sv.node.lastApplied
  /-- Only an `ApplyCommitted` marks. -/
  applied : (∀ tag call, event.call = some tag → sv.calls tag = some call → call.isApply = false) →
    after.node.lastApplied = sv.node.lastApplied

/-- A section that applies nothing. -/
theorem Commits.index {after : Server} (commits : Commits sv after) : IndexStep sv event after :=
  ⟨commits.commit, commits.commitLe, Or.inl commits.included, fun _ => commits.applied⟩

/-- A section that keeps the log. -/
theorem Shape.index {call : Call} {turn : Turn} {tag : Nat} (own : event.call = some tag)
    (running : sv.calls tag = some call) (shape : Shape sv.node call turn) (aligned : Aligned sv) :
    IndexStep sv event { sv with
      node := turn.node, calls := Function.update sv.calls tag turn.call } := by
  obtain ⟨m, marks, kept⟩ := shape.node
  obtain ⟨log, included, -⟩ := shape.fields
  obtain ⟨applied, commit, commitLe⟩ := kept.commit
  have last := aligned.represents.lastLogIndex
  have whole : (sv.compacted ++ turn.node.log).length = sv.full.length := by rw [log]; rfl
  rcases marks with rfl | ⟨entry, held, rfl⟩
  · refine ⟨commit, commitLe.imp_right fun within => ?_, Or.inl included, fun _ => applied⟩
    exact within.trans (last.trans whole.symm).le
  · rw [sv.node.markApplied_eq] at commit commitLe
    refine ⟨commit, commitLe.imp_right fun within => ?_, Or.inl included, fun other => ?_⟩
    · exact le_trans within (last.trans whole.symm).le
    · have none := other tag call own running
      cases call with
      | apply stage => contradiction
      | _ => contradiction

/-- What a step other than a restart does to the indices. -/
theorem Happens.index (steady : Steady sv)
    (packet : ∀ packet req, event.packet = some packet → packet.body = .appendRequest req →
      req.Contiguous)
    (happens : Happens unmarshal peers sv event reaction) (going : event ≠ .crash) :
    IndexStep sv event reaction.server := by
  have still : IndexStep sv event sv :=
    ⟨le_refl _, Or.inl (le_refl _), Or.inl rfl, fun _ => rfl⟩
  cases happens with
  | start kind => exact ⟨still.commit, still.commitLe, still.included, still.applied⟩
  | turn own running shape _ => exact shape.index own running steady.aligned
  | @append tag save applied command turn running room stepped =>
    obtain rfl := Option.some.inj stepped
    cases RaftNode.appendLocal_cases unmarshal sv.node save command with
    | inl refused =>
      obtain ⟨err, same⟩ := refused
      rw [same]
      exact ⟨still.commit, still.commitLe, still.included, still.applied⟩
    | inr appended =>
      rw [appended]
      have commits := (steady.aligned.appendCommand (steady.appending tag command running) room save
        command).2.2.2.2
      generalize sv.node.appendCommand save command = out at commits
      have index : IndexStep sv (.step tag save applied) { sv with node := out.node } := commits.index
      cases out.err with
      | some err => exact ⟨index.commit, index.commitLe, index.included, index.applied⟩
      | none => exact ⟨index.commit, index.commitLe, index.included, index.applied⟩
  | @handle message save answer here handled =>
    cases body : message.body with
    | preVoteRequest req =>
      rw [body] at handled
      obtain rfl := Option.some.inj handled
      exact still
    | voteRequest req =>
      rw [body] at handled
      obtain rfl := Option.some.inj handled
      exact (steady.aligned.commits (requestVote_keeps sv.node save req)).index
    | appendRequest req =>
      rw [body] at handled
      obtain rfl := Option.some.inj handled
      exact (steady.aligned.handleAppendEntries (packet message req rfl body) save).2.2.1.index
    | _ => rw [body] at handled; contradiction
  | compact snapshot save =>
    obtain ⟨-, commit, applied, included⟩ := sv.node.compact_indices save snapshot
    exact ⟨commit.ge, Or.inl commit.le, included, fun _ => applied⟩
  | crash => exact absurd rfl going

/-- A process and its history: what was applied is the committed log from the snapshot on, up to the
applied index, or one further while that entry is being marked. -/
structure InOrder (sv : Server) (history : History) : Prop where
  /-- The snapshot covers only applied entries. -/
  includedLe : sv.node.lastIncludedIndex ≤ sv.node.lastApplied
  /-- Only committed entries are applied. -/
  appliedLe : sv.node.lastApplied ≤ sv.node.commitIndex
  /-- The commit index lies in the log. -/
  commitLe : sv.node.commitIndex ≤ sv.full.length
  /-- The process started below. -/
  baseLe : history.base ≤ sv.node.lastApplied
  /-- One entry is held at most. -/
  single : ∀ left right leftCall rightCall, sv.calls left = some leftCall →
    sv.calls right = some rightCall → leftCall.holds.isSome = true → rightCall.holds.isSome = true →
    left = right
  /-- It is the next one. -/
  held : ∀ tag call entry, sv.calls tag = some call → call.holds = some entry →
    entry.index = sv.node.lastApplied + 1 ∧ entry.index ≤ sv.node.commitIndex ∧
      sv.full[sv.node.lastApplied]? = some entry
  /-- What was applied. -/
  applied : ∃ done, history.applied = (sv.full.take done).drop history.base ∧
    done ≤ sv.node.commitIndex ∧
    (∀ tag entry, sv.calls tag = some (.apply (.marking entry)) → done = sv.node.lastApplied + 1) ∧
    ((∀ tag entry, sv.calls tag ≠ some (.apply (.marking entry))) → done = sv.node.lastApplied)

namespace InOrder

variable {history : History} {after : Server}

/-- A shorter part of the log that stays is kept. -/
theorem take_kept (kept : after.full.take sv.node.commitIndex = sv.full.take sv.node.commitIndex)
    {upTo : Nat} (within : upTo ≤ sv.node.commitIndex) :
    after.full.take upTo = sv.full.take upTo := by
  have shorter := congrArg (List.take upTo) kept
  rwa [List.take_take, List.take_take, Nat.min_eq_left within] at shorter

/-- The log is not cut below the commit index. -/
theorem length_kept (order : InOrder sv history)
    (kept : after.full.take sv.node.commitIndex = sv.full.take sv.node.commitIndex) :
    sv.node.commitIndex ≤ after.full.length := by
  have length := congrArg List.length kept
  rw [List.length_take, List.length_take, Nat.min_eq_left order.commitLe] at length
  omega

/-- The entry after the applied ones stays. -/
theorem next_kept (kept : after.full.take sv.node.commitIndex = sv.full.take sv.node.commitIndex)
    {entry : LogEntry} (below : sv.node.lastApplied < sv.node.commitIndex)
    (found : sv.full[sv.node.lastApplied]? = some entry) :
    after.full[sv.node.lastApplied]? = some entry := by
  rw [← List.getElem?_take_of_lt below, kept, List.getElem?_take_of_lt below]
  exact found

/-- A step that neither applies nor marks, and after which the same calls hold an entry. -/
theorem keep (order : InOrder sv history)
    (kept : after.full.take sv.node.commitIndex = sv.full.take sv.node.commitIndex)
    (index : IndexStep sv event after)
    (applied : after.node.lastApplied = sv.node.lastApplied)
    (calls : ∀ tag call, call.holds.isSome = true →
      (after.calls tag = some call ↔ sv.calls tag = some call)) : InOrder after history := by
  have includedLe := order.includedLe
  have appliedLe := order.appliedLe
  have longer := order.length_kept kept
  obtain ⟨done, same, doneLe, marking, unmarked⟩ := order.applied
  refine ⟨?_, ?_, ?_, ?_, fun left right leftCall rightCall atLeft atRight leftHolds rightHolds => ?_,
    fun tag call entry running holds => ?_, done, ?_, le_trans doneLe index.commit,
    fun tag entry running => ?_, fun none => ?_⟩
  · have included := index.included
    omega
  · have commit := index.commit
    omega
  · have commitLe := index.commitLe
    omega
  · rw [applied]
    exact order.baseLe
  · exact order.single _ _ _ _ ((calls left leftCall leftHolds).mp atLeft)
      ((calls right rightCall rightHolds).mp atRight) leftHolds rightHolds
  · obtain ⟨at_, below, found⟩ :=
      order.held tag call entry ((calls tag call (by rw [holds]; rfl)).mp running) holds
    rw [applied]
    exact ⟨at_, le_trans below index.commit, next_kept kept (by omega) found⟩
  · rw [take_kept kept doneLe]
    exact same
  · rw [applied]
    exact marking tag entry ((calls tag _ rfl).mp running)
  · rw [applied]
    exact unmarked fun tag entry running => none tag entry ((calls tag _ rfl).mpr running)

/-- While a call holds an entry, no other call does. -/
theorem alone (order : InOrder sv history) {tag : Nat} {call : Call}
    (running : sv.calls tag = some call) (holds : call.holds.isSome = true) {position : Nat}
    {other : Call} (elsewhere : position ≠ tag) (found : sv.calls position = some other) :
    other.holds = none := by
  by_contra held
  exact elsewhere (order.single _ _ _ _ found running (Option.isSome_iff_ne_none.mpr held) holds)

/-- What was applied while no call is marking. -/
theorem applied_unmarked (order : InOrder sv history)
    (none : ∀ tag entry, sv.calls tag ≠ some (.apply (.marking entry))) :
    history.applied = (sv.full.take sv.node.lastApplied).drop history.base := by
  obtain ⟨done, same, -, -, unmarked⟩ := order.applied
  rw [same, unmarked none]

/-- The entry after the applied ones extends what was applied. -/
theorem applied_next {upTo base : Nat} {full : List LogEntry} {entry : LogEntry}
    (found : full[upTo]? = some entry) (above : base ≤ upTo) :
    (full.take (upTo + 1)).drop base = (full.take upTo).drop base ++ [entry] := by
  have inside := (List.getElem?_eq_some_iff.mp found).1
  rw [List.take_add_one, found, Option.toList_some, List.drop_append_of_le_length]
  rw [List.length_take]
  omega

/-- A section of an `ApplyCommitted` beside which no other call holds an entry: it leaves the applied
index or marks the next entry, and what was applied ends there or one further. -/
theorem resume (order : InOrder sv history) {tag : Nat} {turn : Turn} {applied : List LogEntry}
    {upTo done : Nat}
    (alone : ∀ position other, position ≠ tag → sv.calls position = some other → other.holds = none)
    (log : turn.node.log = sv.node.log)
    (included : turn.node.lastIncludedIndex = sv.node.lastIncludedIndex)
    (commit : sv.node.commitIndex ≤ turn.node.commitIndex)
    (commitLe : turn.node.commitIndex ≤ sv.full.length) (marked : turn.node.lastApplied = upTo)
    (above : sv.node.lastApplied ≤ upTo) (below : upTo ≤ sv.node.commitIndex)
    (same : applied = (sv.full.take done).drop history.base)
    (held : ∀ next, turn.call = some next → ∀ entry, next.holds = some entry →
      entry.index = upTo + 1 ∧ entry.index ≤ sv.node.commitIndex ∧ sv.full[upTo]? = some entry)
    (marking : ∀ entry, turn.call = some (.apply (.marking entry)) → done = upTo + 1)
    (unmarked : (∀ entry, turn.call ≠ some (.apply (.marking entry))) → done = upTo) :
    InOrder (sv.resume tag turn).server { history with applied := applied } := by
  have includedLe := order.includedLe
  have baseLe := order.baseLe
  have whole : (sv.resume tag turn).server.full = sv.full := by
    show sv.compacted ++ turn.node.log = sv.compacted ++ sv.node.log
    rw [log]
  have holder : ∀ position call, (sv.resume tag turn).server.calls position = some call →
      call.holds.isSome = true → position = tag ∧ turn.call = some call := by
    intro position call found holds
    cases Server.call_updated found with
    | inl here => exact here
    | inr elsewhere =>
      rw [alone position call elsewhere.1 elsewhere.2] at holds
      contradiction
  have reached : done ≤ sv.node.commitIndex := by
    by_cases marks : ∃ entry, turn.call = some (.apply (.marking entry))
    · obtain ⟨entry, marks⟩ := marks
      have next := held _ marks entry rfl
      have last := marking entry marks
      omega
    · have last := unmarked fun entry same => marks ⟨entry, same⟩
      omega
  refine ⟨?_, ?_, by rw [whole]; exact commitLe, ?_,
    fun left right leftCall rightCall atLeft atRight leftHolds rightHolds => ?_,
    fun position call entry found holds => ?_, done, by rw [whole]; exact same,
    le_trans reached commit, fun position entry found => ?_, fun none => ?_⟩
  · show turn.node.lastIncludedIndex ≤ turn.node.lastApplied
    omega
  · show turn.node.lastApplied ≤ turn.node.commitIndex
    omega
  · show history.base ≤ turn.node.lastApplied
    omega
  · rw [(holder left leftCall atLeft leftHolds).1, (holder right rightCall atRight rightHolds).1]
  · obtain ⟨index, within, read⟩ :=
      held call (holder position call found (by rw [holds]; rfl)).2 entry holds
    rw [whole, show (sv.resume tag turn).server.node.lastApplied = upTo from marked]
    exact ⟨index, le_trans within commit, read⟩
  · rw [show (sv.resume tag turn).server.node.lastApplied = upTo from marked]
    exact marking entry (holder position _ found rfl).2
  · rw [show (sv.resume tag turn).server.node.lastApplied = upTo from marked]
    refine unmarked fun entry same => none tag entry ?_
    show Function.update sv.calls tag turn.call tag = _
    rw [Function.update_self, same]

/-- A section of an `ApplyCommitted` after which it holds nothing. -/
theorem settle (order : InOrder sv history) (aligned : Aligned sv) {tag : Nat} {turn : Turn}
    {applied : List LogEntry} {upTo : Nat}
    (alone : ∀ position other, position ≠ tag → sv.calls position = some other → other.holds = none)
    (kept : KeepsSaved { sv.node with lastApplied := upTo } turn.node)
    (above : sv.node.lastApplied ≤ upTo) (below : upTo ≤ sv.node.commitIndex)
    (same : applied = (sv.full.take upTo).drop history.base)
    (quiet : ∀ next, turn.call = some next → next = .apply .fetching) :
    InOrder (sv.resume tag turn).server { history with applied := applied } := by
  obtain ⟨-, log, included, -⟩ := kept.fields
  obtain ⟨marked, commit, within⟩ := kept.commit
  have commitLe := order.commitLe
  have last : ({ sv.node with lastApplied := upTo } : RaftNode).lastLogIndexLocked = sv.full.length :=
    aligned.represents.lastLogIndex
  refine order.resume alone log included commit ?_ marked above below same
    (fun next sent entry holds => ?_) (fun entry sent => ?_) (fun _ => rfl)
  · rw [last] at within
    exact within.elim (fun low => le_trans low commitLe) id
  · rw [quiet next sent] at holds
    contradiction
  · exact absurd (quiet _ sent) (by simp)

/-- `nextCommittedEntry` while nobody holds an entry. -/
theorem fetch (order : InOrder sv history) (aligned : Aligned sv) {tag : Nat} {save applied : Bool}
    (alone : ∀ position other, sv.calls position = some other → other.holds = none) {turn : Turn}
    (stepped : Call.applyStep unmarshal sv.node save applied .fetching = some turn) :
    InOrder (sv.resume tag turn).server history := by
  obtain rfl := Option.some.inj stepped
  have same := order.applied_unmarked fun position entry found => by
    have none := alone position _ found
    contradiction
  rcases aligned.represents.nextCommittedEntry order.includedLe order.appliedLe order.commitLe with
    ⟨nothing, -⟩ | ⟨entry, next, index, below, found⟩
  · rw [nothing]
    exact order.settle aligned (fun position other _ => alone position other) (Keeps.refl _).unsaved
      (le_refl _) order.appliedLe same (by simp)
  · rw [next]
    refine order.resume (fun position other _ => alone position other) rfl rfl (le_refl _)
      order.commitLe rfl (le_refl _) order.appliedLe same (fun call sent held holds => ?_) (by simp)
      (fun _ => rfl)
    obtain rfl := Option.some.inj sent
    obtain rfl := Option.some.inj holds
    exact ⟨index, by omega, found⟩

/-- `markApplied`. -/
theorem mark (order : InOrder sv history) (aligned : Aligned sv) {tag : Nat} {entry : LogEntry}
    (running : sv.calls tag = some (.apply (.marking entry))) :
    InOrder (sv.resume tag
      { node := sv.node.markApplied entry.index, call := some (.apply .fetching) }).server history := by
  obtain ⟨index, below, -⟩ := order.held tag _ entry running rfl
  obtain ⟨done, same, -, marking, -⟩ := order.applied
  rw [marking tag entry running, ← index] at same
  rw [sv.node.markApplied_eq, Nat.max_eq_right (by omega)]
  exact order.settle aligned (fun position other => order.alone running rfl) (Keeps.refl _).unsaved
    (by omega) below same (by simp)

/-- An entry that is held is applied, or refused. -/
theorem hold (order : InOrder sv history) (aligned : Aligned sv) {tag : Nat} {save applied : Bool}
    {entry : LogEntry} (running : sv.calls tag = some (.apply (.holding entry))) {turn : Turn}
    (stepped : Call.applyStep unmarshal sv.node save applied (.holding entry) = some turn) :
    InOrder (sv.resume tag turn).server { history with
      applied := history.applied ++ (sv.applies unmarshal (.step tag save applied)).toList } := by
  obtain rfl := Option.some.inj stepped
  obtain ⟨index, below, found⟩ := order.held tag _ entry running rfl
  have alone : ∀ position other, position ≠ tag → sv.calls position = some other →
      other.holds = none := fun position other => order.alone running rfl
  have same := order.applied_unmarked fun position other marks => by
    by_cases here : position = tag
    · rw [here, running] at marks
      simp at marks
    · have none := alone position _ here marks
      contradiction
  have further := applied_next found order.baseLe
  simp only [Server.applies, running]
  cases decodeMembershipChange unmarshal entry.command with
  | none =>
    cases applied with
    | false =>
      simp only [Bool.false_eq_true, if_false, Option.toList_none, List.append_nil]
      exact order.settle aligned alone (Keeps.refl _).unsaved (le_refl _) order.appliedLe same (by simp)
    | true =>
      simp only [if_true, Option.toList_some]
      refine order.resume alone rfl rfl (le_refl _) order.commitLe rfl (le_refl _) order.appliedLe
        (by rw [same]; exact further.symm) (fun call sent held holds => ?_) (fun _ _ => rfl)
        (fun none => absurd rfl (none entry))
      obtain rfl := Option.some.inj sent
      obtain rfl := Option.some.inj holds
      exact ⟨index, below, found⟩
  | some decoded =>
    cases decoded with
    | error err =>
      simp only [Option.toList_none, List.append_nil]
      exact order.settle aligned alone (Keeps.refl _).unsaved (le_refl _) order.appliedLe same (by simp)
    | ok change =>
      have kept := applyCommittedMembershipChange_keeps sv.node save change entry.index
      have quiet : ∀ (err : Option RaftError) (next : Call),
          (if err.isSome then none else some (.apply .fetching)) = some next →
          next = .apply .fetching := by
        intro err next sent
        split at sent
        · contradiction
        · exact (Option.some.inj sent).symm
      cases refused : (sv.node.applyMembershipChangeLocked change).2.isSome with
      | true =>
        rw [refused, if_pos rfl] at kept
        simp only [refused, if_true, Option.toList_none, List.append_nil]
        exact order.settle aligned alone kept (le_refl _) order.appliedLe same (quiet _)
      | false =>
        rw [refused, if_neg (by simp), sv.node.markApplied_eq, Nat.max_eq_right (by omega)] at kept
        simp only [refused, Bool.false_eq_true, if_false, Option.toList_some]
        exact order.settle aligned alone kept (by omega) below
          (by rw [same, index]; exact further.symm) (quiet _)

/-- A call that is no `ApplyCommitted` holds no entry. -/
theorem holds_of_other {call : Call} (other : call.isApply = false) : call.holds = none := by
  cases call with
  | apply stage => contradiction
  | _ => rfl

/-- A step of a call that holds no entry before or after it. -/
theorem keep_update (order : InOrder sv history)
    (kept : after.full.take sv.node.commitIndex = sv.full.take sv.node.commitIndex)
    (index : IndexStep sv event after)
    (applied : after.node.lastApplied = sv.node.lastApplied) {tag : Nat} {next : Option Call}
    (calls : after.calls = Function.update sv.calls tag next)
    (before : ∀ call, sv.calls tag = some call → call.holds = none)
    (later : ∀ call, next = some call → call.holds = none) : InOrder after history := by
  refine order.keep kept index applied fun position call holds => ?_
  rw [calls]
  by_cases here : position = tag
  · rw [here, Function.update_self]
    constructor
    · intro found
      rw [later call found] at holds
      contradiction
    · intro found
      rw [before call found] at holds
      contradiction
  · rw [Function.update_of_ne here]

/-- A restarted process has applied nothing above its snapshot. -/
theorem restart (aligned : Aligned (sv.restart peers)) :
    InOrder (sv.restart peers) ⟨(sv.restart peers).node.lastIncludedIndex, []⟩ := by
  have fields : (sv.restart peers).node.lastApplied = (sv.restart peers).node.lastIncludedIndex ∧
      (sv.restart peers).node.commitIndex = (sv.restart peers).node.lastIncludedIndex := by
    unfold Server.restart newRaftNode
    cases sv.node.store <;> exact ⟨rfl, rfl⟩
  obtain ⟨applied, commit⟩ := fields
  refine ⟨applied.ge, (applied.trans commit.symm).le, ?_, applied.ge, fun _ _ _ _ found => ?_,
    fun _ _ _ found => ?_, (sv.restart peers).node.lastIncludedIndex, ?_, commit.ge,
    fun _ _ found => ?_, fun _ => applied.symm⟩
  · rw [commit]
    exact aligned.represents.covered
  · contradiction
  · contradiction
  · rw [List.drop_take, Nat.sub_self, List.take_zero]
  · contradiction

/-- A process that reacts stays in order, if it keeps what is committed and fetches alone. -/
theorem react (order : InOrder sv history) (steady : Steady sv)
    (packet : ∀ packet req, event.packet = some packet → packet.body = .appendRequest req →
      req.Contiguous)
    (happens : Happens unmarshal peers sv event reaction) (outcome : SteadyStep sv event reaction)
    (kept : event ≠ .crash →
      reaction.server.full.take sv.node.commitIndex = sv.full.take sv.node.commitIndex)
    (alone : ∀ tag save applied, event = .step tag save applied →
      sv.calls tag = some (.apply .fetching) →
      ∀ position other, sv.calls position = some other → other.holds = none) :
    InOrder reaction.server (history.next unmarshal sv event reaction.server) := by
  have index := happens.index steady packet
  -- Every step but those of an `ApplyCommitted` leaves the applied index and the history.
  have other : event ≠ .crash →
      (∀ tag call, event.call = some tag → sv.calls tag = some call → call.isApply = false) →
      ∀ tag next, reaction.server.calls = Function.update sv.calls tag next →
      (∀ call, sv.calls tag = some call → call.holds = none) →
      (∀ call, next = some call → call.holds = none) →
      InOrder reaction.server (history.next unmarshal sv event reaction.server) := by
    intro going apart tag next calls before later
    rw [History.next_still going (Server.applies_none apart)]
    exact order.keep_update (kept going) (index going) ((index going).applied apart) calls before later
  have unchanged : sv.calls = Function.update sv.calls sv.nextTag none := by
    rw [← steady.fresh sv.nextTag (le_refl _), Function.update_eq_self]
  have fresh : ∀ call, sv.calls sv.nextTag = some call → call.holds = none := by
    intro call found
    rw [steady.fresh sv.nextTag (le_refl _)] at found
    contradiction
  cases happens with
  | start kind =>
    refine other (by simp) (by simp [Event.call]) sv.nextTag (some kind.call) rfl fresh
      fun call same => ?_
    obtain rfl := Option.some.inj same
    cases kind <;> rfl
  | @turn _ tag call turn own running shape applying =>
    cases call with
    | apply stage =>
      obtain ⟨save, applied, rfl, stepped⟩ := applying stage rfl
      have aligned := steady.aligned
      cases stage with
      | fetching =>
        rw [History.next_still (by simp) (by simp [Server.applies, running])]
        exact order.fetch aligned (alone tag save applied rfl running) stepped
      | holding entry => exact order.hold aligned running stepped
      | marking entry =>
        rw [History.next_still (by simp) (by simp [Server.applies, running])]
        obtain rfl := Option.some.inj stepped
        exact order.mark aligned running
    | _ =>
      refine other (fun crash => ?_) (fun position found same there => ?_) tag turn.call rfl
        (fun found there => ?_) fun next sent => holds_of_other (shape.kind next sent).2
      · rw [crash] at own
        contradiction
      · obtain rfl : tag = position := Option.some.inj (own.symm.trans same)
        rw [running] at there
        rw [← Option.some.inj there]
        rfl
      · rw [running] at there
        rw [← Option.some.inj there]
        rfl
  | @append tag save applied command turn running room stepped =>
    refine other (by simp) (fun position found same there => ?_) tag turn.call rfl
      (fun found there => ?_) fun next sent => ?_
    · obtain rfl : tag = position := Option.some.inj same
      rw [running] at there
      rw [← Option.some.inj there]
      rfl
    · rw [running] at there
      rw [← Option.some.inj there]
      rfl
    · obtain rfl := Option.some.inj stepped
      split at sent
      · contradiction
      · rw [← Option.some.inj sent]
        rfl
  | handle here handled =>
    exact other (by simp) (by simp [Event.call]) sv.nextTag none unchanged fresh (by simp)
  | compact snapshot save =>
    exact other (by simp) (by simp [Event.call]) sv.nextTag none unchanged fresh (by simp)
  | crash => exact restart outcome.steady.aligned

end InOrder

/-- Every process of a cluster is steady and in order. -/
structure OrderedCluster (members : Members) (t : Traced) : Prop where
  /-- Logs are numbered. -/
  steady : SteadyCluster members t.cluster
  /-- Histories are in order. -/
  order : ∀ id ∈ members.ids, InOrder (t.cluster.servers id) (t.history id)

/-- The step of a cluster keeps what its node has committed, unless the process restarts. -/
def Cluster.Keeping (c c' : Cluster) (label : Label) : Prop :=
  label.event ≠ .crash → (c'.servers label.node).full.take (c.servers label.node).node.commitIndex =
    (c.servers label.node).full.take (c.servers label.node).node.commitIndex

/-- Nobody holds an entry when a step that fetches alone fetches one. -/
theorem Cluster.fetchesAlone_holds {members : Members} {c : Cluster} {label : Label}
    (fetches : c.fetchesAlone label = true) (steady : SteadyCluster members c)
    (inside : label.node ∈ members.ids) {tag : Nat} {save applied : Bool}
    (event : label.event = .step tag save applied)
    (running : (c.servers label.node).calls tag = some (.apply .fetching)) {position : Nat}
    {other : Call} (found : (c.servers label.node).calls position = some other) :
    other.holds = none := by
  simp only [Cluster.fetchesAlone, Cluster.stepped, event, running, Server.runs, Bool.not_eq_true',
    List.any_eq_false, List.mem_range] at fetches
  have none := fetches position ((steady.servers label.node inside).running_lt found)
  rw [found] at none
  simpa using none

namespace OrderedCluster

variable {members : Members}

/-- A started cluster. -/
theorem initial (members : Members) : OrderedCluster members (.initial members) where
  steady := .initial members
  order id _ := ⟨le_refl _, le_refl _, Nat.zero_le _, le_refl _, by simp [Traced.initial, Cluster.initial],
    by simp [Traced.initial, Cluster.initial], 0, rfl, le_refl _, fun _ _ _ => by contradiction,
    fun _ => rfl⟩

/-- An accepted request without a conflict keeps what is committed. -/
theorem keeping {t t' : Traced} {label : Label} (ordered : OrderedCluster members t)
    (allowed : AppliesAlone t label) (stepped : t.step unmarshal members label = some t') :
    t.cluster.Keeping t'.cluster label := by
  obtain ⟨c, moved, rfl⟩ := Option.map_eq_some_iff.mp stepped
  have inside := (Cluster.step_some moved).1
  obtain ⟨-, net, reaction, -, -, rfl, -, outcome⟩ := ordered.steady.step allowed.1 moved
  intro going
  rw [t.cluster.absorb_own]
  exact outcome.kept going _ (ordered.order label.node inside).commitLe
    (by simpa [Cluster.committedKept] using allowed.2.1)

/-- One step that keeps what is committed and fetches alone. -/
theorem step {t t' : Traced} {label : Label} (ordered : OrderedCluster members t)
    (fits : t.cluster.nothingWraps label = true) (fetches : t.cluster.fetchesAlone label = true)
    (stepped : t.step unmarshal members label = some t')
    (kept : t.cluster.Keeping t'.cluster label) : OrderedCluster members t' := by
  obtain ⟨c, moved, rfl⟩ := Option.map_eq_some_iff.mp stepped
  have inside := (Cluster.step_some moved).1
  obtain ⟨steady, net, reaction, taken, -, rfl, happens, outcome⟩ := ordered.steady.step fits moved
  refine ⟨steady, fun id member => ?_⟩
  show InOrder ((t.cluster.absorb label.node net reaction).servers id)
    (Function.update t.history label.node ((t.history label.node).next unmarshal
      (t.cluster.servers label.node) label.event
      ((t.cluster.absorb label.node net reaction).servers label.node)) id)
  by_cases here : id = label.node
  · rw [here, t.cluster.absorb_own, Function.update_self]
    have present := (Cluster.take_some taken).1
    refine (ordered.order label.node inside).react (ordered.steady.servers label.node inside)
      (fun packet req found body => ordered.steady.net packet (present packet found) req body) happens
      outcome (fun going => ?_) (fun tag save applied event running position other found =>
        Cluster.fetchesAlone_holds fetches ordered.steady inside event running found)
    have same := kept going
    rwa [t.cluster.absorb_own] at same
  · rw [t.cluster.absorb_other net reaction here, Function.update_of_ne here]
    exact ordered.order id member

end OrderedCluster

/-- What was applied is a stretch of the log that ends at or below the commit index. -/
theorem InOrder.stretch {history : History} (order : InOrder sv history) :
    history.applied = (sv.full.drop history.base).take history.applied.length ∧
      history.base + history.applied.length ≤ sv.node.commitIndex := by
  obtain ⟨done, same, reached, marking, unmarked⟩ := order.applied
  have baseLe := order.baseLe
  have commitLe := order.commitLe
  have above : history.base ≤ done := by
    by_cases marks : ∃ tag entry, sv.calls tag = some (.apply (.marking entry))
    · obtain ⟨tag, entry, marks⟩ := marks
      have last := marking tag entry marks
      omega
    · have last := unmarked fun tag entry same => marks ⟨tag, entry, same⟩
      omega
  have length : history.applied.length = done - history.base := by
    rw [same, List.length_drop, List.length_take, Nat.min_eq_left (le_trans reached commitLe)]
  rw [length, ← List.drop_take]
  exact ⟨same, by omega⟩

/-- In every run in which nothing wraps, committed entries stay and nobody fetches an entry while
another is held, what a process applied since it started is its committed log from its snapshot on,
each entry once and in the order of indices. -/
theorem applied_in_log_order {members : Members} {t : Traced}
    (run : Reach (Traced.step unmarshal members) AppliesAlone (Traced.initial members) t)
    {id : NodeId} (member : id ∈ members.ids) :
    (t.history id).applied = ((t.cluster.servers id).full.drop (t.history id).base).take
        (t.history id).applied.length ∧
      (t.history id).base + (t.history id).applied.length ≤
        (t.cluster.servers id).node.commitIndex ∧
      ∀ (position : Nat) (entry : LogEntry), (t.history id).applied[position]? = some entry →
        entry.index = (t.history id).base + position + 1 := by
  have ordered : OrderedCluster members t :=
    run.invariant (.initial members) fun _ _ _ ordered allowed stepped =>
      ordered.step allowed.1 allowed.2.2 stepped (ordered.keeping allowed stepped)
  obtain ⟨same, below⟩ := (ordered.order id member).stretch
  have indexed := (ordered.steady.servers id member).aligned.represents.indexed
  refine ⟨same, below, fun position entry found => ?_⟩
  have inside := (List.getElem?_eq_some_iff.mp found).1
  rw [same, List.getElem?_take_of_lt inside, List.getElem?_drop] at found
  exact indexed _ entry found

/-- Two commands are committed, and one caller applies both. -/
theorem applied_in_log_order_one_caller : ∃ t : Traced,
    Reach (Traced.step plainCommands oneNode) AppliesAlone (Traced.initial oneNode) t ∧
      (t.history "A").applied = [⟨1, 1, [88]⟩, ⟨1, 2, [89]⟩] ∧
      (t.history "A").base + (t.history "A").applied.length ≤ (t.cluster.servers "A").node.commitIndex := by
  have passed : (Transition.exec (Traced.step plainCommands oneNode) AppliesAlone
      (Traced.initial oneNode) (Label.commitAlone "A" [[88], [89]] ++ [⟨"A", .start .apply⟩] ++
        Label.sections "A" 3 6)).any (fun t =>
          decide ((t.history "A").applied = [⟨1, 1, [88]⟩, ⟨1, 2, [89]⟩])) = true := by
    decide +kernel
  obtain ⟨t, run, test⟩ := Reach.of_exec_test passed
  exact ⟨t, run, of_decide_eq_true test, (applied_in_log_order run (by decide)).2.1⟩

/-- Two callers that both fetch the first entry before either marks it apply it twice, although nothing
wraps and committed entries stay. -/
theorem overlapping_callers_repeat : ∃ t : Traced,
    Reach (Traced.step plainCommands oneNode)
      (fun t label => t.cluster.nothingWraps label = true ∧ t.cluster.committedKept label = true)
      (Traced.initial oneNode) t ∧
      (t.history "A").base = 0 ∧ (t.history "A").applied = [⟨1, 1, [88]⟩, ⟨1, 1, [88]⟩] := by
  have passed : (Transition.exec (Traced.step plainCommands oneNode)
      (fun t label => t.cluster.nothingWraps label = true ∧ t.cluster.committedKept label = true)
      (Traced.initial oneNode) (Label.commitAlone "A" [[88]] ++
        [⟨"A", .start .apply⟩, ⟨"A", .start .apply⟩, ⟨"A", .step 2 true true⟩, ⟨"A", .step 3 true true⟩,
          ⟨"A", .step 2 true true⟩, ⟨"A", .step 3 true true⟩])).any (fun t =>
        decide ((t.history "A").base = 0 ∧
          (t.history "A").applied = [⟨1, 1, [88]⟩, ⟨1, 1, [88]⟩])) = true := by
    decide +kernel
  obtain ⟨t, run, test⟩ := Reach.of_exec_test passed
  exact ⟨t, run, of_decide_eq_true test⟩

end

end Raft
