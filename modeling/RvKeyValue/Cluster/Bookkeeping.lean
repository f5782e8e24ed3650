import RvKeyValue.Cluster.Invariant
import RvKeyValue.Cluster.Tenure
import RvKeyValue.Node.Coherence
import RvKeyValue.Node.Exchange

/-!
# A leader's books

A leader keeps for each peer the index it has acknowledged and the index to send next. Both are
written from the request a result belongs to, whatever was recorded since that request was built.
With several rounds of `replicateOnce` at once, a result that is late can set the acknowledged index
back, or move the next index to or below it.

What makes a result late is the order in which a node builds its requests and records their results:
a success is late if the request is of an earlier term, or if a success of a request built from a longer
log was recorded for the peer; a refusal is late after any success of the term. If no late result is
recorded, the books stay in order: the acknowledged index is below the next one, the next one is at most
one past the log, and the acknowledged index does not fall while the node leads its term. The reason is
that a request reaches the end of the log the leader had when it built it, and a leader's log only grows.
-/

namespace Raft

open Transition (Reach)

/-- The last index a request carries. -/
def AppendEntriesRequest.reach (req : AppendEntriesRequest) : Nat := req.prevLogIndex + req.entries.length

/-- A call is about to record a success between what the peer has acknowledged and the end of the log, or a
refusal that moves nothing or comes before anything is acknowledged. -/
def Call.Orderly (n : RaftNode) : Call → Prop
  | replicate _ (.recording _ peer req success) => ∀ next known, n.nextOf peer = some next →
    n.matchOf peer = some known →
      if success then known ≤ req.reach ∧ req.reach ≤ n.lastLogIndexLocked
      else next ≤ n.lastIncludedIndex + 1 ∨ known = 0
  | _ => True

/-- The index a call is about to record for a peer the node tracks. -/
def Call.Records (n : RaftNode) : Call → NodeId → Nat → Prop
  | replicate _ (.recording _ peer req true) => fun other index =>
    other = peer ∧ index = req.reach ∧ n.nextOf peer ≠ none
  | _ => fun _ _ => False

/-- A call that records a success. -/
theorem Call.operation_success {call : Call} {peer : NodeId} {index : Nat}
    (made : call.operation = some (.recordReplicationSuccess peer index)) : ∃ owner waiting req,
      call = .replicate owner (.recording waiting peer req true) ∧ index = Call.matchIndexOf req := by
  unfold Call.operation at made
  split at made <;> cases made
  exact ⟨_, _, _, rfl, rfl⟩

/-- A call that records a refusal. -/
theorem Call.operation_refusal {call : Call} {peer : NodeId}
    (made : call.operation = some (.recordReplicationFailure peer)) :
    ∃ owner waiting req, call = .replicate owner (.recording waiting peer req false) := by
  unfold Call.operation at made
  split at made <;> cases made
  exact ⟨_, _, _, rfl⟩

/-- A leader tracks all its peers, with the acknowledged index below the next one and that at most
one past the log, and nobody else tracks any. -/
structure Sane (n : RaftNode) : Prop where
  /-- Role and maps fit together. -/
  coherent : n.Coherent
  /-- The indices are in order. -/
  ordered : ∀ peer known next, n.matchOf peer = some known → n.nextOf peer = some next →
    known < next ∧ next ≤ n.lastLogIndexLocked + 1

/-- What an operation that may record an index does to a leader's books. -/
structure Books (said : NodeId → Nat → Prop) (n m : RaftNode) : Prop where
  /-- They are in order. -/
  sane : Sane m
  /-- An acknowledged index is zero, as it was, or the one recorded. -/
  origin : ∀ peer index, m.matchOf peer = some index →
    index = 0 ∨ n.matchOf peer = some index ∨ said peer index
  /-- No acknowledged index is set back. -/
  rises : ∀ peer known later, n.matchOf peer = some known → m.matchOf peer = some later → known ≤ later
  /-- A candidate was one before or is in a later term. -/
  candidate : m.state = .candidate → n.currentTerm < m.currentTerm ∨ n.state = .candidate
  /-- A leader was a candidate or a leader of the same term, and its log has not shrunk. -/
  leader : m.state = .leader → m.currentTerm = n.currentTerm ∧
    (n.state = .candidate ∨ n.state = .leader) ∧ n.lastLogIndexLocked ≤ m.lastLogIndexLocked

section Records

variable {n m : RaftNode} {peer : NodeId} {known next : Nat}

namespace Sane

/-- Who is acknowledged is tracked by a leader. -/
theorem of_match (sane : Sane n) (held : n.matchOf peer = some known) :
    n.state = .leader ∧ ∃ next, n.nextOf peer = some next := by
  have leads : n.state = .leader := by
    by_contra other
    rw [RaftNode.matchOf, (sane.coherent.none other).2] at held
    contradiction
  have listed := (sane.coherent.knownKeys leads peer).mp (by rw [held]; rfl)
  exact ⟨leads, Option.isSome_iff_exists.mp ((sane.coherent.nextKeys leads peer).mpr listed)⟩

/-- Who is tracked has acknowledged an index below the next one. -/
theorem of_next (sane : Sane n) (found : n.nextOf peer = some next) : n.state = .leader ∧
    ∃ known, n.matchOf peer = some known ∧ known < next ∧ next ≤ n.lastLogIndexLocked + 1 := by
  obtain ⟨leads, listed⟩ := sane.coherent.found found
  obtain ⟨known, held⟩ := Option.isSome_iff_exists.mp ((sane.coherent.knownKeys leads peer).mpr listed)
  exact ⟨leads, known, held, sane.ordered peer known next held found⟩

/-- A request that is built now is of a leader, and reaches the end of its log. -/
theorem built (sane : Sane n) {full : List LogEntry} (represents : Represents n full)
    {req : AppendEntriesRequest} (built : n.buildAppendEntries peer = .ok req) :
    n.state = .leader ∧ req.term = n.currentTerm ∧ req.reach = n.lastLogIndexLocked := by
  obtain ⟨leads, listed⟩ := (sane.coherent.builds peer).mp ⟨req, built⟩
  obtain ⟨next, found⟩ := Option.isSome_iff_exists.mp ((sane.coherent.nextKeys leads peer).mpr listed)
  obtain ⟨-, known, -, below, high⟩ := sane.of_next found
  have last := represents.lastLogIndex
  obtain ⟨other, same, ships, -⟩ :=
    represents.ships (found : (n.nextIndex.bind fun known => known peer) = some next) (by omega)
      (by omega)
  obtain rfl := Except.ok.inj (built.symm.trans same)
  refine ⟨leads, RaftNode.buildAppendEntries_term built, ?_⟩
  have inside := ships.prevLe
  rw [AppendEntriesRequest.reach, ships.entries, List.length_drop, last]
  omega

/-- A record that was just built tracks nobody. -/
theorem restart (id : NodeId) (peers : List NodeId) (store : Option PersistentState) :
    Sane (newRaftNode id peers store) := by
  have coherent := RaftNode.newRaftNode_coherent id peers store
  refine ⟨coherent, fun peer known next held => ?_⟩
  rw [RaftNode.matchOf, (coherent.none (by rw [newRaftNode_state]; simp)).2] at held
  contradiction

/-- What an operation sets is in order, if the call that makes it records no late result. -/
theorem sets (sane : Sane n) {full : List LogEntry} (represents : Represents n full) {op : Operation}
    (own : op ≠ .becomeLeader) (call : Option Call)
    (made : op = .recordReplicationSuccess peer known ∨ op = .recordReplicationFailure peer →
      ∃ c, call = some c ∧ c.operation = some op)
    (inOrder : ∀ c, call = some c → c.Orderly n) (sets : n.Sets peer known next op) :
    known < next ∧ next ≤ n.lastLogIndexLocked + 1 ∧
      (known = 0 ∨ n.matchOf peer = some known ∨ ∃ c, call = some c ∧ c.Records n peer known) ∧
      ∀ old, n.matchOf peer = some old → old ≤ known := by
  have last := represents.lastLogIndex
  have bounded := represents.bounded
  have covered := represents.covered
  unfold RaftNode.Sets at sets
  split at sets
  · exact absurd rfl own
  · obtain ⟨rfl, rfl, rfl, tracked⟩ := sets
    obtain ⟨next, found⟩ := Option.ne_none_iff_exists'.mp tracked
    obtain ⟨-, old, held, -⟩ := sane.of_next found
    obtain ⟨c, rfl, operation⟩ := made (Or.inl rfl)
    obtain ⟨owner, waiting, req, rfl, index⟩ := Call.operation_success operation
    obtain ⟨forward, inside⟩ : old ≤ req.reach ∧ req.reach ≤ n.lastLogIndexLocked :=
      inOrder _ rfl next old found held
    have same : known = req.reach := index.trans (Word.add_eq (show req.reach < Word.limit by omega))
    rw [Word.add_eq (by omega)]
    refine ⟨Nat.lt_succ_self _, by omega, Or.inr (Or.inr ⟨_, rfl, rfl, same, tracked⟩), fun other there => ?_⟩
    obtain rfl := Option.some.inj (held.symm.trans there)
    omega
  · obtain ⟨rfl, held, old, found, moves, rfl⟩ := sets
    obtain ⟨below, high⟩ := sane.ordered peer known old held found
    obtain ⟨c, rfl, operation⟩ := made (Or.inr rfl)
    obtain ⟨owner, waiting, req, rfl⟩ := Call.operation_refusal operation
    have early : old ≤ n.lastIncludedIndex + 1 ∨ known = 0 := inOrder _ rfl old known found held
    rw [Word.add_eq (by omega)] at moves
    refine ⟨by omega, by omega, Or.inr (Or.inl held), fun other there => ?_⟩
    obtain rfl := Option.some.inj (held.symm.trans there)
    exact le_refl _
  · obtain ⟨none, rfl, rfl⟩ := sets
    rw [Word.add_eq (by omega)]
    refine ⟨Nat.succ_pos _, le_refl _, Or.inl rfl, fun old there => ?_⟩
    rw [none] at there
    contradiction

end Sane

end Records

/-- A process that does not restart keeps its books. -/
theorem Sane.books {unmarshal : Bytes → Option MembershipCommand} {c : Cluster} {label : Label}
    {peers : List NodeId} {reaction : Reaction} (sane : Sane (c.servers label.node).node)
    (aligned : Aligned (c.servers label.node)) (aligned' : Aligned reaction.server)
    (running : label.event ≠ .crash) (fits : c.termsFit label = true)
    (inOrder : ∀ call, c.stepped label = some call → call.Orderly (c.servers label.node).node)
    (reacted : (c.servers label.node).react unmarshal peers label.event = some reaction) :
    Books (fun peer index => ∃ call, c.stepped label = some call ∧
      call.Records (c.servers label.node).node peer index) (c.servers label.node).node
      reaction.server.node := by
  have grows : reaction.server.node.state = .leader →
      (c.servers label.node).node.lastLogIndexLocked ≤ reaction.server.node.lastLogIndexLocked := by
    intro leads
    obtain ⟨added, longer, -⟩ := Server.react_full running reacted leads
    rw [aligned.represents.lastLogIndex, aligned'.represents.lastLogIndex, longer, List.length_append]
    exact Nat.le_add_right _ _
  rcases Server.react_moves reacted with ⟨crash, -⟩ | ⟨-, node | ⟨op, runs, node⟩⟩
  · exact absurd crash running
  · rw [node]
    refine ⟨sane, fun _ _ found => Or.inr (Or.inl found), fun _ _ _ before after => ?_, Or.inr,
      fun leads => ⟨rfl, Or.inr leads, le_refl _⟩⟩
    exact (Option.some.inj (before.symm.trans after)).le
  have own := Server.operation_ne_becomeLeader runs
  have orderly : RaftNode.Orderly _ _ reaction.server.node :=
    node ▸ RaftNode.perform_orderly sane.coherent label.event.save op
  -- the indices of a tracked peer are those it had, or what the operation sets
  have entered := fun peer known next held found =>
    (orderly.entries peer known next held found).imp_right fun sets =>
      sane.sets aligned.represents own (c.stepped label) (fun records => by
        obtain ⟨tag, save, applied, call, steps, ran, made⟩ := Server.operation_of_call runs
          (by rintro ⟨⟩ <;> rcases records with rfl | rfl <;> simp [Body.operation])
          (by rintro snapshot rfl; simp at records)
        exact ⟨call, by simp [Cluster.stepped, steps, ran], made⟩) inOrder sets
  have sane' : Sane reaction.server.node := by
    refine ⟨orderly.coherent, fun peer known next held found => ?_⟩
    have last := grows (orderly.coherent.found found).1
    rcases entered peer known next held found with ⟨before, there⟩ | ⟨below, high, -⟩
    · have := sane.ordered peer known next before there
      omega
    · omega
  refine ⟨sane', fun peer index held => ?_, fun peer known later before held => ?_, fun candidate => ?_,
    fun leads => ?_⟩
  · obtain ⟨-, next, found⟩ := sane'.of_match held
    rcases entered peer index next held found with ⟨before, -⟩ | ⟨-, -, origin, -⟩
    · exact Or.inr (Or.inl before)
    · exact origin
  · obtain ⟨-, next, found⟩ := sane'.of_match held
    rcases entered peer later next held found with ⟨same, -⟩ | ⟨-, -, -, above⟩
    · exact (Option.some.inj (before.symm.trans same)).le
    · exact above known before
  · rw [node] at candidate ⊢
    rcases RaftNode.perform_candidate own candidate with rfl | ⟨before, -⟩
    · obtain ⟨tag, save, applied, steps, ran⟩ := Server.operation_enters runs
      have term := (c.servers label.node).node.becomeCandidate_term label.event.save
      rw [Word.add_eq (Cluster.termsFit_preVoteWon fits steps ran)] at term
      exact Or.inl (term ▸ Nat.lt_succ_self _)
    · exact Or.inr before
  · refine ⟨orderly.term leads, ?_, grows leads⟩
    rw [node] at leads
    exact (RaftNode.perform_leads own leads).2.symm.imp_left And.left

/-- What a node has built and recorded in its term. -/
structure Ledger where
  /-- For each peer the requests built for it, each with the last index of the log at that time, without
  those from before the log had grown to what it was for a request whose success is recorded. -/
  fresh : NodeId → List (AppendEntriesRequest × Nat) := fun _ => []
  /-- Whether a success is recorded for a peer since it is tracked. -/
  heard : NodeId → Bool := fun _ => false

namespace Ledger

/-- The node takes the next section of a call. -/
def note (s : Ledger) (n : RaftNode) : Call → Ledger
  | .replicate _ (.building (peer :: _) _) =>
    match n.buildAppendEntries peer with
    | .error _ => s
    | .ok req =>
      { s with fresh := Function.update s.fresh peer ((req, n.lastLogIndexLocked) :: s.fresh peer) }
  | .replicate _ (.recording _ peer req true) =>
    if n.nextOf peer = none then s
    else
      { fresh := Function.update s.fresh peer <| (s.fresh peer).filter fun built =>
          (s.fresh peer).any fun recorded => decide (recorded.1 = req ∧ recorded.2 ≤ built.2)
        heard := Function.update s.heard peer true }
  | _ => s

/-- The node goes on as another record; a new term starts a new ledger. -/
def next (s : Ledger) (call : Option Call) (n m : RaftNode) : Ledger :=
  if m.currentTerm = n.currentTerm then
    let noted := call.elim s (s.note n)
    { noted with heard := fun peer => noted.heard peer && (m.nextOf peer).isSome }
  else {}

/-- No late result is about to be recorded: a success is of a request built in the term, and none is
recorded of a request built after the log grew; a refusal that moves the next index comes before any
success. -/
def inOrder (s : Ledger) (n : RaftNode) : Call → Bool
  | .replicate _ (.recording _ peer req true) =>
    decide (n.nextOf peer = none) || (s.fresh peer).any fun built => decide (built.1 = req)
  | .replicate _ (.recording _ peer _ false) =>
    (n.nextOf peer).all (fun next => decide (next ≤ n.lastIncludedIndex + 1)) || !s.heard peer
  | _ => true

/-- A ledger says of a node's requests how far they reach and that nothing beyond is acknowledged. -/
structure Ok (s : Ledger) (n : RaftNode) : Prop where
  /-- The requests are of the term, and reach the end of the log they were built from. -/
  built : ∀ peer, ∀ built ∈ s.fresh peer, built.1.term = n.currentTerm ∧ built.1.reach = built.2
  /-- Who built one does not run for its term. -/
  role : ∀ peer, ∀ built ∈ s.fresh peer, n.state ≠ .candidate
  /-- A leader's log has not shrunk since. -/
  inside : ∀ peer, ∀ built ∈ s.fresh peer, n.state = .leader → built.2 ≤ n.lastLogIndexLocked
  /-- None is behind what is acknowledged. -/
  reaches : ∀ peer known, n.matchOf peer = some known → ∀ built ∈ s.fresh peer, known ≤ built.2
  /-- Without a success nothing is acknowledged. -/
  heard : ∀ peer known, n.matchOf peer = some known → s.heard peer = false → known = 0

variable {s : Ledger} {n m : RaftNode}

/-- An empty ledger is right of a node that does not lead. -/
theorem Ok.empty (sane : Sane n) (other : n.state ≠ .leader) : Ok {} n := by
  refine ⟨fun _ _ listed => ?_, fun _ _ listed => ?_, fun _ _ listed => ?_, fun _ _ _ _ listed => ?_,
    fun peer known found => ?_⟩
  iterate 4 exact absurd listed List.not_mem_nil
  exact absurd (sane.of_match found).1 other

/-- What a ledger allows a call to record is in order. -/
theorem Ok.orderly (ok : s.Ok n) (sane : Sane n) {call : Call} (allowed : s.inOrder n call = true) :
    call.Orderly n := by
  unfold inOrder at allowed
  split at allowed
  · rename_i peer req
    intro next known found acknowledged
    have fresh : ∃ built ∈ s.fresh peer, built.1 = req := by simpa [found] using allowed
    obtain ⟨built, listed, rfl⟩ := fresh
    rw [if_pos rfl, (ok.built peer built listed).2]
    exact ⟨ok.reaches peer known acknowledged built listed,
      ok.inside peer built listed (sane.coherent.found found).1⟩
  · rename_i peer req
    intro next known found acknowledged
    have early : next ≤ n.lastIncludedIndex + 1 ∨ s.heard peer = false := by
      simpa [found] using allowed
    exact early.imp_right (ok.heard peer known acknowledged)
  · rename_i late early
    unfold Call.Orderly
    split
    · rename_i owner waiting peer req success
      cases success
      · exact (early owner waiting peer req rfl).elim
      · exact (late owner waiting peer req rfl).elim
    · trivial

/-- What the section of a call leaves in the ledger: requests that were there, and the one it built. -/
theorem note_fresh {call : Call} {peer : NodeId} {built : AppendEntriesRequest × Nat}
    (listed : built ∈ (s.note n call).fresh peer) : built ∈ s.fresh peer ∨
      n.buildAppendEntries peer = .ok built.1 ∧ built.2 = n.lastLogIndexLocked := by
  unfold note at listed
  split at listed
  · split at listed
    · exact Or.inl listed
    · rename_i made
      simp only [Function.update_apply] at listed
      split at listed
      · rename_i here
        rcases List.mem_cons.mp listed with rfl | old
        · exact Or.inr ⟨here ▸ made, rfl⟩
        · exact Or.inl (here ▸ old)
      · exact Or.inl listed
  · split at listed
    · exact Or.inl listed
    · simp only [Function.update_apply] at listed
      split at listed
      · rename_i here
        exact Or.inl (here ▸ List.mem_of_mem_filter listed)
      · exact Or.inl listed
  · exact Or.inl listed

/-- A call that records an index leaves no request that was built from a shorter log. -/
theorem note_recorded {call : Call} {peer : NodeId} {index : Nat} (recorded : call.Records n peer index) :
    (s.note n call).heard peer = true ∧ ∀ built ∈ (s.note n call).fresh peer,
      ∃ sent ∈ s.fresh peer, sent.1.reach = index ∧ sent.2 ≤ built.2 := by
  unfold Call.Records at recorded
  split at recorded
  · obtain ⟨rfl, rfl, tracked⟩ := recorded
    simp only [note, if_neg tracked, Function.update_self, List.mem_filter, List.any_eq_true,
      decide_eq_true_eq, true_and]
    rintro built ⟨-, sent, listed, rfl, shorter⟩
    exact ⟨sent, listed, rfl, shorter⟩
  · exact recorded.elim

/-- The ledger forgets no success. -/
theorem note_heard {call : Call} {peer : NodeId} (heard : s.heard peer = true) :
    (s.note n call).heard peer = true := by
  unfold note
  split
  · split <;> exact heard
  · split
    · exact heard
    · simp only [Function.update_apply, heard, ite_self]
  · exact heard

/-- The ledger stays right over a section. -/
theorem Ok.next (ok : s.Ok n) (sane : Sane n) {full : List LogEntry} (represents : Represents n full)
    {call : Option Call} (books : Books (fun peer index => ∃ c, call = some c ∧ c.Records n peer index) n m) :
    (s.next call n m).Ok m := by
  unfold Ledger.next
  split
  case isFalse changed => exact .empty books.sane fun leads => changed (books.leader leads).1
  case isTrue same =>
  have old : ∀ peer, ∀ built ∈ (call.elim s (s.note n)).fresh peer, built ∈ s.fresh peer ∨
      n.buildAppendEntries peer = .ok built.1 ∧ built.2 = n.lastLogIndexLocked := by
    cases call with
    | none => exact fun _ _ => Or.inl
    | some call => exact fun _ _ => note_fresh
  have built : ∀ peer, ∀ built ∈ (call.elim s (s.note n)).fresh peer,
      built.1.term = n.currentTerm ∧ built.1.reach = built.2 ∧ n.state ≠ .candidate ∧
      (n.state = .leader → built.2 ≤ n.lastLogIndexLocked) := by
    intro peer built listed
    rcases old peer built listed with before | ⟨made, last⟩
    · exact ⟨(ok.built peer built before).1, (ok.built peer built before).2, ok.role peer built before,
        ok.inside peer built before⟩
    · obtain ⟨leads, term, reach⟩ := sane.built represents made
      exact ⟨term, reach.trans last.symm, by simp [leads], fun _ => last.le⟩
  refine ⟨fun peer request listed => ?_, fun peer request listed runs => ?_,
    fun peer request listed leads => ?_, fun peer known found request listed => ?_,
    fun peer known found unheard => ?_⟩
  · rw [same]
    exact ⟨(built peer request listed).1, (built peer request listed).2.1⟩
  · rcases books.candidate runs with later | before
    · omega
    · exact (built peer request listed).2.2.1 before
  · obtain ⟨-, before | led, grown⟩ := books.leader leads
    · exact absurd before (built peer request listed).2.2.1
    · exact ((built peer request listed).2.2.2 led).trans grown
  · rcases books.origin peer known found with rfl | before | ⟨run, rfl, recorded⟩
    · exact Nat.zero_le _
    · rcases old peer request listed with listed | ⟨-, last⟩
      · exact ok.reaches peer known before request listed
      · obtain ⟨-, next, tracked⟩ := sane.of_match before
        have := sane.ordered peer known next before tracked
        omega
    · obtain ⟨sent, there, reach, shorter⟩ := (note_recorded recorded).2 request listed
      have reached := (ok.built peer sent there).2
      omega
  · obtain ⟨-, next, tracked⟩ := books.sane.of_match found
    simp only [tracked, Option.isSome_some, Bool.and_true] at unheard
    rcases books.origin peer known found with zero | before | ⟨run, rfl, recorded⟩
    · exact zero
    · refine ok.heard peer known before (Bool.eq_false_iff.mpr fun heard => ?_)
      cases call with
      | none => exact absurd heard (by simpa using unheard)
      | some call => exact absurd (note_heard heard) (by simpa using unheard)
    · exact absurd (note_recorded recorded).1 (by simpa using unheard)

/-- The ledger stays right of a process that restarts. -/
theorem Ok.restart (ok : s.Ok n) (sane : Sane m) (follower : m.state = .follower) :
    (s.next none n m).Ok m := by
  have other : m.state ≠ .leader := by simp [follower]
  have none : ∀ peer known, m.matchOf peer ≠ some known := fun _ _ held =>
    other (sane.of_match held).1
  unfold Ledger.next
  split
  case isFalse => exact .empty sane other
  case isTrue same =>
    exact ⟨fun peer built listed => same ▸ ok.built peer built listed, fun _ _ _ => by simp [follower],
      fun _ _ _ leads => absurd leads other, fun peer known found => absurd found (none peer known),
      fun peer known found => absurd found (none peer known)⟩

end Ledger

/-- A cluster with the ledger of one node. -/
structure Audit where
  /-- The cluster. -/
  cluster : Cluster
  /-- The ledger. -/
  ledger : Ledger := {}

/-- One step, kept book of at the node `id`. -/
def Audit.step (unmarshal : Bytes → Option MembershipCommand) (members : Members) (id : NodeId)
    (s : Audit) (label : Label) : Option Audit :=
  (s.cluster.step unmarshal members label).map fun after =>
    { cluster := after
      ledger := if label.node = id then s.ledger.next (s.cluster.stepped label)
        (s.cluster.servers id).node (after.servers id).node else s.ledger }

/-- Nothing wraps, and the node `id` records no late result. -/
def RecordsInOrder (id : NodeId) (s : Audit) (label : Label) : Prop :=
  s.cluster.nothingWraps label = true ∧ (label.node = id →
    (s.cluster.stepped label).all (s.ledger.inOrder (s.cluster.servers id).node) = true)

instance (id : NodeId) (s : Audit) (label : Label) : Decidable (RecordsInOrder id s label) := by
  unfold RecordsInOrder
  infer_instance

/-- A node leads a term and has a peer. -/
def LeadsPeer (id peer : NodeId) (term : Nat) (c : Cluster) : Prop :=
  (c.servers id).node.state = .leader ∧ (c.servers id).node.currentTerm = term ∧
    peer ∈ (c.servers id).node.peers

instance (id peer : NodeId) (term : Nat) (c : Cluster) : Decidable (LeadsPeer id peer term c) := by
  unfold LeadsPeer
  infer_instance

section Clusters

variable {unmarshal : Bytes → Option MembershipCommand} {members : Members} {id : NodeId} {s s' : Audit}
  {label : Label}

/-- One process of a cluster keeps its books in order. -/
structure Audited (members : Members) (id : NodeId) (s : Audit) : Prop where
  /-- The logs are numbered. -/
  steady : SteadyCluster members s.cluster
  /-- The books. -/
  sane : Sane (s.cluster.servers id).node
  /-- The ledger. -/
  ledger : s.ledger.Ok (s.cluster.servers id).node

namespace Audited

/-- A started cluster. -/
theorem initial (members : Members) (id : NodeId) :
    Audited members id { cluster := .initial members } := by
  have sane := Sane.restart id (members.peers id) (some {})
  exact ⟨.initial members, sane, .empty sane (by simp [Cluster.initial, newRaftNode_state])⟩

/-- A step keeps the books in order and sets no acknowledged index back. -/
theorem step (audited : Audited members id s) (allowed : RecordsInOrder id s label)
    (stepped : s.step unmarshal members id label = some s') : Audited members id s' ∧
      ∀ peer known later, (s.cluster.servers id).node.matchOf peer = some known →
        (s'.cluster.servers id).node.matchOf peer = some later → known ≤ later := by
  obtain ⟨wraps, inOrder⟩ := allowed
  obtain ⟨after, moved, rfl⟩ := Option.map_eq_some_iff.mp stepped
  obtain ⟨steady, -⟩ := audited.steady.step wraps moved
  obtain ⟨inside, net, reaction, -, reacted, rfl⟩ := Cluster.step_some moved
  by_cases here : label.node = id
  case neg =>
    have other := s.cluster.absorb_other net reaction (Ne.symm here)
    refine ⟨⟨steady, ?_, ?_⟩, fun peer known later held found => ?_⟩
    · exact other ▸ audited.sane
    · simp only [if_neg here, other]
      exact audited.ledger
    · rw [other, held] at found
      exact (Option.some.inj found).le
  subst here
  have own := s.cluster.absorb_own label.node net reaction
  suffices kept : Sane reaction.server.node ∧ (s.ledger.next (s.cluster.stepped label)
      (s.cluster.servers label.node).node reaction.server.node).Ok reaction.server.node ∧
      ∀ peer known later, (s.cluster.servers label.node).node.matchOf peer = some known →
        reaction.server.node.matchOf peer = some later → known ≤ later by
    rw [← own] at kept
    refine ⟨⟨steady, kept.1, ?_⟩, kept.2.2⟩
    rw [if_pos rfl]
    exact kept.2.1
  by_cases crashes : label.event = .crash
  · rw [crashes] at reacted
    obtain rfl := Option.some.inj reacted
    have sane := Sane.restart (s.cluster.servers label.node).node.id
      (members.peers label.node) (s.cluster.servers label.node).node.store
    have idle : s.cluster.stepped label = none := by simp [Cluster.stepped, crashes]
    rw [idle]
    exact ⟨sane, audited.ledger.restart sane (newRaftNode_state ..),
      fun _ _ _ _ held => absurd (sane.of_match held).1 (by rw [newRaftNode_state]; simp)⟩
  · have aligned := (audited.steady.servers _ inside).aligned
    have books := audited.sane.books aligned (own ▸ (steady.servers _ inside).aligned) crashes
      ((Bool.and_eq_true ..).mp wraps).1
      (fun call ran => audited.ledger.orderly audited.sane
        (by simpa [ran] using inOrder rfl)) reacted
    exact ⟨books.sane, audited.ledger.next audited.sane aligned.represents books, books.rises⟩

/-- What the books of a leader say of a peer. -/
theorem ordered (audited : Audited members id s) {peer : NodeId} {term : Nat}
    (leads : LeadsPeer id peer term s.cluster) : ∃ known next,
      (s.cluster.servers id).node.matchOf peer = some known ∧
        (s.cluster.servers id).node.nextOf peer = some next ∧
        known < next ∧ next ≤ (s.cluster.servers id).node.lastLogIndexLocked + 1 := by
  obtain ⟨next, found⟩ :=
    Option.isSome_iff_exists.mp ((audited.sane.coherent.nextKeys leads.1 peer).mpr leads.2.2)
  obtain ⟨-, known, held, below, high⟩ := audited.sane.of_next found
  exact ⟨known, next, held, found, below, high⟩

end Audited

/-- If a node records no late result, the indices of every peer it leads are in order, and the
acknowledged one does not fall while it leads its term and the peer stays. -/
theorem books_in_order
    (run : Reach (Audit.step unmarshal members id) (RecordsInOrder id) { cluster := .initial members } s)
    {peer : NodeId} {term : Nat} (leads : LeadsPeer id peer term s.cluster) :
    ∃ known next, (s.cluster.servers id).node.matchOf peer = some known ∧
      (s.cluster.servers id).node.nextOf peer = some next ∧ known < next ∧
      next ≤ (s.cluster.servers id).node.lastLogIndexLocked + 1 ∧
      ∀ s', Reach (Audit.step unmarshal members id)
        (fun before label => RecordsInOrder id before label ∧ LeadsPeer id peer term before.cluster) s s' →
        LeadsPeer id peer term s'.cluster →
        ∃ later, (s'.cluster.servers id).node.matchOf peer = some later ∧ known ≤ later := by
  have audited : Audited members id s := run.invariant (.initial members id)
    fun _ _ _ audited allowed stepped => (audited.step allowed stepped).1
  obtain ⟨known, next, acknowledged, found, below, high⟩ := audited.ordered leads
  refine ⟨known, next, acknowledged, found, below, high, fun s' later => ?_⟩
  -- along the second run the books stay in order, and each step compares two acknowledged indices
  have along : Audited members id s' ∧ (LeadsPeer id peer term s'.cluster →
      ∃ later, (s'.cluster.servers id).node.matchOf peer = some later ∧ known ≤ later) := by
    refine later.invariant (P := fun after => Audited members id after ∧
      (LeadsPeer id peer term after.cluster →
        ∃ later, (after.cluster.servers id).node.matchOf peer = some later ∧ known ≤ later))
      ⟨audited, fun _ => ⟨known, acknowledged, le_refl _⟩⟩ ?_
    rintro before after label ⟨audited, reached⟩ ⟨allowed, led⟩ stepped
    obtain ⟨kept, rises⟩ := audited.step allowed stepped
    refine ⟨kept, fun leads => ?_⟩
    obtain ⟨earlier, held, above⟩ := reached led
    obtain ⟨index, -, there, -⟩ := kept.ordered leads
    exact ⟨index, there, above.trans (rises peer earlier index held there)⟩
  exact along.2

end Clusters

/-- The request of the first of two rounds: the log has one entry. -/
def firstRound : AppendEntriesRequest := ⟨1, "A", 0, 0, [⟨1, 1, [88]⟩], 0⟩

/-- The request of the second round: the log has two entries, and `B` has acknowledged none yet. -/
def secondRound : AppendEntriesRequest := ⟨1, "A", 0, 0, [⟨1, 1, [88]⟩, ⟨1, 2, [89]⟩], 0⟩

/-- `A` leads, proposes twice without waiting, and `B` accepts the requests of both rounds. -/
def twoRounds : List Label :=
  Label.campaign "A" 0 1 0 0 [("B", 0)] ++
  [⟨"A", .start (.propose [88])⟩] ++ Label.sections "A" 1 9 ++
  [⟨"A", .start (.propose [89])⟩] ++ Label.sections "A" 2 9 ++
  [⟨"B", .serve ⟨"A", "B", 1, .appendRequest firstRound⟩ true⟩,
    ⟨"B", .serve ⟨"A", "B", 2, .appendRequest secondRound⟩ true⟩]

/-- The response to a round reaches `A`. -/
def answeredRound (tag : Nat) (req : AppendEntriesRequest) : Label :=
  ⟨"A", .reply ⟨"A", "B", tag, .appendResponse req ⟨1, true⟩⟩ true⟩

/-- Recorded in order, the second round raises what `B` has acknowledged. -/
theorem books_in_order_rounds : ∃ s s',
    Reach (Audit.step plainCommands threeNodes "A") (RecordsInOrder "A")
        { cluster := .initial threeNodes } s ∧
      Reach (Audit.step plainCommands threeNodes "A")
        (fun before label => RecordsInOrder "A" before label ∧ LeadsPeer "A" "B" 1 before.cluster) s s' ∧
      (s.cluster.servers "A").node.matchOf "B" = some 1 ∧
      (s'.cluster.servers "A").node.matchOf "B" = some 2 ∧
      ∃ known later, (s.cluster.servers "A").node.matchOf "B" = some known ∧
        (s'.cluster.servers "A").node.matchOf "B" = some later ∧ known ≤ later := by
  have passed : (Transition.exec (Audit.step plainCommands threeNodes "A") (RecordsInOrder "A")
      { cluster := .initial threeNodes }
      (twoRounds ++ [answeredRound 1 firstRound] ++ Label.sections "A" 1 1)).any
      (fun s => decide (LeadsPeer "A" "B" 1 s.cluster ∧
          (s.cluster.servers "A").node.matchOf "B" = some 1) &&
        (Transition.exec (Audit.step plainCommands threeNodes "A")
          (fun before label => RecordsInOrder "A" before label ∧ LeadsPeer "A" "B" 1 before.cluster) s
          ([answeredRound 2 secondRound] ++ Label.sections "A" 2 1)).any fun s' =>
            decide (LeadsPeer "A" "B" 1 s'.cluster ∧
              (s'.cluster.servers "A").node.matchOf "B" = some 2)) = true := by
    decide +kernel
  obtain ⟨s, run, test⟩ := Reach.of_exec_test passed
  obtain ⟨here, there⟩ := (Bool.and_eq_true ..).mp test
  obtain ⟨leads, first⟩ := of_decide_eq_true here
  obtain ⟨s', onwards, test'⟩ := Reach.of_exec_test there
  obtain ⟨leads', second⟩ := of_decide_eq_true test'
  obtain ⟨known, next, held, -, -, -, rises⟩ := books_in_order run leads
  obtain ⟨later, found, above⟩ := rises s' onwards leads'
  exact ⟨s, s', run, onwards, first, second, known, later, held, found, above⟩

/-- The response to the first round is late: what `B` has acknowledged falls from 2 to 1 while `A`
leads the term. -/
theorem late_success_lowers : ∃ c c',
    Reach (Cluster.step plainCommands threeNodes) (Sound plainCommands) (.initial threeNodes) c ∧
      Reach (Cluster.step plainCommands threeNodes)
        (fun before label => Sound plainCommands before label ∧ LeadsPeer "A" "B" 1 before) c c' ∧
      LeadsPeer "A" "B" 1 c' ∧ (c.servers "A").node.matchOf "B" = some 2 ∧
      (c'.servers "A").node.matchOf "B" = some 1 := by
  have passed : (Transition.exec (Cluster.step plainCommands threeNodes) (Sound plainCommands)
      (.initial threeNodes) (twoRounds ++ [answeredRound 2 secondRound] ++ Label.sections "A" 2 1)).any
      (fun c => decide ((c.servers "A").node.matchOf "B" = some 2) &&
        (Transition.exec (Cluster.step plainCommands threeNodes)
          (fun before label => Sound plainCommands before label ∧ LeadsPeer "A" "B" 1 before) c
          ([answeredRound 1 firstRound] ++ Label.sections "A" 1 1)).any fun c' =>
            decide (LeadsPeer "A" "B" 1 c' ∧ (c'.servers "A").node.matchOf "B" = some 1)) = true := by
    decide +kernel
  obtain ⟨c, run, test⟩ := Reach.of_exec_test passed
  obtain ⟨here, there⟩ := (Bool.and_eq_true ..).mp test
  obtain ⟨c', onwards, test'⟩ := Reach.of_exec_test there
  obtain ⟨leads', lower⟩ := of_decide_eq_true test'
  exact ⟨c, c', run, onwards, leads', of_decide_eq_true here, lower⟩

/-- `A` restarts with an entry `B` does not have and leads term 2, so that its heartbeats follow that
entry. `B` refuses two of them; after the first refusal `A` sends the entry. -/
def refusedTwice : List Label :=
  let heartbeat : AppendEntriesRequest := ⟨2, "A", 1, 1, [], 0⟩
  let shipped : AppendEntriesRequest := ⟨2, "A", 0, 0, [⟨1, 1, [88]⟩], 0⟩
  Label.campaign "A" 0 1 0 0 [("B", 0)] ++
  [⟨"A", .start (.propose [88])⟩] ++ Label.sections "A" 1 2 ++ [⟨"A", .crash⟩] ++
  Label.campaign "A" 2 2 1 1 [("B", 1)] ++
  [⟨"A", .start .replicate⟩] ++ Label.sections "A" 3 5 ++
  [⟨"A", .start .replicate⟩] ++ Label.sections "A" 4 5 ++
  Label.rpc "A" "B" 3 (.appendRequest heartbeat) (.appendResponse heartbeat ⟨2, false⟩) ++
  [⟨"B", .serve ⟨"A", "B", 4, .appendRequest heartbeat⟩ true⟩] ++ Label.sections "A" 3 1 ++
  [⟨"A", .start .replicate⟩] ++ Label.sections "A" 5 5 ++
  Label.rpc "A" "B" 5 (.appendRequest shipped) (.appendResponse shipped ⟨2, true⟩) ++
  Label.sections "A" 5 1 ++
  [⟨"A", .reply ⟨"A", "B", 4, .appendResponse heartbeat ⟨2, false⟩⟩ true⟩] ++ Label.sections "A" 4 1

/-- The second refusal is late: the next index falls to what `B` has acknowledged. -/
theorem late_refusal_crosses : ∃ c,
    Reach (Cluster.step plainCommands threeNodes) (Sound plainCommands) (.initial threeNodes) c ∧
      LeadsPeer "A" "B" 2 c ∧ (c.servers "A").node.matchOf "B" = some 1 ∧
      (c.servers "A").node.nextOf "B" = some 1 := by
  have passed : (Transition.exec (Cluster.step plainCommands threeNodes) (Sound plainCommands)
      (.initial threeNodes) refusedTwice).any (fun c =>
        decide (LeadsPeer "A" "B" 2 c ∧ (c.servers "A").node.matchOf "B" = some 1 ∧
          (c.servers "A").node.nextOf "B" = some 1)) = true := by
    decide +kernel
  obtain ⟨c, run, test⟩ := Reach.of_exec_test passed
  exact ⟨c, run, of_decide_eq_true test⟩

end Raft
