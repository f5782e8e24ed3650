import RvKeyValue.Base.Prefix
import Mathlib.Logic.Function.Basic
import RvKeyValue.Base.Quorum

/-!
# A replicated log with elected leaders

The abstract protocol behind a log that leaders extend and followers copy. A node has a term,
at most one vote in it and a log without any compaction. Everything else in the state is
history: the votes ever granted, with the voter's log at that moment; the elections ever
decided; for each decided term the log its leader has written, which only grows; and the
prefixes of that log each node has ever acknowledged.

`Step` lists what nodes may do. A follower copies a prefix of its leader's log whatever its
own log holds: the consistency check of an implementation only decides when it may do so.
-/

namespace ReplicatedLog

variable {N E : Type*}

/-- A decided election. -/
structure Election (N E : Type*) where
  /-- The elected node. -/
  leader : N
  /-- Its log when it was elected. -/
  log : List E
  /-- The quorum that voted for it. -/
  voters : Finset N

/-- The nodes together with the history the safety argument needs. -/
structure State (N E : Type*) where
  /-- The latest term each node has seen. -/
  term : N → Nat
  /-- Each node's vote in its term. -/
  vote : N → Option N
  /-- Each node's whole log. -/
  log : N → List E
  /-- The votes ever granted: voter, term, candidate and the voter's log at that moment. -/
  granted : N → Nat → N → List E → Prop
  /-- The elections ever decided. -/
  elected : Nat → Option (Election N E)
  /-- The log the leader of each decided term has written so far. -/
  leaderLog : Nat → List E
  /-- The prefixes of a term's leader log each node has acknowledged in that term. -/
  acked : N → Nat → List E → Prop

/-- No node has done anything. -/
def State.initial : State N E where
  term _ := 0
  vote _ := none
  log _ := []
  granted _ _ _ _ := False
  elected _ := none
  leaderLog _ := []
  acked _ _ _ := False

/-- The term of the last entry, zero for the empty log. -/
def lastTerm (termOf : E → Nat) (log : List E) : Nat := (log.getLast?.map termOf).getD 0

/-- The candidate's log is at least as fresh as the voter's. -/
def UpToDate (termOf : E → Nat) (candidate voter : List E) : Prop :=
  lastTerm termOf voter < lastTerm termOf candidate ∨
    lastTerm termOf voter = lastTerm termOf candidate ∧ voter.length ≤ candidate.length

/-- Every log is at least as fresh as itself. -/
theorem UpToDate.refl (termOf : E → Nat) (log : List E) : UpToDate termOf log log :=
  Or.inr ⟨rfl, le_refl _⟩

namespace State

section Actions

variable [DecidableEq N]

/-- A node sees a later term and has no vote in it. -/
def raise (s : State N E) (node : N) (term : Nat) : State N E :=
  { s with term := Function.update s.term node term, vote := Function.update s.vote node none }

/-- A node votes in its term. -/
def castVote (s : State N E) (node candidate : N) : State N E :=
  { s with
    vote := Function.update s.vote node (some candidate)
    granted := fun voter term chosen log => s.granted voter term chosen log ∨
      voter = node ∧ term = s.term node ∧ chosen = candidate ∧ log = s.log node }

/-- A node becomes the leader of its term. -/
def elect (s : State N E) (node : N) (voters : Finset N) : State N E :=
  { s with
    elected := Function.update s.elected (s.term node) (some ⟨node, s.log node, voters⟩)
    leaderLog := Function.update s.leaderLog (s.term node) (s.log node) }

/-- A leader extends its log. -/
def append (s : State N E) (node : N) (entry : E) : State N E :=
  { s with
    log := Function.update s.log node (s.log node ++ [entry])
    leaderLog := Function.update s.leaderLog (s.term node) (s.log node ++ [entry]) }

/-- A node replaces its log by the first entries of its leader's log. -/
def accept (s : State N E) (node : N) (count : Nat) : State N E :=
  { s with log := Function.update s.log node ((s.leaderLog (s.term node)).take count) }

end Actions

/-- A node acknowledges a prefix of its leader's log, and with it every shorter one. -/
def ack (s : State N E) (node : N) (pre : List E) : State N E :=
  { s with acked := fun other term known => s.acked other term known ∨
      other = node ∧ term = s.term node ∧ known <+: pre }

end State

/-- What a node may do. -/
inductive Step [DecidableEq N] (termOf : E → Nat) (quorums : Quorums N) (s : State N E) :
    State N E → Prop
  /-- Move to a later term. -/
  | raise (node : N) (term : Nat) (later : s.term node < term) :
      Step termOf quorums s (s.raise node term)
  /-- Vote, unless the term's vote went to another candidate. -/
  | castVote (node candidate : N) (free : ∀ other, s.vote node = some other → other = candidate) :
      Step termOf quorums s (s.castVote node candidate)
  /-- Become leader with a quorum of votes cast on logs no fresher than one's own. -/
  | elect (node : N) (voters : Finset N) (undecided : s.elected (s.term node) = none)
      (positive : 0 < s.term node) (quorum : quorums.IsQuorum voters)
      (votes : ∀ voter ∈ voters, ∃ log, s.granted voter (s.term node) node log ∧
        UpToDate termOf (s.log node) log) :
      Step termOf quorums s (s.elect node voters)
  /-- Extend the log as the leader of the term. -/
  | append (node : N) (entry : E) (election : Election N E)
      (leads : s.elected (s.term node) = some election) (self : election.leader = node)
      (current : termOf entry = s.term node) :
      Step termOf quorums s (s.append node entry)
  /-- Copy a prefix of the leader's log that one does not hold yet. -/
  | accept (node : N) (count : Nat) (election : Election N E)
      (led : s.elected (s.term node) = some election)
      (missing : ¬ (s.leaderLog (s.term node)).take count <+: s.log node) :
      Step termOf quorums s (s.accept node count)
  /-- Acknowledge a held prefix of the leader's log. -/
  | ack (node : N) (pre : List E) (election : Election N E)
      (led : s.elected (s.term node) = some election) (held : pre <+: s.log node)
      (written : pre <+: s.leaderLog (s.term node)) :
      Step termOf quorums s (s.ack node pre)

/-- History only grows, and a leader's log only by appending. -/
structure State.Grows (s s' : State N E) : Prop where
  /-- Terms do not fall. -/
  term : ∀ node, s.term node ≤ s'.term node
  /-- Decided elections stay decided. -/
  elected : ∀ term election, s.elected term = some election → s'.elected term = some election
  /-- A decided term's log keeps what it has. -/
  leaderLog : ∀ term election, s.elected term = some election →
    s.leaderLog term <+: s'.leaderLog term
  /-- Granted votes are remembered. -/
  granted : ∀ voter term candidate log, s.granted voter term candidate log →
    s'.granted voter term candidate log
  /-- Acknowledgements are remembered. -/
  acked : ∀ node term pre, s.acked node term pre → s'.acked node term pre

namespace State.Grows

/-- Standing still grows nothing. -/
theorem refl (s : State N E) : s.Grows s where
  term _ := le_refl _
  elected _ _ h := h
  leaderLog _ _ _ := List.prefix_rfl
  granted _ _ _ _ h := h
  acked _ _ _ h := h

/-- Growth composes. -/
theorem trans {s s' s'' : State N E} (first : s.Grows s') (second : s'.Grows s'') :
    s.Grows s'' where
  term node := le_trans (first.term node) (second.term node)
  elected _ _ h := second.elected _ _ (first.elected _ _ h)
  leaderLog _ _ h :=
    (first.leaderLog _ _ h).trans (second.leaderLog _ _ (first.elected _ _ h))
  granted _ _ _ _ h := second.granted _ _ _ _ (first.granted _ _ _ _ h)
  acked _ _ _ h := second.acked _ _ _ (first.acked _ _ _ h)

end State.Grows

/-- Nothing but the state of one node moved, apart from growing history. -/
structure State.OnlyAt (s s' : State N E) (node : N) : Prop where
  /-- Other nodes keep their terms. -/
  term : ∀ other, other ≠ node → s'.term other = s.term other
  /-- Other nodes keep their votes. -/
  vote : ∀ other, other ≠ node → s'.vote other = s.vote other
  /-- Other nodes keep their logs. -/
  log : ∀ other, other ≠ node → s'.log other = s.log other

namespace State.OnlyAt

/-- Standing still moves no node. -/
theorem refl (s : State N E) (node : N) : s.OnlyAt s node :=
  ⟨fun _ _ => rfl, fun _ _ => rfl, fun _ _ => rfl⟩

/-- Moves of one node compose. -/
theorem trans {s s' s'' : State N E} {node : N} (first : s.OnlyAt s' node)
    (second : s'.OnlyAt s'' node) : s.OnlyAt s'' node where
  term other h := (second.term other h).trans (first.term other h)
  vote other h := (second.vote other h).trans (first.vote other h)
  log other h := (second.log other h).trans (first.log other h)

end State.OnlyAt

section Moves

variable [DecidableEq N] (s : State N E) (node : N)

/-- Moving to a later term moves one node. -/
theorem State.raise_onlyAt (term : Nat) : s.OnlyAt (s.raise node term) node where
  term other ne := by simp [State.raise, ne]
  vote other ne := by simp [State.raise, ne]
  log _ _ := rfl

/-- Voting moves one node. -/
theorem State.castVote_onlyAt (candidate : N) : s.OnlyAt (s.castVote node candidate) node where
  term _ _ := rfl
  vote other ne := by simp [State.castVote, ne]
  log _ _ := rfl

omit [DecidableEq N] in
/-- Being elected moves no node. -/
theorem State.elect_onlyAt (voters : Finset N) : s.OnlyAt (s.elect node voters) node :=
  ⟨fun _ _ => rfl, fun _ _ => rfl, fun _ _ => rfl⟩

/-- Writing moves one node. -/
theorem State.append_onlyAt (entry : E) : s.OnlyAt (s.append node entry) node where
  term _ _ := rfl
  vote _ _ := rfl
  log other ne := by simp [State.append, ne]

/-- Copying moves one node. -/
theorem State.accept_onlyAt (count : Nat) : s.OnlyAt (s.accept node count) node where
  term _ _ := rfl
  vote _ _ := rfl
  log other ne := by simp [State.accept, ne]

omit [DecidableEq N] in
/-- Acknowledging moves no node. -/
theorem State.ack_onlyAt (pre : List E) : s.OnlyAt (s.ack node pre) node :=
  ⟨fun _ _ => rfl, fun _ _ => rfl, fun _ _ => rfl⟩

end Moves

end ReplicatedLog
