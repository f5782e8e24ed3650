import RvKeyValue.Cluster.Partition
import RvKeyValue.Cluster.Provenance

/-!
# Terms are words

The code's terms are of type `uint64`. In the model they are natural numbers, and only the places that
add to one wrap. So a term in a record, a store, a request or a message is a word because every term a
node enters is one and nodes pass on what they have.
-/

namespace Raft

open Transition (Reach)

/-- An entry of a term that is a word. -/
def WordTerm (term : Nat) (_ : Bytes) : Prop := term < Word.limit

/-- A process whose terms are words; what it stores is never an empty list of peers. -/
structure Server.Words (sv : Server) : Prop where
  /-- The term in memory and on disk. -/
  node : sv.node.Behind (Word.limit - 1)
  /-- The terms of entries. -/
  sourced : sv.Sourced WordTerm
  /-- The peers that are stored. -/
  peers : sv.node.Throughout fun state => state.peers ≠ some []
  /-- The terms of requests. -/
  requests : ∀ tag call, sv.calls tag = some call → ∀ request ∈ call.requests,
    request.2.term ≤ Word.limit - 1

/-- A message whose terms are words. -/
structure Body.Words (body : Body) : Prop where
  /-- The term it shows. -/
  term : ∀ term ∈ body.term, term ≤ Word.limit - 1
  /-- The entries it carries. -/
  entries : body.Sourced WordTerm

section

variable {unmarshal : Bytes → Option MembershipCommand} {n : RaftNode} {sv : Server}
  {peers : List NodeId} {event : Event} {reaction : Reaction}

/-- A sum of words is a word. -/
theorem word_add_le (left right : Nat) : Word.add left right ≤ Word.limit - 1 := by
  have low : Word.add left right < Word.limit := Nat.mod_lt _ (by decide)
  omega

/-- A step of a process that is shown words. -/
theorem Server.Words.react (words : sv.Words) (shown : ∀ packet, event.packet = some packet → packet.body.Words)
    (fits : ∀ tag save applied, event = .step tag save applied →
      sv.calls tag = some (.election .preVoteWon) → sv.node.currentTerm + 1 < Word.limit)
    (reacted : sv.react unmarshal peers event = some reaction) :
    reaction.server.Words ∧ ∀ packet ∈ reaction.sent, packet.body.Words := by
  have asks := Server.react_asks fits reacted
  have current : sv.node.currentTerm < Word.limit := by
    have low : sv.node.currentTerm ≤ Word.limit - 1 := words.node.memory
    have positive : 0 < Word.limit := by decide
    omega
  have node := words.node.react (fun _ _ => word_add_le _ 1)
    (fun packet taken => (shown packet taken).term) reacted
  obtain ⟨requests, terms⟩ := Server.react_terms words.node node words.requests asks reacted
  obtain ⟨sourced, entries⟩ := words.sourced.react (fun _ _ => current)
    (fun packet taken => (shown packet taken).entries) asks reacted
  have peers := words.peers.react (fun _ => clonePeers_ne _) (fun _ _ _ => clonePeers_ne _)
    (fun _ _ => clonePeers_ne _) reacted
  exact ⟨⟨node, sourced, peers, requests⟩,
    fun packet sent => ⟨terms packet sent, entries packet sent⟩⟩

/-- A cluster whose terms are words. -/
structure Cluster.Words (c : Cluster) : Prop where
  /-- The processes. -/
  servers : ∀ id, (c.servers id).Words
  /-- The messages. -/
  net : ∀ packet ∈ c.net, packet.body.Words

variable {members : Members} {c c' : Cluster} {label : Label}

/-- Terms are words when the cluster starts. -/
theorem Cluster.Words.initial (members : Members) : (Cluster.initial members).Words where
  servers id := by
    refine ⟨⟨Nat.zero_le _, fun state found => ?_⟩, .initial members id,
      ⟨clonePeers_ne _, fun state found => ?_⟩, fun tag call running => by contradiction⟩
    · obtain rfl := Option.some.inj found
      exact Nat.zero_le _
    · obtain rfl := Option.some.inj found
      simp
  net _ listed := by simp [Cluster.initial] at listed

/-- They stay words. -/
theorem Cluster.Words.step (words : c.Words) (fits : c.nothingWraps label = true)
    (stepped : c.step unmarshal members label = some c') : c'.Words := by
  obtain ⟨terms, -⟩ := (Bool.and_eq_true ..).mp fits
  obtain ⟨servers, net⟩ := Cluster.step_keeps (S := fun _ sv => sv.Words)
    (N := fun packet => packet.body.Words) words.servers words.net stepped
    fun reaction _ present reacted => (words.servers label.node).react
      (fun packet takes => words.net packet (present packet takes))
      (fun _ _ _ event running => Cluster.termsFit_preVoteWon terms event running) reacted
  exact ⟨servers, net⟩

end

end Raft
