import RvKeyValue.Cluster.Proposals
import RvKeyValue.Service.AtMostOnce
import RvKeyValue.Service.Snapshots

/-!
# Reads see acknowledged writes

`handleGet` proposes a no-op, waits until it is committed, applies what is committed and reads the
map. The no-op is newer than everything that was chosen when it was appended, so it stands in the log
behind every write that was acknowledged before the read began, and the map has them all. That needs
what proposals and snapshots need: an acknowledged entry that another leader has overwritten is in no
map, and one run shows a read that misses such a write.
-/

namespace Raft

open ReplicatedLog (Chosen)

section

variable {unmarshal : Bytes → Option MembershipCommand} {peers : List NodeId} {sv : Server}
  {event : Event} {reaction : Reaction}

/-- A proposal waits for the entry it waited for, or has just appended it. -/
theorem Happens.awaits (happens : Happens unmarshal peers sv event reaction) {tag : Nat} {call : Call}
    {entry : LogEntry} (found : reaction.server.calls tag = some call)
    (waits : call.awaits = some entry) :
    (∃ old, sv.calls tag = some old ∧ old.awaits = some entry) ∨
      ∃ save applied command, event = .step tag save applied ∧
        sv.calls tag = some (.propose (.appending command)) ∧
        reaction.server.node.log = sv.node.log ++ [entry] ∧
        entry = ⟨sv.node.currentTerm, Word.add sv.node.lastLogIndexLocked 1, command⟩ := by
  cases happens with
  | start kind =>
    cases Server.call_updated found with
    | inl here =>
      rw [← Option.some.inj here.2] at waits
      cases kind <;> contradiction
    | inr elsewhere => exact Or.inl ⟨call, elsewhere.2, waits⟩
  | @turn _ number old turn own running shape applying =>
    cases Server.call_updated found with
    | inl here =>
      rw [here.1]
      exact Or.inl ⟨old, running, shape.awaits call entry here.2 waits⟩
    | inr elsewhere => exact Or.inl ⟨call, elsewhere.2, waits⟩
  | @append number save applied command turn running room stepped =>
    cases Server.call_updated found with
    | inr elsewhere => exact Or.inl ⟨call, elsewhere.2, waits⟩
    | inl here =>
      rw [here.1]
      refine Or.inr ⟨save, applied, command, rfl, running, ?_⟩
      have next := here.2
      obtain rfl := Option.some.inj stepped
      cases RaftNode.appendLocal_cases unmarshal sv.node save command with
      | inl refused =>
        obtain ⟨err, same⟩ := refused
        rw [same] at next
        contradiction
      | inr appended =>
        rw [appended] at next ⊢
        cases failed : (sv.node.appendCommand save command).err with
        | some err =>
          rw [failed] at next
          contradiction
        | none =>
          rw [failed] at next
          rw [← Option.some.inj next] at waits
          obtain rfl := Option.some.inj waits
          exact ⟨(appendCommand_keeps sv.node save command).fields.2.1, rfl⟩
  | handle here handled => exact Or.inl ⟨call, found, waits⟩
  | compact snapshot save => exact Or.inl ⟨call, found, waits⟩
  | crash => contradiction

/-- The applied index does not fall while the process runs. -/
theorem Happens.applied_le (steady : Steady sv)
    (packet : ∀ packet req, event.packet = some packet → packet.body = .appendRequest req →
      req.Contiguous)
    (happens : Happens unmarshal peers sv event reaction) (going : event ≠ .crash) :
    sv.node.lastApplied ≤ reaction.server.node.lastApplied := by
  have index := happens.index steady packet going
  cases happens with
  | @turn _ tag call turn own running shape applying =>
    obtain ⟨m, marks, kept⟩ := shape.node
    show sv.node.lastApplied ≤ turn.node.lastApplied
    rw [kept.commit.1]
    rcases marks with rfl | ⟨entry, -, rfl⟩
    · exact le_refl _
    · rw [sv.node.markApplied_eq]
      exact Nat.le_max_left _ _
  | @append number save applied command turn running room stepped =>
    refine (index.applied fun tag call own found => ?_).ge
    obtain rfl : number = tag := Option.some.inj own
    rw [← Option.some.inj (running.symm.trans found)]
    rfl
  | crash => exact absurd rfl going
  | _ => exact (index.applied fun tag call own => by contradiction).ge

/-- `ApplyCommitted` returns nil when everything committed is applied. -/
theorem Happens.fetched {history : History} (order : InOrder sv history) (steady : Steady sv)
    (happens : Happens unmarshal peers sv event reaction) {tag : Nat} (own : event.call = some tag)
    (running : sv.calls tag = some (.apply .fetching)) (ended : reaction.server.calls tag = none) :
    sv.node.lastApplied = sv.node.commitIndex := by
  cases happens with
  | @turn _ number call turn here found shape applying =>
    obtain rfl : number = tag := Option.some.inj (here.symm.trans own)
    obtain rfl : call = .apply .fetching := Option.some.inj (found.symm.trans running)
    obtain ⟨save, applied, -, stepped⟩ := applying .fetching rfl
    obtain rfl := Option.some.inj stepped
    replace ended : Function.update sv.calls number _ number = none := ended
    rw [Function.update_self] at ended
    rcases steady.aligned.represents.nextCommittedEntry order.includedLe order.appliedLe
      order.commitLe with ⟨-, all⟩ | ⟨entry, next, -⟩
    · exact all
    · rw [next] at ended
      contradiction
  | @append number save applied command turn found room stepped =>
    obtain rfl : number = tag := Option.some.inj own
    rw [running] at found
    cases found
  | _ => contradiction

/-- `AppendLocal` writes the command of its proposal, if it writes. -/
theorem Happens.appends (happens : Happens unmarshal peers sv event reaction) {tag : Nat}
    {command : Bytes} {entry : LogEntry} (own : event.call = some tag)
    (running : sv.calls tag = some (.propose (.appending command)))
    (longer : sv.node.log.length < reaction.server.node.log.length)
    (last : reaction.server.node.log.getLast? = some entry) : entry.command = command := by
  cases happens with
  | @turn _ number call turn here found shape applying =>
    replace longer : sv.node.log.length < turn.node.log.length := longer
    rw [shape.fields.1] at longer
    omega
  | @append number save applied given turn found room stepped =>
    obtain rfl : number = tag := Option.some.inj own
    obtain rfl : given = command := by
      rw [running] at found
      cases found
      rfl
    obtain rfl := Option.some.inj stepped
    cases RaftNode.appendLocal_cases unmarshal sv.node save given with
    | inl refused =>
      obtain ⟨err, same⟩ := refused
      rw [same] at longer
      exact absurd longer (lt_irrefl _)
    | inr appended =>
      rw [appended] at last
      have log : (sv.node.appendCommand save given).node.log = _ :=
        (appendCommand_keeps sv.node save given).fields.2.1
      replace last : (sv.node.appendCommand save given).node.log.getLast? = some entry := by
        cases failed : (sv.node.appendCommand save given).err <;> rw [failed] at last <;> exact last
      rw [log, List.getLast?_concat] at last
      rw [← Option.some.inj last]
      rfl
  | _ => contradiction

/-- What is shown belongs to the call that took the step. -/
theorem Happens.shown (happens : Happens unmarshal peers sv event reaction) {tag : Nat}
    {observation : Observation} (listed : (tag, observation) ∈ reaction.observed) :
    event.call = some tag := by
  have resumed : ∀ {number : Nat} {turn : Turn}, (tag, observation) ∈ (sv.resume number turn).observed →
      number = tag := by
    intro number turn shown
    obtain ⟨_, -, same⟩ := List.mem_map.mp shown
    exact (Prod.mk.inj same).1
  cases happens with
  | turn own => rw [own, resumed listed]
  | append running => rw [← resumed listed]; rfl
  | _ => simp at listed

end

section

variable {members : Members} {c c' : Cluster} {a a' : Protocol} {label : Label}

/-- A settled entry with a chosen prefix that another entry is not in. -/
def Precedes (members : Members) (a : Protocol) (first second : LogEntry) : Prop :=
  1 ≤ first.index ∧ ∃ term pre, Chosen LogEntry.term members.quorums a term pre ∧
    pre[first.index - 1]? = some first ∧ pre[second.index - 1]? ≠ some second

/-- History that grows keeps the prefix. -/
theorem Precedes.grow {first second : LogEntry} (grows : a.Grows a')
    (precedes : Precedes members a first second) : Precedes members a' first second := by
  obtain ⟨positive, term, pre, chosen, found, absent⟩ := precedes
  exact ⟨positive, term, pre, chosen.grow grows, found, absent⟩

/-- The other entry comes later, once it is settled. -/
theorem Precedes.lt (good : Good members a) {first second : LogEntry}
    (precedes : Precedes members a first second) (settled : Settled members a second) :
    first.index < second.index := by
  obtain ⟨positive, term, pre, chosen, found, absent⟩ := precedes
  obtain ⟨later, term', pre', chosen', found'⟩ := settled
  have before := chosen.lt_of_absent good.inv chosen' found found' absent
  omega

/-- It is settled. -/
theorem Precedes.settled {first second : LogEntry} (precedes : Precedes members a first second) :
    Settled members a first := by
  obtain ⟨positive, term, pre, chosen, found, -⟩ := precedes
  exact ⟨positive, term, pre, chosen, found⟩

/-- What is settled precedes an entry that a leader is about to append. -/
theorem Simulates.precedes (sim : Simulates members c a) {id : NodeId} (member : id ∈ members.ids)
    (leader : (c.servers id).node.state = .leader) {first second : LogEntry}
    (settled : Settled members a first) (term : second.term = (c.servers id).node.currentTerm)
    (index : second.index = (c.servers id).full.length + 1) : Precedes members a first second := by
  have ok := sim.servers id member
  obtain ⟨positive, chosenTerm, pre, chosen, found⟩ := settled
  refine ⟨positive, chosenTerm, pre, chosen, found, fun there => ?_⟩
  obtain ⟨election, elected, self, -⟩ := ok.refines.leads leader
  have holds := sim.good.inv.leaderHolds _ _ elected (by rw [self])
  have written := chosen.written sim.good.inv there
  rw [term, ok.refines.term, ← holds, self] at written
  have inside := (List.getElem?_eq_some_iff.mp written).1
  rw [index, ok.full] at inside
  omega

/-- A step that takes the protocol along keeps what its node has committed. -/
theorem Simulates.keeping (sim : Simulates members c a) (sim' : Simulates members c' a')
    (grows : a.Grows a') (inside : label.node ∈ members.ids)
    (commit : label.event ≠ .crash → (c.servers label.node).node.commitIndex ≤
      (c'.servers label.node).node.commitIndex) : c.Keeping c' label := by
  intro going
  have before := sim.servers label.node inside
  have after := sim'.servers label.node inside
  rw [before.full, after.full]
  have first := before.refines.commit.grow grows (le_refl _)
  have lengths := commit going
  have low := before.refines.commitLe
  have high := after.refines.commitLe
  have longer : ((a.log label.node).take (c.servers label.node).node.commitIndex).length ≤
      ((a'.log label.node).take (c'.servers label.node).node.commitIndex).length := by
    rw [List.length_take, List.length_take]
    omega
  have start := first.prefix_of_le sim'.good.inv after.refines.commit longer
  have same := List.prefix_iff_eq_take.mp start
  rw [List.length_take, Nat.min_eq_left low, List.take_take, Nat.min_eq_left lengths] at same
  exact same.symm

/-- A settled entry stands in every log whose commit index covers it. -/
theorem Simulates.holds (sim : Simulates members c a) {id : NodeId} (member : id ∈ members.ids)
    {entry : LogEntry} (settled : Settled members a entry)
    (covered : entry.index ≤ (c.servers id).node.commitIndex) : (c.servers id).Holds entry := by
  have ok := sim.servers id member
  have positive := settled.1
  have inside : entry.index - 1 < (a.log id).length := by
    have low := ok.refines.commitLe
    omega
  have found : (a.log id)[entry.index - 1]? = some (a.log id)[entry.index - 1] :=
    List.getElem?_eq_getElem inside
  have here := ok.refines.settled found (by omega)
  have index := ok.refines.log.indexed _ _ found
  have same := Settled.agree sim.good settled here (by omega)
  refine ⟨positive, ?_⟩
  rw [ok.full, found]
  exact congrArg some same.symm

/-- An entry of a log at or below the commit index is settled. -/
theorem Simulates.settled (sim : Simulates members c a) {id : NodeId} (member : id ∈ members.ids)
    {entry : LogEntry} (held : (c.servers id).Holds entry)
    (covered : entry.index ≤ (c.servers id).node.commitIndex) : Settled members a entry := by
  have ok := sim.servers id member
  have positive := held.1
  have found := held.2
  rw [ok.full] at found
  exact ok.refines.settled found (by omega)

end

end Raft

open Raft (Bytes NodeId LogEntry Members Label Event Server Record Reaction Call MembershipCommand
  Protocol Simulates Settled Precedes AwaitedCluster)
open Raft (oneNode threeNodes)
open Store (Json KVStateMachine contents encodeCommand wire)
open Transition (Reach)

namespace Service

/-- The command of a proposal that has not come to `AppendLocal`. -/
def proposes : Call → Option Bytes
  | .propose (.starting command) => some command
  | .propose (.appending command) => some command
  | _ => none

/-- The entry a handler's proposal has returned. -/
def Stage.returned : Stage → Option LogEntry
  | committed entry => some entry
  | applying entry _ => some entry
  | reading entry => some entry
  | _ => none

/-- The entry that was appended for a handler at its node: its proposal waits for it or has returned
it. -/
def Knows (s : Service) (h : Handler) (entry : LogEntry) : Prop :=
  h.stage.returned = some entry ∨ ∃ tag call, h.stage = .waiting tag ∧
    (s.server h.node).calls tag = some call ∧ call.awaits = some entry

/-- What the journal says before a handler was given its request. -/
def earlier (s : Service) (id : Nat) : List Moment :=
  s.journal.takeWhile fun moment => decide (moment ≠ .received id)

/-- The conditions under which the cluster is safe hold, entries that proposals wait for stay, nobody
fetches an entry while another one is held, and nothing is applied between the loop's `Snapshot` and
its `Compact`. -/
def ReadsSound (json : Json) (s : Service) (action : Action) : Prop :=
  s.under json (fun t label => Raft.Sound json.unmarshalMembership t.cluster label ∧
    t.cluster.waitingKept label = true ∧ t.cluster.fetchesAlone label = true) action ∧
    s.snapshotsAlone action = true

instance (json : Json) (s : Service) (action : Action) : Decidable (ReadsSound json s action) := by
  unfold ReadsSound
  infer_instance

/-- What is known of a handler. -/
structure Served (json : Json) (members : Members) (s : Service) (a : Protocol) (id : Nat)
    (h : Handler) : Prop where
  /-- It runs at a member. -/
  member : h.node ∈ members.ids
  /-- It was given its request. -/
  received : .received id ∈ s.journal
  /-- A client sent the request. -/
  origin : ∃ first, s.handlers[h.origin]? = some first ∧ first.request = h.request
  /-- It proposes the command of the request. -/
  command : ∀ tag call command, h.stage = .waiting tag → (s.server h.node).calls tag = some call →
    proposes call = some command → encodeCommand json h.request.command = .ok command
  /-- The entry was written down. -/
  wrote : ∀ entry, s.Knows h entry → .appended h.origin entry ∈ s.journal
  /-- An entry that was returned is settled. -/
  returned : ∀ entry, h.stage.returned = some entry →
    Settled members a entry ∧ entry.index ≤ (s.server h.node).node.commitIndex
  /-- It is applied before the map is read. -/
  applied : ∀ entry, h.stage = .reading entry → entry.index ≤ (s.server h.node).node.lastApplied
  /-- A response is in the journal. -/
  answered : ∀ response, h.stage = .answered response → .answered id response ∈ s.journal
  /-- A request is sent on for the same client. -/
  forwarded : ∀ target, h.stage = .forwarding target →
    ∃ k, s.handlers[target]? = some k ∧ k.origin = h.origin
  /-- A write that was acknowledged is settled. -/
  acked : .answered id .noContent ∈ s.journal →
    ∃ entry, .appended h.origin entry ∈ s.journal ∧ Settled members a entry
  /-- Writes that were acknowledged before the request precede its entry. -/
  precedes : ∀ entry, s.Knows h entry → ∀ (other : Nat) (k : Handler),
    .answered other .noContent ∈ s.earlier id → s.handlers[other]? = some k →
    ∃ first, .appended k.origin first ∈ s.journal ∧ Precedes members a first entry

/-- What is known of a service. -/
structure Linear (json : Json) (members : Members) (s : Service) (a : Protocol) : Prop where
  /-- The cluster simulates the protocol. -/
  sim : Simulates members s.traced.cluster a
  /-- Proposals wait for entries of their logs. -/
  awaited : AwaitedCluster members s.traced.cluster
  /-- Machines have what was applied. -/
  faithful : Faithful json members s
  /-- Handlers wait for calls of their own. -/
  tagged : Tagged s
  /-- Responses are those of handlers. -/
  known : ∀ id response, .answered id response ∈ s.journal → id < s.handlers.length
  /-- Entries carry the commands of their requests. -/
  written : ∀ id entry, .appended id entry ∈ s.journal → ∃ h, s.handlers[id]? = some h ∧
    encodeCommand json h.request.command = .ok entry.command
  /-- Every handler. -/
  served : ∀ (id : Nat) (h : Handler), s.handlers[id]? = some h → Served json members s a id h

section

variable {json : Json} {members : Members} {s s' : Service} {action : Action} {a a' : Protocol}
  {label : Label}

/-- A proposal before `AppendLocal` has the command it had, or was started with it. -/
theorem react_proposes {unmarshal : Bytes → Option MembershipCommand} {peers : List NodeId}
    {sv : Server} {event : Event} {reaction : Reaction}
    (reacted : sv.react unmarshal peers event = some reaction) {tag : Nat} {call : Call}
    {command : Bytes} (running : reaction.server.calls tag = some call)
    (proposed : proposes call = some command) :
    event = .start (.propose command) ∧ tag = sv.nextTag ∨
      ∃ old, sv.calls tag = some old ∧ proposes old = some command := by
  have open_ : unwritten call = true := by
    unfold proposes at proposed
    split at proposed
    · rfl
    · rfl
    · contradiction
  rcases (react_calls reacted).2 tag with here | ⟨kind, rfl, rfl⟩ | ⟨-, none⟩ | same
  · rcases react_unwritten reacted running open_ with ⟨kind, rfl, -⟩ | ⟨old, ran, -, own⟩
    · contradiction
    · refine Or.inr ⟨old, ran, ?_⟩
      obtain ⟨started, rfl⟩ := own here
      cases event with
      | step number save applied =>
        obtain rfl : number = tag := Option.some.inj here
        simp only [Server.react, ran, Option.bind_some, Call.step, Call.proposeStep,
          Option.map_some] at reacted
        obtain rfl := Option.some.inj reacted
        replace running : Function.update sv.calls number _ number = some call := running
        rw [Function.update_self] at running
        split at running
        · rw [← Option.some.inj running] at proposed
          exact proposed
        · contradiction
      | reply packet save =>
        obtain rfl : packet.tag = tag := Option.some.inj here
        simp [Server.react, ran, Call.reply] at reacted
      | failure number peer =>
        obtain rfl : number = tag := Option.some.inj here
        simp [Server.react, ran, Call.failure] at reacted
      | cancel number =>
        obtain rfl : number = tag := Option.some.inj here
        simp only [Server.react, ran, Option.bind_some, Call.cancel, Option.map_some] at reacted
        obtain rfl := Option.some.inj reacted
        replace running : Function.update sv.calls number none number = some call := running
        rw [Function.update_self] at running
        contradiction
      | _ => contradiction
  · obtain rfl := Option.some.inj reacted
    replace running : Function.update sv.calls sv.nextTag (some kind.call) sv.nextTag = some call :=
      running
    rw [Function.update_self] at running
    rw [← Option.some.inj running] at proposed
    cases kind with
    | propose started =>
      obtain rfl := Option.some.inj proposed
      exact Or.inl ⟨rfl, rfl⟩
    | _ => contradiction
  · rw [none] at running
    contradiction
  · exact Or.inr ⟨call, same.symm.trans running, proposed⟩

/-- What a step does to the calls and indices of the nodes, along with the protocol. -/
structure Carried (json : Json) (members : Members) (s : Service) (action : Action) (s' : Service)
    (a a' : Protocol) : Prop where
  /-- The cluster simulates the protocol. -/
  sim : Simulates members s'.traced.cluster a'
  /-- Proposals wait for entries of their logs. -/
  awaited : AwaitedCluster members s'.traced.cluster
  /-- Machines have what was applied. -/
  faithful : Faithful json members s'
  /-- History has grown. -/
  grows : a.Grows a'
  /-- Indices do not fall while a process runs. -/
  indices : ∀ id ∈ members.ids, s.label json action ≠ some ⟨id, .crash⟩ →
    (s.server id).node.commitIndex ≤ (s'.server id).node.commitIndex ∧
      (s.server id).node.lastApplied ≤ (s'.server id).node.lastApplied
  /-- A proposal waits for the entry it waited for, or has just appended one that everything settled
  precedes. -/
  awaits : ∀ id ∈ members.ids, ∀ tag call entry, (s'.server id).calls tag = some call →
    call.awaits = some entry →
    (∃ old, (s.server id).calls tag = some old ∧ old.awaits = some entry) ∨
      ∃ label command, s.label json action = some label ∧ label.node = id ∧
        label.event.call = some tag ∧
        (s.server id).calls tag = some (.propose (.appending command)) ∧
        (s'.server id).node.log = (s.server id).node.log ++ [entry] ∧ entry.command = command ∧
        ∀ first, Settled members a first → Precedes members a' first entry
  /-- A proposal before `AppendLocal` has the command it had, or was started with it. -/
  proposed : ∀ id ∈ members.ids, ∀ tag call command, (s'.server id).calls tag = some call →
    proposes call = some command →
    s.label json action = some ⟨id, .start (.propose command)⟩ ∧ tag = (s.server id).nextTag ∨
      ∃ old, (s.server id).calls tag = some old ∧ proposes old = some command

/-- Every step that meets the conditions. -/
theorem Linear.carried (linear : Linear json members s a) (allowed : ReadsSound json s action)
    (moves : Moves json members s action s') : ∃ a', Carried json members s action s' a a' := by
  cases own : s.label json action with
  | none =>
    obtain ⟨traced, machines⟩ := moves.still own
    have servers : s'.server = s.server := by unfold server; rw [traced]
    have silent : ∀ label, s.label json action ≠ some label := by
      intro label same
      rw [own] at same
      contradiction
    refine ⟨a, ?_, ?_, ?_, .refl a, ?_, ?_, ?_⟩
    · rw [traced]
      exact linear.sim
    · rw [traced]
      exact linear.awaited
    · exact linear.faithful.step (fun label same => absurd same (silent label))
        (fun label same => absurd same (silent label)) allowed.2 moves
        fun label same => absurd same (silent label)
    · intro id _ _
      rw [servers]
      exact ⟨le_refl _, le_refl _⟩
    · intro id _ tag call entry running waits
      rw [servers] at running
      exact Or.inl ⟨call, running, waits⟩
    · intro id _ tag call command running proposed
      rw [servers] at running
      exact Or.inr ⟨call, running, proposed⟩
  | some label =>
    obtain ⟨moved, advanced, traced, machines⟩ := moves.moved label own
    have servers : s'.server = moved.server := by unfold server; rw [traced]
    have under := allowed.1
    unfold Service.under at under
    rw [own] at under
    obtain ⟨sound, waitingKept, fetches⟩ := under
    have fits := sound.2.2.1
    obtain ⟨inside, -, -, -, stepped, -⟩ := advance_some advanced
    obtain ⟨c, clustered, whole⟩ := Option.map_eq_some_iff.mp stepped
    have cluster : s'.traced.cluster = c := by rw [traced, ← whole]
    obtain ⟨a', sim, grows⟩ := linear.sim.step sound clustered
    rw [← cluster] at sim clustered
    have steady := linear.awaited.steady.servers label.node inside
    obtain ⟨reaction, happens, outcome, packet, after, -, reacted, -⟩ :=
      advance_happens linear.awaited.steady fits advanced
    rw [← servers] at after
    have here := server_updated after
    have commit : label.event ≠ .crash →
        (s.server label.node).node.commitIndex ≤ (s'.server label.node).node.commitIndex := by
      intro going
      rw [here]
      exact (happens.index steady packet going).commit
    have kept := linear.sim.keeping sim grows inside commit
    refine ⟨a', sim, linear.awaited.step ⟨fits, waitingKept⟩ clustered, ?_, grows, ?_, ?_, ?_⟩
    · refine linear.faithful.step (fun found same => ?_) (fun found same => ?_) allowed.2 moves
        fun found same => ?_
      all_goals obtain rfl := Option.some.inj (own.symm.trans same)
      · exact fits
      · exact fetches
      · exact kept
    · intro id member going
      by_cases same : id = label.node
      · have running : label.event ≠ .crash := by
          intro crash
          refine going (own.trans (congrArg some ?_))
          rw [same, ← crash]
        subst same
        refine ⟨commit running, ?_⟩
        rw [here]
        exact happens.applied_le steady packet running
      · rw [after, Function.update_of_ne same]
        exact ⟨le_refl _, le_refl _⟩
    · intro id member tag call entry running waits
      by_cases same : id = label.node
      · subst same
        rw [here] at running ⊢
        rcases happens.awaits running waits with
          old | ⟨save, applied, command, event, appending, log, rfl⟩
        · exact Or.inl old
        · refine Or.inr ⟨label, command, own, rfl, by rw [event]; rfl, appending, log, rfl,
            fun first settled => (linear.sim.precedes inside ?_ settled rfl ?_).grow grows⟩
          · exact (sound.permitted event appending).leads command rfl
          · have room : (s.server label.node).node.lastLogIndexLocked + 2 < Word.limit :=
              (sound.permitted event appending).room command rfl
            have last : (s.server label.node).node.lastLogIndexLocked =
                (s.server label.node).full.length := steady.aligned.represents.lastLogIndex
            have index : Word.add (s.server label.node).node.lastLogIndexLocked 1 = _ :=
              Word.add_eq (by omega)
            exact index.trans (congrArg (· + 1) last)
      · rw [after, Function.update_of_ne same] at running
        exact Or.inl ⟨call, running, waits⟩
    · intro id member tag call command running proposed
      by_cases same : id = label.node
      · subst same
        rw [here] at running
        rcases react_proposes reacted running proposed with ⟨started, fresh⟩ | old
        · refine Or.inl ⟨own.trans (congrArg some ?_), fresh⟩
          rw [← started]
        · exact Or.inr old
      · rw [after, Function.update_of_ne same] at running
        exact Or.inr ⟨call, running, proposed⟩

/-- The journal and the handlers after a step. -/
structure Follows (s s' : Service) : Prop where
  /-- The journal is only added to. -/
  journal : s.journal <+: s'.journal
  /-- Handlers stay what they are for. -/
  handlers : ∀ (id : Nat) (h : Handler), s.handlers[id]? = some h → ∃ k, s'.handlers[id]? = some k ∧
    k.node = h.node ∧ k.origin = h.origin ∧ k.request = h.request

/-- What the journal says before a request that it knows stays. -/
theorem Follows.earlier (follows : Follows s s') {id : Nat} (received : .received id ∈ s.journal) :
    s'.earlier id = s.earlier id := by
  obtain ⟨more, same⟩ := follows.journal
  unfold Service.earlier
  rw [← same, List.takeWhile_append, if_neg]
  intro whole
  have all := (List.takeWhile_prefix _).eq_of_length whole
  rw [← all] at received
  simpa using List.all_eq_true.mp List.all_takeWhile _ received

/-- What the journal says before a request. -/
theorem earlier_subset {id : Nat} {moment : Moment} (listed : moment ∈ s.earlier id) :
    moment ∈ s.journal :=
  (List.takeWhile_prefix _).subset listed

/-- A handler after a step, with the entry it knew or one that was just appended for it. -/
theorem Served.next (linear : Linear json members s a) (carried : Carried json members s action s' a a')
    (follows : Follows s s') {id : Nat} {h g : Handler} (there : s.handlers[id]? = some h)
    (node : g.node = h.node) (origin : g.origin = h.origin) (request : g.request = h.request)
    (command : ∀ tag call command, g.stage = .waiting tag → (s'.server g.node).calls tag = some call →
      proposes call = some command → encodeCommand json g.request.command = .ok command)
    (knows : ∀ entry, s'.Knows g entry → s.Knows h entry ∨ .appended h.origin entry ∈ s'.journal ∧
      ∀ first, Settled members a first → Precedes members a' first entry)
    (returned : ∀ entry, g.stage.returned = some entry →
      Settled members a' entry ∧ entry.index ≤ (s'.server g.node).node.commitIndex)
    (applied : ∀ entry, g.stage = .reading entry → entry.index ≤ (s'.server g.node).node.lastApplied)
    (answered : ∀ response, g.stage = .answered response → .answered id response ∈ s'.journal)
    (forwarded : ∀ target, g.stage = .forwarding target →
      ∃ k, s'.handlers[target]? = some k ∧ k.origin = h.origin)
    (acked : .answered id .noContent ∈ s'.journal → .answered id .noContent ∈ s.journal ∨
      ∃ entry, .appended h.origin entry ∈ s'.journal ∧ Settled members a' entry) :
    Served json members s' a' id g := by
  have served := linear.served id h there
  have longer := follows.journal.subset
  refine ⟨by rw [node]; exact served.member, longer served.received, ?_, command, fun entry known => ?_,
    returned, applied, answered, fun target at_ => ?_, fun said => ?_,
    fun entry known other k said found => ?_⟩
  · obtain ⟨first, found, same⟩ := served.origin
    obtain ⟨k, later, -, -, kept⟩ := follows.handlers _ first found
    rw [origin, request]
    exact ⟨k, later, kept.trans same⟩
  · rw [origin]
    rcases knows entry known with old | new
    · exact longer (served.wrote entry old)
    · exact new.1
  · rw [origin]
    exact forwarded target at_
  · rw [origin]
    rcases acked said with old | new
    · obtain ⟨entry, written, settled⟩ := served.acked old
      exact ⟨entry, longer written, settled.grow carried.grows⟩
    · exact new
  · rw [follows.earlier served.received] at said
    -- the other handler was there before, for the same request
    have low := linear.known other _ (earlier_subset said)
    obtain ⟨k', before⟩ : ∃ k', s.handlers[other]? = some k' := ⟨_, List.getElem?_eq_getElem low⟩
    obtain ⟨k'', later, -, same, -⟩ := follows.handlers other k' before
    obtain rfl : k'' = k := Option.some.inj (later.symm.trans found)
    rw [same]
    rcases knows entry known with old | new
    · obtain ⟨first, written, precedes⟩ := served.precedes entry old other k' said before
      exact ⟨first, longer written, precedes.grow carried.grows⟩
    · obtain ⟨first, written, settled⟩ := (linear.served other k' before).acked (earlier_subset said)
      exact ⟨first, longer written, new.2 first settled⟩

/-- A handler that does not move, and whose call takes no step. -/
theorem Served.stay (linear : Linear json members s a) (carried : Carried json members s action s' a a')
    (follows : Follows s s') {id : Nat} {h : Handler} (there : s.handlers[id]? = some h)
    (alive : (∃ response, h.stage = .answered response) ∨
      s.label json action ≠ some ⟨h.node, .crash⟩)
    (quiet : ∀ label tag, s.label json action = some label → label.node = h.node →
      label.event.call = some tag → h.stage.call ≠ some tag)
    (acked : .answered id .noContent ∈ s'.journal → .answered id .noContent ∈ s.journal) :
    Served json members s' a' id h := by
  have served := linear.served id h there
  refine .next linear carried follows there rfl rfl rfl (fun tag call command at_ running proposed => ?_)
    (fun entry known => Or.inl ?_) (fun entry at_ => ?_) (fun entry at_ => ?_) (fun response at_ => ?_)
    (fun target at_ => ?_) fun said => Or.inl (acked said)
  · rcases carried.proposed h.node served.member tag call command running proposed with
      ⟨-, fresh⟩ | ⟨old, ran, same⟩
    · have given := linear.tagged.given id h tag there (by rw [at_]; rfl)
      omega
    · exact served.command tag old command at_ ran same
  · rcases known with at_ | ⟨tag, call, at_, running, waits⟩
    · exact Or.inl at_
    · rcases carried.awaits h.node served.member tag call entry running waits with
        ⟨old, ran, waited⟩ | ⟨label, -, own, here, event, -⟩
      · exact Or.inr ⟨tag, old, at_, ran, waited⟩
      · exact absurd (by rw [at_]; rfl) (quiet label tag own here event)
  · obtain ⟨settled, covered⟩ := served.returned entry at_
    rcases alive with ⟨response, gone⟩ | going
    · rw [gone] at at_
      contradiction
    · exact ⟨settled.grow carried.grows, covered.trans (carried.indices h.node served.member going).1⟩
  · rcases alive with ⟨response, gone⟩ | going
    · rw [gone] at at_
      contradiction
    · exact (served.applied entry at_).trans (carried.indices h.node served.member going).2
  · exact follows.journal.subset (served.answered response at_)
  · obtain ⟨k, found, same⟩ := served.forwarded target at_
    obtain ⟨k', later, -, kept, -⟩ := follows.handlers target k found
    exact ⟨k', later, kept.trans same⟩

/-- A handler moves to a stage without a call and without an entry. -/
theorem Served.move (linear : Linear json members s a) (carried : Carried json members s action s' a a')
    (follows : Follows s s') {id : Nat} {h : Handler} (there : s.handlers[id]? = some h) {stage : Stage}
    (idle : stage.call = none) (none : stage.returned = none)
    (answered : ∀ response, stage = .answered response → .answered id response ∈ s'.journal)
    (forwarded : ∀ target, stage = .forwarding target →
      ∃ k, s'.handlers[target]? = some k ∧ k.origin = h.origin)
    (acked : .answered id .noContent ∈ s'.journal → .answered id .noContent ∈ s.journal ∨
      ∃ entry, .appended h.origin entry ∈ s'.journal ∧ Settled members a' entry) :
    Served json members s' a' id { h with stage } := by
  have unwaiting : ∀ tag, stage ≠ .waiting tag := by
    intro tag at_
    rw [at_] at idle
    contradiction
  refine .next linear carried follows there rfl rfl rfl
    (fun tag call command at_ => absurd at_ (unwaiting tag)) (fun entry known => ?_)
    (fun entry at_ => ?_) (fun entry at_ => ?_) answered forwarded acked
  · rcases known with at_ | ⟨tag, -, at_, -⟩
    · rw [show stage.returned = some entry from at_] at none
      contradiction
    · exact absurd at_ (unwaiting tag)
  · rw [show stage.returned = some entry from at_] at none
    contradiction
  · rw [show stage = .reading entry from at_] at none
    contradiction

/-- A handler that was given its request in the step. -/
theorem Served.fresh (linear : Linear json members s a) {id : Nat} {g : Handler}
    (new : id = s.handlers.length) (stage : g.stage = g.request.enter) (member : g.node ∈ members.ids)
    (received : .received id ∈ s'.journal)
    (origin : ∃ first, s'.handlers[g.origin]? = some first ∧ first.request = g.request)
    (answered : ∀ response, g.stage = .answered response → .answered id response ∈ s'.journal)
    (said : .answered id .noContent ∈ s'.journal →
      .answered id .noContent ∈ s.journal ∨ g.stage = .answered .noContent) :
    Served json members s' a' id g := by
  have enters : (∃ response, g.stage = .answered response ∧ response ≠ .noContent) ∨
      g.stage = .checking ∨ g.stage = .proposing := by
    rw [stage]
    unfold Request.enter
    cases refused : g.request.refusal with
    | some response =>
      refine Or.inl ⟨response, rfl, fun same => ?_⟩
      subst same
      unfold Request.refusal at refused
      split at refused
      · split at refused <;> simp at refused
      · split at refused
        · simp at refused
        · split at refused <;> simp at refused
    | none =>
      cases g.request with
      | get key => exact Or.inr (Or.inl rfl)
      | write asked => exact Or.inr (Or.inr rfl)
  have still : g.stage.returned = none ∧ (∀ tag, g.stage ≠ .waiting tag) ∧
      (∀ entry, g.stage ≠ .reading entry) ∧ (∀ target, g.stage ≠ .forwarding target) ∧
      g.stage ≠ .answered .noContent := by
    rcases enters with ⟨response, at_, other⟩ | at_ | at_
    · rw [at_]
      refine ⟨rfl, by simp, by simp, by simp, fun same => other (Stage.answered.inj same)⟩
    · rw [at_]
      exact ⟨rfl, by simp, by simp, by simp, by simp⟩
    · rw [at_]
      exact ⟨rfl, by simp, by simp, by simp, by simp⟩
  obtain ⟨none, unwaiting, unread, unsent, unsaid⟩ := still
  have ignorant : ∀ entry, ¬ s'.Knows g entry := by
    intro entry known
    rcases known with at_ | ⟨tag, -, at_, -⟩
    · rw [none] at at_
      contradiction
    · exact unwaiting tag at_
  refine ⟨member, received, origin, fun tag call command at_ => absurd at_ (unwaiting tag),
    fun entry known => absurd known (ignorant entry), fun entry at_ => ?_,
    fun entry at_ => absurd at_ (unread entry), answered, fun target at_ => absurd at_ (unsent target),
    fun there => ?_, fun entry known => absurd known (ignorant entry)⟩
  · rw [none] at at_
    contradiction
  · rcases said there with old | now
    · have low := linear.known id _ old
      omega
    · exact absurd now unsaid

/-- A step that nothing is appended in. -/
theorem Linear.next (linear : Linear json members s a) (carried : Carried json members s action s' a a')
    (tagged : Tagged s') (follows : Follows s s')
    (known : ∀ id response, .answered id response ∈ s'.journal →
      .answered id response ∈ s.journal ∨ id < s'.handlers.length)
    (written : ∀ id entry, .appended id entry ∈ s'.journal → .appended id entry ∈ s.journal)
    (served : ∀ (id : Nat) (g : Handler), s'.handlers[id]? = some g →
      Served json members s' a' id g) : Linear json members s' a' := by
  refine ⟨carried.sim, carried.awaited, carried.faithful, tagged, fun id response said => ?_,
    fun id entry made => ?_, served⟩
  · rcases known id response said with old | low
    · have low := linear.known id response old
      obtain ⟨k, later, -⟩ := follows.handlers id _ (List.getElem?_eq_getElem low)
      exact (List.getElem?_eq_some_iff.mp later).1
    · exact low
  · obtain ⟨h, found, same⟩ := linear.written id entry (written id entry made)
    obtain ⟨k, later, -, -, request⟩ := follows.handlers id h found
    exact ⟨k, later, by rw [request]; exact same⟩

/-- A step that no handler hears of. -/
theorem Linear.unheard (linear : Linear json members s a)
    (carried : Carried json members s action s' a a') (tagged : Tagged s')
    (handlers : s'.handlers = s.handlers) (journal : s'.journal = s.journal)
    (going : ∀ node, s.label json action ≠ some ⟨node, .crash⟩)
    (quiet : ∀ (id : Nat) (h : Handler), s.handlers[id]? = some h → ∀ label tag,
      s.label json action = some label → label.node = h.node → label.event.call = some tag →
      h.stage.call ≠ some tag) : Linear json members s' a' := by
  have follows : Follows s s' := by
    refine ⟨by rw [journal], fun id h found => ⟨h, ?_, rfl, rfl, rfl⟩⟩
    rw [handlers]
    exact found
  refine linear.next carried tagged follows (fun id response said => Or.inl ?_) (fun id entry made => ?_)
    fun id g found => ?_
  · rwa [journal] at said
  · rwa [journal] at made
  · rw [handlers] at found
    refine .stay linear carried follows found (Or.inr (going g.node)) (quiet id g found) fun said => ?_
    rwa [journal] at said

/-- A handler moves, maybe after a step of the cluster. -/
theorem Follows.put {moved : Service} (list : moved.handlers = s.handlers)
    (journal : moved.journal = s.journal) {id : Nat} {h : Handler} (there : s.handlers[id]? = some h)
    (stage : Stage) : Follows s (moved.put id h stage) := by
  refine ⟨?_, fun i g found => ?_⟩
  · show s.journal <+: moved.journal ++ _
    rw [journal]
    exact List.prefix_append _ _
  · show ∃ k, (moved.handlers.set id { h with stage })[i]? = some k ∧ _
    rw [list, List.getElem?_set]
    split
    · rename_i same
      obtain rfl : h = g := by
        rw [same, found] at there
        exact (Option.some.inj there).symm
      rw [if_pos (by rw [same]; exact (List.getElem?_eq_some_iff.mp found).1)]
      exact ⟨_, rfl, rfl, rfl, rfl⟩
    · exact ⟨g, found, rfl, rfl, rfl⟩

/-- What a move adds to the journal. -/
theorem put_journal {moved : Service} (journal : moved.journal = s.journal) {id : Nat} {h : Handler}
    {stage : Stage} {moment : Moment} (listed : moment ∈ (moved.put id h stage).journal) :
    moment ∈ s.journal ∨ ∃ response, stage = .answered response ∧ moment = .answered id response := by
  replace listed : moment ∈ moved.journal ++ stage.response.toList.map _ := listed
  rw [journal] at listed
  refine (List.mem_append.mp listed).imp_right fun new => ?_
  obtain ⟨response, said, same⟩ := List.mem_map.mp new
  cases stage with
  | answered wrote =>
    obtain rfl : response = wrote := by simpa [Stage.response] using said
    exact ⟨response, rfl, same.symm⟩
  | _ => simp [Stage.response] at said

/-- One handler moves and the others stay. -/
theorem Linear.put (linear : Linear json members s a) {moved : Service} {id : Nat} {h : Handler}
    {stage : Stage} (carried : Carried json members s action (moved.put id h stage) a a')
    (tagged : Tagged (moved.put id h stage)) (list : moved.handlers = s.handlers)
    (journal : moved.journal = s.journal) (there : s.handlers[id]? = some h)
    (going : ∀ node, s.label json action ≠ some ⟨node, .crash⟩)
    (quiet : ∀ label tag, s.label json action = some label → label.event.call ≠ some tag)
    (served : Served json members (moved.put id h stage) a' id { h with stage }) :
    Linear json members (moved.put id h stage) a' := by
  have follows := Follows.put list journal there stage
  refine linear.next carried tagged follows (fun i response said => ?_) (fun i entry made => ?_)
    fun i g found => ?_
  · refine (put_journal journal said).imp_right fun new => ?_
    obtain ⟨_, -, same⟩ := new
    obtain ⟨rfl, -⟩ := Moment.answered.inj same
    show i < (moved.handlers.set i _).length
    rw [List.length_set, list]
    exact (List.getElem?_eq_some_iff.mp there).1
  · refine (put_journal journal made).resolve_right fun new => ?_
    obtain ⟨_, -, same⟩ := new
    cases same
  · rcases put_handlers found with ⟨rfl, rfl⟩ | ⟨other, old⟩
    · exact served
    · rw [list] at old
      refine .stay linear carried follows old (Or.inr (going g.node))
        (fun label tag own _ event => absurd event (quiet label tag own)) fun said => ?_
      refine (put_journal journal said).resolve_right fun new => ?_
      obtain ⟨_, -, same⟩ := new
      exact other (Moment.answered.inj same).1

/-- A handler goes on alone. -/
theorem Linear.goes (linear : Linear json members s a) {id : Nat} {h : Handler} {stage : Stage}
    (carried : Carried json members s action (s.put id h stage) a a')
    (tagged : Tagged (s.put id h stage)) (silent : s.label json action = none)
    (there : s.handlers[id]? = some h) (goes : Goes s h stage) :
    Linear json members (s.put id h stage) a' := by
  have follows := Follows.put rfl rfl there stage
  refine linear.put carried tagged rfl rfl there (by simp [silent]) (by simp [silent]) ?_
  have quiet : stage.returned = none := by cases goes <;> rfl
  refine .move linear carried follows there goes.call quiet (fun response at_ => ?_)
    (fun target at_ => ?_) fun said => ?_
  · subst at_
    exact List.mem_append_right _ (List.mem_singleton.mpr rfl)
  · subst at_
    cases goes
  · refine (put_journal rfl said).imp_right fun new => ?_
    obtain ⟨response, rfl, same⟩ := new
    replace same := (Moment.answered.inj same).2
    cases goes with
    | fails _ written => exact absurd same.symm written
    | @reads _ key =>
      cases found : (s.machines h.node).get key <;> rw [found] at same <;> contradiction
    | @relays target other _ at_ found response =>
      obtain rfl := Response.forwarded_eq_noContent same.symm
      obtain ⟨k, forwarded, origin⟩ := (linear.served id h there).forwarded target at_
      obtain rfl : other = k := Option.some.inj (found.symm.trans forwarded)
      have wrote : other.stage = .answered .noContent := by
        unfold Stage.response at response
        split at response
        · rename_i at_
          rw [at_, Option.some.inj response]
        · contradiction
      have served := linear.served target other found
      obtain ⟨entry, written, settled⟩ := served.acked (served.answered _ wrote)
      rw [origin] at written
      exact ⟨entry, follows.journal.subset written, settled.grow carried.grows⟩

/-- A handler starts its proposal. -/
theorem Linear.proposes (linear : Linear json members s a) {id : Nat} {h : Handler} {command : Bytes}
    {moved : Service} {stage : Stage} (waits : stage = .waiting (s.server h.node).nextTag)
    (carried : Carried json members s action (moved.put id h stage) a a')
    (tagged : Tagged (moved.put id h stage))
    (own : s.label json action = some ⟨h.node, .start (.propose command)⟩)
    (there : s.handlers[id]? = some h)
    (encoded : encodeCommand json h.request.command = .ok command)
    (list : moved.handlers = s.handlers) (journal : moved.journal = s.journal) :
    Linear json members (moved.put id h stage) a' := by
  have follows := Follows.put list journal there stage
  have member := (linear.served id h there).member
  have fresh := (linear.awaited.steady.servers h.node member).fresh _ (le_refl _)
  replace fresh : (s.server h.node).calls (s.server h.node).nextTag = none := fresh
  subst waits
  refine linear.put carried tagged list journal there (by simp [own]) (fun label tag same => ?_) ?_
  · obtain rfl := Option.some.inj (own.symm.trans same)
    simp [Event.call]
  · refine .next linear carried follows there rfl rfl rfl
      (fun tag call given at_ running proposed => ?_) (fun entry known => ?_) (by simp [Stage.returned])
      (by simp) (by simp) (by simp) fun said => Or.inl ?_
    · obtain rfl := Stage.waiting.inj at_
      rcases carried.proposed h.node member _ call given running proposed with
        ⟨started, -⟩ | ⟨old, ran, -⟩
      · have same := Option.some.inj (own.symm.trans started)
        obtain rfl : command = given := by simpa using same
        exact encoded
      · rw [fresh] at ran
        contradiction
    · rcases known with none | ⟨tag, call, at_, running, waits⟩
      · contradiction
      · obtain rfl := Stage.waiting.inj at_
        rcases carried.awaits h.node member _ call entry running waits with
          ⟨old, ran, -⟩ | ⟨label, -, same, -, event, -⟩
        · rw [fresh] at ran
          contradiction
        · obtain rfl := Option.some.inj (own.symm.trans same)
          contradiction
    · refine (put_journal journal said).resolve_right fun new => ?_
      obtain ⟨_, other, -⟩ := new
      contradiction

/-- A handler starts `ApplyCommitted`. -/
theorem Linear.applies (linear : Linear json members s a) {id tag : Nat} {h : Handler}
    {entry : LogEntry} {moved : Service}
    (carried : Carried json members s action (moved.put id h (.applying entry tag)) a a')
    (tagged : Tagged (moved.put id h (.applying entry tag)))
    (own : s.label json action = some ⟨h.node, .start .apply⟩)
    (there : s.handlers[id]? = some h) (at_ : h.stage = .committed entry)
    (list : moved.handlers = s.handlers) (journal : moved.journal = s.journal) :
    Linear json members (moved.put id h (.applying entry tag)) a' := by
  have follows := Follows.put list journal there (.applying entry tag)
  have served := linear.served id h there
  refine linear.put carried tagged list journal there (by simp [own]) (fun label tag same => ?_) ?_
  · obtain rfl := Option.some.inj (own.symm.trans same)
    simp [Event.call]
  · refine .next linear carried follows there rfl rfl rfl (by simp) (fun known_ known => Or.inl ?_)
      (fun found same => ?_) (by simp) (by simp) (by simp) fun said => Or.inl ?_
    · rcases known with same | ⟨_, _, other, -⟩
      · refine Or.inl ?_
        rw [at_]
        exact same
      · contradiction
    · obtain rfl := Option.some.inj same
      obtain ⟨settled, covered⟩ := served.returned entry (by rw [at_]; rfl)
      exact ⟨settled.grow carried.grows,
        covered.trans (carried.indices h.node served.member (by simp [own])).1⟩
    · refine (put_journal journal said).resolve_right fun new => ?_
      obtain ⟨_, other, -⟩ := new
      contradiction

/-- What a request adds to the journal. -/
theorem receive_journal {node : NodeId} {origin : Nat} {request : Request} {moment : Moment}
    (listed : moment ∈ (s.receive node origin request).journal) :
    moment ∈ s.journal ∨ moment = .received s.handlers.length ∨
      ∃ response, request.enter = .answered response ∧ moment = .answered s.handlers.length response := by
  rcases List.mem_append.mp listed with old | new
  · exact Or.inl old
  · refine Or.inr ((List.mem_cons.mp new).imp_right fun said => ?_)
    obtain ⟨response, wrote, same⟩ := List.mem_map.mp said
    refine ⟨response, ?_, same.symm⟩
    unfold Stage.response at wrote
    split at wrote
    · rename_i at_
      rw [at_, Option.mem_toList.mp wrote |> Option.some.inj]
    · simp at wrote

/-- A request is given to a handler. -/
theorem Follows.receive (s : Service) (node : NodeId) (origin : Nat) (request : Request) :
    Follows s (s.receive node origin request) := by
  refine ⟨List.prefix_append _ _, fun id h found => ⟨h, ?_, rfl, rfl, rfl⟩⟩
  show (s.handlers ++ _)[id]? = some h
  rw [List.getElem?_append_left (List.getElem?_eq_some_iff.mp found).1]
  exact found

/-- A request of a client is given to a handler, or one that was sent on. -/
theorem Linear.receive (linear : Linear json members s a) {node : NodeId} {origin : Nat}
    {request : Request}
    (carried : Carried json members s action (s.receive node origin request) a a')
    (tagged : Tagged (s.receive node origin request)) (silent : s.label json action = none)
    (member : node ∈ members.ids)
    (known : origin = s.handlers.length ∨
      ∃ first, s.handlers[origin]? = some first ∧ first.request = request) :
    Linear json members (s.receive node origin request) a' := by
  have follows := Follows.receive s node origin request
  have length : (s.receive node origin request).handlers.length = s.handlers.length + 1 := by
    show (s.handlers ++ [_]).length = _
    rw [List.length_append, List.length_singleton]
  refine linear.next carried tagged follows (fun i response said => ?_) (fun i entry made => ?_)
    fun i g found => ?_
  · rcases receive_journal said with old | other | ⟨_, -, same⟩
    · exact Or.inl old
    · contradiction
    · obtain ⟨rfl, -⟩ := Moment.answered.inj same
      exact Or.inr (by omega)
  · rcases receive_journal made with old | other | ⟨_, -, other⟩
    · exact old
    · contradiction
    · contradiction
  · rcases receive_handlers found with old | ⟨new, rfl⟩
    · refine .stay linear carried follows old (Or.inr (by simp [silent])) (by simp [silent]) fun said => ?_
      rcases receive_journal said with before | other | ⟨_, -, same⟩
      · exact before
      · contradiction
      · have low := (List.getElem?_eq_some_iff.mp old).1
        have here := (Moment.answered.inj same).1
        omega
    · refine .fresh linear new rfl member ?_ ?_ (fun response at_ => ?_) fun said => ?_
      · rw [new]
        exact List.mem_append_right _ (List.mem_cons_self ..)
      · rcases known with own | ⟨first, there, same⟩
        · refine ⟨_, ?_, rfl⟩
          rw [new, ← own] at found
          exact found
        · obtain ⟨k, later, -, -, kept⟩ := follows.handlers origin first there
          exact ⟨k, later, kept.trans same⟩
      · rw [new]
        refine List.mem_append_right _ (List.mem_cons_of_mem _ (List.mem_map.mpr ⟨response, ?_, rfl⟩))
        rw [show request.enter = .answered response from at_]
        exact List.mem_singleton.mpr rfl
      · rcases receive_journal said with before | other | ⟨response, at_, same⟩
        · exact Or.inl before
        · contradiction
        · obtain ⟨-, rfl⟩ := Moment.answered.inj same
          exact Or.inr at_

/-- One step after another. -/
theorem Follows.trans {s'' : Service} (first : Follows s s') (second : Follows s' s'') :
    Follows s s'' := by
  refine ⟨first.journal.trans second.journal, fun i g found => ?_⟩
  obtain ⟨k, middle, node, origin, request⟩ := first.handlers i g found
  obtain ⟨k', later, node', origin', request'⟩ := second.handlers i k middle
  exact ⟨k', later, node'.trans node, origin'.trans origin, request'.trans request⟩

/-- A request is sent on to another node. -/
theorem Linear.forwards (linear : Linear json members s a) {id number : Nat} {h : Handler}
    {node : NodeId} (free : number = s.handlers.length)
    (carried : Carried json members s action
      ((s.put id h (.forwarding number)).receive node h.origin h.request) a a')
    (tagged : Tagged ((s.put id h (.forwarding number)).receive node h.origin h.request))
    (silent : s.label json action = none) (there : s.handlers[id]? = some h)
    (member : node ∈ members.ids) : Linear json members
      ((s.put id h (.forwarding number)).receive node h.origin h.request) a' := by
  have length : (s.put id h (.forwarding number)).handlers.length = number :=
    List.length_set.trans free.symm
  have follows := (Follows.put rfl rfl there (.forwarding number)).trans
    (.receive _ node h.origin h.request)
  have added : ∀ {moment : Moment}, moment ∈
      ((s.put id h (.forwarding number)).receive node h.origin h.request).journal →
      moment ∈ s.journal ∨ moment = .received number ∨
        ∃ response, h.request.enter = .answered response ∧ moment = .answered number response := by
    intro moment listed
    rcases receive_journal listed with old | new
    · refine (put_journal rfl old).imp_right fun new => ?_
      obtain ⟨_, other, -⟩ := new
      contradiction
    · rw [length] at new
      exact Or.inr new
  have unsaid : ∀ i < s.handlers.length, Moment.answered i .noContent ∈
      ((s.put id h (.forwarding number)).receive node h.origin h.request).journal →
      .answered i .noContent ∈ s.journal := by
    intro i low said
    rcases added said with old | other | ⟨_, -, same⟩
    · exact old
    · contradiction
    · have here := (Moment.answered.inj same).1
      omega
  have target : ((s.put id h (.forwarding number)).receive node h.origin
      h.request).handlers[number]? = some ⟨node, h.origin, h.request, h.request.enter⟩ := by
    have last := List.getElem?_concat_length (l := (s.put id h (.forwarding number)).handlers)
      (a := ⟨node, h.origin, h.request, h.request.enter⟩)
    rwa [length] at last
  have heard : ∀ {moment : Moment}, moment ∈ Moment.received number ::
      h.request.enter.response.toList.map (.answered number) → moment ∈
        ((s.put id h (.forwarding number)).receive node h.origin h.request).journal := by
    intro moment listed
    refine List.mem_append_right _ ?_
    rwa [length]
  refine linear.next carried tagged follows (fun i response said => ?_) (fun i entry made => ?_)
    fun i g found => ?_
  · rcases added said with old | other | ⟨_, -, same⟩
    · exact Or.inl old
    · contradiction
    · obtain ⟨rfl, -⟩ := Moment.answered.inj same
      exact Or.inr (List.getElem?_eq_some_iff.mp target).1
  · rcases added made with old | other | ⟨_, -, other⟩
    · exact old
    · contradiction
    · contradiction
  · rcases receive_handlers found with old | ⟨new, rfl⟩
    · rcases put_handlers old with ⟨rfl, rfl⟩ | ⟨-, before⟩
      · refine .move linear carried follows there rfl rfl (by simp) (fun forwarded at_ => ?_)
          fun said => Or.inl (unsaid i (List.getElem?_eq_some_iff.mp there).1 said)
        obtain rfl := Stage.forwarding.inj at_
        exact ⟨_, target, rfl⟩
      · exact .stay linear carried follows before (Or.inr (by simp [silent])) (by simp [silent])
          (unsaid i (List.getElem?_eq_some_iff.mp before).1)
    · obtain rfl := new.trans length
      refine .fresh linear free rfl member (heard (List.mem_cons_self ..)) ?_
        (fun response at_ => heard (List.mem_cons_of_mem _ (List.mem_map.mpr ⟨response, ?_, rfl⟩)))
        fun said => ?_
      · obtain ⟨origin, known, same⟩ := (linear.served id h there).origin
        obtain ⟨k, later, -, -, kept⟩ := follows.handlers _ origin known
        exact ⟨k, later, kept.trans same⟩
      · rw [show h.request.enter = .answered response from at_]
        exact List.mem_singleton.mpr rfl
      · rcases added said with before | other | ⟨response, at_, same⟩
        · exact Or.inl before
        · contradiction
        · obtain ⟨-, rfl⟩ := Moment.answered.inj same
          exact Or.inr at_

/-- A process stops, and what its handlers have not written is lost. -/
theorem Linear.crashes (linear : Linear json members s a) {node : NodeId}
    (carried : Carried json members s action s' a a') (tagged : Tagged s')
    (own : s.label json action = some ⟨node, .crash⟩)
    (list : s'.handlers = s.handlers.map (Handler.lose node)) (journal : s'.journal = s.journal) :
    Linear json members s' a' := by
  have follows : Follows s s' := by
    refine ⟨by rw [journal], fun i h found => ⟨h.lose node, ?_, ?_⟩⟩
    · rw [list, List.getElem?_map, found]
      rfl
    · unfold Handler.lose
      split <;> exact ⟨rfl, rfl, rfl⟩
  refine linear.next carried tagged follows (fun i response said => Or.inl (by rwa [journal] at said))
    (fun i entry made => by rwa [journal] at made) fun i g found => ?_
  rw [list] at found
  obtain ⟨h, there, rfl⟩ := lose_handlers found
  unfold Handler.lose
  split
  · exact .move linear carried follows there rfl rfl (by simp) (by simp)
      fun said => Or.inl (by rwa [journal] at said)
  · rename_i stays
    refine .stay linear carried follows there ?_ (fun label tag same _ event => ?_)
      fun said => by rwa [journal] at said
    · by_cases here : h.node = node
      · refine Or.inl ?_
        cases at_ : h.stage with
        | answered response => exact ⟨response, rfl⟩
        | _ => exact absurd ⟨here, by rw [at_]; rfl⟩ stays
      · refine Or.inr fun same => here ?_
        have crash := Option.some.inj (own.symm.trans same)
        simpa using (congrArg Label.node crash).symm
    · obtain rfl := Option.some.inj (own.symm.trans same)
      contradiction

/-- What a handler that hears of its call adds to the journal. -/
theorem hear_journal {moved : Service} {id tag : Nat} {h : Handler} {before : Server}
    {shown : List Record} {moment : Moment} :
    moment ∈ (moved.hear id h before tag shown).journal ↔ moment ∈ moved.journal ∨
      (∃ entry, h.appended before (moved.server h.node) tag = some entry ∧
        moment = .appended h.origin entry) ∨
      ∃ ended response, ending before (moved.server h.node) tag shown = some ended ∧
        h.resume ended = .answered response ∧ moment = .answered id response := by
  have said : ∀ {stage : Stage} {response : Response},
      response ∈ stage.response.toList ↔ stage = .answered response := by
    intro stage response
    cases stage <;> simp [Stage.response, eq_comm]
  unfold hear
  dsimp only
  split
  · rename_i running
    simp [running, eq_comm]
  · rename_i ended returned
    show moment ∈ _ ++ _ ++ (h.resume ended).response.toList.map _ ↔ _
    simp only [List.mem_append, List.mem_map, Option.mem_toList, returned, said, or_assoc,
      Option.some.injEq, ↓existsAndEq, true_and, eq_comm]

/-- A handler hears of its call after a step of the cluster. -/
theorem Follows.hear {moved : Service} (list : moved.handlers = s.handlers)
    (journal : moved.journal = s.journal) {id : Nat} {h : Handler} (there : s.handlers[id]? = some h)
    (before : Server) (tag : Nat) (shown : List Record) :
    Follows s (moved.hear id h before tag shown) := by
  have written : ∀ more, Follows s { moved with journal := moved.journal ++ more } := by
    refine fun more => ⟨?_, fun i g found => ⟨g, ?_, rfl, rfl, rfl⟩⟩
    · rw [journal]
      exact List.prefix_append _ _
    · rw [list]
      exact found
  unfold Service.hear
  dsimp only
  split
  · exact written _
  · refine (written _).trans (.put rfl rfl ?_ _)
    rw [list]
    exact there

/-- `ApplyCommitted` has returned nil. -/
theorem ending_applied {before after : Server} {tag : Nat} {shown : List Record}
    (ended : ending before after tag shown = some .applied) :
    after.calls tag = none ∧ before.calls tag = some (.apply .fetching) := by
  unfold ending at ended
  split at ended
  · cases ended
  · rename_i gone
    refine ⟨Option.not_isSome_iff_eq_none.mp gone, ?_⟩
    split at ended
    · assumption
    · cases ended
    · split at ended <;> cases ended

/-- A proposal has returned its entry, which the step showed. -/
theorem ending_returned {before after : Server} {node : NodeId} {tag : Nat} {entry : LogEntry}
    {observed : List (Nat × Raft.Observation)} (ended : ending before after tag
      (observed.map fun shown => ⟨node, shown.1, shown.2⟩) = some (.returned entry)) :
    ∃ number, (number, .returned entry) ∈ observed := by
  unfold ending at ended
  split at ended
  · cases ended
  · split at ended
    · cases ended
    · cases ended
    · split at ended
      · rename_i single
        obtain rfl := Ending.returned.inj (Option.some.inj ended)
        obtain ⟨shown, rfl, same⟩ := List.map_eq_singleton_iff.mp single
        obtain ⟨-, -, observation⟩ := Record.mk.inj same
        exact ⟨shown.1, List.mem_singleton.mpr (Prod.ext rfl observation.symm)⟩
      · cases ended
      · cases ended

/-- A proposal that fails is never acknowledged, and no map is read after it. -/
theorem failed_cases (request : Request) (err : Option Raft.RaftError) :
    request.failed err = .refused ∨ ∃ response, request.failed err = .answered response ∧
      response ≠ .noContent ∧ ∀ found, response ≠ .read found := by
  unfold Request.failed
  split
  · exact Or.inl rfl
  all_goals exact Or.inr ⟨_, rfl, by simp, by rintro (_ | _) <;> simp [Response.read]⟩

/-- A handler hears of a step of its call. -/
structure Heard (s : Service) (label : Label) (s' : Service) (number tag : Nat) (h : Handler)
    (shown : List Record) : Prop where
  /-- The step is one of the call. -/
  own : label.event.call = some tag
  /-- The handler is there. -/
  there : s.handlers[number]? = some h
  /-- It runs at the node. -/
  node : h.node = label.node
  /-- It waits for the call. -/
  call : h.stage.call = some tag
  /-- Nobody else is given anything. -/
  follows : Follows s s'
  /-- What is added to the journal. -/
  journal : ∀ {moment : Moment}, moment ∈ s'.journal ↔ moment ∈ s.journal ∨
    (∃ entry, h.appended (s.server label.node) (s'.server h.node) tag = some entry ∧
      moment = .appended h.origin entry) ∨
    ∃ ended response, ending (s.server label.node) (s'.server h.node) tag shown = some ended ∧
      h.resume ended = .answered response ∧ moment = .answered number response

section

variable {number tag : Nat} {h : Handler} {shown : List Record} {ended : Ending}

/-- The process goes on. -/
theorem Heard.going (heard : Heard s label s' number tag h shown) (node : NodeId) :
    s.label json (.raft label) ≠ some ⟨node, .crash⟩ := by
  intro same
  obtain rfl := Option.some.inj same
  have own := heard.own
  contradiction

/-- A response that is added is the handler's. -/
theorem Heard.said (heard : Heard s label s' number tag h shown)
    (returned : ending (s.server label.node) (s'.server h.node) tag shown = some ended) {id : Nat}
    {response : Response} (said : .answered id response ∈ s'.journal) :
    .answered id response ∈ s.journal ∨ h.resume ended = .answered response := by
  rcases heard.journal.mp said with old | ⟨_, -, other⟩ | ⟨found, wrote, same, resumed, moment⟩
  · exact Or.inl old
  · contradiction
  · obtain ⟨-, rfl⟩ := Moment.answered.inj moment
    rw [Option.some.inj (returned.symm.trans same)]
    exact Or.inr resumed

/-- The handler still waits. -/
theorem Served.unmoved (linear : Linear json members s a)
    (carried : Carried json members s (.raft label) s' a a')
    (heard : Heard s label s' number tag h shown)
    (same : ∀ ended, ending (s.server label.node) (s'.server h.node) tag shown = some ended →
      h.resume ended = h.stage) : Served json members s' a' number h := by
  have served := linear.served number h heard.there
  have indices := carried.indices h.node served.member (heard.going h.node)
  refine .next linear carried heard.follows heard.there rfl rfl rfl
    (fun found call command at_ running proposed => ?_) (fun entry known => ?_) (fun entry at_ => ?_)
    (fun entry at_ => ?_) (fun response at_ => ?_) (fun target at_ => ?_) fun said => ?_
  · rcases carried.proposed h.node served.member found call command running proposed with
      ⟨started, -⟩ | ⟨old, ran, same⟩
    · have own := heard.own
      obtain rfl := Option.some.inj started
      contradiction
    · exact served.command found old command at_ ran same
  · rcases known with at_ | ⟨found, call, at_, running, waits⟩
    · exact Or.inl (Or.inl at_)
    · rcases carried.awaits h.node served.member found call entry running waits with
        ⟨old, ran, waited⟩ | ⟨_, command, -, -, -, appending, log, -, precedes⟩
      · exact Or.inl (Or.inr ⟨found, old, at_, ran, waited⟩)
      · refine Or.inr ⟨heard.journal.mpr (Or.inr (Or.inl ⟨entry, ?_, rfl⟩)), precedes⟩
        obtain rfl : found = tag := by
          have call := heard.call
          rw [at_] at call
          exact Option.some.inj call
        rw [heard.node] at appending log ⊢
        simp [Handler.appended, at_, appending, log]
  · obtain ⟨settled, covered⟩ := served.returned entry at_
    exact ⟨settled.grow carried.grows, covered.trans indices.1⟩
  · exact (served.applied entry at_).trans indices.2
  · exact heard.follows.journal.subset (served.answered response at_)
  · have call := heard.call
    rw [at_] at call
    contradiction
  · refine Or.inl ?_
    rcases heard.journal.mp said with old | ⟨_, -, other⟩ | ⟨ended, _, returned, resumed, -⟩
    · exact old
    · contradiction
    · have call := heard.call
      rw [← same ended returned, resumed] at call
      contradiction

/-- A proposal returns its entry, which is settled. -/
theorem Served.committed (linear : Linear json members s a)
    (carried : Carried json members s (.raft label) s' a a')
    (heard : Heard s label s' number tag h shown) (at_ : h.stage = .waiting tag) {entry : LogEntry}
    (returned : ending (s.server label.node) (s'.server h.node) tag shown = some (.returned entry))
    (awaited : ∃ call, (s.server label.node).calls tag = some call ∧ call.awaits = some entry)
    (covered : entry.index ≤ (s.server label.node).node.commitIndex) :
    Served json members s' a' number { h with stage := .committed entry } := by
  have served := linear.served number h heard.there
  rw [← heard.node] at awaited covered
  obtain ⟨call, running, waits⟩ := awaited
  have held := linear.awaited.awaited h.node served.member tag call entry running waits
  have settled := (linear.sim.settled served.member held covered).grow carried.grows
  have commit := covered.trans (carried.indices h.node served.member (heard.going h.node)).1
  refine .next linear carried heard.follows heard.there rfl rfl rfl (by simp) (fun known_ known => ?_)
    (fun found same => ?_) (by simp) (by simp) (by simp) fun said => ?_
  · rcases known with same | ⟨_, _, other, -⟩
    · obtain rfl := Option.some.inj same
      exact Or.inl (Or.inr ⟨tag, call, at_, running, waits⟩)
    · contradiction
  · obtain rfl := Option.some.inj same
    exact ⟨settled, commit⟩
  · refine Or.inl ((heard.said returned said).resolve_right fun resumed => ?_)
    simp [Handler.resume, at_] at resumed

/-- A handler answers, or learns that its node is not the leader. -/
theorem Served.replies (linear : Linear json members s a)
    (carried : Carried json members s (.raft label) s' a a')
    (heard : Heard s label s' number tag h shown)
    (returned : ending (s.server label.node) (s'.server h.node) tag shown = some ended)
    (replies : h.resume ended = .refused ∨ ∃ response, h.resume ended = .answered response)
    (wrote : h.resume ended = .answered .noContent →
      ∃ entry, s.Knows h entry ∧ Settled members a' entry) :
    Served json members s' a' number { h with stage := h.resume ended } := by
  refine .move linear carried heard.follows heard.there ?_ ?_ (fun response at_ => ?_)
    (fun target at_ => ?_) fun said => ?_
  · rcases replies with at_ | ⟨_, at_⟩ <;> rw [at_] <;> rfl
  · rcases replies with at_ | ⟨_, at_⟩ <;> rw [at_] <;> rfl
  · exact heard.journal.mpr (Or.inr (Or.inr ⟨ended, response, returned, at_, rfl⟩))
  · rcases replies with other | ⟨_, other⟩ <;> rw [other] at at_ <;> contradiction
  · refine (heard.said returned said).imp_right fun resumed => ?_
    obtain ⟨entry, known, settled⟩ := wrote resumed
    have served := linear.served number h heard.there
    exact ⟨entry, heard.follows.journal.subset (served.wrote entry known), settled⟩

/-- Everything committed is applied, and the map can be read. -/
theorem Served.reads (linear : Linear json members s a)
    (carried : Carried json members s (.raft label) s' a a')
    (heard : Heard s label s' number tag h shown) {entry : LogEntry}
    (at_ : h.stage = .applying entry tag)
    (returned : ending (s.server label.node) (s'.server h.node) tag shown = some .applied)
    {key : Bytes} (asked : h.request = .get key)
    (through : (s.server label.node).node.lastApplied = (s.server label.node).node.commitIndex) :
    Served json members s' a' number { h with stage := .reading entry } := by
  have served := linear.served number h heard.there
  obtain ⟨settled, covered⟩ := served.returned entry (by rw [at_]; rfl)
  have indices := carried.indices h.node served.member (heard.going h.node)
  refine .next linear carried heard.follows heard.there rfl rfl rfl (by simp) (fun known_ known => ?_)
    (fun found same => ?_) (fun found same => ?_) (by simp) (by simp) fun said => ?_
  · rcases known with same | ⟨_, _, other, -⟩
    · refine Or.inl (Or.inl ?_)
      rw [at_]
      exact same
    · contradiction
  · obtain rfl := Option.some.inj same
    exact ⟨settled.grow carried.grows, covered.trans indices.1⟩
  · obtain rfl := Stage.reading.inj same
    rw [← heard.node] at through
    rw [← through] at covered
    exact covered.trans indices.2
  · refine Or.inl ((heard.said returned said).resolve_right fun resumed => ?_)
    simp [Handler.resume, at_, asked] at resumed

/-- The call a handler waits for has returned. -/
theorem Served.resumed (linear : Linear json members s a)
    (carried : Carried json members s (.raft label) s' a a')
    (heard : Heard s label s' number tag h shown)
    (returned : ending (s.server label.node) (s'.server h.node) tag shown = some ended)
    (committed : ∀ entry, ended = .returned entry →
      (∃ call, (s.server label.node).calls tag = some call ∧ call.awaits = some entry) ∧
        entry.index ≤ (s.server label.node).node.commitIndex)
    (through : ended = .applied →
      (s.server label.node).node.lastApplied = (s.server label.node).node.commitIndex) :
    Served json members s' a' number { h with stage := h.resume ended } := by
  -- a stage that does not wait for such a return stays
  have stays : h.resume ended = h.stage →
      Served json members s' a' number { h with stage := h.resume ended } := by
    intro same
    rw [same]
    refine .unmoved linear carried heard fun found again => ?_
    rw [← Option.some.inj (returned.symm.trans again)]
    exact same
  have call := heard.call
  cases at_ : h.stage with
  | waiting given =>
    obtain rfl : given = tag := by
      rw [at_] at call
      exact Option.some.inj call
    cases ended with
    | returned entry =>
      rw [show h.resume (.returned entry) = .committed entry by simp [Handler.resume, at_]]
      obtain ⟨awaited, covered⟩ := committed entry rfl
      exact .committed linear carried heard at_ returned awaited covered
    | failed err =>
      have resumed : h.resume (.failed err) = h.request.failed err := by simp [Handler.resume, at_]
      rcases failed_cases h.request err with refused | ⟨response, said, other, -⟩
      · refine .replies linear carried heard returned (Or.inl (resumed.trans refused)) fun wrote => ?_
        rw [resumed, refused] at wrote
        contradiction
      · refine .replies linear carried heard returned (Or.inr ⟨response, resumed.trans said⟩)
          fun wrote => ?_
        rw [resumed, said] at wrote
        exact absurd (Stage.answered.inj wrote) other
    | applied => exact stays (by simp [Handler.resume, at_])
    | stopped => exact stays (by simp [Handler.resume, at_])
  | applying entry given =>
    obtain rfl : given = tag := by
      rw [at_] at call
      exact Option.some.inj call
    cases ended with
    | applied =>
      cases asked : h.request with
      | get key =>
        rw [show h.resume .applied = .reading entry by simp [Handler.resume, at_, asked], ← asked]
        exact .reads linear carried heard at_ returned asked (through rfl)
      | write command =>
        rw [← asked]
        refine .replies linear carried heard returned
          (Or.inr ⟨.noContent, by simp [Handler.resume, at_, asked]⟩) fun _ => ?_
        have known : h.stage.returned = some entry := by rw [at_]; rfl
        have served := linear.served number h heard.there
        exact ⟨entry, Or.inl known, (served.returned entry known).1.grow carried.grows⟩
    | stopped =>
      have resumed : h.resume .stopped = .answered (.internal none) := by simp [Handler.resume, at_]
      refine .replies linear carried heard returned (Or.inr ⟨_, resumed⟩) fun wrote => ?_
      rw [resumed] at wrote
      cases wrote
    | returned other => exact stays (by simp [Handler.resume, at_])
    | failed err => exact stays (by simp [Handler.resume, at_])
  | _ => rw [at_] at call; contradiction

end

/-- A handler hears of a step of its call. -/
theorem Linear.hear (linear : Linear json members s a) (allowed : ReadsSound json s (.raft label))
    {moved : Service} {number tag : Nat} {h : Handler} (own : label.event.call = some tag)
    (advanced : s.advance json members label = some moved)
    (waits : s.owner label.node tag = some number) (there : s.handlers[number]? = some h)
    {shown : List Record}
    (all : shown = moved.traced.cluster.observed.drop s.traced.cluster.observed.length)
    (same : s' = moved.hear number h (s.server label.node) tag shown)
    (carried : Carried json members s (.raft label) s' a a') (tagged : Tagged s') :
    Linear json members s' a' := by
  obtain ⟨inside, list, journal, -⟩ := advance_some advanced
  obtain ⟨g, found, node, call⟩ := owner_some waits
  obtain rfl : h = g := Option.some.inj (there.symm.trans found)
  have follows := Follows.hear list journal there (s.server label.node) tag shown
  have added := @hear_journal moved number tag h (s.server label.node) shown
  obtain ⟨traced, -, -, length, handlers⟩ := moved.hear_some number h (s.server label.node) tag shown
  rw [← same] at follows added traced length handlers
  rw [journal] at added
  have servers : s'.server = moved.server := by unfold server; rw [traced]
  rw [← servers] at added handlers
  have heard : Heard s label s' number tag h shown := ⟨own, there, node, call, follows, added⟩
  have fits := allowed.1.1.2.2.1
  obtain ⟨reaction, happens, outcome, packet, after, -, reacted, observed⟩ :=
    advance_happens linear.awaited.steady fits advanced
  rw [← servers] at after
  have here := server_updated after
  have steady := linear.awaited.steady.servers label.node inside
  have order := linear.faithful.ordered.order label.node inside
  have served := linear.served number h there
  refine ⟨carried.sim, carried.awaited, carried.faithful, tagged, fun i response said => ?_,
    fun i entry made => ?_, fun i g at_ => ?_⟩
  · rw [length, list]
    rcases added.mp said with old | ⟨_, -, other⟩ | ⟨_, _, -, -, moment⟩
    · exact linear.known i response old
    · contradiction
    · rw [(Moment.answered.inj moment).1]
      exact (List.getElem?_eq_some_iff.mp there).1
  · have before : ∃ h, s.handlers[i]? = some h ∧
        encodeCommand json h.request.command = .ok entry.command := by
      rcases added.mp made with old | ⟨_, appended, moment⟩ | ⟨_, _, -, -, other⟩
      · exact linear.written i entry old
      · obtain ⟨rfl, rfl⟩ := Moment.appended.inj moment
        obtain ⟨first, origin, request⟩ := served.origin
        refine ⟨first, origin, ?_⟩
        unfold Handler.appended at appended
        split at appended
        · rename_i given command stage running
          split at appended
          · rename_i longer
            obtain rfl : given = tag := by
              rw [stage] at call
              exact Option.some.inj call
            rw [node, here] at longer appended
            rw [request, happens.appends own running longer appended]
            rw [← node] at running
            exact served.command given _ command stage running rfl
          · contradiction
        · contradiction
      · contradiction
    obtain ⟨first, found, encoded⟩ := before
    obtain ⟨k, later, -, -, request⟩ := follows.handlers i first found
    exact ⟨k, later, by rw [request]; exact encoded⟩
  · rcases handlers i g at_ with ⟨rfl, ended, returned, rfl⟩ | ⟨old, still⟩
    · refine .resumed linear carried heard returned (fun entry same => ?_) fun same => ?_
      · rw [same, all, observed] at returned
        obtain ⟨number, listed⟩ := ending_returned returned
        obtain ⟨waited, covered, -⟩ := outcome.returned number entry listed
        obtain rfl : tag = number := Option.some.inj (own.symm.trans (happens.shown listed))
        exact ⟨waited, covered⟩
      · rw [same] at returned
        obtain ⟨gone, running⟩ := ending_applied returned
        rw [node, here] at gone
        exact happens.fetched order steady own running gone
    · rw [list] at old
      by_cases same : i = number
      · subst same
        obtain rfl : h = g := Option.some.inj (there.symm.trans old)
        refine .unmoved linear carried heard fun ended returned => ?_
        rw [still rfl] at returned
        contradiction
      · refine .stay linear carried follows old (Or.inr (heard.going g.node))
          (fun found given is at_ event waiting => same ?_) fun said => ?_
        · obtain rfl := Option.some.inj is
          obtain rfl := Option.some.inj (own.symm.trans event)
          exact linear.tagged.apart i number g h tag old there (at_.symm.trans node.symm) waiting call
        · rcases added.mp said with before | ⟨_, -, other⟩ | ⟨_, _, -, -, moment⟩
          · exact before
          · contradiction
          · exact absurd (Moment.answered.inj moment).1 same

/-- Every step that meets the conditions. -/
theorem Linear.step (linear : Linear json members s a) (allowed : ReadsSound json s action)
    (does : Does json members s action s') : ∃ a', Linear json members s' a' := by
  obtain ⟨a', carried⟩ := linear.carried allowed does.moves
  have tagged := linear.tagged.step does
  refine ⟨a', ?_⟩
  -- a step of the cluster that no handler hears of, whatever the loops do
  have unheard : ∀ {label : Label} {moved : Service}, s.advance json members label = some moved →
      s'.handlers = moved.handlers → s'.journal = moved.journal →
      s.label json action = some label → label.event ≠ .crash →
      (∀ tag, label.event.call = some tag → s.owner label.node tag = none) →
      Linear json members s' a' := by
    intro label moved advanced handlers journal own going alone
    obtain ⟨-, list, written, -⟩ := advance_some advanced
    refine linear.unheard carried tagged (handlers.trans list) (journal.trans written)
      (fun node same => ?_) fun id h there found tag same node event => ?_
    · obtain rfl := Option.some.inj (own.symm.trans same)
      exact going rfl
    · obtain rfl := Option.some.inj (own.symm.trans same)
      exact owner_none (alone tag event) there node.symm
  cases does with
  | goes silent there goes => exact linear.goes carried tagged silent there goes
  | @proposes id h command moved there at_ encoded advanced =>
    obtain ⟨-, list, written, -⟩ := advance_some advanced
    refine linear.proposes rfl carried tagged ?_ there encoded list written
    simp [label, there, at_, encoded, Except.toOption]
  | @applies id h entry moved there at_ advanced =>
    obtain ⟨-, list, written, -⟩ := advance_some advanced
    refine linear.applies carried tagged ?_ there at_ list written
    simp [label, there, at_]
  | forwards there at_ known other member =>
    refine linear.forwards rfl carried tagged ?_ there member
    simp [label, there, at_]
  | receives member => exact linear.receive carried tagged rfl member (Or.inl rfl)
  | @hears label moved id tag h own advanced waits there =>
    exact linear.hear allowed own advanced waits there rfl rfl carried tagged
  | @hearsLoop label moved tag own advanced alone =>
    obtain ⟨loops, same, -⟩ := moved.hearLoop_some label.node (s.server label.node) tag
      (moved.traced.cluster.observed.drop s.traced.cluster.observed.length)
    refine unheard advanced (by rw [same]) (by rw [same]) rfl (fun crash => ?_) fun found event => ?_
    · rw [crash] at own
      contradiction
    · obtain rfl := Option.some.inj (own.symm.trans event)
      exact alone
  | happens background other going advanced =>
    refine unheard advanced rfl rfl rfl going fun found event => ?_
    rw [other] at event
    contradiction
  | @crashes node moved advanced =>
    obtain ⟨-, list, written, -⟩ := advance_some advanced
    exact linear.crashes carried tagged rfl (by rw [list]) written
  | turns silent from_ taken =>
    exact linear.unheard carried tagged rfl rfl (by simp [silent]) (by simp [silent])
  | begins at_ advanced =>
    exact unheard advanced rfl rfl (by simp [label, at_]) (by simp) fun tag event => by contradiction
  | compacts at_ next advanced =>
    exact unheard advanced rfl rfl (by simp [label, at_]) (by simp) fun tag event => by contradiction

/-- Every run whose steps meet the conditions. -/
theorem Linear.reach
    (run : Reach (Service.step json members) (ReadsSound json) (Service.initial members) s) :
    ∃ a, Linear json members s a := by
  have start : Linear json members (.initial members) _ := {
    sim := .initial members
    awaited := ⟨.initial members, fun id _ tag call entry running => by contradiction⟩
    faithful := .initial json members
    tagged := ⟨by simp [initial], by simp [initial]⟩
    known := by simp [initial]
    written := by simp [initial]
    served := by simp [initial] }
  induction run with
  | start => exact ⟨_, start⟩
  | next _ allowed stepped ih =>
    obtain ⟨a, linear⟩ := ih
    exact linear.step allowed (step_does stepped)

/-- Maps are told apart by what is answered. -/
theorem read_injective {left right : Option Bytes} (same : Response.read left = .read right) :
    left = right := by
  cases left <;> cases right <;> simp_all [Response.read]

/-- No map is read when a call returns. -/
theorem resume_unread (h : Handler) (ended : Ending) (open_ : h.stage.response = none)
    (found : Option Bytes) : h.resume ended ≠ .answered (.read found) := by
  unfold Handler.resume
  split
  · simp
  · rename_i err _
    rcases failed_cases h.request err with refused | ⟨response, said, -, unread⟩
    · rw [refused]
      simp
    · rw [said]
      exact fun same => unread found (Stage.answered.inj same)
  · split
    · simp
    · cases found <;> simp [Response.read]
  · cases found <;> simp [Response.read]
  · intro same
    rw [same] at open_
    contradiction

/-- The map is read in the last step of a handler that has not sent its request on. -/
theorem Does.read (does : Does json members s action s') {id : Nat} {h k : Handler}
    {found : Option Bytes} (there : s.handlers[id]? = some h) (open_ : h.stage.response = none)
    (led : ∀ target, h.stage ≠ .forwarding target) (later : s'.handlers[id]? = some k)
    (at_ : k.stage = .answered (.read found)) : ∃ entry key, h.stage = .reading entry ∧
      h.request = .get key ∧ found = (s.machines h.node).get key := by
  have still : s.handlers[id]? ≠ some k := by
    intro same
    obtain rfl := Option.some.inj (there.symm.trans same)
    rw [at_] at open_
    contradiction
  have stays : ∀ {label : Label} {moved : Service}, s.advance json members label = some moved →
      moved.handlers[id]? ≠ some k := by
    intro label moved advanced
    rw [(advance_some advanced).2.1]
    exact still
  have put : ∀ {moved : Service} {number : Nat} {g : Handler} {stage : Stage},
      moved.handlers = s.handlers → (moved.put number g stage).handlers[id]? = some k →
      id = number ∧ stage = .answered (.read found) := by
    intro moved number g stage list later
    rcases put_handlers later with ⟨same, rfl⟩ | ⟨-, old⟩
    · exact ⟨same, at_⟩
    · rw [list] at old
      exact absurd old still
  cases does with
  | goes silent there' goes =>
    obtain ⟨rfl, stage⟩ := put rfl later
    obtain rfl := Option.some.inj (there.symm.trans there')
    cases goes with
    | fails _ _ unread => exact absurd (Stage.answered.inj stage) (unread found)
    | relays forwarding => exact absurd forwarding (led _)
    | reads reading asked =>
      exact ⟨_, _, reading, asked, (read_injective (Stage.answered.inj stage)).symm⟩
    | _ => contradiction
  | proposes there' _ _ advanced =>
    obtain ⟨-, stage⟩ := put (advance_some advanced).2.1 later
    contradiction
  | applies there' _ advanced =>
    obtain ⟨-, stage⟩ := put (advance_some advanced).2.1 later
    contradiction
  | @forwards number g there' =>
    rcases receive_handlers later with old | ⟨new, rfl⟩
    · obtain ⟨-, stage⟩ := put rfl old
      contradiction
    · have low := (List.getElem?_eq_some_iff.mp there).1
      have length : (s.put number g (.forwarding s.handlers.length)).handlers.length = _ :=
        List.length_set
      omega
  | receives =>
    rcases receive_handlers later with old | ⟨new, rfl⟩
    · exact absurd old still
    · have low := (List.getElem?_eq_some_iff.mp there).1
      omega
  | @hears label moved number tag g own advanced waits there' =>
    obtain ⟨-, -, -, -, handlers⟩ := moved.hear_some number g (s.server label.node) tag
      (moved.traced.cluster.observed.drop s.traced.cluster.observed.length)
    rcases handlers id k later with ⟨rfl, ended, -, rfl⟩ | ⟨old, -⟩
    · obtain rfl := Option.some.inj (there.symm.trans there')
      exact absurd at_ (resume_unread h ended open_ found)
    · exact absurd old (stays advanced)
  | @hearsLoop label moved tag own advanced alone =>
    obtain ⟨loops, same, -⟩ := moved.hearLoop_some label.node (s.server label.node) tag
      (moved.traced.cluster.observed.drop s.traced.cluster.observed.length)
    rw [same] at later
    exact (stays advanced later).elim
  | happens _ _ _ advanced => exact (stays advanced later).elim
  | @crashes node moved advanced =>
    obtain ⟨g, old, rfl⟩ := lose_handlers later
    unfold Handler.lose at at_ still
    split at at_
    · contradiction
    · rename_i going
      rw [(advance_some advanced).2.1] at old
      rw [if_neg going] at still
      exact absurd old still
  | turns => exact absurd later still
  | begins _ advanced => exact (stays advanced later).elim
  | compacts _ _ advanced => exact (stays advanced later).elim

/-- A machine has everything up to the applied index, and nothing that is not committed. -/
theorem Faithful.shows (faithful : Faithful json members s) {id : NodeId} (member : id ∈ members.ids) :
    ∃ entries, entries <+: (s.server id).full ∧
      (s.server id).node.lastApplied ≤ entries.length ∧
      entries.length ≤ (s.server id).node.commitIndex ∧
      Overwrite.Shows (contents (s.machines id).data) (writes json entries) := by
  have order : Raft.InOrder (s.server id) _ := faithful.ordered.order id member
  obtain ⟨done, applied, low, marking, settled⟩ := order.applied
  have shows := (faithful.stored id member).loaded.shows
  have reached : (s.server id).node.lastApplied ≤ done := by
    by_cases marked : ∃ tag entry, (s.server id).calls tag = some (.apply (.marking entry))
    · obtain ⟨tag, entry, running⟩ := marked
      rw [marking tag entry running]
      omega
    · exact (settled fun tag entry running => marked ⟨tag, entry, running⟩).ge
  have base := order.baseLe.trans reached
  have inside := low.trans order.commitLe
  have whole : (s.server id).full.take (s.traced.history id).base ++ (s.traced.history id).applied =
      (s.server id).full.take done := by
    have split := List.take_append_drop (s.traced.history id).base ((s.server id).full.take done)
    rw [List.take_take, Nat.min_eq_left base] at split
    rw [applied]
    exact split
  rw [whole] at shows
  refine ⟨(s.server id).full.take done, List.take_prefix _ _, ?_, ?_, shows⟩
  · rw [List.length_take]
    omega
  · rw [List.length_take]
    omega

end

/-- The entry of the no-op that a read proposes. -/
def barrierAt (term index : Nat) : LogEntry := ⟨term, index, wire.marshalCommand ⟨.noop, [], []⟩⟩

/-- A put of `1` at the key `a` by the first handler was acknowledged before another handler was given
its read of the key, and the handler is to read the map. -/
def readsLetter (s : Service) (writer reader : NodeId) (id : Nat) (barrier : LogEntry) : Prop :=
  s.handlers[0]? = some ⟨writer, 0, .write (.put [97] [49]), .answered .noContent⟩ ∧
    s.handlers[id]? = some ⟨reader, id, .get [97], .reading barrier⟩ ∧
    .answered 0 .noContent ∈ s.earlier id

instance (s : Service) (writer reader : NodeId) (id : Nat) (barrier : LogEntry) :
    Decidable (s.readsLetter writer reader id barrier) := by
  unfold readsLetter
  infer_instance

/-- The only member is elected, a put is acknowledged, and then the key is read. -/
def writeThenRead : List Action :=
  ofLabels (Label.commitAlone "A" []) ++
  [.receive "A" (.write (.put [97] [49])), .handle 0] ++ ofLabels (Label.sections "A" 1 3) ++
  [.handle 0] ++ ofLabels (Label.sections "A" 2 4) ++
  [.receive "A" (.get [97]), .handle 1, .handle 1] ++ ofLabels (Label.sections "A" 3 3) ++
  [.handle 1] ++ ofLabels (Label.sections "A" 4 4)

/-- The entry of a put of `2` at the key `b`. -/
def otherPut : LogEntry := ⟨2, 1, wire.marshalCommand ⟨.put, [98], [50]⟩⟩

/-- `A` leads term 1, but nobody gets the entry of the put. `B` is elected in term 2 and commits another
put at the same index with `C`; its next request overwrites `A`'s entry and moves `A`'s commit index.
The proposal at `A` returns, and the put is acknowledged after `A` has applied the other one. Then the
key is read at `B`, which commits the no-op with `C` and applies its log. -/
def overwrittenThenRead : List Action :=
  ofLabels (Label.campaign "A" 0 1 0 0 [("B", 0)]) ++
  [.receive "A" (.write (.put [97] [49])), .handle 0] ++
  ofLabels (Label.sections "A" 1 9 ++ [⟨"A", .failure 1 "B"⟩, ⟨"A", .failure 1 "C"⟩] ++
    Label.sections "A" 1 2 ++ Label.campaign "B" 0 2 0 0 [("C", 0)]) ++
  [.receive "B" (.write (.put [98] [50])), .handle 1] ++
  ofLabels (Label.sections "B" 1 9 ++
    Label.rpc "B" "C" 1 (.appendRequest ⟨2, "B", 0, 0, [otherPut], 0⟩)
      (.appendResponse ⟨2, "B", 0, 0, [otherPut], 0⟩ ⟨2, true⟩) ++ Label.sections "B" 1 3 ++
    [⟨"B", .start .replicate⟩] ++ Label.sections "B" 2 5 ++
    [⟨"A", .serve ⟨"B", "A", 2, .appendRequest ⟨2, "B", 0, 0, [otherPut], 1⟩⟩ true⟩] ++
    Label.sections "A" 1 2) ++
  [.handle 0] ++ ofLabels (Label.sections "A" 2 4) ++
  [.receive "B" (.get [97]), .handle 2, .handle 2] ++
  ofLabels (Label.sections "B" 3 9 ++
    Label.rpc "B" "C" 3 (.appendRequest ⟨2, "B", 1, 2, [barrierAt 2 2], 1⟩)
      (.appendResponse ⟨2, "B", 1, 2, [barrierAt 2 2], 1⟩ ⟨2, true⟩) ++ Label.sections "B" 3 3) ++
  [.handle 2] ++ ofLabels (Label.sections "B" 4 7)

end Service
