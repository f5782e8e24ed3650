import RvKeyValue.Cluster.Invariant
import RvKeyValue.Cluster.Proposals

/-!
# One call at a time

When a call runs to its end before the next one starts, no section of another call comes between
two of its sections, and only its own peers are asked meanwhile. So a proposal appends as the
leader it saw itself to be, a recorded success answers a request of the current term and no
awaited entry is replaced: the conditions that the code leaves to the schedule all hold.
-/

namespace Raft

open Transition (Reach)

/-- One call at a time, with a fixed membership, successful saves and nothing that wraps. -/
def Sequential (unmarshal : Bytes → Option MembershipCommand) (members : Members) (c : Cluster)
    (label : Label) : Prop :=
  Cluster.savesSucceed label = true ∧ c.membershipFixed unmarshal label = true ∧
    c.nothingWraps label = true ∧ c.sequential members label = true

instance (unmarshal : Bytes → Option MembershipCommand) (members : Members) (c : Cluster)
    (label : Label) : Decidable (Sequential unmarshal members c label) := by
  unfold Sequential
  infer_instance

/-- A proposal about to append is on a leader, and requests are of the current term. -/
structure CallCurrent (n : RaftNode) (call : Call) : Prop where
  /-- The leader check still holds. -/
  leads : ∀ command, call = .propose (.appending command) → n.state = .leader
  /-- Requests are of the current term. -/
  term : ∀ request ∈ call.requests, request.2.term = n.currentTerm

/-- A section of the call itself. -/
theorem CallCurrent.turn {n : RaftNode} {call next : Call} {turn : Turn}
    (current : CallCurrent n call) (shape : Shape n call turn) (goes : turn.call = some next) :
    CallCurrent turn.node next where
  leads command same := by
    obtain ⟨leader, still⟩ := shape.appending command (by rw [goes, same])
    rw [still]
    exact leader
  term request listed := by
    rw [shape.term next goes (List.ne_nil_of_mem listed)]
    cases shape.requests next goes request listed with
    | inl old => exact current.term request old
    | inr built =>
      exact RaftNode.buildAppendEntries_term built

/-- The next section after `AppendLocal`. -/
theorem CallCurrent.append {unmarshal : Bytes → Option MembershipCommand} {n m : RaftNode}
    {save : Bool} {command : Bytes} {turn : Turn} {next : Call}
    (stepped : Call.proposeStep unmarshal n save (.appending command) = some turn)
    (goes : turn.call = some next) : CallCurrent m next := by
  obtain rfl := Option.some.inj stepped
  split at goes
  · contradiction
  · rw [← Option.some.inj goes]
    exact ⟨by simp, by simp [Call.requests]⟩

/-- A call before its first section. -/
theorem CallCurrent.start (n : RaftNode) (kind : Start) : CallCurrent n kind.call := by
  cases kind <;> exact ⟨by simp [Start.call], by simp [Start.call, Call.requests]⟩

section

variable {unmarshal : Bytes → Option MembershipCommand} {members : Members} {c c' : Cluster}
  {label : Label}

/-- At most one call runs in the whole cluster. -/
structure Orderly (members : Members) (c : Cluster) : Prop where
  /-- Messages belong to calls that were started. -/
  tags : ∀ packet ∈ c.net, packet.tag < (c.servers packet.source).nextTag
  /-- No two calls run. -/
  single : ∀ left ∈ members.ids, ∀ right ∈ members.ids, ∀ leftTag rightTag leftCall rightCall,
    (c.servers left).calls leftTag = some leftCall →
    (c.servers right).calls rightTag = some rightCall → left = right ∧ leftTag = rightTag
  /-- The running call is current. -/
  current : ∀ id ∈ members.ids, ∀ tag call, (c.servers id).calls tag = some call →
    CallCurrent (c.servers id).node call

/-- An idle cluster runs no call. -/
theorem Cluster.idle_calls (steady : SteadyCluster members c) (idle : c.idle members = true)
    {id : NodeId} (inside : id ∈ members.ids) (tag : Nat) : (c.servers id).calls tag = none := by
  cases running : (c.servers id).calls tag with
  | none => rfl
  | some call =>
    have low := (steady.servers id inside).running_lt running
    have none := List.all_eq_true.mp idle id inside
    have runs : (c.servers id).runs (fun _ => true) = true :=
      List.any_eq_true.mpr ⟨tag, List.mem_range.mpr low, by rw [running]; rfl⟩
    rw [runs] at none
    contradiction

/-- A node that handles a request runs no call. -/
theorem Orderly.served (orderly : Orderly members c) (steady : SteadyCluster members c)
    (inside : label.node ∈ members.ids) (allowed : c.sequential members label = true)
    {packet : Packet} {save : Bool} (event : label.event = .serve packet save)
    (sender : packet.source ∈ members.ids) (apart : packet.source ≠ label.node) (tag : Nat) :
    (c.servers label.node).calls tag = none := by
  simp only [Cluster.sequential, event, Bool.or_eq_true] at allowed
  cases allowed with
  | inl idle => exact Cluster.idle_calls steady idle inside tag
  | inr active =>
    obtain ⟨asking, running⟩ := Option.isSome_iff_exists.mp active
    cases own : (c.servers label.node).calls tag with
    | none => rfl
    | some call =>
      exact absurd (orderly.single _ sender _ inside _ _ _ _ running own).1 apart

/-- The section a call takes is the one it was current for. -/
theorem Orderly.sound (orderly : Orderly members c) (inside : label.node ∈ members.ids)
    (allowed : Sequential unmarshal members c label) : Sound unmarshal c label := by
  obtain ⟨saves, fixed, fits, -⟩ := allowed
  refine ⟨saves, fixed, fits, ?_, ?_⟩
  · unfold Cluster.leaderAppends
    split
    · rename_i command stepped
      unfold Cluster.stepped at stepped
      split at stepped
      · exact decide_eq_true ((orderly.current _ inside _ _ stepped).leads command rfl)
      · contradiction
    · rfl
  · unfold Cluster.successCurrent
    split
    · rename_i owner waiting peer req stepped
      unfold Cluster.stepped at stepped
      split at stepped
      · refine decide_eq_true fun _ => ?_
        exact (orderly.current _ inside _ _ stepped).term (peer, req) List.mem_cons_self
      · contradiction
    · rfl

/-- No awaited entry is replaced. -/
theorem Orderly.waitingKept
    (served : ∀ packet save, label.event = .serve packet save → ∀ tag,
      (c.servers label.node).calls tag = none) : c.waitingKept label = true := by
  refine List.all_eq_true.mpr fun tag _ => ?_
  cases event : label.event with
  | serve packet save =>
    rw [served packet save event tag]
    rfl
  | _ => simp [Server.conflicts]

/-- Nothing but a start makes a call run, and the number of the next call does not fall. -/
theorem Happens.running {sv : Server} {peers : List NodeId} {event : Event} {reaction : Reaction}
    (happens : Happens unmarshal peers sv event reaction) :
    sv.nextTag ≤ reaction.server.nextTag ∧
      ∀ tag call, reaction.server.calls tag = some call →
        (∃ kind, event = .start kind ∧ tag = sv.nextTag ∧ call = kind.call) ∨
          ∃ old, sv.calls tag = some old ∧ old.isElection = call.isElection := by
  have resumes : ∀ {tag : Nat} {old : Call} {turn : Turn}, sv.calls tag = some old →
      (∀ next, turn.call = some next → next.isElection = old.isElection) →
      ∀ position call, (sv.resume tag turn).server.calls position = some call →
        ∃ before, sv.calls position = some before ∧ before.isElection = call.isElection := by
    intro tag old turn running kind position call found
    cases Server.call_updated found with
    | inl here => exact ⟨old, by rw [here.1, running], (kind call here.2).symm⟩
    | inr elsewhere => exact ⟨call, elsewhere.2, rfl⟩
  cases happens with
  | start kind =>
    refine ⟨Nat.le_succ _, fun tag call found => ?_⟩
    cases Server.call_updated found with
    | inl here => exact Or.inl ⟨kind, rfl, here.1, (Option.some.inj here.2).symm⟩
    | inr elsewhere => exact Or.inr ⟨call, elsewhere.2, rfl⟩
  | turn own running shape _ =>
    exact ⟨le_refl _, fun tag call found =>
      Or.inr (resumes running (fun next goes => (shape.kind next goes).1) tag call found)⟩
  | append running room stepped =>
    refine ⟨le_refl _, fun tag call found => Or.inr (resumes running (fun next goes => ?_) tag call found)⟩
    obtain rfl := Option.some.inj stepped
    split at goes
    · contradiction
    · rw [← Option.some.inj goes]
      rfl
  | handle here handled => exact ⟨le_refl _, fun tag call found => Or.inr ⟨call, found, rfl⟩⟩
  | compact snapshot save => exact ⟨le_refl _, fun tag call found => Or.inr ⟨call, found, rfl⟩⟩
  | crash => exact ⟨le_refl _, fun tag call found => by contradiction⟩

/-- Messages carry the number of a call of their sender, or answer one that did. -/
theorem Happens.sent {sv : Server} {peers : List NodeId} {event : Event} {reaction : Reaction}
    (happens : Happens unmarshal peers sv event reaction) {packet : Packet}
    (listed : packet ∈ reaction.sent) :
    (packet.source = sv.node.id ∧ ∃ call, sv.calls packet.tag = some call) ∨
      ∃ asked save, event = .serve asked save ∧ packet.source = asked.source ∧
        packet.tag = asked.tag := by
  cases happens with
  | start kind => simp at listed
  | turn own running shape _ =>
    obtain ⟨message, -, rfl⟩ := List.mem_map.mp listed
    exact Or.inl ⟨rfl, _, running⟩
  | append running room stepped =>
    obtain ⟨message, -, rfl⟩ := List.mem_map.mp listed
    exact Or.inl ⟨rfl, _, running⟩
  | handle here handled =>
    obtain ⟨body, -, rfl⟩ := List.mem_map.mp listed
    exact Or.inr ⟨_, _, rfl, rfl, rfl⟩
  | compact snapshot save => simp at listed
  | crash => simp at listed

/-- The only call of a process stays current, also when another one starts. -/
theorem Happens.current {sv : Server} {peers : List NodeId} {event : Event} {reaction : Reaction}
    (happens : Happens unmarshal peers sv event reaction)
    (current : ∀ tag call, sv.calls tag = some call → CallCurrent sv.node call)
    (single : ∀ left right leftCall rightCall, sv.calls left = some leftCall →
      sv.calls right = some rightCall → left = right)
    (free : event.call = none → ∀ tag, sv.calls tag = none) {tag : Nat} {call : Call}
    (found : reaction.server.calls tag = some call) : CallCurrent reaction.server.node call := by
  cases happens with
  | start kind =>
    cases Server.call_updated found with
    | inl here =>
      rw [← Option.some.inj here.2]
      exact .start _ kind
    | inr elsewhere =>
      rw [free rfl] at elsewhere
      exact absurd elsewhere.2 (by simp)
  | turn own running shape _ =>
    cases Server.call_updated found with
    | inl here => exact (current _ _ running).turn shape here.2
    | inr elsewhere => exact absurd (single _ _ _ _ elsewhere.2 running) elsewhere.1
  | append running room stepped =>
    cases Server.call_updated found with
    | inl here => exact .append stepped here.2
    | inr elsewhere => exact absurd (single _ _ _ _ elsewhere.2 running) elsewhere.1
  | handle here handled =>
    replace found : sv.calls tag = some call := found
    rw [free rfl] at found
    contradiction
  | compact snapshot save =>
    replace found : sv.calls tag = some call := found
    rw [free rfl] at found
    contradiction
  | crash => contradiction

/-- A step of a run of one call at a time. -/
theorem Orderly.step (orderly : Orderly members c) (steady : SteadyCluster members c)
    (own : ∀ id ∈ members.ids, (c.servers id).node.id = id)
    (apart : ∀ packet ∈ c.net, packet.source ∈ members.ids ∧ packet.source ≠ packet.target)
    (allowed : Sequential unmarshal members c label)
    (stepped : c.step unmarshal members label = some c') :
    Orderly members c' ∧ c.waitingKept label = true := by
  have inside := (Cluster.step_some stepped).1
  obtain ⟨-, net, reaction, taken, -, rfl, happens, -⟩ := steady.step allowed.2.2.1 stepped
  obtain ⟨present, rest⟩ := Cluster.take_some taken
  obtain ⟨tagsGrow, running⟩ := happens.running
  have served : ∀ packet save, label.event = .serve packet save → ∀ tag,
      (c.servers label.node).calls tag = none := by
    intro packet save event
    have known := apart packet (present packet (by rw [event]; rfl))
    refine orderly.served steady inside allowed.2.2.2 event known.1 fun same => known.2 ?_
    rw [event] at happens
    cases happens with
    | turn foreign _ _ _ => contradiction
    | handle here handled => rw [here, own _ inside]; exact same
  have alone : ∀ kind, label.event = .start kind → ∀ id ∈ members.ids, ∀ tag,
      (c.servers id).calls tag = none := by
    intro kind event id member
    have idle := allowed.2.2.2
    simp only [Cluster.sequential, event] at idle
    exact Cluster.idle_calls steady idle member
  -- whoever runs after the step ran before it, or was just started
  have before : ∀ id ∈ members.ids, ∀ tag call,
      ((c.absorb label.node net reaction).servers id).calls tag = some call →
      (id = label.node ∧ tag = (c.servers label.node).nextTag ∧ ∃ kind, label.event = .start kind) ∨
        ∃ old, (c.servers id).calls tag = some old := by
    intro id member tag call found
    by_cases here : id = label.node
    · rw [here, c.absorb_own] at found
      cases running tag call found with
      | inl started =>
        obtain ⟨kind, event, atTag, -⟩ := started
        exact Or.inl ⟨here, atTag, kind, event⟩
      | inr old =>
        obtain ⟨old, ran, -⟩ := old
        exact Or.inr ⟨old, by rw [here, ran]⟩
    · rw [c.absorb_other net reaction here] at found
      exact Or.inr ⟨call, found⟩
  have tagged : ∀ id, (c.servers id).nextTag ≤
      ((c.absorb label.node net reaction).servers id).nextTag := by
    intro id
    by_cases here : id = label.node
    · rw [here, c.absorb_own]
      exact tagsGrow
    · rw [c.absorb_other net reaction here]
  refine ⟨⟨fun packet listed => ?_, fun left leftIn right rightIn leftTag rightTag leftCall rightCall
    atLeft atRight => ?_, fun id member tag call found => ?_⟩, Orderly.waitingKept served⟩
  · refine lt_of_lt_of_le ?_ (tagged packet.source)
    cases List.mem_append.mp listed with
    | inl old => exact orderly.tags packet (rest packet old)
    | inr new =>
      cases happens.sent new with
      | inl mine =>
        obtain ⟨source, call, ran⟩ := mine
        rw [source, own _ inside]
        exact (steady.servers _ inside).running_lt ran
      | inr answer =>
        obtain ⟨asked, save, event, source, tag⟩ := answer
        rw [source, tag]
        exact orderly.tags asked (present asked (by rw [event]; rfl))
  · cases before left leftIn leftTag leftCall atLeft with
    | inl leftNew =>
      obtain ⟨rfl, rfl, kind, event⟩ := leftNew
      cases before right rightIn rightTag rightCall atRight with
      | inl rightNew => exact ⟨rightNew.1.symm, rightNew.2.1.symm⟩
      | inr rightOld =>
        obtain ⟨old, ran⟩ := rightOld
        rw [alone kind event right rightIn] at ran
        contradiction
    | inr leftOld =>
      obtain ⟨old, ran⟩ := leftOld
      cases before right rightIn rightTag rightCall atRight with
      | inl rightNew =>
        obtain ⟨-, -, kind, event⟩ := rightNew
        rw [alone kind event left leftIn] at ran
        contradiction
      | inr rightOld =>
        obtain ⟨other, otherRan⟩ := rightOld
        exact orderly.single left leftIn right rightIn _ _ _ _ ran otherRan
  · by_cases here : id = label.node
    · subst here
      rw [c.absorb_own] at found ⊢
      refine happens.current (orderly.current _ inside) (fun left right leftCall rightCall atLeft
        atRight => (orderly.single _ inside _ inside _ _ _ _ atLeft atRight).2) (fun foreign => ?_)
        found
      have sequential := allowed.2.2.2
      unfold Cluster.sequential at sequential
      split at sequential
      · exact Cluster.idle_calls steady sequential inside
      · exact Cluster.idle_calls steady sequential inside
      · exact Cluster.idle_calls steady sequential inside
      · exact served _ _ (by assumption)
      · cases event : label.event with
        | _ => simp_all [Event.call]
    · rw [c.absorb_other net reaction here] at found ⊢
      exact orderly.current id member tag call found

end

end Raft
