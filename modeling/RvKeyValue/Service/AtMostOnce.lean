import RvKeyValue.Cluster.Safety
import RvKeyValue.Service.Steps
import RvKeyValue.Store.Wire

/-!
# A write enters the log once

`proposeAndApply` forwards a write whenever its proposal returns `ErrNotLeader`. A proposal returns
it before it has appended anything, when its node is no leader, but also after it has appended its
entry, when the node is deposed meanwhile. If a handler only forwards in the first case, a request
adds one entry to the logs at most. The code does not tell the cases apart, and one run commits a
write twice.
-/

open Raft (Bytes NodeId LogEntry Members Label Event Server Record Reaction Turn Call
  MembershipCommand threeNodes)
open Store (Json wire)
open Transition (Reach)

namespace Service

/-- The entry that a moment of the journal adds for the request of a handler. -/
def Moment.contributes (origin : Nat) : Moment → Option LogEntry
  | appended request entry => if request = origin then some entry else none
  | _ => none

/-- The entries that proposals for the request of a handler have appended. -/
def contributions (s : Service) (origin : Nat) : List LogEntry :=
  s.journal.filterMap (Moment.contributes origin)

/-- Some node holds an entry at or below its commit index. -/
def isCommitted (members : Members) (s : Service) (entry : LogEntry) : Bool :=
  members.ids.any fun id =>
    decide ((s.server id).Holds entry ∧ entry.index ≤ (s.server id).node.commitIndex)

/-- A handler that knows another leader forwards its request only when nothing was appended for it. -/
def forwardsUnwritten (s : Service) : Action → Bool
  | .handle id =>
    match s.handlers[id]? with
    | some h => decide (h.stage = .refused → (s.server h.node).node.leaderID ≠ "" →
        (s.server h.node).node.leaderID ≠ (s.server h.node).node.id → s.contributions h.origin = [])
    | none => true
  | _ => true

/-- A proposal that has not come to `AppendLocal`. -/
def unwritten : Call → Bool
  | .propose (.starting _) => true
  | .propose (.appending _) => true
  | _ => false

section

variable {unmarshal : Bytes → Option MembershipCommand} {n : Raft.RaftNode} {save applied : Bool}
  {call next : Call} {turn : Turn}

/-- `replicateOnce` goes on, or gives its proposal back the control. -/
theorem replicated_written {owner : Option LogEntry} (goes : (Call.replicated n owner).call = some next) :
    unwritten next = false := by
  cases owner with
  | none => contradiction
  | some entry =>
    rw [← Option.some.inj goes]
    rfl

/-- An error of `replicateOnce` ends the call. -/
theorem replicateFailed_ends (n : Raft.RaftNode) (err : Option Raft.RaftError) (owner : Option LogEntry) :
    (Call.replicateFailed n err owner).call = none := by
  cases owner with
  | none => rfl
  | some entry => rfl

/-- A section of `replicateOnce` does not lead back before `AppendLocal`. -/
theorem replicateStep_written {owner : Option LogEntry} {stage : Raft.ReplicateStage}
    (stepped : Call.replicateStep n owner stage = some turn) (goes : turn.call = some next) :
    unwritten next = false := by
  have spread : ∀ {m : Raft.RaftNode} {stage' : Raft.ReplicateStage},
      (Call.spread m owner stage').call = some next → unwritten next = false := by
    intro m stage' goes
    rw [← Option.some.inj goes]
    rfl
  have failed : ∀ {m : Raft.RaftNode} {err : Option Raft.RaftError},
      (Call.replicateFailed m err owner).call = some next → unwritten next = false := by
    intro m err goes
    rw [replicateFailed_ends] at goes
    contradiction
  cases stage with
  | ensuring =>
    obtain rfl := Option.some.inj stepped
    exact spread goes
  | listing =>
    obtain rfl := Option.some.inj stepped
    exact spread goes
  | building remaining requests =>
    cases remaining with
    | nil =>
      obtain rfl := Option.some.inj stepped
      rw [← Option.some.inj goes]
      rfl
    | cons peer remaining =>
      obtain rfl := Option.some.inj stepped
      split at goes
      · exact failed goes
      · exact spread goes
  | awaiting waiting =>
    cases waiting with
    | nil =>
      obtain rfl := Option.some.inj stepped
      exact replicated_written goes
    | cons request waiting => contradiction
  | recording waiting peer req success =>
    cases success with
    | true =>
      obtain rfl := Option.some.inj stepped
      split at goes
      · exact failed goes
      · split at goes
        · split at goes
          · exact spread goes
          · exact spread goes
        · exact spread goes
    | false =>
      obtain rfl := Option.some.inj stepped
      split at goes
      · exact failed goes
      · exact spread goes
  | stopping waiting =>
    cases owner with
    | none => contradiction
    | some entry =>
      obtain rfl := Option.some.inj stepped
      split at goes
      · exact replicated_written goes
      · exact spread goes

/-- Only the role check leads to `AppendLocal`. -/
theorem step_unwritten (stepped : call.step unmarshal n save applied = some turn)
    (goes : turn.call = some next) (open_ : unwritten next = true) :
    ∃ command, call = .propose (.starting command) := by
  cases call with
  | election stage =>
    obtain ⟨stage', rfl⟩ := Call.electionStep_next stepped goes
    contradiction
  | apply stage =>
    cases stage with
    | fetching =>
      obtain rfl := Option.some.inj stepped
      split at goes
      · contradiction
      · rw [← Option.some.inj goes] at open_
        contradiction
    | holding entry =>
      obtain rfl := Option.some.inj stepped
      split at goes
      · contradiction
      · dsimp only at goes
        split at goes
        · contradiction
        · rw [← Option.some.inj goes] at open_
          contradiction
      · dsimp only at goes
        split at goes
        · rw [← Option.some.inj goes] at open_
          contradiction
        · contradiction
    | marking entry =>
      obtain rfl := Option.some.inj stepped
      rw [← Option.some.inj goes] at open_
      contradiction
  | propose stage =>
    cases stage with
    | starting command => exact ⟨command, rfl⟩
    | _ =>
      obtain rfl := Option.some.inj stepped
      simp only [Call.pursue, Call.fail, Call.spread] at goes
      repeat' split at goes
      all_goals first
        | contradiction
        | rw [← Option.some.inj goes] at open_; contradiction
  | replicate owner stage =>
    rw [replicateStep_written stepped goes] at open_
    contradiction

/-- No response leads to `AppendLocal`. -/
theorem reply_written {peer : NodeId} {body : Raft.Body}
    (replied : call.reply n save peer body = some turn) (goes : turn.call = some next) :
    unwritten next = false := by
  have election : ∀ {m : Raft.RaftNode} {stage : Raft.ElectionStage},
      (Call.campaign m stage).call = some next → unwritten next = false := by
    intro m stage goes
    rw [← Option.some.inj goes]
    rfl
  unfold Call.reply at replied
  split at replied
  · split at replied
    · obtain rfl := Option.some.inj replied
      repeat' split at goes
      · contradiction
      all_goals exact election goes
    · contradiction
  · split at replied
    · obtain rfl := Option.some.inj replied
      split at goes
      · contradiction
      · exact election goes
    · contradiction
  · split at replied
    · obtain rfl := Option.some.inj replied
      split at goes
      · rw [replicateFailed_ends] at goes
        contradiction
      · split at goes
        · exact replicated_written goes
        · rw [← Option.some.inj goes]
          rfl
    · contradiction
  · contradiction

/-- A failed RPC leads nowhere else. -/
theorem failure_written {peer : NodeId} (failed : call.failure peer = some next) :
    unwritten next = false := by
  unfold Call.failure at failed
  split at failed
  · split at failed
    · rw [← Option.some.inj failed]
      rfl
    · contradiction
  · split at failed
    · rw [← Option.some.inj failed]
      rfl
    · contradiction
  · split at failed
    · rw [← Option.some.inj failed]
      rfl
    · contradiction
  · contradiction

/-- A proposal before `AppendLocal` was started by the step, or was before `AppendLocal` already; one
that took a section has only checked its role. -/
theorem react_unwritten {peers : List NodeId} {sv : Server} {event : Event} {reaction : Reaction}
    (reacted : sv.react unmarshal peers event = some reaction) {tag : Nat}
    (running : reaction.server.calls tag = some call) (open_ : unwritten call = true) :
    (∃ kind, event = .start kind ∧ tag = sv.nextTag) ∨
      ∃ old, sv.calls tag = some old ∧ unwritten old = true ∧
        (event.call = some tag → ∃ command, old = .propose (.starting command)) := by
  by_cases own : event.call = some tag
  · refine Or.inr ?_
    cases Server.react_cases reacted with
    | step number save applied old turn ran turned =>
      obtain rfl : number = tag := Option.some.inj own
      replace running : Function.update sv.calls number turn.call number = some call := running
      rw [Function.update_self] at running
      obtain ⟨command, rfl⟩ := step_unwritten turned running open_
      exact ⟨_, ran, rfl, fun _ => ⟨command, rfl⟩⟩
    | reply packet save old turn mine ran turned =>
      obtain rfl : packet.tag = tag := Option.some.inj own
      replace running : Function.update sv.calls packet.tag turn.call packet.tag = some call := running
      rw [Function.update_self] at running
      rw [reply_written turned running] at open_
      contradiction
    | failure number peer old next ran failed =>
      obtain rfl : number = tag := Option.some.inj own
      replace running : Function.update sv.calls number (some next) number = some call := running
      rw [Function.update_self] at running
      rw [← Option.some.inj running, failure_written failed] at open_
      contradiction
    | cancel number old observed ran cancelled =>
      obtain rfl : number = tag := Option.some.inj own
      replace running : Function.update sv.calls number none number = some call := running
      rw [Function.update_self] at running
      contradiction
    | _ => contradiction
  · rcases (react_calls reacted).2 tag with here | started | ⟨-, none⟩ | same
    · exact absurd here own
    · exact Or.inl started
    · rw [none] at running
      contradiction
    · exact Or.inr ⟨call, same ▸ running, open_, fun here => absurd here own⟩

end

/-- A handler that may still start a proposal, waits for one, or may forward its request. -/
def Stage.active : Stage → Bool
  | checking => true
  | proposing => true
  | waiting _ => true
  | refused => true
  | _ => false

/-- Nothing was appended for the handler at its own node, and something may be. -/
def Pending (s : Service) (h : Handler) : Prop :=
  match h.stage with
  | .checking => True
  | .proposing => True
  | .waiting tag => ∃ call, (s.server h.node).calls tag = some call ∧ unwritten call = true
  | _ => False

/-- Each request is worked on at one place, and spent once something was appended for it. -/
structure Once (s : Service) : Prop where
  /-- Handlers wait for calls of their own. -/
  tagged : Tagged s
  /-- A request is given to a handler before it is sent on. -/
  origins : ∀ (id : Nat) (h : Handler), s.handlers[id]? = some h → h.origin ≤ id
  /-- Entries are appended for requests that were given. -/
  written : ∀ origin entry, .appended origin entry ∈ s.journal → origin < s.handlers.length
  /-- One handler works on it. -/
  single : ∀ (left right : Nat) (h k : Handler), s.handlers[left]? = some h →
    s.handlers[right]? = some k → h.origin = k.origin → h.stage.active = true →
    k.stage.active = true → left = right
  /-- Nothing was appended while something may be. -/
  unspent : ∀ (id : Nat) (h : Handler), s.handlers[id]? = some h → s.Pending h →
    s.contributions h.origin = []
  /-- One entry was appended at most. -/
  once : ∀ origin, (s.contributions origin).length ≤ 1

section

variable {json : Json} {members : Members} {s s' : Service} {label : Label}

/-- A handler at whose node something may be appended works on its request. -/
theorem Pending.active {h : Handler} (pending : s.Pending h) : h.stage.active = true := by
  unfold Pending at pending
  split at pending
  all_goals first
    | contradiction
    | (rename_i at_; rw [at_]; rfl)

/-- What a step of the cluster leaves open for a handler was open before; its own call, if the step was
one of it, has only checked the role. -/
theorem Pending.back {moved : Service} (tagged : Tagged s)
    (advanced : s.advance json members label = some moved) {id : Nat} {h : Handler}
    (there : s.handlers[id]? = some h) (pending : moved.Pending h) :
    s.Pending h ∧ ∀ tag, h.stage = .waiting tag → h.node = label.node → label.event.call = some tag →
      ∃ command, (s.server h.node).calls tag = some (.propose (.starting command)) := by
  unfold Pending at pending ⊢
  split at pending
  · rename_i at_
    exact ⟨trivial, by simp [at_]⟩
  · rename_i at_
    exact ⟨trivial, by simp [at_]⟩
  · rename_i number at_
    obtain ⟨call, running, open_⟩ := pending
    obtain ⟨-, -, -, -, -, -, reaction, reacted, same⟩ := advance_some advanced
    rw [same] at running
    by_cases here : h.node = label.node
    · rw [here, Function.update_self] at running
      have given := tagged.given id h number there (by rw [at_]; rfl)
      rw [here] at given
      rcases react_unwritten reacted running open_ with ⟨kind, -, fresh⟩ | ⟨old, ran, before, own⟩
      · omega
      · rw [here]
        refine ⟨⟨old, ran, before⟩, fun tag waits _ event => ?_⟩
        obtain rfl : number = tag := Stage.waiting.inj (at_.symm.trans waits)
        obtain ⟨command, rfl⟩ := own event
        exact ⟨command, ran⟩
    · rw [Function.update_of_ne here] at running
      exact ⟨⟨call, running, open_⟩, fun _ _ there => absurd there here⟩
  · contradiction

/-- A moment of another kind contributes nothing. -/
theorem contributes_answered (origin id : Nat) (responses : List Response) :
    (responses.map fun response => Moment.answered id response).filterMap (Moment.contributes origin) =
      [] := by
  rw [List.filterMap_eq_nil_iff]
  intro moment listed
  obtain ⟨response, -, rfl⟩ := List.mem_map.mp listed
  rfl

/-- A handler's move appends nothing. -/
theorem put_contributions (s : Service) (id : Nat) (h : Handler) (stage : Stage) (origin : Nat) :
    (s.put id h stage).contributions origin = s.contributions origin := by
  show (s.journal ++ _).filterMap _ = _
  rw [List.filterMap_append, contributes_answered, List.append_nil]
  rfl

/-- A new request appends nothing. -/
theorem receive_contributions (s : Service) (node : NodeId) (given : Nat) (request : Request)
    (origin : Nat) : (s.receive node given request).contributions origin = s.contributions origin := by
  show (s.journal ++ _ :: _).filterMap _ = _
  rw [List.filterMap_append, List.filterMap_cons_none rfl, contributes_answered, List.append_nil]
  rfl

/-- An entry of the journal that a contribution comes from. -/
theorem mem_contributions {origin : Nat} {entry : LogEntry} (listed : entry ∈ s.contributions origin) :
    .appended origin entry ∈ s.journal := by
  obtain ⟨moment, among, made⟩ := List.mem_filterMap.mp listed
  cases moment with
  | appended request written =>
    simp only [Moment.contributes] at made
    split at made
    · rename_i same
      rw [same, Option.some.inj made] at among
      exact among
    · contradiction
  | received id => contradiction
  | answered id response => contradiction

/-- A contribution is in the journal. -/
theorem contributions_of_mem {origin : Nat} {entry : LogEntry}
    (listed : .appended origin entry ∈ s.journal) : entry ∈ s.contributions origin :=
  List.mem_filterMap.mpr ⟨_, listed, if_pos rfl⟩

/-- Handlers that do no more for their requests than before, in a step that appends nothing. -/
theorem Once.keep (once : Once s) (tagged : Tagged s')
    (length : s.handlers.length ≤ s'.handlers.length)
    (kept : ∀ (i : Nat) (g : Handler), s'.handlers[i]? = some g → ∃ h, s.handlers[i]? = some h ∧
      g.origin = h.origin ∧ (g.stage.active = true → h.stage.active = true) ∧
      (s'.Pending g → s.Pending h))
    (same : ∀ origin, s'.contributions origin = s.contributions origin) : Once s' where
  tagged := tagged
  origins i g found := by
    obtain ⟨h, there, origin, -⟩ := kept i g found
    rw [origin]
    exact once.origins i h there
  written origin entry listed := by
    have among := contributions_of_mem listed
    rw [same] at among
    exact lt_of_lt_of_le (once.written origin entry (mem_contributions among)) length
  single left right g k atLeft atRight origin leftActive rightActive := by
    obtain ⟨h, thereLeft, originLeft, activeLeft, -⟩ := kept left g atLeft
    obtain ⟨h', thereRight, originRight, activeRight, -⟩ := kept right k atRight
    exact once.single left right h h' thereLeft thereRight
      (originLeft.symm.trans (origin.trans originRight)) (activeLeft leftActive)
      (activeRight rightActive)
  unspent i g found pending := by
    obtain ⟨h, there, origin, -, before⟩ := kept i g found
    rw [same, origin]
    exact once.unspent i h there (before pending)
  once origin := by
    rw [same]
    exact once.once origin

/-- A request is given to a handler: nobody works on it, and nothing was appended for it. -/
theorem Once.receive (once : Once s) (tagged : Tagged s') {node : NodeId} {origin : Nat}
    {request : Request} (made : s' = s.receive node origin request) (known : origin ≤ s.handlers.length)
    (idle : ∀ (i : Nat) (h : Handler), s.handlers[i]? = some h → h.origin = origin →
      h.stage.active = false) (unspent : s.contributions origin = []) : Once s' := by
  have same := s.receive_contributions node origin request
  have length : (s.receive node origin request).handlers.length = s.handlers.length + 1 := by
    show (s.handlers ++ [_]).length = _
    rw [List.length_append, List.length_singleton]
  subst made
  refine ⟨tagged, fun i g found => ?_, fun given entry listed => ?_,
    fun left right g k atLeft atRight alike leftActive rightActive => ?_, fun i g found pending => ?_,
    fun given => ?_⟩
  · rcases receive_handlers found with old | ⟨here, rfl⟩
    · exact once.origins i g old
    · rw [here]
      exact known
  · have among := contributions_of_mem listed
    rw [same] at among
    have low := once.written given entry (mem_contributions among)
    omega
  · rcases receive_handlers atLeft with oldLeft | ⟨hereLeft, rfl⟩
    · rcases receive_handlers atRight with oldRight | ⟨-, rfl⟩
      · exact once.single left right g k oldLeft oldRight alike leftActive rightActive
      · rw [idle left g oldLeft alike] at leftActive
        contradiction
    · rcases receive_handlers atRight with oldRight | ⟨hereRight, -⟩
      · rw [idle right k oldRight alike.symm] at rightActive
        contradiction
      · rw [hereLeft, hereRight]
  · rw [same]
    rcases receive_handlers found with old | ⟨-, rfl⟩
    · exact once.unspent i g old pending
    · exact unspent
  · rw [same]
    exact once.once given

/-- What a handler hears may be that its proposal has appended an entry. -/
theorem hear_contributions (s : Service) (id : Nat) (h : Handler) (before : Server) (tag : Nat)
    (shown : List Record) (origin : Nat) :
    (s.hear id h before tag shown).contributions origin = s.contributions origin ++
      if h.origin = origin then (h.appended before (s.server h.node) tag).toList else [] := by
  have written : (s.journal ++ (h.appended before (s.server h.node) tag).toList.map fun entry =>
      Moment.appended h.origin entry).filterMap (Moment.contributes origin) = s.contributions origin ++
        if h.origin = origin then (h.appended before (s.server h.node) tag).toList else [] := by
    rw [List.filterMap_append]
    refine congrArg (s.contributions origin ++ ·) ?_
    cases h.appended before (s.server h.node) tag with
    | none => simp
    | some entry =>
      by_cases here : h.origin = origin
      · simp [Moment.contributes, here]
      · simp [Moment.contributes, here]
  unfold hear
  dsimp only
  split
  · exact written
  · rw [put_contributions]
    exact written

/-- A proposal has appended its entry: nothing was appended for its request before, and nothing will
be. -/
theorem Once.append (once : Once s) (tagged : Tagged s') {id : Nat} {h : Handler} (entry : LogEntry)
    (there : s.handlers[id]? = some h) (pending : s.Pending h)
    (length : s.handlers.length = s'.handlers.length)
    (kept : ∀ (i : Nat) (g : Handler), s'.handlers[i]? = some g → ∃ k, s.handlers[i]? = some k ∧
      g.origin = k.origin ∧ (g.stage.active = true → k.stage.active = true) ∧
      (s'.Pending g → s.Pending k ∧ i ≠ id))
    (grown : ∀ origin, s'.contributions origin = s.contributions origin ++
      if h.origin = origin then [entry] else []) : Once s' := by
  have fresh := once.unspent id h there pending
  refine ⟨tagged, fun i g found => ?_, fun origin made listed => ?_,
    fun left right g k atLeft atRight origin leftActive rightActive => ?_,
    fun i g found later => ?_, fun origin => ?_⟩
  · obtain ⟨k, found, origin, -⟩ := kept i g found
    rw [origin]
    exact once.origins i k found
  · rw [← length]
    have among := contributions_of_mem listed
    rw [grown] at among
    rcases List.mem_append.mp among with old | new
    · exact once.written origin made (mem_contributions old)
    · split at new
      · rename_i here
        rw [← here]
        exact lt_of_le_of_lt (once.origins id h there) (List.getElem?_eq_some_iff.mp there).1
      · contradiction
  · obtain ⟨k₁, thereLeft, originLeft, activeLeft, -⟩ := kept left g atLeft
    obtain ⟨k₂, thereRight, originRight, activeRight, -⟩ := kept right k atRight
    exact once.single left right k₁ k₂ thereLeft thereRight
      (originLeft.symm.trans (origin.trans originRight)) (activeLeft leftActive)
      (activeRight rightActive)
  · obtain ⟨k, found, origin, -, open_⟩ := kept i g found
    obtain ⟨before, other⟩ := open_ later
    rw [grown, origin, once.unspent i k found before, List.nil_append, if_neg fun same => ?_]
    exact other (once.single i id k h found there same.symm before.active pending.active)
  · rw [grown]
    split
    · rename_i here
      rw [← here, fresh]
      exact le_refl 1
    · rw [List.append_nil]
      exact once.once origin

/-- A handler whose call has returned does no more for its request than before. -/
theorem resume_active {h : Handler} {tag : Nat} {ended : Ending} (waits : h.stage.call = some tag)
    (active : (h.resume ended).active = true) : h.stage.active = true := by
  cases at_ : h.stage with
  | waiting number => rfl
  | applying entry number =>
    cases ended with
    | applied =>
      simp only [Handler.resume, at_] at active
      split at active <;> contradiction
    | _ =>
      simp only [Handler.resume, at_] at active
      contradiction
  | _ => rw [at_] at waits; contradiction

/-- A proposal that has returned appends nothing any more. -/
theorem Pending.ended {moved : Service} {h : Handler} {before : Server} {tag : Nat} {ended : Ending}
    {shown : List Record} (waits : h.stage.call = some tag)
    (returned : ending before (moved.server h.node) tag shown = some ended)
    (pending : moved.Pending { h with stage := h.resume ended }) : False := by
  have gone : (moved.server h.node).calls tag = none := by
    unfold ending at returned
    split at returned
    · contradiction
    · rename_i none
      exact Option.not_isSome_iff_eq_none.mp none
  have active := resume_active waits pending.active
  unfold Handler.resume Pending at pending
  cases at_ : h.stage with
  | waiting number =>
    obtain rfl : number = tag := by
      rw [at_] at waits
      exact Option.some.inj waits
    rw [at_] at pending
    cases ended with
    | returned entry => contradiction
    | failed err =>
      simp only [Request.failed] at pending
      split at pending
      all_goals first
        | contradiction
        | (rename_i same; split at same <;> contradiction)
    | applied =>
      obtain ⟨call, running, -⟩ := pending
      rw [gone] at running
      contradiction
    | stopped =>
      obtain ⟨call, running, -⟩ := pending
      rw [gone] at running
      contradiction
  | applying entry number =>
    rw [at_] at active
    contradiction
  | _ => rw [at_] at waits; contradiction

/-- A handler hears of a step of its call. -/
theorem Once.hear (once : Once s) (tagged : Tagged s') {moved : Service} {number tag : Nat} {h : Handler}
    (own : label.event.call = some tag) (advanced : s.advance json members label = some moved)
    (waits : s.owner label.node tag = some number) (there : s.handlers[number]? = some h)
    {shown : List Record} (heard : s' = moved.hear number h (s.server label.node) tag shown) :
    Once s' := by
  obtain ⟨-, list, written, -⟩ := advance_some advanced
  obtain ⟨g, found, node, call⟩ := owner_some waits
  obtain rfl : h = g := Option.some.inj (there.symm.trans found)
  have grown := moved.hear_contributions number h (s.server label.node) tag shown
  obtain ⟨traced, -, -, length, handlers⟩ := moved.hear_some number h (s.server label.node) tag shown
  rw [← heard] at grown traced length handlers
  have journal : ∀ origin, moved.contributions origin = s.contributions origin := by
    intro origin
    unfold contributions
    rw [written]
  have moves : ∀ g, s'.Pending g → moved.Pending g := by
    intro g pending
    unfold Pending server at pending ⊢
    rwa [traced] at pending
  have kept : ∀ (i : Nat) (g : Handler), s'.handlers[i]? = some g → ∃ k,
      s.handlers[i]? = some k ∧ g.origin = k.origin ∧
      (g.stage.active = true → k.stage.active = true) ∧ (s'.Pending g → s.Pending k ∧ (i = number →
        ∃ command, (s.server label.node).calls tag = some (.propose (.starting command)))) := by
    intro i g at_
    rcases handlers i g at_ with ⟨rfl, ended, returned, rfl⟩ | ⟨old, -⟩
    · exact ⟨h, there, rfl, resume_active call, fun pending =>
        ((moves _ pending).ended call returned).elim⟩
    · rw [list] at old
      refine ⟨g, old, rfl, id, fun pending => ?_⟩
      obtain ⟨before, starting⟩ := Pending.back once.tagged advanced old (moves g pending)
      refine ⟨before, fun here => ?_⟩
      obtain rfl : h = g := by
        rw [here, there] at old
        exact Option.some.inj old
      cases stage : h.stage with
      | waiting tag' =>
        obtain rfl : tag' = tag := by
          rw [stage] at call
          exact Option.some.inj call
        rw [← node]
        exact starting tag' stage node own
      | applying entry tag' =>
        have active := before.active
        rw [stage] at active
        contradiction
      | _ => rw [stage] at call; contradiction
  cases made : h.appended (s.server label.node) (moved.server h.node) tag with
  | none =>
    refine once.keep tagged (by rw [length, list]) (fun i g at_ => ?_) fun origin => ?_
    · obtain ⟨k, old, origin, active, pending⟩ := kept i g at_
      exact ⟨k, old, origin, active, fun open_ => (pending open_).1⟩
    · rw [grown, made, journal]
      split <;> simp
  | some entry =>
    have appending : ∃ command, (s.server label.node).calls tag = some (.propose (.appending command)) ∧
        ∃ number, h.stage = .waiting number := by
      unfold Handler.appended at made
      split at made
      · rename_i number command stage running
        exact ⟨command, running, number, stage⟩
      · contradiction
    obtain ⟨command, running, number', stage⟩ := appending
    obtain rfl : number' = tag := by
      rw [stage] at call
      exact Option.some.inj call
    have pending : s.Pending h := by
      unfold Pending
      rw [stage, node]
      exact ⟨_, running, rfl⟩
    refine once.append tagged entry there pending (by rw [length, list]) (fun i g at_ => ?_) fun origin => ?_
    · obtain ⟨k, old, origin, active, later⟩ := kept i g at_
      refine ⟨k, old, origin, active, fun open_ => ⟨(later open_).1, fun here => ?_⟩⟩
      obtain ⟨other, starting⟩ := (later open_).2 here
      rw [running] at starting
      cases starting
    · rw [grown, made, journal]
      rfl

/-- Every step in which no handler forwards a request that something was appended for. -/
theorem Once.step {action : Action} (once : Once s) (allowed : s.forwardsUnwritten action = true)
    (does : Does json members s action s') : Once s' := by
  have tagged := once.tagged.step does
  -- a step of the cluster that no handler hears of, whatever the loops do
  have unheard : ∀ {label : Label} {moved : Service},
      s.advance json members label = some moved →
      s'.handlers = moved.handlers → s'.journal = moved.journal → s'.traced = moved.traced →
      Once s' := by
    intro label moved advanced handlers journal traced
    obtain ⟨-, list, written, -⟩ := advance_some advanced
    refine once.keep tagged (by rw [handlers, list]) (fun i g found => ?_) fun origin => ?_
    · rw [handlers, list] at found
      refine ⟨g, found, rfl, id, fun pending => ?_⟩
      have before : moved.Pending g := by
        unfold Pending server at pending ⊢
        rwa [traced] at pending
      exact (Pending.back once.tagged advanced found before).1
    · unfold contributions
      rw [journal, written]
  -- a handler goes on while the cluster takes a step
  have handed : ∀ {label : Label} {moved : Service} {number : Nat} {h : Handler} {stage : Stage},
      s.handlers[number]? = some h → s.advance json members label = some moved →
      s' = moved.put number h stage → (stage.active = true → h.stage.active = true) →
      (s'.Pending { h with stage } → s.Pending h) → Once s' := by
    rintro label moved number h stage there advanced rfl active pending
    obtain ⟨-, list, written, -⟩ := advance_some advanced
    refine once.keep tagged (by rw [← list]; exact List.length_set.ge) (fun i g found => ?_) fun origin => ?_
    · rcases put_handlers found with ⟨rfl, rfl⟩ | ⟨-, old⟩
      · exact ⟨h, there, rfl, active, pending⟩
      · rw [list] at old
        exact ⟨g, old, rfl, id, fun pending => (Pending.back once.tagged advanced old pending).1⟩
    · rw [put_contributions]
      unfold contributions
      rw [written]
  cases does with
  | @goes _ number h stage silent there goes =>
    refine once.keep tagged List.length_set.ge (fun i g found => ?_) (s.put_contributions number h stage)
    rcases put_handlers found with ⟨rfl, rfl⟩ | ⟨-, old⟩
    · refine ⟨h, there, rfl, fun active => ?_, fun pending => ?_⟩
      · cases goes with
        | leads at_ _ => rw [at_]; rfl
        | follows at_ => rw [at_]; rfl
        | _ => contradiction
      · unfold Pending
        cases goes with
        | leads at_ _ => rw [at_]; trivial
        | _ => contradiction
    · exact ⟨g, old, rfl, id, id⟩
  | @proposes number h command moved there at_ encoded advanced =>
    refine handed there advanced rfl (fun _ => by rw [at_]; rfl) fun _ => ?_
    unfold Pending
    rw [at_]
    trivial
  | @applies number h entry moved there at_ advanced =>
    exact handed there advanced rfl (fun active => by contradiction) fun pending => by contradiction
  | @forwards number h there at_ known other member =>
    have fresh : s.contributions h.origin = [] := by
      simp only [forwardsUnwritten, there, decide_eq_true_eq] at allowed
      exact allowed at_ known other
    have between : Once (s.put number h (.forwarding s.handlers.length)) := by
      refine once.keep ?_ List.length_set.ge (fun i g found => ?_) (s.put_contributions number h _)
      · refine once.tagged.keep (fun _ => le_refl _) fun i g tag found waits => ?_
        rcases put_handlers found with ⟨-, rfl⟩ | ⟨-, old⟩
        · contradiction
        · exact ⟨g, old, rfl, waits⟩
      · rcases put_handlers found with ⟨rfl, rfl⟩ | ⟨-, old⟩
        · exact ⟨h, there, rfl, fun active => by contradiction, fun pending => by contradiction⟩
        · exact ⟨g, old, rfl, id, id⟩
    refine between.receive tagged rfl ?_ (fun i g found origin => ?_) ?_
    · have low := once.origins number h there
      have inside := (List.getElem?_eq_some_iff.mp there).1
      show h.origin ≤ (s.handlers.set number _).length
      rw [List.length_set]
      omega
    · rcases put_handlers found with ⟨-, rfl⟩ | ⟨elsewhere, old⟩
      · rfl
      · cases active : g.stage.active with
        | false => rfl
        | true =>
          exact absurd (once.single i number g h old there origin active (by rw [at_]; rfl)) elsewhere
    · rw [put_contributions]
      exact fresh
  | @receives node request member =>
    refine once.receive tagged rfl (le_refl _) (fun i g found origin => ?_) ?_
    · have low := once.origins i g found
      have inside := (List.getElem?_eq_some_iff.mp found).1
      omega
    · refine List.eq_nil_iff_forall_not_mem.mpr fun entry listed => ?_
      exact absurd (once.written _ entry (mem_contributions listed)) (lt_irrefl _)
  | @hears label moved number tag h own advanced waits there =>
    exact once.hear tagged own advanced waits there rfl
  | @hearsLoop label moved tag own advanced alone =>
    obtain ⟨loops, same, -⟩ := moved.hearLoop_some label.node (s.server label.node) tag
      (moved.traced.cluster.observed.drop s.traced.cluster.observed.length)
    exact unheard advanced (by rw [same]) (by rw [same]) (by rw [same])
  | happens background other going advanced => exact unheard advanced rfl rfl rfl
  | @crashes node moved advanced =>
    obtain ⟨-, list, written, -⟩ := advance_some advanced
    refine once.keep tagged (by rw [List.length_map, list]) (fun i g found => ?_) fun origin => ?_
    · obtain ⟨h, there, rfl⟩ := lose_handlers found
      rw [list] at there
      refine ⟨h, there, ?_, fun active => ?_, fun pending => ?_⟩
      · unfold Handler.lose
        split <;> rfl
      · unfold Handler.lose at active
        split at active
        · contradiction
        · exact active
      · unfold Handler.lose at pending
        split at pending
        · contradiction
        · exact (Pending.back once.tagged advanced there pending).1
    · unfold contributions
      rw [written]
  | turns silent from_ taken =>
    exact once.keep tagged (le_refl _) (fun i g found => ⟨g, found, rfl, id, id⟩) fun _ => rfl
  | begins at_ advanced => exact unheard advanced rfl rfl rfl
  | compacts at_ next advanced => exact unheard advanced rfl rfl rfl

/-- In every run in which a handler forwards a request only when nothing was appended for it, a request
adds at most one entry to the committed log. -/
theorem write_committed_once
    (run : Reach (Service.step json members) (fun s action => s.forwardsUnwritten action = true)
      (.initial members) s) (origin : Nat) :
    ((s.contributions origin).filter (s.isCommitted members)).length ≤ 1 := by
  have start : Once (.initial members) := {
    tagged := ⟨by simp [initial], by simp [initial]⟩
    origins := by simp [initial]
    written := by simp [initial]
    single := by simp [initial]
    unspent := by simp [initial]
    once := by simp [initial, contributions] }
  have once : Once s := run.invariant start fun _ _ _ once allowed stepped =>
    once.step allowed (step_does stepped)
  exact le_trans (List.length_filter_le _ _) (once.once origin)

end

/-- The command of `PUT /kv/a` with the body `1`. -/
def putLetter : Bytes := wire.marshalCommand ⟨.put, [97], [49]⟩

/-- `A` leads term 1 and `B` knows it. A client sends a write to `B`, whose proposal is refused before
it appends anything; the handler forwards the write, and `A` commits it with `B`. -/
def forwardedWrite : List Action :=
  ofLabels (Label.campaign "A" 0 1 0 0 [("B", 0)] ++ [⟨"A", .start .replicate⟩] ++
    Label.sections "A" 1 5 ++
    [⟨"B", .serve ⟨"A", "B", 1, .appendRequest ⟨1, "A", 0, 0, [], 0⟩⟩ true⟩]) ++
  [.receive "B" (.write (.put [97] [49])), .handle 0] ++ ofLabels (Label.sections "B" 0 1) ++
  [.handle 0, .handle 1] ++
  ofLabels (Label.sections "A" 2 9 ++
    Label.rpc "A" "B" 2 (.appendRequest ⟨1, "A", 0, 0, [⟨1, 1, putLetter⟩], 0⟩)
      (.appendResponse ⟨1, "A", 0, 0, [⟨1, 1, putLetter⟩], 0⟩ ⟨1, true⟩) ++ Label.sections "A" 2 1)

/-- A write that is forwarded before anything was appended is committed once. -/
theorem write_committed_once_forwarded : ∃ s : Service,
    Reach (Service.step wire threeNodes) (fun s action => s.forwardsUnwritten action = true)
      (.initial threeNodes) s ∧
      (s.contributions 0).filter (s.isCommitted threeNodes) = [⟨1, 1, putLetter⟩] ∧
      ((s.contributions 0).filter (s.isCommitted threeNodes)).length ≤ 1 := by
  have passed : (Transition.exec (Service.step wire threeNodes)
      (fun s action => s.forwardsUnwritten action = true) (.initial threeNodes) forwardedWrite).any
        (fun s => decide ((s.contributions 0).filter (s.isCommitted threeNodes) =
          [⟨1, 1, putLetter⟩])) = true := by
    decide +kernel
  obtain ⟨s, run, test⟩ := Reach.of_exec_test passed
  exact ⟨s, run, of_decide_eq_true test, write_committed_once run 0⟩

/-- `A` leads term 1. The proposal of a write at `A` appends its entry, `B` accepts it, and `A` hears of
nobody. `B` is elected in term 2 and its heartbeat deposes `A`, whose proposal now returns
`ErrNotLeader`: the handler forwards the write, and `B` commits it a second time, with the first. -/
def deposedWrite : List Action :=
  ofLabels (Label.campaign "A" 0 1 0 0 [("B", 0)]) ++
  [.receive "A" (.write (.put [97] [49])), .handle 0] ++
  ofLabels (Label.sections "A" 1 9 ++
    [⟨"B", .serve ⟨"A", "B", 1, .appendRequest ⟨1, "A", 0, 0, [⟨1, 1, putLetter⟩], 0⟩⟩ true⟩,
      ⟨"A", .failure 1 "B"⟩, ⟨"A", .failure 1 "C"⟩] ++ Label.sections "A" 1 2 ++
    Label.campaign "B" 0 2 1 1 [("C", 0)] ++
    [⟨"B", .start .replicate⟩] ++ Label.sections "B" 1 5 ++
    [⟨"A", .serve ⟨"B", "A", 1, .appendRequest ⟨2, "B", 1, 1, [], 0⟩⟩ true⟩] ++
    Label.sections "A" 1 3) ++
  [.handle 0, .handle 1] ++
  ofLabels (Label.sections "B" 2 9 ++
    Label.rpc "B" "A" 2 (.appendRequest ⟨2, "B", 1, 1, [⟨2, 2, putLetter⟩], 0⟩)
      (.appendResponse ⟨2, "B", 1, 1, [⟨2, 2, putLetter⟩], 0⟩ ⟨2, true⟩) ++ Label.sections "B" 2 1)

/-- A write whose proposal is refused after it has appended its entry is committed twice, although saves
succeed, membership is fixed, nothing wraps and each node has one applier. -/
theorem deposed_write_committed_twice : ∃ s : Service,
    Reach (Service.step wire threeNodes)
      (fun s action => s.under wire (fun t label =>
        Raft.Assumed wire.unmarshalMembership t.cluster label) action) (.initial threeNodes) s ∧
      (s.contributions 0).filter (s.isCommitted threeNodes) =
        [⟨1, 1, putLetter⟩, ⟨2, 2, putLetter⟩] := by
  have passed : (Transition.exec (Service.step wire threeNodes)
      (fun s action => s.under wire (fun t label =>
        Raft.Assumed wire.unmarshalMembership t.cluster label) action) (.initial threeNodes)
      deposedWrite).any (fun s => decide ((s.contributions 0).filter (s.isCommitted threeNodes) =
        [⟨1, 1, putLetter⟩, ⟨2, 2, putLetter⟩])) = true := by
    decide +kernel
  obtain ⟨s, run, test⟩ := Reach.of_exec_test passed
  exact ⟨s, run, of_decide_eq_true test⟩

end Service
