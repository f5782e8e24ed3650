import RvKeyValue.Service.Reads

/-!
# Reads through a follower

`handleGet` of a node that does not lead sends the request to the node it takes for the leader and
passes the response on. `Forward` reads the body of the response through a limit and cuts it silently,
under the status of the leader. `handlePut` takes values up to a limit of its own, which is larger.
-/

namespace Service

open Raft (Bytes NodeId LogEntry RaftError Server Members Label threeNodes)
open Store
open Transition (Reach)

/-- What a client receives, without the header. -/
structure HttpResponse where
  /-- The status code. -/
  status : Nat
  /-- The body. -/
  body : Bytes
deriving DecidableEq, Repr

/-- `Forward`, from the response of the leader on. The body is read through `io.LimitReader` up to one
byte more than the limit. -/
def forward (response : HttpResponse) : HttpResponse :=
  let respBody := response.body.take (maxForwardResponseBytes + 1)
  { response with
    body := if maxForwardResponseBytes < respBody.length then respBody.take maxForwardResponseBytes
      else respBody }

/-- `Forward` keeps the status and the first bytes of the body. -/
theorem forward_eq (response : HttpResponse) :
    forward response = { response with body := response.body.take maxForwardResponseBytes } := by
  unfold forward
  dsimp only
  split
  · rw [List.take_take, Nat.min_eq_left (Nat.le_succ _)]
  · rename_i short
    rw [List.length_take] at short
    rw [List.take_of_length_le (by omega), List.take_of_length_le (by omega)]

/-- `Forward` passes a response on as it is exactly when its body is within the limit. -/
theorem forward_eq_self_iff (response : HttpResponse) :
    forward response = response ↔ response.body.length ≤ maxForwardResponseBytes := by
  rw [forward_eq]
  constructor
  · intro same
    have body := congrArg HttpResponse.body same
    exact (List.take_eq_self_iff _).mp body
  · intro short
    rw [List.take_of_length_le short]

/-- The texts of errors that are not the handlers' own. -/
structure Texts where
  /-- Of a proposal or of `ApplyCommitted`. -/
  internal : Option RaftError → Bytes
  /-- Of `Forward`. -/
  gateway : Bytes
  /-- Of a context that was cancelled, absent where the deadline has passed. -/
  cancelled : Option Bytes := none

/-- The status code and the body a handler writes. `http.Error` adds a line feed. -/
def Response.http (texts : Texts) : Response → HttpResponse
  | value bytes => ⟨200, bytes⟩
  | noContent => ⟨204, []⟩
  | error status text => ⟨status, text.toUTF8.toList ++ [10]⟩
  | internal err => ⟨500, texts.internal err ++ [10]⟩
  | badGateway => ⟨502, texts.gateway ++ [10]⟩
  | expired text =>
    match texts.cancelled with
    | none => ⟨504, text.toUTF8.toList ++ [10]⟩
    | some shown => ⟨500, shown ++ [10]⟩
  | relayed response => forward (response.http texts)

/-- What is passed on is what `Forward` makes of the response. -/
theorem Response.http_forwarded (response : Response) (texts : Texts) :
    response.forwarded.http texts = forward (response.http texts) := by
  cases response with
  | value bytes => exact (forward_eq ⟨200, bytes⟩).symm
  | noContent => exact (forward_eq ⟨204, []⟩).symm
  | _ => rfl

section

variable {json : Json} {members : Members} {s s' : Service} {action : Action}

/-- How a handler comes to a stage in a step. -/
inductive Comes (s s' : Service) (h : Handler) : Stage → Prop
  /-- It stays. -/
  | stays : Comes s s' h h.stage
  /-- It goes on alone. -/
  | goes {stage : Stage} (goes : Goes s h stage) : Comes s s' h stage
  /-- It starts a call. -/
  | calls {stage : Stage} {tag : Nat} (waits : stage.call = some tag) : Comes s s' h stage
  /-- It sends its request on, to a handler that is given it in this step. -/
  | sends {target : Nat} {other : Handler} (there : s'.handlers[target]? = some other)
      (same : other.request = h.request) : Comes s s' h (.forwarding target)
  /-- The call it waited for has returned. -/
  | hears {ended : Ending} : Comes s s' h (h.resume ended)
  /-- Its process stops. -/
  | stops : Comes s s' h .lost

/-- A handler after a step was there before, for the same request, or has just been given it. -/
def Origin (s s' : Service) (id : Nat) (g : Handler) : Prop :=
  (∃ h, s.handlers[id]? = some h ∧ g.request = h.request ∧ Comes s s' h g.stage) ∨
    s.handlers.length ≤ id ∧ g.stage = g.request.enter

/-- A handler that is given its request is the last of the list. -/
theorem receive_last (s : Service) (node : NodeId) (origin : Nat) (request : Request) :
    (s.receive node origin request).handlers[s.handlers.length]? =
      some ⟨node, origin, request, request.enter⟩ := List.getElem?_concat_length

/-- A handler that moves in a step, or one beside it. -/
theorem Origin.put {moved : Service} {number id : Nat} {h g : Handler} {stage : Stage}
    (list : moved.handlers = s.handlers) (there : s.handlers[number]? = some h)
    (comes : Comes s s' h stage) (found : (moved.put number h stage).handlers[id]? = some g) :
    Origin s s' id g := by
  rcases put_handlers found with ⟨rfl, rfl⟩ | ⟨-, old⟩
  · exact Or.inl ⟨h, there, rfl, comes⟩
  · rw [list] at old
    exact Or.inl ⟨g, old, rfl, .stays⟩

/-- Where the handlers after a step come from. -/
theorem Does.origin (does : Does json members s action s') {id : Nat} {g : Handler}
    (found : s'.handlers[id]? = some g) : Origin s s' id g := by
  have same : ∀ {list : List Handler}, list = s.handlers → list[id]? = some g → Origin s s' id g :=
    fun equal old => Or.inl ⟨g, equal ▸ old, rfl, .stays⟩
  cases does with
  | goes silent there goes => exact Origin.put rfl there (.goes goes) found
  | proposes there stands encoded advanced =>
    exact Origin.put (advance_some advanced).2.1 there (.calls rfl) found
  | applies there stands advanced =>
    exact Origin.put (advance_some advanced).2.1 there (.calls rfl) found
  | @forwards number h there stands known other member =>
    have length : (s.put number h (.forwarding s.handlers.length)).handlers.length =
      s.handlers.length := List.length_set
    rcases receive_handlers found with old | ⟨last, rfl⟩
    · have sent := receive_last (s.put number h (.forwarding s.handlers.length))
        (s.server h.node).node.leaderID h.origin h.request
      rw [length] at sent
      exact Origin.put rfl there (.sends sent rfl) old
    · exact Or.inr ⟨by omega, rfl⟩
  | receives member =>
    rcases receive_handlers found with old | ⟨last, rfl⟩
    · exact same rfl old
    · exact Or.inr ⟨by omega, rfl⟩
  | @hears label moved number tag h own advanced waits there =>
    obtain ⟨-, -, -, -, handlers⟩ := moved.hear_some number h (s.server label.node) tag
      (moved.traced.cluster.observed.drop s.traced.cluster.observed.length)
    rcases handlers id g found with ⟨rfl, ended, -, rfl⟩ | ⟨old, -⟩
    · exact Or.inl ⟨h, there, rfl, .hears⟩
    · exact same (advance_some advanced).2.1 old
  | @hearsLoop label moved tag own advanced alone =>
    obtain ⟨loops, heard, -⟩ := moved.hearLoop_some label.node (s.server label.node) tag
      (moved.traced.cluster.observed.drop s.traced.cluster.observed.length)
    rw [heard] at found
    exact same (advance_some advanced).2.1 found
  | happens background other going advanced => exact same (advance_some advanced).2.1 found
  | @crashes node moved advanced =>
    obtain ⟨h, there, rfl⟩ := lose_handlers found
    rw [(advance_some advanced).2.1] at there
    refine Or.inl ⟨h, there, ?_⟩
    unfold Handler.lose
    split
    · exact ⟨rfl, .stops⟩
    · exact ⟨rfl, .stays⟩
  | turns => exact same rfl found
  | begins stands advanced => exact same (advance_some advanced).2.1 found
  | compacts stands next advanced => exact same (advance_some advanced).2.1 found

/-- No handler is taken from the list. -/
theorem Does.longer (does : Does json members s action s') :
    s.handlers.length ≤ s'.handlers.length := by
  have same : ∀ {label : Label} {moved : Service}, s.advance json members label = some moved →
      s.handlers.length = moved.handlers.length :=
    fun advanced => by rw [(advance_some advanced).2.1]
  cases does with
  | goes => exact List.length_set.ge
  | proposes there stands encoded advanced => exact ((same advanced).trans List.length_set.symm).le
  | applies there stands advanced => exact ((same advanced).trans List.length_set.symm).le
  | forwards =>
    simp only [Service.receive, Service.put, List.length_append, List.length_set]
    omega
  | receives =>
    simp only [Service.receive, List.length_append]
    omega
  | @hears label moved number tag h own advanced waits there =>
    obtain ⟨-, -, -, length, -⟩ := moved.hear_some number h (s.server label.node) tag
      (moved.traced.cluster.observed.drop s.traced.cluster.observed.length)
    exact ((same advanced).trans length.symm).le
  | @hearsLoop label moved tag own advanced alone =>
    obtain ⟨loops, heard, -⟩ := moved.hearLoop_some label.node (s.server label.node) tag
      (moved.traced.cluster.observed.drop s.traced.cluster.observed.length)
    rw [heard]
    exact (same advanced).le
  | happens background other going advanced => exact (same advanced).le
  | crashes advanced => exact ((same advanced).trans (List.length_map _).symm).le
  | turns => exact le_refl _
  | begins stands advanced => exact (same advanced).le
  | compacts stands next advanced => exact (same advanced).le

/-- A handler stays in the list, for its request. -/
theorem Does.keeps (does : Does json members s action s') {id : Nat} {h : Handler}
    (there : s.handlers[id]? = some h) :
    ∃ g, s'.handlers[id]? = some g ∧ g.request = h.request := by
  have inside := (List.getElem?_eq_some_iff.mp there).1
  obtain ⟨g, later⟩ : ∃ g, s'.handlers[id]? = some g :=
    ⟨_, List.getElem?_eq_getElem (inside.trans_le does.longer)⟩
  refine ⟨g, later, ?_⟩
  rcases does.origin later with ⟨before, found, same, -⟩ | ⟨outside, -⟩
  · obtain rfl := Option.some.inj (there.symm.trans found)
    exact same
  · omega

/-- Requests are sent on as they are. -/
def Relays (s : Service) : Prop :=
  ∀ (id target : Nat) (h : Handler), s.handlers[id]? = some h → h.stage = .forwarding target →
    ∃ other, s.handlers[target]? = some other ∧ other.request = h.request

/-- A call that returns sends nothing on. -/
theorem resume_forwarding {h : Handler} {ended : Ending} {target : Nat}
    (sends : h.resume ended = .forwarding target) : h.stage = .forwarding target := by
  unfold Handler.resume at sends
  split at sends
  · cases sends
  · unfold Request.failed at sends
    split at sends <;> cases sends
  · split at sends <;> cases sends
  · cases sends
  · exact sends

/-- A request that was sent on stays with its handler. -/
theorem Relays.step (relays : Relays s) (does : Does json members s action s') : Relays s' := by
  intro id target g found stands
  rcases does.origin found with ⟨h, there, same, comes⟩ | ⟨-, entered⟩
  · have kept : h.stage = .forwarding target →
        ∃ other, s'.handlers[target]? = some other ∧ other.request = g.request := by
      intro sent
      obtain ⟨other, among, asked⟩ := relays id target h there sent
      obtain ⟨later, stays, still⟩ := does.keeps among
      exact ⟨later, stays, (still.trans asked).trans same.symm⟩
    rw [stands] at comes
    generalize stage : Stage.forwarding target = reached at comes
    cases comes with
    | stays => exact kept stage.symm
    | goes goes => cases goes <;> cases stage
    | calls waits =>
      subst stage
      cases waits
    | sends among asked =>
      cases stage
      exact ⟨_, among, asked.trans same.symm⟩
    | hears => exact kept (resume_forwarding stage.symm)
    | stops => cases stage
  · rw [stands] at entered
    unfold Request.enter at entered
    split at entered
    · cases entered
    · split at entered <;> cases entered

/-- Every process has been started on an empty store and a database with some contents. -/
def startedOver (members : Members) (data : NodeId → KVMap) : Service :=
  { Service.initial members with machines := fun id => .newBoltKVStateMachine (some (data id)) }

end

/-- The database of `A` has a value at the key `a`, the others are empty. -/
def holding (value : Bytes) : NodeId → KVMap :=
  fun id => if id = "A" then (∅ : KVMap).insert [97] value else ∅

/-- The request with the no-op of the read. -/
def barrierRequest : Raft.AppendEntriesRequest := ⟨1, "A", 0, 0, [barrierAt 1 1], 0⟩

/-- `A` leads term 1, and `B` knows it. The key is read at `B`, which sends the request to `A`; `A` commits
the no-op with `B`, applies it, reads its map and answers. -/
def readThroughFollower : List Action :=
  ofLabels (Label.campaign "A" 0 1 0 0 [("B", 0)] ++ [⟨"A", .start .replicate⟩] ++
    Label.sections "A" 1 5 ++
    [⟨"B", .serve ⟨"A", "B", 1, .appendRequest ⟨1, "A", 0, 0, [], 0⟩⟩ true⟩]) ++
  [.receive "B" (.get [97]), .handle 0, .handle 0, .handle 1, .handle 1] ++
  ofLabels (Label.sections "A" 2 9 ++
    Label.rpc "A" "B" 2 (.appendRequest barrierRequest) (.appendResponse barrierRequest ⟨1, true⟩) ++
    Label.sections "A" 2 3) ++
  [.handle 1] ++ ofLabels (Label.sections "A" 3 4) ++ [.handle 1]

/-- A value of 65537 bytes was answered. -/
def Stage.answersLong : Stage → Bool
  | answered (.value bytes) => decide ((bytes.drop maxForwardResponseBytes).length = 1)
  | _ => false

/-- The handler at `B` waits for the one at `A`, which has answered with such a value. -/
def waitsForLong (s : Service) : Bool :=
  s.handlers[0]?.any (fun h => decide (h.request = .get [97] ∧ h.stage = .forwarding 1)) &&
    s.handlers[1]?.any fun other => decide (other.request = .get [97]) && other.stage.answersLong

end Service
