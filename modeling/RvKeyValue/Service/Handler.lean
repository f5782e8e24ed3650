import RvKeyValue.Cluster.Applied
import RvKeyValue.Store.Admission

/-!
# The handlers of the client API

`client/http.go`. A handler runs at one node. It calls `ProposeWithRetryInterval` and
`ApplyCommitted` of that node and waits until they return, or it sends its request on to another
node and waits for the response of the handler there. Where a handler stands is the point it has
reached together with what it waits for.
-/

namespace Service

open Raft (Bytes NodeId LogEntry RaftError Server Record)
open Store (Command ClientWrite acceptsKey)

/-- A request under `/kv/`. -/
inductive Request
  /-- `GET`. -/
  | get (key : Bytes)
  /-- `PUT` or `DELETE`. -/
  | write (write : ClientWrite)
deriving DecidableEq, Repr

/-- What a handler answers. -/
inductive Response
  /-- 200 with the value. -/
  | value (bytes : Bytes)
  /-- 204. -/
  | noContent
  /-- A status with a text of the handlers. -/
  | error (status : Nat) (text : String)
  /-- 500 with the text of an error: of a proposal, or absent for one of `ApplyCommitted`. -/
  | internal (err : Option RaftError)
  /-- 502 with the text of the error of `Forward`. -/
  | badGateway
  /-- The context of a proposal has ended: 504 with a text of the handlers if its deadline has passed, 500
  with the text of the context's error if the client has gone. -/
  | expired (text : String)
  /-- An error response of another node, as `Forward` passes it on. -/
  | relayed (response : Response)
deriving DecidableEq, Repr

/-- `maxForwardResponseBytes`. -/
def maxForwardResponseBytes : Nat := 65536

/-- The response `forwardToLeader` passes on: `Forward` cuts the body, and the status stays. The bodies
of errors are texts, which stand here as the error they show. -/
def Response.forwarded : Response → Response
  | value bytes => value (bytes.take maxForwardResponseBytes)
  | noContent => noContent
  | response => relayed response

/-- A 204 is passed on only for a 204. -/
theorem Response.forwarded_eq_noContent {response : Response}
    (passed : response.forwarded = .noContent) : response = .noContent := by
  cases response with
  | noContent => rfl
  | _ => cases passed

/-- What `handleGet` answers with what the map has at the key. -/
def Response.read : Option Bytes → Response
  | some bytes => value bytes
  | none => error 404 "not found"

/-- Where a handler stands. -/
inductive Stage
  /-- Before the role check of `handleGet`. -/
  | checking
  /-- Before `ProposeWithRetryInterval`. -/
  | proposing
  /-- `ProposeWithRetryInterval` runs as a call of the node. -/
  | waiting (tag : Nat)
  /-- Before `forwardToLeader`. -/
  | refused
  /-- `Forward` waits for the response of another handler. -/
  | forwarding (target : Nat)
  /-- Before `ApplyCommitted`, with the entry the proposal returned. -/
  | committed (entry : LogEntry)
  /-- `ApplyCommitted` runs as a call of the node. -/
  | applying (entry : LogEntry) (tag : Nat)
  /-- Before `Get` of the state machine. -/
  | reading (entry : LogEntry)
  /-- The response is written. -/
  | answered (response : Response)
  /-- The process stopped before that. -/
  | lost
deriving DecidableEq, Repr

/-- The call a handler waits for. -/
def Stage.call : Stage → Option Nat
  | waiting tag => some tag
  | applying _ tag => some tag
  | _ => none

/-- The response that was written. -/
def Stage.response : Stage → Option Response
  | answered response => some response
  | _ => none

/-- A handler. -/
structure Handler where
  /-- The node it runs at. -/
  node : NodeId
  /-- The handler that was given the request by the client. -/
  origin : Nat
  /-- The request. -/
  request : Request
  /-- Where it stands. -/
  stage : Stage
deriving DecidableEq, Repr

namespace Request

/-- The command a handler proposes for a request: a read proposes a no-op. -/
def command : Request → Command
  | get _ => ⟨.noop, [], []⟩
  | write asked => asked.command

/-- The checks of `handleKV` and `handlePut`. -/
def refusal : Request → Option Response
  | get key => if acceptsKey key then none else some (.error 400 "invalid key")
  | write asked =>
    if asked.admitted then none
    else if acceptsKey asked.command.key then some (.error 413 "request body too large")
    else some (.error 400 "invalid key")

/-- Where a handler stands when it has read its request. -/
def enter (request : Request) : Stage :=
  match request.refusal with
  | some response => .answered response
  | none =>
    match request with
    | get _ => .checking
    | write _ => .proposing

end Request

/-- How a call a handler waited for has returned. -/
inductive Ending
  /-- A proposal returned its entry. -/
  | returned (entry : LogEntry)
  /-- A proposal returned an error, absent for the context's. -/
  | failed (err : Option RaftError)
  /-- `ApplyCommitted` returned nil. -/
  | applied
  /-- `ApplyCommitted` returned an error. -/
  | stopped
deriving DecidableEq, Repr

/-- How a call has returned in a step, given what the step showed. `ApplyCommitted` returns nil when it
finds nothing to fetch. -/
def ending (before after : Server) (tag : Nat) (shown : List Record) : Option Ending :=
  if (after.calls tag).isSome then none
  else
    match before.calls tag with
    | some (.apply .fetching) => some .applied
    | some (.apply _) => some .stopped
    | _ =>
      match shown with
      | [⟨_, _, .returned entry⟩] => some (.returned entry)
      | [⟨_, _, .failed err⟩] => some (.failed err)
      | _ => none

/-- The entry that the proposal a handler waits for has appended in a step. -/
def Handler.appended (h : Handler) (before after : Server) (tag : Nat) : Option LogEntry :=
  match h.stage, before.calls tag with
  | .waiting _, some (.propose (.appending _)) =>
    if before.node.log.length < after.node.log.length then after.node.log.getLast? else none
  | _, _ => none

/-- How `proposeAndApply`, or `handleGet` after `readBarrier`, goes on with an error of a proposal. -/
def Request.failed : Request → Option RaftError → Stage
  | write _, some (.notLeader _) => .refused
  | write _, none => .answered (.expired "proposal timed out")
  | get _, some (.notLeader _) => .answered (.error 409 "not leader")
  | get _, none => .answered (.expired "read timed out")
  | _, some err => .answered (.internal (some err))

/-- How a handler goes on when the call it waits for has returned. -/
def Handler.resume (h : Handler) (ended : Ending) : Stage :=
  match h.stage, ended with
  | .waiting _, .returned entry => .committed entry
  | .waiting _, .failed err => h.request.failed err
  | .applying entry _, .applied =>
    match h.request with
    | .get _ => .reading entry
    | .write _ => .answered .noContent
  | .applying _ _, .stopped => .answered (.internal none)
  | stage, _ => stage

/-- The process of a handler stops: a response that is not written is lost. -/
def Handler.lose (node : NodeId) (h : Handler) : Handler :=
  if h.node = node ∧ h.stage.response = none then { h with stage := .lost } else h

end Service
