import RvKeyValue.Raft.Types

/-!
# Membership commands

`raft/membership.go`. The JSON text of a command is read by a parameter `unmarshal`, which
stands for `json.Unmarshal` into a `membershipCommand`: `none` when it returns an error.
-/

namespace Raft

/-- `MembershipChangeType` — the two known strings, or any other. -/
inductive MembershipChangeType
  /-- `add_peer`. -/
  | addPeer
  /-- `remove_peer`. -/
  | removePeer
  /-- A string the code does not know. -/
  | unsupported (text : String)
deriving DecidableEq, Repr

/-- `MembershipChange`. -/
structure MembershipChange where
  /-- What happens to the peer. -/
  type : MembershipChangeType
  /-- The peer. -/
  peerID : NodeId
deriving DecidableEq, Repr

/-- `membershipCommand` — the JSON form of a change. -/
structure MembershipCommand where
  /-- Marks the command as a membership change. -/
  operation : String
  /-- What happens to the peer. -/
  type : MembershipChangeType
  /-- The peer. -/
  peerID : NodeId
deriving DecidableEq, Repr

/-- `membershipCommandOperation`. -/
def membershipCommandOperation : String := "raft_membership"

/-- `unicode.IsSpace`. -/
def isSpace (char : Char) : Bool :=
  let code := char.toNat
  (9 ≤ code && code ≤ 13) || code == 0x20 || code == 0x85 || code == 0xA0 || code == 0x1680 ||
    (0x2000 ≤ code && code ≤ 0x200a) || code == 0x2028 || code == 0x2029 || code == 0x202f ||
    code == 0x205f || code == 0x3000

/-- `strings.TrimSpace`. -/
def trimSpace (text : String) : String :=
  String.ofList ((text.toList.dropWhile isSpace).reverse.dropWhile isSpace).reverse

/-- `MembershipChange.Validate`. -/
def MembershipChange.validate (change : MembershipChange) : Except RaftError Unit :=
  if trimSpace change.peerID = "" then .error (.membership "membership peer id is required")
  else if trimSpace change.peerID ≠ change.peerID then
    .error (.membership "membership peer id must not contain surrounding whitespace")
  else
    match change.type with
    | .addPeer | .removePeer => .ok ()
    | .unsupported text => .error (.membership ("unsupported membership change " ++ text.quote))

/-- `DecodeMembershipChange` — `none` when the data is no membership command, otherwise the
change or the reason it is invalid. -/
def decodeMembershipChange (unmarshal : Bytes → Option MembershipCommand) (data : Bytes) :
    Option (Except RaftError MembershipChange) :=
  match unmarshal data with
  | none => none
  | some command =>
    if command.operation ≠ membershipCommandOperation then none
    else
      let change : MembershipChange := ⟨command.type, command.peerID⟩
      match change.validate with
      | .error err => some (.error err)
      | .ok () => some (.ok change)

/-- No command is a membership command. -/
def plainCommands : Bytes → Option MembershipCommand := fun _ => none

/-- The bytes of an ASCII text. -/
def asciiBytes (text : String) : Bytes := text.toList.map fun char => char.toNat.toUInt8

/-- The string that stands for a type. -/
def MembershipChangeType.text : MembershipChangeType → String
  | addPeer => "add_peer"
  | removePeer => "remove_peer"
  | unsupported text => text

/-- What `EncodeMembershipChange` makes of a valid change of a peer whose id is plain ASCII without
quotes. -/
def membershipJson (change : MembershipChange) : Bytes :=
  asciiBytes "\x7b\"operation\":\"raft_membership\",\"type\":\"" ++ asciiBytes change.type.text ++
    asciiBytes "\",\"peer_id\":\"" ++ asciiBytes change.peerID ++ asciiBytes "\"\x7d"

/-- A reader that knows the JSON texts of some changes and takes everything else for another
command. -/
def readsChanges (changes : List MembershipChange) (data : Bytes) : Option MembershipCommand :=
  (changes.find? fun change => membershipJson change = data).map fun change =>
    ⟨membershipCommandOperation, change.type, change.peerID⟩

end Raft
