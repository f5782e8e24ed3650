import RvKeyValue.Base.Utf8
import RvKeyValue.Raft.Membership

/-!
# Commands of the key-value store

`store/kv_command.go`. A key is a Go string, so any bytes. `encoding/json` is a parameter: `Json` has
the calls the store makes and what is assumed of them.
-/

namespace Store

open Raft (Bytes LogEntry MembershipCommand)

/-- `Operation` — the three known strings, or any other. -/
inductive Operation
  /-- `put`. -/
  | put
  /-- `delete`. -/
  | delete
  /-- `noop`. -/
  | noop
  /-- A string the code does not know. -/
  | unsupported (text : String)
deriving DecidableEq, Repr

/-- The string that stands for an operation. -/
def Operation.text : Operation → String
  | put => "put"
  | delete => "delete"
  | noop => "noop"
  | unsupported text => text

/-- `Command`. An absent value and an empty one are the same. -/
structure Command where
  /-- What to do. -/
  operation : Operation
  /-- The key. -/
  key : Bytes
  /-- The value of a put. -/
  value : Bytes
deriving DecidableEq, Repr

/-- Errors of the store. -/
inductive KVError
  /-- `Command.Validate` refuses the command. -/
  | command (text : String)
  /-- `json.Unmarshal` returns an error. -/
  | unmarshal
  /-- The database refuses a key or a value. -/
  | bolt (text : String)
deriving DecidableEq, Repr

/-- `Command.Validate`. -/
def Command.validate (c : Command) : Except KVError Unit :=
  if c.operation = .noop then .ok ()
  else if c.key = [] then .error (.command "kv command key is required")
  else
    match c.operation with
    | .put | .delete => .ok ()
    | other => .error (.command ("unsupported kv operation " ++ other.text.quote))

/-- `map[string][]byte`. -/
abbrev KVMap := Std.ExtTreeMap Bytes Bytes compare

/-- What the store uses of `encoding/json`: `Marshal` and `Unmarshal` for commands and for maps, and
what `Unmarshal` into a `membershipCommand` makes of a command. -/
structure Json where
  /-- `json.Marshal` of a command. -/
  marshalCommand : Command → Bytes
  /-- `json.Unmarshal` into a new command. -/
  unmarshalCommand : Bytes → Option Command
  /-- `json.Unmarshal` into a new `membershipCommand`. -/
  unmarshalMembership : Bytes → Option MembershipCommand
  /-- `json.Marshal` of a map. -/
  marshalMap : KVMap → Bytes
  /-- `json.Unmarshal` into a new map. -/
  unmarshalMap : Bytes → Option KVMap
  /-- A command comes back with every byte of its key that is not UTF-8 replaced. -/
  command_roundtrip : ∀ c : Command, c.validate = .ok () →
    unmarshalCommand (marshalCommand c) = some { c with key := Utf8.toValid c.key }
  /-- What is read as a string is UTF-8. -/
  command_valid : ∀ data c, unmarshalCommand data = some c → Utf8.valid c.key = true
  /-- The field both kinds of commands have is read by both. -/
  membership_operation : ∀ c : Command, c.validate = .ok () → ∃ command : MembershipCommand,
    unmarshalMembership (marshalCommand c) = some command ∧ command.operation = c.operation.text
  /-- A map whose keys are UTF-8 comes back. -/
  map_roundtrip : ∀ data : KVMap, (∀ key ∈ data, Utf8.valid key = true) →
    unmarshalMap (marshalMap data) = some data
  /-- The text of a map is not empty. -/
  map_text : ∀ data, marshalMap data ≠ []

section

variable (json : Json)

/-- `EncodeCommand`. -/
def encodeCommand (c : Command) : Except KVError Bytes :=
  match c.validate with
  | .error err => .error err
  | .ok () => .ok (json.marshalCommand c)

/-- `DecodeCommand`. -/
def decodeCommand (data : Bytes) : Except KVError Command :=
  match json.unmarshalCommand data with
  | none => .error .unmarshal
  | some c =>
    match c.validate with
    | .error err => .error err
    | .ok () => .ok c

end

section

variable {json : Json}

/-- Replacing bytes leaves no key empty. -/
theorem toValid_ne_nil {key : Bytes} (some : key ≠ []) : Utf8.toValid key ≠ [] := by
  intro empty
  have length := (Utf8.copyRunes_length 0 key).1
  have none : (Utf8.copyRunes 0 key).length = 0 := congrArg List.length empty
  exact some (List.length_eq_zero_iff.mp (by omega))

/-- A put or a delete is valid when it has a key. -/
theorem validate_keyed {c : Command} (known : c.operation = .put ∨ c.operation = .delete)
    (some : c.key ≠ []) : c.validate = .ok () := by
  unfold Command.validate
  rcases known with op | op
  · rw [op, if_neg (by decide), if_neg some]
  · rw [op, if_neg (by decide), if_neg some]

/-- What a command that was encoded is decoded to. -/
theorem decode_encode {c : Command} (known : c.operation = .put ∨ c.operation = .delete)
    (some : c.key ≠ []) : encodeCommand json c = .ok (json.marshalCommand c) ∧
      decodeCommand json (json.marshalCommand c) = .ok { c with key := Utf8.toValid c.key } := by
  have sound := validate_keyed known some
  have read : Command.validate { c with key := Utf8.toValid c.key } = .ok () :=
    validate_keyed known (toValid_ne_nil some)
  unfold encodeCommand decodeCommand
  rw [sound, json.command_roundtrip c sound]
  dsimp only
  rw [read]
  exact ⟨rfl, rfl⟩

/-- A decoded command is valid, and its key is UTF-8. -/
theorem decodeCommand_sound {data : Bytes} {c : Command} (decoded : decodeCommand json data = .ok c) :
    c.validate = .ok () ∧ Utf8.valid c.key = true := by
  unfold decodeCommand at decoded
  split at decoded
  · cases decoded
  · rename_i found read
    split at decoded
    · cases decoded
    · rename_i sound
      obtain rfl := Except.ok.inj decoded
      exact ⟨sound, json.command_valid data found read⟩

end

end Store
