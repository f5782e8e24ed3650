import RvKeyValue.Base.JsonValue
import RvKeyValue.Raft.Node

/-!
# The stable store

`store/bolt_store.go`: `Save` writes the JSON text of a `PersistentState` under one key of one bucket, and
`Load` reads it. Fields with `omitempty` are left out when they are empty, so an empty list of peers would
be read as none; `persistLocked` never saves one. Ids are texts here: `json.Marshal` would write an id
that is not UTF-8 with replacement characters, and `Load` would return another id.
-/

namespace Store

open JsonText (Value present member)
open Raft (Bytes NodeId LogEntry PersistentState)

section Format

/-- The fields of a `LogEntry` under their tags. -/
def entryMembers (entry : LogEntry) : List (String × Option Value) :=
  [("term", some (.number entry.term)), ("index", some (.number entry.index)),
    ("command", some (.ofBytes entry.command))]

/-- A `LogEntry`. -/
def entryValue (entry : LogEntry) : Value := .object (present (entryMembers entry))

/-- The list of peers is left out when it is nil or empty. -/
def peersValue (peers : Option (List NodeId)) : Option Value :=
  (peers.filter fun listed => !listed.isEmpty).map fun listed => .array (listed.map .ofText)

/-- The fields of a `PersistentState` under their tags. -/
def stateMembers (state : PersistentState) : List (String × Option Value) :=
  [("current_term", some (.number state.currentTerm)),
    ("voted_for", some (.ofText state.votedFor)),
    ("peers", peersValue state.peers),
    ("self_member", state.selfMember.map .bool),
    ("last_included_index", Value.unlessZero state.lastIncludedIndex),
    ("last_included_term", Value.unlessZero state.lastIncludedTerm),
    ("snapshot", Value.unlessEmpty state.snapshot),
    ("log", some (.array (state.log.map entryValue)))]

/-- A `PersistentState`. -/
def stateValue (state : PersistentState) : Value := .object (present (stateMembers state))

/-- `json.Marshal` of a state. -/
def marshalState (state : PersistentState) : Bytes := JsonText.write (stateValue state)

/-- Read a `LogEntry`. -/
def readEntry : Value → Option LogEntry
  | .null => some ⟨0, 0, []⟩
  | .object fields => do
    let term ← (member "term" fields).toWord
    let index ← (member "index" fields).toWord
    let command ← (member "command" fields).toBytes
    some ⟨term, index, command⟩
  | _ => none

/-- Read a `PersistentState`. -/
def readState : Value → Option PersistentState
  | .null => some {}
  | .object fields => do
    let currentTerm ← (member "current_term" fields).toWord
    let votedFor ← (member "voted_for" fields).toText
    let peers ← (member "peers" fields).toSlice Value.toText
    let selfMember ← (member "self_member" fields).toFlag
    let lastIncludedIndex ← (member "last_included_index" fields).toWord
    let lastIncludedTerm ← (member "last_included_term" fields).toWord
    let snapshot ← (member "snapshot" fields).toBytes
    let log ← (member "log" fields).toSlice readEntry
    some { currentTerm, votedFor, peers, selfMember, lastIncludedIndex, lastIncludedTerm, snapshot
           log := log.getD [] }
  | _ => none

/-- `json.Unmarshal` into an empty state; `none` when it returns an error. -/
def unmarshalState (data : Bytes) : Option PersistentState := (JsonText.parse data).bind readState

/-- What `persistLocked` can save: its numbers are words, and a list of peers is not empty. -/
structure Writable (state : PersistentState) : Prop where
  /-- The term. -/
  term : state.currentTerm < Word.limit
  /-- The peers. -/
  peers : state.peers ≠ some []
  /-- The index of the snapshot. -/
  includedIndex : state.lastIncludedIndex < Word.limit
  /-- Its term. -/
  includedTerm : state.lastIncludedTerm < Word.limit
  /-- The entries. -/
  log : ∀ entry ∈ state.log, entry.term < Word.limit ∧ entry.index < Word.limit

/-- An entry is valid JSON. -/
theorem entryValue_valid (entry : LogEntry) : (entryValue entry).Valid := by
  apply JsonText.present_valid
  simp only [entryMembers, List.forall_mem_cons, Option.mem_some_iff, forall_eq']
  exact ⟨.number _, .number _, Value.ofBytes_valid _, by simp⟩

/-- The peers are valid JSON. -/
theorem peersValue_valid {peers : Option (List NodeId)} {value : Value}
    (has : peersValue peers = some value) : value.Valid := by
  obtain ⟨listed, -, rfl⟩ := Option.map_eq_some_iff.mp has
  refine .array fun item among => ?_
  obtain ⟨peer, -, rfl⟩ := List.mem_map.mp among
  exact Value.ofText_valid peer

/-- A state is valid JSON. -/
theorem stateValue_valid (state : PersistentState) : (stateValue state).Valid := by
  have number : ∀ {n : Nat} {value : Value}, value ∈ Value.unlessZero n → value.Valid := by
    intro n value has
    unfold Value.unlessZero at has
    split at has
    · contradiction
    · obtain rfl := Option.some.inj has
      exact .number n
  have snapshot : ∀ value ∈ Value.unlessEmpty state.snapshot, value.Valid := by
    intro value has
    unfold Value.unlessEmpty at has
    split at has
    · contradiction
    · obtain rfl := Option.some.inj has
      exact Value.ofBytes_valid _
  have log : (Value.array (state.log.map entryValue)).Valid := by
    refine .array fun item among => ?_
    obtain ⟨entry, -, rfl⟩ := List.mem_map.mp among
    exact entryValue_valid entry
  apply JsonText.present_valid
  simp only [stateMembers, List.forall_mem_cons, Option.mem_some_iff, forall_eq', Option.mem_map,
    forall_exists_index, and_imp, forall_apply_eq_imp_iff₂]
  exact ⟨.number _, Value.ofText_valid _, fun _ has => peersValue_valid has, fun flag _ => .bool flag,
    fun _ has => number has, fun _ has => number has, snapshot, log, by simp⟩

/-- An entry is read back. -/
theorem readEntry_entryValue {entry : LogEntry} (term : entry.term < Word.limit)
    (index : entry.index < Word.limit) : readEntry (entryValue entry) = some entry := by
  have distinct : ((entryMembers entry).map Prod.fst).Nodup := by
    show ["term", "index", "command"].Nodup
    decide
  have found : ∀ field ∈ entryMembers entry,
      member field.1 (present (entryMembers entry)) = field.2.getD .null :=
    fun _ listed => JsonText.member_present distinct listed
  unfold entryValue
  generalize present (entryMembers entry) = fields at found ⊢
  simp only [entryMembers, List.forall_mem_cons, Option.getD_some] at found
  obtain ⟨readTerm, readIndex, readCommand, -⟩ := found
  simp only [readEntry, readTerm, readIndex, readCommand, Value.toWord_number term,
    Value.toWord_number index, Value.toBytes_ofBytes, Option.bind_eq_bind, Option.bind_some]

/-- The peers are read back unless the list is empty. -/
theorem toSlice_peersValue {peers : Option (List NodeId)} (some : peers ≠ some []) :
    ((peersValue peers).getD .null).toSlice Value.toText = .some peers := by
  cases peers with
  | none => rfl
  | some listed =>
    have kept : peersValue (.some listed) = .some (.array (listed.map .ofText)) := by
      cases listed with
      | nil => exact absurd rfl some
      | cons peer rest => rfl
    rw [kept, Option.getD_some]
    exact Value.toSlice_array fun peer _ => Value.toText_ofText peer

/-- A state that can be saved is read back. -/
theorem readState_stateValue {state : PersistentState} (writable : Writable state) :
    readState (stateValue state) = some state := by
  have distinct : ((stateMembers state).map Prod.fst).Nodup := by
    show ["current_term", "voted_for", "peers", "self_member", "last_included_index",
      "last_included_term", "snapshot", "log"].Nodup
    decide
  have found : ∀ field ∈ stateMembers state,
      member field.1 (present (stateMembers state)) = field.2.getD .null :=
    fun _ listed => JsonText.member_present distinct listed
  have entries : Value.toSlice readEntry (.array (state.log.map entryValue)) = some (some state.log) :=
    Value.toSlice_array fun entry listed =>
      readEntry_entryValue (writable.log entry listed).1 (writable.log entry listed).2
  unfold stateValue
  generalize present (stateMembers state) = fields at found ⊢
  simp only [stateMembers, List.forall_mem_cons, Option.getD_some] at found
  obtain ⟨term, vote, peers, flag, index, included, snapshot, log, -⟩ := found
  simp only [readState, term, vote, peers, flag, index, included, snapshot, log,
    Value.toWord_number writable.term, Value.toText_ofText, toSlice_peersValue writable.peers,
    Value.toFlag_bool, Value.toWord_unlessZero writable.includedIndex,
    Value.toWord_unlessZero writable.includedTerm, Value.toBytes_unlessEmpty, entries,
    Option.bind_eq_bind, Option.bind_some, Option.getD_some]

/-- What is marshalled is unmarshalled. -/
theorem unmarshalState_marshalState {state : PersistentState} (writable : Writable state) :
    unmarshalState (marshalState state) = some state := by
  unfold unmarshalState marshalState
  rw [JsonText.parse_write (stateValue_valid state), Option.bind_some]
  exact readState_stateValue writable

end Format

section Database

/-- `BoltRaftStore` — the `raft` bucket of the database, absent before it is created, and the value
under the key `persistent_state`, absent before it is put. -/
structure BoltRaftStore where
  /-- The bucket. -/
  bucket : Option (Option Bytes) := none
deriving DecidableEq, Repr

namespace BoltRaftStore

/-- `init` — create the bucket if it is not there. -/
def init (s : BoltRaftStore) : BoltRaftStore := { bucket := some (s.bucket.getD none) }

/-- `Save` — one transaction, which takes place or not. -/
def save (s : BoltRaftStore) (commits : Bool) (state : PersistentState) : BoltRaftStore :=
  if commits then { bucket := some (some (marshalState state)) } else s

/-- `Load` — the zero state when there is none; `none` when the text cannot be read. -/
def load (s : BoltRaftStore) : Option PersistentState :=
  match s.bucket with
  | none => some {}
  | some none => some {}
  | some (some data) => unmarshalState data

/-- Opening the database again changes nothing that is loaded. -/
theorem load_init (s : BoltRaftStore) : s.init.load = s.load := by
  obtain ⟨bucket⟩ := s
  cases bucket with
  | none => rfl
  | some data => rfl

/-- What happens to a database. -/
inductive Use
  /-- `NewBoltRaftStore` opens it. -/
  | opens
  /-- `Save` takes place, or returns an error. -/
  | saves (commits : Bool) (state : PersistentState)

/-- The state a use of the database leaves in it. -/
def Use.committed : Use → Option PersistentState
  | saves true state => some state
  | _ => none

/-- One use of the database. -/
def use (s : BoltRaftStore) : Use → BoltRaftStore
  | .opens => s.init
  | .saves commits state => s.save commits state

/-- What a use leaves is loaded, or what was loaded before. -/
theorem load_use (s : BoltRaftStore) {event : Use}
    (writable : ∀ state, event.committed = some state → Writable state) :
    (s.use event).load = event.committed.or s.load := by
  cases event with
  | opens => exact s.load_init
  | saves commits state =>
    cases commits with
    | false => rfl
    | true => exact unmarshalState_marshalState (writable state rfl)

/-- However often a database was opened and whichever saves failed, `Load` returns the state of the last
`Save` that took place, and the zero state when none did. -/
theorem load_last_saved (uses : List Use)
    (writable : ∀ state ∈ uses.filterMap Use.committed, Writable state) :
    (uses.foldl use {}).load = some ((uses.filterMap Use.committed).getLast?.getD {}) := by
  induction uses using List.reverseRecOn with
  | nil => rfl
  | append_singleton rest event ih =>
    rw [List.filterMap_append] at writable ⊢
    have before := ih fun state listed => writable state (List.mem_append_left _ listed)
    have good : ∀ state, event.committed = some state → Writable state := fun state leaves =>
      writable state (List.mem_append_right _ (by simp [leaves]))
    rw [List.foldl_concat, load_use _ good, before]
    cases leaves : event.committed with
    | none => simp [leaves]
    | some state => simp [leaves]

/-- A node has voted in term 3, with an entry that has a command and one that has none above a
snapshot. -/
def votedState : PersistentState :=
  { currentTerm := 3, votedFor := "n1", peers := some ["n2", "n3"], selfMember := some true
    lastIncludedIndex := 4, lastIncludedTerm := 2, snapshot := [255, 0]
    log := [⟨2, 5, [123]⟩, ⟨3, 6, []⟩] }

/-- The next `Save` fails: the vote is loaded after the database is opened again. -/
theorem load_last_saved_vote : Writable votedState ∧
    ([.opens, .saves true votedState, .saves false { currentTerm := 4 }, .opens].foldl use {}).load =
      some votedState := by
  have writable : Writable votedState := ⟨by decide, by decide, by decide, by decide, by decide⟩
  refine ⟨writable, load_last_saved _ fun state listed => ?_⟩
  rw [show state = votedState from List.mem_singleton.mp listed]
  exact writable

end BoltRaftStore

end Database

end Store
