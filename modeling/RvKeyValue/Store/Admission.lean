import RvKeyValue.Node.Operation
import RvKeyValue.Raft.Log
import RvKeyValue.Store.Restore

/-!
# What the client API admits

The keys and values `client/http.go` takes, the commands it makes of them, and what becomes of these
when `ApplyCommitted` gives them to the state machine. A key travels as JSON text and is then stored
by a database with limits of its own, while `Get` looks the key up as it was given: the two paths
agree on keys that are UTF-8, and the database takes a key of up to 32768 bytes.
-/

namespace Store

open Raft (Bytes LogEntry MembershipChange RaftNode RaftError Represents decodeMembershipChange)

/-- The key check of `handleKV`. -/
def acceptsKey (key : Bytes) : Bool := decide (key ≠ []) && !key.contains 47

/-- `maxKVValueBytes`. -/
def maxKVValueBytes : Nat := 1048576

/-- A write a client asks for. -/
inductive ClientWrite
  /-- `handlePut`. -/
  | put (key value : Bytes)
  /-- `handleDelete`. -/
  | delete (key : Bytes)
deriving DecidableEq, Repr

namespace ClientWrite

/-- The command that is encoded and proposed. -/
def command : ClientWrite → Command
  | put key value => ⟨.put, key, value⟩
  | delete key => ⟨.delete, key, []⟩

/-- The checks a request passes before its command is encoded. -/
def admitted : ClientWrite → Bool
  | put key value => acceptsKey key && decide (value.length ≤ maxKVValueBytes)
  | delete key => acceptsKey key

/-- The database takes the key as it is written to the log. -/
def fits : ClientWrite → Bool
  | put key _ => decide ((Utf8.toValid key).length ≤ maxKeySize)
  | delete _ => true

end ClientWrite

/-- An error `ApplyCommitted` returns. -/
inductive ApplyError
  /-- Of the node. -/
  | raft (err : RaftError)
  /-- Of the state machine. -/
  | kv (err : KVError)
deriving DecidableEq, Repr

/-- `ApplyCommitted`, with a number of rounds of its loop: `none` when they do not suffice. -/
def applyCommitted (json : Json) (save : Bool) :
    Nat → RaftNode → KVStateMachine → Option (RaftNode × KVStateMachine × Option ApplyError)
  | 0, _, _ => none
  | rounds + 1, n, sm =>
    match n.nextCommittedEntry with
    | none => some (n, sm, none)
    | some entry =>
      match decodeMembershipChange json.unmarshalMembership entry.command with
      | some (.error err) => some (n, sm, some (.raft err))
      | some (.ok change) =>
        match n.applyCommittedMembershipChange save change entry.index with
        | ⟨changed, (), some err⟩ => some (changed, sm, some (.raft err))
        | ⟨changed, (), none⟩ => applyCommitted json save rounds changed sm
      | none =>
        match sm.apply json entry with
        | .error err => some (n, sm, some (.kv err))
        | .ok applied => applyCommitted json save rounds (n.markApplied entry.index) applied

section

variable {json : Json}

/-- A request's command is a put or a delete with a key. -/
theorem ClientWrite.command_known {write : ClientWrite} (admitted : write.admitted = true) :
    (write.command.operation = .put ∨ write.command.operation = .delete) ∧ write.command.key ≠ [] := by
  cases write with
  | put key value =>
    have key := ((Bool.and_eq_true ..).mp admitted).1
    exact ⟨Or.inl rfl, of_decide_eq_true ((Bool.and_eq_true ..).mp key).1⟩
  | delete key => exact ⟨Or.inr rfl, of_decide_eq_true ((Bool.and_eq_true ..).mp admitted).1⟩

/-- A command that is not read as a membership change. -/
def Plain (json : Json) (command : Bytes) : Prop :=
  decodeMembershipChange json.unmarshalMembership command = none

/-- A command of the store is no membership command. -/
theorem encodeCommand_plain {c : Command} {command : Bytes}
    (encoded : encodeCommand json c = .ok command) : Plain json command := by
  unfold encodeCommand at encoded
  split at encoded
  · contradiction
  · rename_i valid
    obtain rfl := Except.ok.inj encoded
    obtain ⟨read, found, operation⟩ := json.membership_operation c valid
    have other : read.operation ≠ Raft.membershipCommandOperation := by
      rw [operation]
      cases known : c.operation with
      | put => decide
      | delete => decide
      | noop => decide
      | unsupported text =>
        simp only [Command.validate, known, reduceCtorEq, if_false] at valid
        split at valid <;> contradiction
    unfold Plain decodeMembershipChange
    rw [found]
    exact if_pos other

/-- A request's command is applied by a machine with a database exactly when its key, as it is
written to the log, is not too long. -/
theorem apply_admitted (json : Json) {write : ClientWrite} (admitted : write.admitted = true)
    (term index : Nat) {s : KVStateMachine} (database : s.db.isSome = true) :
    (write.fits = true → ∃ after,
      s.apply json ⟨term, index, json.marshalCommand write.command⟩ = .ok after ∧
        after.db.isSome = true) ∧
    (write.fits = false →
      s.apply json ⟨term, index, json.marshalCommand write.command⟩ = .error (.bolt "key too large")) := by
  obtain ⟨known, some⟩ := ClientWrite.command_known admitted
  have decoded := (decode_encode known some : _ ∧
    decodeCommand json (json.marshalCommand write.command) = _).2
  obtain ⟨bucket, held⟩ := Option.isSome_iff_exists.mp database
  unfold KVStateMachine.apply KVStateMachine.applyCommand
  simp only [decoded, held]
  cases write with
  | delete key => exact ⟨fun _ => ⟨_, rfl, rfl⟩, fun long => by cases long⟩
  | put key value =>
    have small := of_decide_eq_true ((Bool.and_eq_true ..).mp admitted).2
    have filled : Utf8.toValid key ≠ [] := toValid_ne_nil some
    refine ⟨fun short => ?_, fun long => ?_⟩
    · have accepted : boltAccepts (Utf8.toValid key) value = true := by
        simp only [boltAccepts, Bool.and_eq_true, decide_eq_true_eq]
        exact ⟨⟨filled, of_decide_eq_true short⟩, le_trans small (by decide)⟩
      have stored : KVStateMachine.applyBolt bucket ⟨.put, Utf8.toValid key, value⟩ = .ok _ :=
        boltPut_accepted bucket accepted
      simp only [ClientWrite.command, stored]
      exact ⟨_, rfl, rfl⟩
    · have refused : KVStateMachine.applyBolt bucket ⟨.put, Utf8.toValid key, value⟩ =
          .error (.bolt "key too large") := by
        show boltPut bucket (Utf8.toValid key) value = _
        rw [boltPut, if_neg filled, if_pos (Nat.lt_of_not_le (of_decide_eq_false long))]
      simp only [ClientWrite.command, refused]

/-- The command of a read's barrier changes nothing. -/
theorem apply_barrier {command : Bytes} (encoded : encodeCommand json ⟨.noop, [], []⟩ = .ok command)
    (term index : Nat) (s : KVStateMachine) : s.apply json ⟨term, index, command⟩ = .ok s := by
  obtain rfl : json.marshalCommand ⟨.noop, [], []⟩ = command := Except.ok.inj encoded
  have decoded : decodeCommand json (json.marshalCommand ⟨.noop, [], []⟩) = .ok ⟨.noop, [], []⟩ := by
    unfold decodeCommand
    rw [json.command_roundtrip ⟨.noop, [], []⟩ rfl]
    rfl
  unfold KVStateMachine.apply KVStateMachine.applyCommand
  simp only [decoded]
  split
  · rfl
  · rename_i bucket held
    show Except.ok (⟨s.data, some bucket⟩ : KVStateMachine) = .ok s
    rw [← held]

/-- `Apply` keeps the database. -/
theorem apply_database {s after : KVStateMachine} {entry : LogEntry}
    (done : s.apply json entry = .ok after) (database : s.db.isSome = true) :
    after.db.isSome = true := by
  obtain ⟨bucket, held⟩ := Option.isSome_iff_exists.mp database
  unfold KVStateMachine.apply KVStateMachine.applyCommand at done
  simp only [held] at done
  split at done
  · contradiction
  · split at done
    · contradiction
    · obtain rfl := Except.ok.inj done
      rfl

/-- What a log holds: the command of an admitted request, the no-op of a read, or a membership change, which
`ApplyCommitted` saves. -/
inductive Proposed (json : Json) (save : Bool) (command : Bytes) : Prop
  /-- `handlePut` or `handleDelete`. -/
  | write (write : ClientWrite) (admitted : write.admitted = true)
      (encoded : encodeCommand json write.command = .ok command)
  /-- `handleGet`. -/
  | barrier (encoded : encodeCommand json ⟨.noop, [], []⟩ = .ok command)
  /-- `ProposeMembershipChange`. -/
  | change (change : MembershipChange)
      (decoded : decodeMembershipChange json.unmarshalMembership command = some (.ok change))
      (saved : save = true)

/-- Among these only a membership change is read as a membership command, and it is saved. -/
theorem Proposed.changes {save : Bool} {command : Bytes} (proposed : Proposed json save command)
    (read : ¬ Plain json command) :
    (∃ change, decodeMembershipChange json.unmarshalMembership command = some (.ok change)) ∧
      save = true := by
  cases proposed with
  | write _ _ encoded => exact absurd (encodeCommand_plain encoded) read
  | barrier encoded => exact absurd (encodeCommand_plain encoded) read
  | change change decoded saved => exact ⟨⟨change, decoded⟩, saved⟩

/-- If the command is a client's, the database takes its key. -/
def Fits (json : Json) (command : Bytes) : Prop :=
  ∀ write : ClientWrite, write.admitted = true → encodeCommand json write.command = .ok command →
    write.fits = true

/-- The node's log is a whole log, with its indices in order. -/
structure Ready (full : List LogEntry) (n : RaftNode) : Prop where
  /-- The log, with what was compacted. -/
  rep : Represents n full
  /-- The snapshot is applied. -/
  included : n.lastIncludedIndex ≤ n.lastApplied
  /-- What is applied is committed. -/
  applied : n.lastApplied ≤ n.commitIndex
  /-- What is committed is there. -/
  inside : n.commitIndex ≤ full.length

section

variable {save : Bool} {full : List LogEntry} {n : RaftNode} {sm : KVStateMachine} {entry : LogEntry}

/-- Marking the next entry. -/
theorem Ready.mark (ready : Ready full n) (number : entry.index = n.lastApplied + 1)
    (more : n.lastApplied < n.commitIndex) : Ready full (n.markApplied entry.index) ∧
      (n.markApplied entry.index).lastApplied = n.lastApplied + 1 := by
  rw [n.markApplied_eq, number, Nat.max_eq_right (Nat.le_succ _)]
  exact ⟨⟨ready.rep.congr rfl rfl rfl, Nat.le_succ_of_le ready.included, more, ready.inside⟩, rfl⟩

/-- A `Save`. -/
theorem Ready.saved (ready : Ready full n) (save : Bool) : Ready full (n.persistLocked save).1 ∧
    (n.persistLocked save).1.lastApplied = n.lastApplied ∧
    (n.persistLocked save).1.commitIndex = n.commitIndex := by
  rcases n.persistLocked_cases save with same | stored
  · rw [same]
    exact ⟨ready, rfl, rfl⟩
  · rw [stored]
    exact ⟨⟨ready.rep.congr rfl rfl rfl, ready.included, ready.applied, ready.inside⟩, rfl, rfl⟩

/-- A membership change marks its entry, and may commit more of the log. It fails only in `Save`. -/
theorem Ready.reconfigure (save : Bool) (ready : Ready full n) (number : entry.index = n.lastApplied + 1)
    (more : n.lastApplied < n.commitIndex) {change : MembershipChange}
    (decoded : decodeMembershipChange json.unmarshalMembership entry.command = some (.ok change)) :
    let out := n.applyCommittedMembershipChange save change entry.index
    Ready full out.node ∧ out.node.lastApplied = n.lastApplied + 1 ∧
      n.commitIndex ≤ out.node.commitIndex ∧ (save = true → out.err = none) := by
  obtain ⟨m, changed, same⟩ := n.applyMembershipChangeLocked_eq
    (RaftNode.supported_of_validate (RaftNode.validate_of_decode decoded))
  have inside : m.commitIndex ≤ full.length := by
    have bound := changed.commitLe
    rw [ready.rep.lastLogIndex] at bound
    exact bound.trans (max_le ready.inside (le_refl _))
  have between : Ready full m := by
    refine ⟨ready.rep.congr changed.log changed.included changed.includedTerm, ?_, ?_, inside⟩
    · rw [changed.included, changed.applied]
      exact ready.included
    · rw [changed.applied]
      exact ready.applied.trans changed.signals.commit
  rw [← changed.applied] at number more
  obtain ⟨marked, next⟩ := between.mark number (more.trans_le changed.signals.commit)
  rw [changed.applied] at next
  have commit : (m.markApplied entry.index).commitIndex = m.commitIndex := by rw [m.markApplied_eq]
  unfold RaftNode.applyCommittedMembershipChange
  rw [same]
  obtain ⟨kept, applied, committed⟩ := marked.saved save
  refine ⟨kept, applied.trans next, changed.signals.commit.trans_eq (committed.trans commit).symm,
    fun saved => ?_⟩
  refine Option.eq_none_iff_forall_ne_some.mpr fun err failed => ?_
  have unsaved := (RaftNode.persistLocked_err failed).2
  rw [saved] at unsaved
  contradiction

/-- What is applied fits, and a proposed command of the store that is not applied does not. -/
theorem apply_fits (json : Json) (save : Bool) (entry : LogEntry) (database : sm.db.isSome = true) :
    (∀ after, sm.apply json entry = .ok after → Fits json entry.command) ∧
    (∀ err, sm.apply json entry = .error err →
      Plain json entry.command → Proposed json save entry.command → ¬ Fits json entry.command) := by
  have marshalled : ∀ write : ClientWrite, write.admitted = true →
      encodeCommand json write.command = .ok entry.command →
      entry = ⟨entry.term, entry.index, json.marshalCommand write.command⟩ := by
    intro write admitted encoded
    obtain ⟨known, filled⟩ := ClientWrite.command_known admitted
    obtain same := Except.ok.inj (encoded.symm.trans (decode_encode known filled).1)
    rw [← same]
  refine ⟨fun after done write admitted encoded => ?_, fun err failed plain proposed fits => ?_⟩
  · by_contra long
    have refused := (apply_admitted json admitted entry.term entry.index database).2
      (Bool.not_eq_true _ ▸ long)
    rw [← marshalled write admitted encoded, done] at refused
    contradiction
  · cases proposed with
    | write write admitted encoded =>
      obtain ⟨after, done, -⟩ := (apply_admitted json admitted entry.term entry.index database).1
        (fits write admitted encoded)
      rw [← marshalled write admitted encoded, failed] at done
      contradiction
    | barrier encoded =>
      have done := apply_barrier encoded entry.term entry.index sm
      rw [failed] at done
      contradiction
    | change change decoded _ => cases plain.symm.trans decoded

/-- A round of `ApplyCommitted` applies its entry, and then there are the other ones, or returns. With a
command that was proposed it only returns when the database refuses a key. -/
theorem applyCommitted_round (json : Json) (save : Bool) (ready : Ready full n)
    (database : sm.db.isSome = true) (fetched : n.nextCommittedEntry = some entry)
    (number : entry.index = n.lastApplied + 1) (more : n.lastApplied < n.commitIndex) (rounds : Nat) :
    (∃ m sm', applyCommitted json save (rounds + 1) n sm = applyCommitted json save rounds m sm' ∧
      Ready full m ∧ m.lastApplied = n.lastApplied + 1 ∧ n.commitIndex ≤ m.commitIndex ∧
      sm'.db.isSome = true ∧ Fits json entry.command ∧
      (Plain json entry.command → m.commitIndex = n.commitIndex)) ∨
    ∃ after err, applyCommitted json save (rounds + 1) n sm = some (after, sm, err) ∧
      n.lastApplied ≤ after.lastApplied ∧
      (Proposed json save entry.command → ¬ Fits json entry.command ∧ after = n) := by
  rw [applyCommitted, fetched]
  dsimp only
  cases decoded : decodeMembershipChange json.unmarshalMembership entry.command with
  | none =>
    dsimp only
    obtain ⟨taken, refused⟩ := apply_fits json save entry database
    cases done : sm.apply json entry with
    | error err =>
      exact Or.inr ⟨n, _, rfl, le_refl _, fun proposed => ⟨refused err done decoded proposed, rfl⟩⟩
    | ok after =>
      obtain ⟨marked, next⟩ := ready.mark number more
      have commit : (n.markApplied entry.index).commitIndex = n.commitIndex := by rw [n.markApplied_eq]
      exact Or.inl ⟨_, after, rfl, marked, next, commit.ge, apply_database done database,
        taken after done, fun _ => commit⟩
  | some read =>
    have present : ¬ Plain json entry.command := by simp [Plain, decoded]
    cases read with
    | error err =>
      refine Or.inr ⟨n, _, rfl, le_refl _, fun proposed => ?_⟩
      obtain ⟨⟨change, valid⟩, -⟩ := proposed.changes present
      rw [decoded] at valid
      cases valid
    | ok change =>
      have applied := ready.reconfigure save number more decoded
      dsimp only at applied ⊢
      generalize n.applyCommittedMembershipChange save change entry.index = out at applied ⊢
      obtain ⟨marked, next, commit, saved⟩ := applied
      obtain ⟨changed, _, failure⟩ := out
      cases failure with
      | none =>
        exact Or.inl ⟨changed, sm, rfl, marked, next, commit, database,
          fun write _ encoded => absurd (encodeCommand_plain encoded) present,
          fun plain => absurd plain present⟩
      | some err =>
        refine Or.inr ⟨changed, _, rfl, (Nat.le_succ _).trans next.ge, fun proposed => ?_⟩
        cases saved (proposed.changes present).2

/-- `ApplyCommitted` returns, and gets past a committed part of the log unless the database refuses a key
there. -/
theorem applyCommitted_window {upTo : Nat} (ready : Ready full n) (committed : upTo ≤ n.commitIndex)
    (proposed : ∀ entry ∈ (full.take upTo).drop n.lastApplied, Proposed json save entry.command)
    (database : sm.db.isSome = true) {rounds : Nat}
    (enough : (∀ entry ∈ (full.take upTo).drop n.lastApplied, Plain json entry.command) ∧
      n.commitIndex = upTo ∧ upTo - n.lastApplied < rounds ∨ full.length - n.lastApplied < rounds) :
    ∃ after sm' err, applyCommitted json save rounds n sm = some (after, sm', err) ∧
      ((∀ entry ∈ (full.take upTo).drop n.lastApplied, Fits json entry.command) →
        upTo ≤ after.lastApplied ∧ (n.commitIndex = upTo →
          (∀ entry ∈ (full.take upTo).drop n.lastApplied, Plain json entry.command) →
          err = none ∧ after.lastApplied = upTo)) ∧
      ((∃ entry ∈ (full.take upTo).drop n.lastApplied, ¬ Fits json entry.command) →
        after.lastApplied < upTo) := by
  induction rounds generalizing n sm with
  | zero => rcases enough with ⟨-, -, none⟩ | none <;> contradiction
  | succ rounds ih =>
    rcases ready.rep.nextCommittedEntry ready.included ready.applied ready.inside with
      ⟨none, all⟩ | ⟨entry, fetched, number, more, found⟩
    · have empty : (full.take upTo).drop n.lastApplied = [] := by
        refine List.drop_eq_nil_of_le ((List.length_take_le _ _).trans ?_)
        omega
      refine ⟨n, sm, _, by rw [applyCommitted, none], fun _ => ⟨by omega, fun last _ => ⟨rfl, by omega⟩⟩, ?_⟩
      rw [empty]
      rintro ⟨entry, listed, -⟩
      cases listed
    -- the entry comes first in the part that is looked at, or this part is behind
    have window : (full.take upTo).drop n.lastApplied =
        (if n.lastApplied < upTo then [entry] else []) ++ (full.take upTo).drop (n.lastApplied + 1) := by
      rw [List.drop_eq_getElem?_toList_append, List.getElem?_take, found]
      split <;> rfl
    rcases applyCommitted_round json save ready database fetched number more rounds with
      ⟨m, sm', same, next, marked, grown, kept, fits, plain⟩ | ⟨after, err, same, higher, refused⟩
    · have tail : ∀ other ∈ (full.take upTo).drop m.lastApplied,
          other ∈ (full.take upTo).drop n.lastApplied := by
        rw [window, marked]
        exact fun other listed => List.mem_append_right _ listed
      have first : n.commitIndex = upTo → entry ∈ (full.take upTo).drop n.lastApplied := by
        intro last
        rw [window, if_pos (last ▸ more)]
        exact List.mem_append_left _ List.mem_cons_self
      have enough' : (∀ entry ∈ (full.take upTo).drop m.lastApplied, Plain json entry.command) ∧
          m.commitIndex = upTo ∧ upTo - m.lastApplied < rounds ∨
          full.length - m.lastApplied < rounds := by
        have := ready.inside
        rcases enough with ⟨simple, last, few⟩ | few
        · refine Or.inl ⟨fun other listed => simple other (tail other listed), ?_, by omega⟩
          rw [plain (simple entry (first last)), last]
        · exact Or.inr (by omega)
      obtain ⟨after, machine, err, done, reached, stuck⟩ := ih next (committed.trans grown)
        (fun other listed => proposed other (tail other listed)) kept enough'
      refine ⟨after, machine, err, same.trans done, fun all => ?_, fun ⟨other, listed, long⟩ => ?_⟩
      · obtain ⟨past, exactly⟩ := reached fun other listed => all other (tail other listed)
        refine ⟨past, fun last simple => exactly ?_ fun other listed => simple other (tail other listed)⟩
        rw [plain (simple entry (first last)), last]
      · rw [window, ← marked] at listed
        rcases List.mem_append.mp listed with here | there
        · split at here
          · rw [List.mem_singleton.mp here] at long
            exact absurd fits long
          · cases here
        · exact stuck ⟨other, there, long⟩
    · refine ⟨after, sm, err, same, ?_⟩
      by_cases before : n.lastApplied < upTo
      · have first : entry ∈ (full.take upTo).drop n.lastApplied := by
          rw [window, if_pos before]
          exact List.mem_append_left _ List.mem_cons_self
        obtain ⟨long, rfl⟩ := refused (proposed entry first)
        exact ⟨fun all => absurd (all entry first) long, fun _ => before⟩
      · refine ⟨fun _ => ⟨by omega, fun last _ => absurd (last ▸ more) before⟩, ?_⟩
        have empty : (full.take upTo).drop n.lastApplied = [] :=
          List.drop_eq_nil_of_le ((List.length_take_le _ _).trans (Nat.le_of_not_lt before))
        rw [empty]
        rintro ⟨other, listed, -⟩
        cases listed

end

/-- `ApplyCommitted` on a node with a database applies every command that is committed, among them the
no-ops of reads and membership changes, and returns no error where no membership change may have
committed more, if and only if the key of every admitted put there, as JSON text has it, is not longer
than 32768 bytes. -/
theorem admitted_commands_apply_iff (json : Json) {save : Bool} {full : List LogEntry} {n : RaftNode}
    {sm : KVStateMachine} (rep : Represents n full) (included : n.lastIncludedIndex ≤ n.lastApplied)
    (applied : n.lastApplied ≤ n.commitIndex) (inside : n.commitIndex ≤ full.length)
    (proposed : ∀ entry ∈ (full.take n.commitIndex).drop n.lastApplied,
      Proposed json save entry.command)
    (database : sm.db.isSome = true) {rounds : Nat}
    (enough : (∀ entry ∈ (full.take n.commitIndex).drop n.lastApplied, Plain json entry.command) ∧
      n.commitIndex - n.lastApplied < rounds ∨ full.length - n.lastApplied < rounds) :
    (∃ after sm' err, applyCommitted json save rounds n sm = some (after, sm', err) ∧
      n.commitIndex ≤ after.lastApplied ∧
      ((∀ entry ∈ (full.take n.commitIndex).drop n.lastApplied, Plain json entry.command) →
        err = none ∧ after.lastApplied = n.commitIndex)) ↔
    ∀ write : ClientWrite, write.admitted = true →
      (∃ entry ∈ (full.take n.commitIndex).drop n.lastApplied,
        encodeCommand json write.command = .ok entry.command) → write.fits = true := by
  obtain ⟨after, sm', err, done, reached, stuck⟩ := applyCommitted_window
    ⟨rep, included, applied, inside⟩ (le_refl _) proposed database
    (enough.imp_left fun ⟨simple, few⟩ => ⟨simple, rfl, few⟩)
  constructor
  · rintro ⟨other, smOther, errOther, same, past, -⟩ write admitted ⟨entry, listed, encoded⟩
    by_contra long
    have behind := stuck ⟨entry, listed, fun fits => long (fits write admitted encoded)⟩
    rw [done] at same
    obtain ⟨rfl, -⟩ := Prod.mk.inj (Option.some.inj same)
    omega
  · intro fits
    obtain ⟨past, exactly⟩ := reached fun entry listed write admitted encoded =>
      fits write admitted ⟨entry, listed, encoded⟩
    exact ⟨after, sm', err, done, past, exactly rfl⟩

/-- A leader without peers that has committed one command. -/
def committedAlone (command : Bytes) : RaftNode :=
  (RaftNode.appendCommand ((((RaftNode.becomeCandidate (Raft.newRaftNode "A" [] (some {})) true).node
    ).promoteCandidate true 1).node) true command).node

/-- Its log is the command. -/
theorem committedAlone_log (command : Bytes) : Represents (committedAlone command) [⟨1, 1, command⟩] ∧
    (committedAlone command).lastIncludedIndex = 0 ∧ (committedAlone command).lastApplied = 0 ∧
    (committedAlone command).commitIndex = 1 := by
  have log : (committedAlone command).log = [⟨1, 1, command⟩] := by with_unfolding_all rfl
  have included : (committedAlone command).lastIncludedIndex = 0 := by with_unfolding_all rfl
  have applied : (committedAlone command).lastApplied = 0 := by with_unfolding_all rfl
  have commit : (committedAlone command).commitIndex = 1 := by with_unfolding_all rfl
  have term : (committedAlone command).lastIncludedTerm = 0 := by with_unfolding_all rfl
  refine ⟨⟨?_, ?_, ?_, ?_, (by decide : 2 < Word.limit)⟩, included, applied, commit⟩
  · rw [included]
    exact Nat.zero_le _
  · rw [log, included]
    rfl
  · intro position entry found
    have inside := (List.getElem?_eq_some_iff.mp found).1
    rw [List.length_singleton] at inside
    obtain rfl : position = 0 := by omega
    obtain rfl := Option.some.inj found
    rfl
  · rw [term, included]
    rfl

/-- A put of a short key is applied. -/
theorem admitted_commands_apply_iff_short : ∃ after sm',
    applyCommitted wire true 2 (committedAlone (wire.marshalCommand ⟨.put, [107], [49]⟩))
        (KVStateMachine.newBoltKVStateMachine (some ∅)) = some (after, sm', none) ∧
      after.lastApplied = 1 := by
  obtain ⟨rep, included, applied, commit⟩ :=
    committedAlone_log (wire.marshalCommand ⟨.put, [107], [49]⟩)
  have only : ∀ entry : LogEntry, entry ∈ (([⟨1, 1, wire.marshalCommand ⟨.put, [107], [49]⟩⟩] :
      List LogEntry).take (committedAlone (wire.marshalCommand ⟨.put, [107], [49]⟩)).commitIndex).drop
        (committedAlone (wire.marshalCommand ⟨.put, [107], [49]⟩)).lastApplied →
      entry.command = wire.marshalCommand ⟨.put, [107], [49]⟩ := by
    rw [commit, applied]
    exact fun entry listed => congrArg LogEntry.command (List.mem_singleton.mp listed)
  have encoded : encodeCommand wire ⟨.put, [107], [49]⟩ = .ok (wire.marshalCommand ⟨.put, [107], [49]⟩) :=
    rfl
  have admitted : (ClientWrite.put [107] [49]).admitted = true ∧
      (ClientWrite.put [107] [49]).fits = true := by decide +kernel
  have database : (KVStateMachine.newBoltKVStateMachine (some ∅)).db.isSome = true := rfl
  obtain ⟨taken, applies, -⟩ := (apply_admitted wire admitted.1 1 1 database).1 admitted.2
  have proposed : Proposed wire true (wire.marshalCommand ⟨.put, [107], [49]⟩) :=
    .write _ admitted.1 encoded
  obtain ⟨after, sm', err, done, -, exactly⟩ := (admitted_commands_apply_iff wire rep (by omega) (by omega)
    (by rw [commit]; rfl) (fun entry listed => (only entry listed).symm ▸ proposed) database
    (Or.inr (by rw [applied]; exact Nat.lt_succ_self 1 : _ < 2))).mpr fun write sound ⟨entry, listed, same⟩ =>
      (apply_fits wire true _ database).1 taken applies write sound (only entry listed ▸ same)
  obtain ⟨rfl, last⟩ := exactly fun entry listed =>
    (only entry listed).symm ▸ encodeCommand_plain encoded
  exact ⟨after, sm', done, last.trans commit⟩

/-- A long key of letters passes the checks of the API and stops `ApplyCommitted`. -/
theorem long_key_refused {key : Bytes} (letters : ∀ byte ∈ key, byte = 97)
    (above : maxKeySize < key.length) :
    (ClientWrite.put key [49]).admitted = true ∧
    encodeCommand json ⟨.put, key, [49]⟩ = .ok (json.marshalCommand ⟨.put, key, [49]⟩) ∧
    ∀ sm : KVStateMachine, sm.db.isSome = true → ∃ after sm',
      applyCommitted json true 2 (committedAlone (json.marshalCommand ⟨.put, key, [49]⟩)) sm =
        some (after, sm', some (.kv (.bolt "key too large"))) := by
  have filled : key ≠ [] := by
    rintro rfl
    exact Nat.not_lt_zero _ above
  have admitted : (ClientWrite.put key [49]).admitted = true := by
    have noSlash : 47 ∉ key := fun slash => absurd (letters 47 slash) (by decide)
    simp [ClientWrite.admitted, acceptsKey, noSlash, filled, maxKVValueBytes]
  have long : (ClientWrite.put key [49]).fits = false := by
    have same : Utf8.toValid key = key := by
      refine Utf8.toValid_of_ascii fun byte listed => ?_
      rw [letters byte listed]
      decide
    rw [ClientWrite.fits, same]
    exact decide_eq_false (Nat.not_le.mpr above)
  have encoded : encodeCommand json ⟨.put, key, [49]⟩ = .ok (json.marshalCommand ⟨.put, key, [49]⟩) :=
    (decode_encode (Or.inl rfl) filled).1
  refine ⟨admitted, encoded, fun sm database => ?_⟩
  obtain ⟨rep, included, applied, commit⟩ := committedAlone_log (json.marshalCommand ⟨.put, key, [49]⟩)
  rcases rep.nextCommittedEntry (by omega) (by omega) (by rw [commit]; exact le_refl 1) with
    ⟨-, all⟩ | ⟨entry, fetched, -, -, found⟩
  · omega
  rw [applied] at found
  obtain rfl := Option.some.inj found
  have refused : sm.apply json ⟨1, 1, json.marshalCommand ⟨.put, key, [49]⟩⟩ = _ :=
    (apply_admitted json admitted 1 1 database).2 long
  refine ⟨committedAlone (json.marshalCommand ⟨.put, key, [49]⟩), sm, ?_⟩
  rw [applyCommitted, fetched]
  dsimp only
  rw [encodeCommand_plain encoded]
  dsimp only
  rw [refused]

/-- A put of a key of 32769 letters passes every check of the API, and its command, once committed, makes
`ApplyCommitted` return an error on every node with a database. -/
theorem long_key_stops_apply : ∃ key : Bytes, key.length = 32769 ∧
    (ClientWrite.put key [49]).admitted = true ∧
    encodeCommand wire ⟨.put, key, [49]⟩ = .ok (wire.marshalCommand ⟨.put, key, [49]⟩) ∧
    ∀ sm : KVStateMachine, sm.db.isSome = true → ∃ after sm',
      applyCommitted wire true 2 (committedAlone (wire.marshalCommand ⟨.put, key, [49]⟩)) sm =
        some (after, sm', some (.kv (.bolt "key too large"))) := by
  have length : (List.replicate 32769 (97 : UInt8)).length = 32769 := List.length_replicate
  have above : maxKeySize < (List.replicate 32769 (97 : UInt8)).length := by
    rw [length]
    decide
  exact ⟨_, length, long_key_refused (fun _ => List.eq_of_mem_replicate) above⟩

end

section Codec

variable (json : Json)

/-- The machine after the command of a log entry was applied. -/
def Applies (c : Command) (s after : KVStateMachine) : Prop :=
  ∃ term index, s.apply json ⟨term, index, json.marshalCommand c⟩ = .ok after

/-- An applied command has written to the map in memory, with the key as JSON text has it. -/
theorem Applies.data {c : Command} (known : c.operation = .put ∨ c.operation = .delete)
    (filled : c.key ≠ []) {s after : KVStateMachine} (applied : Applies json c s after) :
    contents after.data = Function.update (contents s.data) (Utf8.toValid c.key)
      (if c.operation = .put then some c.value else none) := by
  obtain ⟨term, index, done⟩ := applied
  have decoded := (decode_encode known filled : _ ∧ decodeCommand json (json.marshalCommand c) = _).2
  unfold KVStateMachine.apply KVStateMachine.applyCommand at done
  simp only [decoded] at done
  have memory : after.data = KVStateMachine.applyData s.data { c with key := Utf8.toValid c.key } := by
    split at done
    · obtain rfl := Except.ok.inj done
      rfl
    · split at done
      · cases done
      · obtain rfl := Except.ok.inj done
        rfl
  rw [memory, KVStateMachine.applyData]
  rcases known with op | op
  · simp only [op, if_true]
    exact contents_insert _ _ _
  · simp only [op]
    exact contents_erase _ _

/-- A command comes back from the log as it was, a put is found by `Get` under its own key, and the
command leaves every other key alone, if and only if its key is UTF-8. -/
theorem command_survives_iff {c : Command} (known : c.operation = .put ∨ c.operation = .delete)
    (filled : c.key ≠ []) :
    ((∃ data, encodeCommand json c = .ok data ∧ decodeCommand json data = .ok c) ∧
      (c.operation = .put → ∀ s after, Applies json c s after → after.get c.key = some c.value) ∧
      ∀ other, other ≠ c.key → ∀ s after, Applies json c s after → after.get other = s.get other) ↔
    Utf8.valid c.key = true := by
  obtain ⟨encoded, decoded⟩ : encodeCommand json c = .ok (json.marshalCommand c) ∧
    decodeCommand json (json.marshalCommand c) = .ok { c with key := Utf8.toValid c.key } :=
    decode_encode known filled
  constructor
  · rintro ⟨⟨data, same, back⟩, -⟩
    obtain rfl := Except.ok.inj (encoded.symm.trans same)
    exact Utf8.toValid_eq_self_iff.mp (congrArg Command.key (Except.ok.inj (decoded.symm.trans back)))
  · intro utf8
    have key := Utf8.toValid_eq_self_iff.mpr utf8
    refine ⟨⟨_, encoded, ?_⟩, fun put s after applied => ?_, fun other apart s after applied => ?_⟩
    · rw [decoded, key]
    · have written := congrFun (applied.data json known filled) c.key
      rw [key, Function.update_self, if_pos put] at written
      exact written
    · have written := congrFun (applied.data json known filled) other
      rw [key, Function.update_of_ne apart] at written
      exact written

/-- A put with a key in UTF-8, the letter `é`. -/
theorem command_survives_iff_accent :
    (∃ data, encodeCommand wire ⟨.put, [0xC3, 0xA9], [49]⟩ = .ok data ∧
        decodeCommand wire data = .ok ⟨.put, [0xC3, 0xA9], [49]⟩) ∧
      ∀ s after, Applies wire ⟨.put, [0xC3, 0xA9], [49]⟩ s after →
        after.get [0xC3, 0xA9] = some [49] := by
  have survives := (command_survives_iff wire
    (Or.inl rfl : Operation.put = .put ∨ Operation.put = .delete)
    (by decide : Command.key ⟨.put, [0xC3, 0xA9], [49]⟩ ≠ [])).mpr (by decide +kernel)
  exact ⟨survives.1, survives.2.1 rfl⟩

/-- The keys `0xFF` and `0xFE` are no UTF-8: a put to the first is read back as a put to U+FFFD, `Get`
does not find it, and a put to the second writes the same entry. -/
theorem broken_keys_collide :
    decodeCommand wire (wire.marshalCommand ⟨.put, [0xFF], [49]⟩) =
      .ok ⟨.put, [0xEF, 0xBF, 0xBD], [49]⟩ ∧
    decodeCommand wire (wire.marshalCommand ⟨.put, [0xFE], [50]⟩) =
      .ok ⟨.put, [0xEF, 0xBF, 0xBD], [50]⟩ ∧
    ∃ after, Applies wire ⟨.put, [0xFF], [49]⟩ KVStateMachine.newKVStateMachine after ∧
      after.get [0xFF] = none := by
  have replaced : Utf8.toValid [0xFF] = [0xEF, 0xBF, 0xBD] ∧ Utf8.toValid [0xFE] = [0xEF, 0xBF, 0xBD] := by
    decide +kernel
  have first : decodeCommand wire (wire.marshalCommand ⟨.put, [0xFF], [49]⟩) =
      .ok ⟨.put, Utf8.toValid [0xFF], [49]⟩ := (decode_encode (Or.inl rfl) (by decide)).2
  have second : decodeCommand wire (wire.marshalCommand ⟨.put, [0xFE], [50]⟩) =
      .ok ⟨.put, Utf8.toValid [0xFE], [50]⟩ := (decode_encode (Or.inl rfl) (by decide)).2
  have applied : Applies wire ⟨.put, [0xFF], [49]⟩ KVStateMachine.newKVStateMachine
      ⟨(∅ : KVMap).insert (Utf8.toValid [0xFF]) [49], none⟩ := by
    refine ⟨0, 0, ?_⟩
    unfold KVStateMachine.apply
    simp only [first]
    rfl
  refine ⟨by rw [first, replaced.1], by rw [second, replaced.2], _, applied, ?_⟩
  have written := congrFun (applied.data wire (Or.inl rfl) (by decide)) [0xFF]
  rw [Function.update_of_ne (by rw [replaced.1]; decide)] at written
  exact written

end Codec

end Store
