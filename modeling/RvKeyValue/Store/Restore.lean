import RvKeyValue.Store.Wire

/-!
# Recovery of the key-value store

A restart gives the state machine a snapshot, or a database that has run ahead of the node, and the
node applies its log again. What the machine holds is a list of writes in which the last one to a key
counts, so both ways lead to what the commands leave when they are applied once, in order, from
nothing.
-/

namespace Store

open Raft (Bytes LogEntry)

/-- Whether `Put` takes a key and a value. -/
def boltAccepts (key value : Bytes) : Bool :=
  decide (key ≠ []) && decide (key.length ≤ maxKeySize) && decide (value.length ≤ maxValueSize)

/-- `Put` stores what it takes. -/
theorem boltPut_accepted (bucket : KVMap) {key value : Bytes} (accepted : boltAccepts key value = true) :
    boltPut bucket key value = .ok (bucket.insert key value) := by
  simp only [boltAccepts, Bool.and_eq_true, decide_eq_true_eq] at accepted
  obtain ⟨⟨some, short⟩, small⟩ := accepted
  rw [boltPut, if_neg some, if_neg (Nat.not_lt.mpr short), if_neg (Nat.not_lt.mpr small)]

/-- `Put` returns an error for anything else. -/
theorem boltPut_refused (bucket : KVMap) {key value : Bytes} (refused : boltAccepts key value = false) :
    ∃ err, boltPut bucket key value = .error err := by
  unfold boltPut
  by_cases empty : key = []
  · exact ⟨_, if_pos empty⟩
  rw [if_neg empty]
  by_cases long : maxKeySize < key.length
  · exact ⟨_, if_pos long⟩
  rw [if_neg long]
  by_cases large : maxValueSize < value.length
  · exact ⟨_, if_pos large⟩
  have accepted : boltAccepts key value = true := by
    simp only [boltAccepts, Bool.and_eq_true, decide_eq_true_eq]
    exact ⟨⟨empty, Nat.not_lt.mp long⟩, Nat.not_lt.mp large⟩
  rw [accepted] at refused
  contradiction

/-- What a command writes, on a machine with or without a database. -/
def Command.write (bolt : Bool) (c : Command) : Option (Bytes × Option Bytes) :=
  match c.operation with
  | .put => if bolt && !boltAccepts c.key c.value then none else some (c.key, some c.value)
  | .delete => some (c.key, none)
  | _ => none

/-- What the command of an entry writes. -/
def writeOf (json : Json) (bolt : Bool) (entry : LogEntry) : Option (Bytes × Option Bytes) :=
  match decodeCommand json entry.command with
  | .ok c => c.write bolt
  | .error _ => none

/-- What the commands of a log write. -/
def writesOf (json : Json) (bolt : Bool) (entries : List LogEntry) : List (Bytes × Option Bytes) :=
  entries.flatMap fun entry => (writeOf json bolt entry).toList

namespace KVStateMachine

/-- The machine after `Apply` was called, which leaves it as it was when it returns an error. -/
def call (json : Json) (s : KVStateMachine) (entry : LogEntry) : KVStateMachine :=
  match s.apply json entry with
  | .ok after => after
  | .error _ => s

/-- The machine after `Apply` was called for each entry. -/
def calls (json : Json) (s : KVStateMachine) : List LogEntry → KVStateMachine
  | [] => s
  | entry :: rest => (s.call json entry).calls json rest

/-- An empty machine, with a database if this one has one. -/
def emptied (s : KVStateMachine) : KVStateMachine := ⟨∅, s.db.map fun _ => ∅⟩

/-- Calls one list after the other. -/
theorem calls_append (json : Json) (s : KVStateMachine) (first second : List LogEntry) :
    s.calls json (first ++ second) = (s.calls json first).calls json second := by
  induction first generalizing s with
  | nil => rfl
  | cons entry rest ih => exact ih _

end KVStateMachine

/-- The switch of `Apply` writes to a map. -/
theorem contents_applyData (data : KVMap) (c : Command) :
    contents (KVStateMachine.applyData data c) =
      Overwrite.replay (contents data) (c.write false).toList := by
  unfold KVStateMachine.applyData Command.write
  cases c.operation with
  | put => exact contents_insert _ _ _
  | delete => exact contents_erase _ _
  | noop => rfl
  | unsupported text => rfl

/-- What a machine and its database hold after some writes. -/
structure Written (s : KVStateMachine) (writes : List (Bytes × Option Bytes)) (after : KVStateMachine) :
    Prop where
  /-- The map in memory. -/
  data : contents after.data = Overwrite.replay (contents s.data) writes
  /-- The bucket. -/
  db : after.db.map contents = s.db.map fun bucket => Overwrite.replay (contents bucket) writes

/-- Nothing is written. -/
theorem Written.refl (s : KVStateMachine) : Written s [] s := ⟨rfl, rfl⟩

/-- Two lists of writes. -/
theorem Written.trans {s middle after : KVStateMachine} {first second : List (Bytes × Option Bytes)}
    (begun : Written s first middle) (ended : Written middle second after) :
    Written s (first ++ second) after := by
  refine ⟨?_, ?_⟩
  · rw [Overwrite.replay_append, ← begun.data]
    exact ended.data
  · have bucket := congrArg (Option.map fun held => Overwrite.replay held second) begun.db
    rw [Option.map_map, Option.map_map] at bucket
    refine ended.db.trans (bucket.trans ?_)
    simp only [Function.comp_def, Overwrite.replay_append]

/-- Only whether a machine has a database decides what is written to it. -/
theorem Written.kind {s after : KVStateMachine} {writes : List (Bytes × Option Bytes)}
    (written : Written s writes after) : after.db.isSome = s.db.isSome := by
  have same := congrArg Option.isSome written.db
  rw [Option.isSome_map, Option.isSome_map] at same
  exact same

/-- `Apply` writes what the command of the entry writes. -/
theorem KVStateMachine.call_written (json : Json) (s : KVStateMachine) (entry : LogEntry) :
    Written s (writeOf json s.db.isSome entry).toList (s.call json entry) := by
  unfold call apply writeOf
  cases decodeCommand json entry.command with
  | error err => exact .refl s
  | ok c =>
    dsimp only
    unfold applyCommand
    cases held : s.db with
    | none =>
      refine ⟨contents_applyData s.data c, ?_⟩
      rw [held]
      rfl
    | some bucket =>
      have memory := contents_applyData s.data c
      unfold Command.write at memory ⊢
      unfold applyBolt
      cases op : c.operation with
      | put =>
        cases accepted : boltAccepts c.key c.value with
        | true =>
          simp only [op, boltPut_accepted bucket accepted] at memory ⊢
          refine ⟨memory, ?_⟩
          rw [held]
          exact congrArg some (contents_insert _ _ _)
        | false =>
          obtain ⟨err, refused⟩ := boltPut_refused bucket accepted
          simp only [refused]
          exact .refl s
      | delete =>
        rw [op] at memory
        refine ⟨memory, ?_⟩
        rw [held]
        exact congrArg some (contents_erase _ _)
      | noop =>
        rw [op] at memory
        refine ⟨memory, ?_⟩
        rw [held]
        rfl
      | unsupported text =>
        rw [op] at memory
        refine ⟨memory, ?_⟩
        rw [held]
        rfl

/-- Calls write what the commands of the log write. -/
theorem KVStateMachine.calls_written (json : Json) (s : KVStateMachine) (entries : List LogEntry) :
    Written s (writesOf json s.db.isSome entries) (s.calls json entries) := by
  induction entries generalizing s with
  | nil => exact .refl s
  | cons entry rest ih =>
    have first := s.call_written json entry
    have later := ih (s.call json entry)
    rw [first.kind] at later
    exact first.trans later

/-- What is written comes from a decoded put that the database takes. -/
theorem mem_writesOf {json : Json} {bolt : Bool} {entries : List LogEntry} {key value : Bytes}
    (listed : (key, some value) ∈ writesOf json bolt entries) :
    Utf8.valid key = true ∧ (bolt = true → boltAccepts key value = true) := by
  obtain ⟨entry, -, among⟩ := List.mem_flatMap.mp listed
  have write := Option.mem_toList.mp among
  unfold writeOf at write
  cases decoded : decodeCommand json entry.command with
  | error err =>
    rw [decoded] at write
    contradiction
  | ok c =>
    rw [decoded] at write
    dsimp only at write
    have utf8 := (decodeCommand_sound decoded).2
    unfold Command.write at write
    cases op : c.operation with
    | put =>
      rw [op] at write
      dsimp only at write
      split at write
      · contradiction
      · rename_i taken
        obtain ⟨rfl, same⟩ := Prod.mk.inj (Option.some.inj write)
        obtain rfl := Option.some.inj same
        refine ⟨utf8, fun database => ?_⟩
        rw [database] at taken
        simpa using taken
    | delete =>
      rw [op] at write
      have none := (Prod.mk.inj (Option.some.inj write)).2
      contradiction
    | noop =>
      rw [op] at write
      contradiction
    | unsupported text =>
      rw [op] at write
      contradiction

/-- What is stored in an empty machine by some calls. -/
theorem KVStateMachine.mem_calls {json : Json} {s : KVStateMachine} {entries : List LogEntry}
    (empty : s.data = ∅) {key value : Bytes}
    (found : (s.calls json entries).data[key]? = some value) :
    Utf8.valid key = true ∧ (s.db.isSome = true → boltAccepts key value = true) := by
  have written := (s.calls_written json entries).data
  rw [empty, contents_empty] at written
  have there : contents (s.calls json entries).data key = some value := found
  rw [written] at there
  cases Overwrite.replay_eq_or_mem (fun _ => none) (writesOf json s.db.isSome entries) key with
  | inl kept =>
    rw [there] at kept
    contradiction
  | inr listed =>
    rw [there] at listed
    exact mem_writesOf listed

/-- Entries that the database takes are put. -/
theorem putAll_accepted {bucket : KVMap} {entries : List (Bytes × Bytes)}
    (accepted : ∀ entry ∈ entries, boltAccepts entry.1 entry.2 = true) :
    putAll bucket entries = .ok (insertAll bucket entries) := by
  induction entries generalizing bucket with
  | nil => rfl
  | cons entry rest ih =>
    obtain ⟨first, later⟩ := List.forall_mem_cons.mp accepted
    rw [putAll, boltPut_accepted bucket first]
    exact ih later

/-- A machine that was empty and the bucket of its database hold the same after any calls. -/
theorem KVStateMachine.calls_emptied (json : Json) (s : KVStateMachine) (entries : List LogEntry) :
    s.emptied.calls json entries = ⟨(s.emptied.calls json entries).data,
      s.db.map fun _ => (s.emptied.calls json entries).data⟩ := by
  have written := s.emptied.calls_written json entries
  generalize s.emptied.calls json entries = after at written
  have memory := written.data
  have bucket := written.db
  obtain ⟨data, db⟩ := after
  unfold emptied at memory bucket
  dsimp only at memory bucket
  cases held : s.db with
  | none =>
    rw [held] at bucket
    obtain rfl : db = none := Option.map_eq_none_iff.mp bucket
    rfl
  | some old =>
    rw [held] at memory bucket
    obtain ⟨kept, rfl, same⟩ := Option.map_eq_some_iff.mp bucket
    have equal : kept = data := contents_inj (same.trans memory.symm)
    rw [equal]
    rfl

/-- A snapshot of a map whose keys are UTF-8, with entries the database takes, replaces whatever a
machine held. -/
theorem KVStateMachine.restore_snapshot (json : Json) (s : KVStateMachine) {data : KVMap}
    (db : Option KVMap) (utf8 : ∀ key ∈ data, Utf8.valid key = true)
    (accepted : s.db.isSome = true → ∀ key value, data[key]? = some value →
      boltAccepts key value = true) :
    s.restoreSnapshot json (KVStateMachine.snapshot json ⟨data, db⟩) =
      .ok ⟨data, s.db.map fun _ => data⟩ := by
  unfold restoreSnapshot snapshot
  dsimp only
  rw [insertAll_toList, if_neg (json.map_text data), json.map_roundtrip data utf8]
  dsimp only
  rw [insertAll_toList]
  cases held : s.db with
  | none => rfl
  | some bucket =>
    rw [held] at accepted
    have put : putAll ∅ data.toList = .ok data := by
      rw [putAll_accepted fun entry listed => ?_, insertAll_toList]
      exact accepted rfl _ _ (Std.ExtTreeMap.mem_toList_iff_getElem?_eq_some.mp listed)
    dsimp only
    rw [put]
    rfl

/-- A machine over a database holds what the bucket holds. -/
theorem KVStateMachine.newBolt_eq (bucket : KVMap) :
    newBoltKVStateMachine (some bucket) = ⟨bucket, some bucket⟩ := by
  unfold newBoltKVStateMachine load
  dsimp only
  rw [insertAll_toList]

/-- A valid put has a key. -/
theorem boltAccepts_of {c : Command} (op : c.operation = .put) (sound : c.validate = .ok ())
    (short : c.key.length ≤ maxKeySize) (small : c.value.length ≤ maxValueSize) :
    boltAccepts c.key c.value = true := by
  have some : c.key ≠ [] := by
    intro empty
    rw [Command.validate, op, if_neg (by decide), if_pos empty] at sound
    cases sound
  simp only [boltAccepts, Bool.and_eq_true, decide_eq_true_eq]
  exact ⟨⟨some, short⟩, small⟩

/-- A command the database takes is applied without an error, on every machine. -/
theorem KVStateMachine.apply_taken {json : Json} (s : KVStateMachine) {entry : LogEntry} {c : Command}
    (decoded : decodeCommand json entry.command = .ok c) (short : c.key.length ≤ maxKeySize)
    (small : c.value.length ≤ maxValueSize) : ∃ after, s.apply json entry = .ok after := by
  have sound := (decodeCommand_sound decoded).1
  unfold apply
  rw [decoded]
  dsimp only
  unfold applyCommand
  cases s.db with
  | none => exact ⟨_, rfl⟩
  | some bucket =>
    dsimp only
    unfold applyBolt
    cases op : c.operation with
    | put =>
      simp only [boltPut_accepted bucket (boltAccepts_of op sound short small)]
      exact ⟨_, rfl⟩
    | delete => exact ⟨_, rfl⟩
    | noop => exact ⟨_, rfl⟩
    | unsupported text => exact ⟨_, rfl⟩

/-- Machines that hold the same are the same. -/
theorem KVStateMachine.eq_of_contents {left right : KVStateMachine}
    (data : contents left.data = contents right.data)
    (db : left.db.map contents = right.db.map contents) : left = right := by
  obtain ⟨leftData, leftDb⟩ := left
  obtain ⟨rightData, rightDb⟩ := right
  obtain rfl := contents_inj data
  obtain rfl := Option.map_injective (fun _ _ => contents_inj) db
  rfl

/-- Commands the database takes write the same with and without it. -/
theorem writesOf_taken {json : Json} {entries : List LogEntry}
    (taken : ∀ entry ∈ entries, ∃ c, decodeCommand json entry.command = .ok c ∧
      c.key.length ≤ maxKeySize ∧ c.value.length ≤ maxValueSize) (bolt : Bool) :
    writesOf json bolt entries = writesOf json false entries := by
  unfold writesOf
  rw [List.flatMap_def, List.flatMap_def]
  congr 1
  refine List.map_congr_left fun entry listed => ?_
  obtain ⟨c, decoded, short, small⟩ := taken entry listed
  have sound := (decodeCommand_sound decoded).1
  unfold writeOf
  rw [decoded]
  dsimp only
  unfold Command.write
  cases op : c.operation with
  | put =>
    have accepted := boltAccepts_of op sound short small
    simp only [accepted, Bool.not_true, Bool.and_false]
  | delete => rfl
  | noop => rfl
  | unsupported text => rfl

/-- Recovery is replay from scratch, for every log of commands that `DecodeCommand` yields, with keys
the database takes, and for every cut of it. A machine with any content that restores the snapshot
made after the first entries and applies the rest is the machine that applied them all from nothing.
So is a machine over a database that holds the state after some entries, when it applies them all
again. And with values the database takes as well no `Apply` returns an error, with or without a
database. -/
theorem recovery_equals_replay (json : Json) {entries : List LogEntry}
    (decodes : ∀ entry ∈ entries, ∃ c, decodeCommand json entry.command = .ok c ∧
      c.key.length ≤ maxKeySize) (k m : Nat) :
    (∀ s : KVStateMachine, ∃ restored,
      s.restoreSnapshot json ((s.emptied.calls json (entries.take k)).snapshot json) = .ok restored ∧
        restored.calls json (entries.drop k) = s.emptied.calls json entries) ∧
    (∀ bucket, ((KVStateMachine.newBoltKVStateMachine (some ∅)).calls json (entries.take m)).db =
        some bucket →
      (KVStateMachine.newBoltKVStateMachine (some bucket)).calls json entries =
        (KVStateMachine.newBoltKVStateMachine (some ∅)).calls json entries) ∧
    ((∀ entry ∈ entries, ∀ c, decodeCommand json entry.command = .ok c →
        c.value.length ≤ maxValueSize) →
      (∀ s : KVStateMachine, ∀ entry ∈ entries, ∃ after, s.apply json entry = .ok after) ∧
      ∀ s : KVStateMachine, (s.emptied.calls json entries).data =
        (KVStateMachine.newKVStateMachine.calls json entries).data) := by
  refine ⟨fun s => ?_, fun bucket held => ?_, fun small => ⟨fun s entry listed => ?_, fun s => ?_⟩⟩
  · have whole := s.calls_emptied json (entries.take k)
    have found : ∀ key value, (s.emptied.calls json (entries.take k)).data[key]? = some value →
        Utf8.valid key = true ∧ (s.emptied.db.isSome = true → boltAccepts key value = true) :=
      fun key value there => KVStateMachine.mem_calls rfl there
    have kind : s.emptied.db.isSome = s.db.isSome := Option.isSome_map
    have restored := s.restore_snapshot json (s.emptied.calls json (entries.take k)).db
      (fun key there => ?_) fun database key value there =>
        (found key value there).2 (kind.trans database)
    · refine ⟨_, restored, ?_⟩
      rw [← whole, ← KVStateMachine.calls_append, List.take_append_drop]
    · obtain ⟨value, there⟩ := Option.isSome_iff_exists.mp (Std.ExtTreeMap.mem_iff_isSome_getElem?.mp there)
      exact (found key value there).1
  · rw [KVStateMachine.newBolt_eq] at held ⊢
    rw [KVStateMachine.newBolt_eq]
    -- the bucket has the first writes, which are lost in all of them
    have first := (KVStateMachine.calls_written json ⟨∅, some ∅⟩ (entries.take m)).db
    have again := KVStateMachine.calls_written json ⟨bucket, some bucket⟩ entries
    have once := KVStateMachine.calls_written json ⟨∅, some ∅⟩ entries
    rw [held] at first
    have kept : contents bucket = Overwrite.replay (contents ∅) (writesOf json true (entries.take m)) :=
      Option.some.inj first
    have lost : Overwrite.replay (contents bucket) (writesOf json true entries) =
        Overwrite.replay (contents ∅) (writesOf json true entries) := by
      rw [kept]
      refine Overwrite.replay_replay _ fun write listed => ?_
      obtain ⟨entry, among, written⟩ := List.mem_flatMap.mp listed
      exact List.mem_flatMap.mpr ⟨entry, List.mem_of_mem_take among, written⟩
    refine KVStateMachine.eq_of_contents ?_ ?_
    · exact again.data.trans (lost.trans once.data.symm)
    · refine again.db.trans (Eq.trans ?_ once.db.symm)
      exact congrArg some lost
  · obtain ⟨c, decoded, short⟩ := decodes entry listed
    exact s.apply_taken decoded short (small entry listed c decoded)
  · have taken : ∀ entry ∈ entries, ∃ c, decodeCommand json entry.command = .ok c ∧
        c.key.length ≤ maxKeySize ∧ c.value.length ≤ maxValueSize := by
      intro entry listed
      obtain ⟨c, decoded, short⟩ := decodes entry listed
      exact ⟨c, decoded, short, small entry listed c decoded⟩
    refine contents_inj ?_
    rw [(s.emptied.calls_written json entries).data, writesOf_taken taken,
      (KVStateMachine.newKVStateMachine.calls_written json entries).data]
    rfl

/-- A log that puts a value, puts an empty one and deletes the first. -/
def putPutDelete : List LogEntry :=
  [⟨1, 1, wire.marshalCommand ⟨.put, [97], [49]⟩⟩, ⟨1, 2, wire.marshalCommand ⟨.put, [98], []⟩⟩,
    ⟨1, 3, wire.marshalCommand ⟨.delete, [97], []⟩⟩]

/-- A machine that held something else restores the snapshot after the first entry. -/
theorem recovery_equals_replay_restored : ∃ restored,
    KVStateMachine.restoreSnapshot wire ⟨(∅ : KVMap).insert [99] [50], some ∅⟩
        (((KVStateMachine.mk ((∅ : KVMap).insert [99] [50]) (some ∅)).emptied.calls wire
          (putPutDelete.take 1)).snapshot wire) = .ok restored ∧
      restored.calls wire (putPutDelete.drop 1) =
        (KVStateMachine.mk ((∅ : KVMap).insert [99] [50]) (some ∅)).emptied.calls wire putPutDelete := by
  refine (recovery_equals_replay wire ?_ 1 2).1 _
  have decoded : ∀ c : Command, c.operation = .put ∨ c.operation = .delete → c.key ≠ [] →
      (Utf8.toValid c.key).length ≤ maxKeySize →
      ∃ d, decodeCommand wire (wire.marshalCommand c) = .ok d ∧ d.key.length ≤ maxKeySize :=
    fun c known some short => ⟨_, (decode_encode known some).2, short⟩
  unfold putPutDelete
  simp only [List.forall_mem_cons]
  exact ⟨decoded _ (by decide) (by decide) (by decide +kernel),
    decoded _ (by decide) (by decide) (by decide +kernel),
    decoded _ (by decide) (by decide) (by decide +kernel), by simp⟩

end Store
