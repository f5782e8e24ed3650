import RvKeyValue.Base.Overwrite
import RvKeyValue.Store.Command

/-!
# The key-value state machine

`store/kv_state_machine.go`. The machine has its map in memory and, with a database, the same map in
a bucket. Of bbolt it is assumed that an update is made whole or not at all, and that `Put` refuses
an empty key, a key of more than 32768 bytes and a value of more than 2^31 - 2, and nothing else.
-/

namespace Store

open Raft (Bytes LogEntry)

/-- `bbolt.MaxKeySize`. -/
def maxKeySize : Nat := 32768

/-- `bbolt.MaxValueSize`. -/
def maxValueSize : Nat := 2147483646

/-- `Bucket.Put`. -/
def boltPut (bucket : KVMap) (key value : Bytes) : Except KVError KVMap :=
  if key = [] then .error (.bolt "key required")
  else if maxKeySize < key.length then .error (.bolt "key too large")
  else if maxValueSize < value.length then .error (.bolt "value too large")
  else .ok (bucket.insert key value)

/-- `KVStateMachine`. -/
structure KVStateMachine where
  /-- The map. -/
  data : KVMap
  /-- The bucket of the database, if there is one. -/
  db : Option KVMap

/-- Copy entries into a map, one after the other. -/
def insertAll (into : KVMap) : List (Bytes × Bytes) → KVMap
  | [] => into
  | (key, value) :: rest => insertAll (into.insert key value) rest

/-- Put entries into a bucket, one after the other. -/
def putAll (bucket : KVMap) : List (Bytes × Bytes) → Except KVError KVMap
  | [] => .ok bucket
  | (key, value) :: rest =>
    match boltPut bucket key value with
    | .error err => .error err
    | .ok bucket => putAll bucket rest

namespace KVStateMachine

/-- `NewKVStateMachine`. -/
def newKVStateMachine : KVStateMachine := ⟨∅, none⟩

/-- `load`. -/
def load (s : KVStateMachine) : KVStateMachine :=
  match s.db with
  | none => s
  | some bucket => { s with data := insertAll s.data bucket.toList }

/-- `NewBoltKVStateMachine` over the bucket of a database. -/
def newBoltKVStateMachine (db : Option KVMap) : KVStateMachine := load ⟨∅, db⟩

/-- `applyBolt`. -/
def applyBolt (bucket : KVMap) (c : Command) : Except KVError KVMap :=
  match c.operation with
  | .noop => .ok bucket
  | .put => boltPut bucket c.key c.value
  | .delete => .ok (bucket.erase c.key)
  | .unsupported _ => .ok bucket

/-- The switch of `Apply`, on the map in memory. -/
def applyData (data : KVMap) (c : Command) : KVMap :=
  match c.operation with
  | .noop => data
  | .put => data.insert c.key c.value
  | .delete => data.erase c.key
  | .unsupported _ => data

/-- `Apply` of a decoded command. -/
def applyCommand (s : KVStateMachine) (c : Command) : Except KVError KVStateMachine :=
  match s.db with
  | none => .ok { s with data := applyData s.data c }
  | some bucket =>
    match applyBolt bucket c with
    | .error err => .error err
    | .ok bucket => .ok ⟨applyData s.data c, some bucket⟩

/-- `Get`. -/
def get (s : KVStateMachine) (key : Bytes) : Option Bytes := s.data[key]?

section

variable (json : Json)

/-- `Apply`. -/
def apply (s : KVStateMachine) (entry : LogEntry) : Except KVError KVStateMachine :=
  match decodeCommand json entry.command with
  | .error err => .error err
  | .ok c => s.applyCommand c

/-- `Snapshot`. -/
def snapshot (s : KVStateMachine) : Bytes := json.marshalMap (insertAll ∅ s.data.toList)

/-- `RestoreSnapshot`. The bucket is deleted, made again and filled in one update. -/
def restoreSnapshot (s : KVStateMachine) (snapshot : Bytes) : Except KVError KVStateMachine :=
  if snapshot = [] then .ok s
  else
    match json.unmarshalMap snapshot with
    | none => .error .unmarshal
    | some data =>
      let restored := insertAll ∅ data.toList
      match s.db with
      | none => .ok { s with data := restored }
      | some _ =>
        match putAll ∅ restored.toList with
        | .error err => .error err
        | .ok bucket => .ok ⟨restored, some bucket⟩

end

end KVStateMachine

/-- What a map holds at each key. -/
def contents (data : KVMap) (key : Bytes) : Option Bytes := data[key]?

/-- Maps that hold the same are the same. -/
theorem contents_inj {left right : KVMap} (same : contents left = contents right) : left = right :=
  Std.ExtTreeMap.ext_getElem? fun key => congrFun same key

/-- An empty map holds nothing. -/
theorem contents_empty : contents ∅ = fun _ => none := by
  funext key
  exact Std.ExtTreeMap.getElem?_empty

/-- Storing a value writes it at its key. -/
theorem contents_insert (data : KVMap) (key value : Bytes) :
    contents (data.insert key value) = Function.update (contents data) key (some value) := by
  funext other
  unfold contents
  rw [Std.ExtTreeMap.getElem?_insert]
  by_cases here : key = other
  · rw [if_pos (Std.LawfulEqCmp.compare_eq_iff_eq.mpr here), ← here, Function.update_self]
  · rw [if_neg fun equal => here (Std.LawfulEqCmp.compare_eq_iff_eq.mp equal),
      Function.update_of_ne (Ne.symm here)]

/-- Removing a key writes that there is none. -/
theorem contents_erase (data : KVMap) (key : Bytes) :
    contents (data.erase key) = Function.update (contents data) key none := by
  funext other
  unfold contents
  rw [Std.ExtTreeMap.getElem?_erase]
  by_cases here : key = other
  · rw [if_pos (Std.LawfulEqCmp.compare_eq_iff_eq.mpr here), ← here, Function.update_self]
  · rw [if_neg fun equal => here (Std.LawfulEqCmp.compare_eq_iff_eq.mp equal),
      Function.update_of_ne (Ne.symm here)]

/-- Copying entries writes them in order. -/
theorem contents_insertAll (into : KVMap) (entries : List (Bytes × Bytes)) :
    contents (insertAll into entries) =
      Overwrite.replay (contents into) (entries.map fun entry => (entry.1, some entry.2)) := by
  induction entries generalizing into with
  | nil => rfl
  | cons entry rest ih =>
    rw [insertAll, ih, contents_insert]
    rfl

/-- Copying a whole map gives the map. -/
theorem insertAll_toList (data : KVMap) : insertAll ∅ data.toList = data := by
  refine contents_inj (funext fun key => ?_)
  rw [contents_insertAll, contents_empty]
  have distinct : (data.toList.map fun entry => (entry.1, some entry.2)).Pairwise
      fun left right => left.1 ≠ right.1 := by
    refine List.pairwise_map.mpr (Std.ExtTreeMap.distinct_keys_toList.imp fun apart same => ?_)
    exact apart (Std.LawfulEqCmp.compare_eq_iff_eq.mpr same)
  cases found : contents data key with
  | some value =>
    have listed : (key, some value) ∈ data.toList.map fun entry => (entry.1, some entry.2) :=
      List.mem_map.mpr ⟨(key, value), Std.ExtTreeMap.mem_toList_iff_getElem?_eq_some.mpr found, rfl⟩
    exact Overwrite.replay_of_mem distinct listed
  | none =>
    refine Overwrite.replay_of_notMem fun write listed here => ?_
    obtain ⟨entry, among, rfl⟩ := List.mem_map.mp listed
    have there : data[entry.1]? = some entry.2 :=
      Std.ExtTreeMap.mem_toList_iff_getElem?_eq_some.mp among
    have absent : data[entry.1]? = none := by
      rw [show entry.1 = key from here]
      exact found
    rw [absent] at there
    contradiction

end Store
