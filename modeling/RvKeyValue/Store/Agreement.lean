import RvKeyValue.Base.Run
import RvKeyValue.Store.Restore

/-!
# Memory and database

`Apply` and `RestoreSnapshot` of a machine over a database write twice: first to the bucket, in one
transaction, and then to the map in memory. A transaction may fail, by what its function does or when
it commits, and then leaves the database as it was. Here the two calls keep the machine they leave
beside the error they return, so that a call which fails half-way would show.

The map and the bucket hold the same after every call, and a call that returns an error has changed
neither.
-/

namespace Store

open Raft (Bytes LogEntry)
open Transition (Reach)

/-- A call of the state machine. The text is the error of a transaction that does not commit. -/
inductive KVCall
  /-- `Apply`. -/
  | apply (entry : LogEntry) (failure : Option String)
  /-- `RestoreSnapshot`. -/
  | restoreSnapshot (snapshot : Bytes) (failure : Option String)

namespace KVStateMachine

/-- `db.Update`, if there is a database: the function's error rolls the transaction back, and so does
a failure to commit. -/
def update (s : KVStateMachine) (failure : Option String) (body : KVMap → Except KVError KVMap) :
    KVStateMachine × Option KVError :=
  match s.db with
  | none => (s, none)
  | some bucket =>
    match body bucket with
    | .error err => (s, some err)
    | .ok after =>
      match failure with
      | some text => (s, some (.bolt text))
      | none => ({ s with db := some after }, none)

variable (json : Json)

/-- `Apply`, with the machine it leaves: the bucket is written before the map. -/
def applying (s : KVStateMachine) (failure : Option String) (entry : LogEntry) :
    KVStateMachine × Option KVError :=
  match decodeCommand json entry.command with
  | .error err => (s, some err)
  | .ok c =>
    match s.update failure fun bucket => applyBolt bucket c with
    | (s, some err) => (s, some err)
    | (s, none) => ({ s with data := applyData s.data c }, none)

/-- `RestoreSnapshot`, with the machine it leaves: the bucket is replaced before the map. -/
def restoring (s : KVStateMachine) (failure : Option String) (snapshot : Bytes) :
    KVStateMachine × Option KVError :=
  if snapshot = [] then (s, none)
  else
    match json.unmarshalMap snapshot with
    | none => (s, some .unmarshal)
    | some data =>
      let restored := insertAll ∅ data.toList
      match s.update failure fun _ => putAll ∅ restored.toList with
      | (s, some err) => (s, some err)
      | (s, none) => ({ s with data := restored }, none)

/-- A call. -/
def does (s : KVStateMachine) : KVCall → KVStateMachine × Option KVError
  | .apply entry failure => s.applying json failure entry
  | .restoreSnapshot snapshot failure => s.restoring json failure snapshot

/-- The machine after a call, whatever it returned. -/
def next (s : KVStateMachine) (call : KVCall) : Option KVStateMachine := some (s.does json call).1

/-- The machine of a call that keeps it only without an error. -/
def left (s : KVStateMachine) : Except KVError KVStateMachine → KVStateMachine × Option KVError
  | .ok after => (after, none)
  | .error err => (s, some err)

variable {json}

/-- What a transaction does: nothing, with or without an error, or what its function leaves. -/
theorem update_cases (s : KVStateMachine) (failure : Option String)
    (body : KVMap → Except KVError KVMap) :
    (∃ err, s.update failure body = (s, some err)) ∨
      s.db = none ∧ s.update failure body = (s, none) ∨
      ∃ bucket after, s.db = some bucket ∧ body bucket = .ok after ∧
        s.update failure body = ({ s with db := some after }, none) := by
  unfold update
  cases held : s.db with
  | none => exact Or.inr (Or.inl ⟨rfl, rfl⟩)
  | some bucket =>
    dsimp only
    cases written : body bucket with
    | error err => exact Or.inl ⟨err, rfl⟩
    | ok after =>
      cases failure with
      | some text => exact Or.inl ⟨_, rfl⟩
      | none => exact Or.inr (Or.inr ⟨bucket, after, rfl, written, rfl⟩)

/-- `Apply` whose transaction commits. -/
theorem applying_committed (s : KVStateMachine) (entry : LogEntry) :
    s.applying json none entry = s.left (s.apply json entry) := by
  unfold applying apply
  cases decodeCommand json entry.command with
  | error err => rfl
  | ok c =>
    obtain ⟨data, db⟩ := s
    dsimp only
    unfold update applyCommand
    cases db with
    | none => rfl
    | some bucket =>
      dsimp only
      cases applyBolt bucket c with
      | error err => rfl
      | ok after => rfl

/-- `RestoreSnapshot` whose transaction commits. -/
theorem restoring_committed (s : KVStateMachine) (snapshot : Bytes) :
    s.restoring json none snapshot = s.left (s.restoreSnapshot json snapshot) := by
  unfold restoring restoreSnapshot
  by_cases empty : snapshot = []
  · rw [if_pos empty, if_pos empty]
    rfl
  rw [if_neg empty, if_neg empty]
  cases json.unmarshalMap snapshot with
  | none => rfl
  | some data =>
    obtain ⟨memory, db⟩ := s
    dsimp only
    unfold update
    cases db with
    | none => rfl
    | some bucket =>
      dsimp only
      cases putAll ∅ (insertAll ∅ data.toList).toList with
      | error err => rfl
      | ok after => rfl

/-- `Put` stores what it takes. -/
theorem boltPut_eq {bucket after : KVMap} {key value : Bytes}
    (put : boltPut bucket key value = .ok after) : after = bucket.insert key value := by
  cases accepted : boltAccepts key value with
  | true =>
    rw [boltPut_accepted bucket accepted] at put
    exact (Except.ok.inj put).symm
  | false =>
    obtain ⟨err, failed⟩ := boltPut_refused bucket accepted
    rw [failed] at put
    contradiction

/-- The switch of `applyBolt` and the one of `Apply` do the same. -/
theorem applyBolt_eq {bucket after : KVMap} {c : Command} (applied : applyBolt bucket c = .ok after) :
    after = applyData bucket c := by
  unfold applyBolt at applied
  unfold applyData
  cases operation : c.operation with
  | put =>
    rw [operation] at applied
    exact boltPut_eq applied
  | delete =>
    rw [operation] at applied
    exact (Except.ok.inj applied).symm
  | noop =>
    rw [operation] at applied
    exact (Except.ok.inj applied).symm
  | unsupported text =>
    rw [operation] at applied
    exact (Except.ok.inj applied).symm

/-- What is put without an error is what is copied. -/
theorem putAll_eq {bucket after : KVMap} {entries : List (Bytes × Bytes)}
    (put : putAll bucket entries = .ok after) : after = insertAll bucket entries := by
  induction entries generalizing bucket with
  | nil => exact (Except.ok.inj put).symm
  | cons entry rest ih =>
    obtain ⟨key, value⟩ := entry
    simp only [putAll] at put
    split at put
    · contradiction
    · rename_i next stored
      obtain rfl := boltPut_eq stored
      exact ih put

/-- What a call does to a machine whose bucket holds what its map holds. -/
theorem does_agrees (json : Json) {s : KVStateMachine} (agree : s.db = some s.data) (call : KVCall) :
    (∃ err, s.does json call = (s, some err)) ∨
      ∃ data, s.does json call = (⟨data, some data⟩, none) := by
  have unchanged : (⟨s.data, some s.data⟩ : KVStateMachine) = s := by rw [← agree]
  cases call with
  | apply entry failure =>
    simp only [does, applying]
    cases decodeCommand json entry.command with
    | error err => exact Or.inl ⟨err, rfl⟩
    | ok c =>
      rcases s.update_cases failure fun bucket => applyBolt bucket c with
        ⟨err, failed⟩ | ⟨absent, -⟩ | ⟨bucket, after, held, applied, same⟩
      · exact Or.inl ⟨err, by simp only [failed]⟩
      · rw [agree] at absent
        contradiction
      · obtain rfl := Option.some.inj (agree.symm.trans held)
        exact Or.inr ⟨applyData s.data c, by simp only [same, applyBolt_eq applied]⟩
  | restoreSnapshot snapshot failure =>
    simp only [does, restoring]
    by_cases empty : snapshot = []
    · rw [if_pos empty]
      exact Or.inr ⟨s.data, by rw [unchanged]⟩
    rw [if_neg empty]
    cases json.unmarshalMap snapshot with
    | none => exact Or.inl ⟨_, rfl⟩
    | some data =>
      dsimp only
      rcases s.update_cases failure fun _ => putAll ∅ (insertAll ∅ data.toList).toList with
        ⟨err, failed⟩ | ⟨absent, -⟩ | ⟨bucket, after, held, put, same⟩
      · exact Or.inl ⟨err, by simp only [failed]⟩
      · rw [agree] at absent
        contradiction
      · have copied := (putAll_eq put).trans (insertAll_toList _)
        exact Or.inr ⟨insertAll ∅ data.toList, by simp only [same, copied]⟩

/-- After every call of every run over a database, whatever transactions fail: the map in memory is
the content of the bucket and what `NewBoltKVStateMachine` loads from it, and a call that returns an
error leaves both as they were. -/
theorem memory_equals_bucket {bucket : KVMap} {s : KVStateMachine}
    (run : Reach (KVStateMachine.next json) (fun _ _ => True) (newBoltKVStateMachine (some bucket)) s) :
    s.db = some s.data ∧ (newBoltKVStateMachine s.db).data = s.data ∧
      ∀ call err, (s.does json call).2 = some err → (s.does json call).1 = s := by
  have agree : s.db = some s.data := by
    refine run.invariant (P := fun s => s.db = some s.data) ?_ fun _ _ call agree _ stepped => ?_
    · rw [newBolt_eq]
    · obtain rfl := Option.some.inj stepped
      rcases does_agrees json agree call with ⟨err, failed⟩ | ⟨data, done⟩
      · rw [failed]
        exact agree
      · rw [done]
  refine ⟨agree, ?_, fun call err failed => ?_⟩
  · rw [agree, newBolt_eq]
  · rcases does_agrees json agree call with ⟨other, refused⟩ | ⟨data, done⟩
    · rw [refused]
    · rw [done] at failed
      contradiction

/-- A put that is stored, and one whose transaction does not commit. -/
theorem memory_equals_bucket_rolled_back : ∃ s : KVStateMachine,
    Reach (KVStateMachine.next wire) (fun _ _ => True) (newBoltKVStateMachine (some ∅)) s ∧
      s.get [97] = some [49] ∧ s.get [98] = none ∧ s.db = some s.data := by
  have passed : (Transition.exec (KVStateMachine.next wire) (fun _ _ => True)
      (newBoltKVStateMachine (some ∅))
      [.apply ⟨1, 1, wire.marshalCommand ⟨.put, [97], [49]⟩⟩ none,
        .apply ⟨1, 2, wire.marshalCommand ⟨.put, [98], [50]⟩⟩ (some "no space left")]).any (fun s =>
          decide (s.get [97] = some [49] ∧ s.get [98] = none)) = true := by
    decide +kernel
  obtain ⟨s, run, test⟩ := Reach.of_exec_test passed
  obtain ⟨stored, absent⟩ := of_decide_eq_true test
  exact ⟨s, run, stored, absent, (memory_equals_bucket run).1⟩

end KVStateMachine

end Store
