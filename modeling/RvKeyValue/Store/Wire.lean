import RvKeyValue.Base.JsonText
import RvKeyValue.Store.Machine

/-!
# The wire format

The texts `encoding/json` writes for commands and for maps, and a reader of them, as an instance of
what the store assumes of `encoding/json`. `json.Unmarshal` accepts more than is ever written: blanks,
`null` for an object, and field names in other cases. This reader refuses those, and what is proved of the
store holds with every reader of the written texts.
-/

namespace Store

open Raft (Bytes MembershipCommand asciiBytes)
open JsonText (Field)

/-- The fields of a command; an empty value is left out. -/
def commandFields (c : Command) : List Field :=
  (asciiBytes "operation", some (asciiBytes c.operation.text)) :: (asciiBytes "key", some c.key) ::
    if c.value = [] then [] else [(asciiBytes "value", some (JsonText.encode64 c.value))]

/-- The string of a field, empty when the field is absent or null. -/
def fieldText (name : String) (fields : List Field) : Bytes :=
  Utf8.toValid (((fields.find? fun field => field.1 = asciiBytes name).bind Prod.snd).getD [])

/-- The text of ASCII bytes. -/
def asciiText (bytes : Bytes) : String := String.ofList (bytes.map fun byte => Char.ofNat byte.toNat)

/-- The operation a string names. -/
def operationOf (text : Bytes) : Operation :=
  if text = asciiBytes "put" then .put
  else if text = asciiBytes "delete" then .delete
  else if text = asciiBytes "noop" then .noop
  else .unsupported (asciiText text)

/-- Read a command. -/
def readCommand (data : Bytes) : Option Command :=
  match JsonText.readObject data with
  | none => none
  | some fields =>
    match JsonText.decode64 (fieldText "value" fields) with
    | none => none
    | some value => some ⟨operationOf (fieldText "operation" fields), fieldText "key" fields, value⟩

/-- Read a membership command. -/
def readMembership (data : Bytes) : Option MembershipCommand :=
  (JsonText.readObject data).map fun fields =>
    ⟨asciiText (fieldText "operation" fields), .unsupported (asciiText (fieldText "type" fields)),
      asciiText (fieldText "peer_id" fields)⟩

/-- The fields of a map; a nil value is null. -/
def mapFields (entries : List (Bytes × Bytes)) : List Field :=
  entries.map fun entry => (entry.1, if entry.2 = [] then none else some (JsonText.encode64 entry.2))

/-- Read the entries of a map. -/
def readEntries : List Field → Option (List (Bytes × Bytes))
  | [] => some []
  | field :: rest =>
    match JsonText.decode64 (field.2.getD []) with
    | none => none
    | some value => (readEntries rest).map fun entries => (Utf8.toValid field.1, value) :: entries

/-- Read a map. -/
def readMap (data : Bytes) : Option KVMap :=
  match JsonText.readObject data with
  | none => none
  | some fields => (readEntries fields).map (insertAll ∅)

/-- A valid command has one of the three operations. -/
theorem operation_known {c : Command} (sound : c.validate = .ok ()) :
    c.operation = .put ∨ c.operation = .delete ∨ c.operation = .noop := by
  unfold Command.validate at sound
  split at sound
  · rename_i noop
    exact Or.inr (Or.inr noop)
  split at sound
  · cases sound
  split at sound
  · rename_i put
    exact Or.inl put
  · rename_i delete
    exact Or.inr (Or.inl delete)
  · cases sound

/-- The name of an operation is ASCII, is read back, and is its text. -/
theorem operation_text {op : Operation} (known : op = .put ∨ op = .delete ∨ op = .noop) :
    Utf8.toValid (asciiBytes op.text) = asciiBytes op.text ∧ operationOf (asciiBytes op.text) = op ∧
      asciiText (asciiBytes op.text) = op.text := by
  rcases known with rfl | rfl | rfl <;> decide +kernel

/-- The fields of a command, with the bytes of the key replaced that are not UTF-8. -/
theorem commandFields_toValid {c : Command} (sound : c.validate = .ok ()) :
    (commandFields c).map Field.toValid = commandFields { c with key := Utf8.toValid c.key } := by
  have operation := (operation_text (operation_known sound)).1
  have names : Utf8.toValid (asciiBytes "operation") = asciiBytes "operation" ∧
      Utf8.toValid (asciiBytes "key") = asciiBytes "key" ∧
      Utf8.toValid (asciiBytes "value") = asciiBytes "value" := by
    decide +kernel
  have value := Utf8.toValid_of_ascii (JsonText.encode64_ascii c.value)
  unfold commandFields
  simp only [List.map_cons, Field.toValid, Option.map_some, names.1, names.2.1, operation]
  split
  · rfl
  · simp only [List.map_cons, List.map_nil, Field.toValid, Option.map_some, names.2.2, value]

/-- What the fields of a command say. -/
theorem fieldText_command (c : Command) :
    fieldText "operation" (commandFields c) = Utf8.toValid (asciiBytes c.operation.text) ∧
      fieldText "key" (commandFields c) = Utf8.toValid c.key ∧
      fieldText "value" (commandFields c) = JsonText.encode64 c.value := by
  have apart : asciiBytes "operation" ≠ asciiBytes "key" ∧ asciiBytes "operation" ≠ asciiBytes "value" ∧
      asciiBytes "key" ≠ asciiBytes "value" := by
    decide +kernel
  unfold fieldText commandFields
  refine ⟨?_, ?_, ?_⟩
  · simp
  · simp [apart.1]
  · simp only [List.find?_cons, decide_eq_false apart.2.1, decide_eq_false apart.2.2]
    split
    · rename_i empty
      rw [empty]
      rfl
    · simp [Utf8.toValid_of_ascii (JsonText.encode64_ascii c.value)]

/-- A command is read back, with the bytes of its key replaced that are not UTF-8. -/
theorem readCommand_writeObject {c : Command} (sound : c.validate = .ok ()) :
    readCommand (JsonText.writeObject (commandFields c)) =
      some { c with key := Utf8.toValid c.key } := by
  obtain ⟨operation, named, -⟩ := operation_text (operation_known sound)
  obtain ⟨opField, keyField, valueField⟩ := fieldText_command { c with key := Utf8.toValid c.key }
  unfold readCommand
  rw [JsonText.readObject_writeObject, commandFields_toValid sound]
  dsimp only at opField keyField valueField ⊢
  rw [opField, keyField, valueField, JsonText.decode64_encode64, operation, named,
    Utf8.toValid_toValid]

/-- The entries of a map whose keys are UTF-8 are read back. -/
theorem readEntries_mapFields {entries : List (Bytes × Bytes)}
    (utf8 : ∀ entry ∈ entries, Utf8.valid entry.1 = true) :
    readEntries ((mapFields entries).map Field.toValid) = some entries := by
  induction entries with
  | nil => rfl
  | cons entry rest ih =>
    obtain ⟨first, later⟩ := List.forall_mem_cons.mp utf8
    have name := Utf8.toValid_eq_self_iff.mpr first
    have value : JsonText.decode64 (((if entry.2 = [] then none
        else some (JsonText.encode64 entry.2)).map Utf8.toValid).getD []) = some entry.2 := by
      split
      · rename_i empty
        rw [empty]
        rfl
      · rw [Option.map_some, Option.getD_some,
          Utf8.toValid_of_ascii (JsonText.encode64_ascii entry.2), JsonText.decode64_encode64]
    have others := ih later
    unfold mapFields at others ⊢
    simp only [List.map_cons, readEntries, Field.toValid, value, name, others, Option.map_some]

/-- The texts of commands and maps, and their reader. -/
def wire : Json where
  marshalCommand c := JsonText.writeObject (commandFields c)
  unmarshalCommand := readCommand
  unmarshalMembership := readMembership
  marshalMap data := JsonText.writeObject (mapFields data.toList)
  unmarshalMap := readMap
  command_roundtrip c sound := readCommand_writeObject sound
  command_valid := by
    intro data c read
    unfold readCommand at read
    split at read
    · contradiction
    · split at read
      · contradiction
      · obtain rfl := Option.some.inj read
        exact Utf8.valid_toValid _
  membership_operation := by
    intro c sound
    obtain ⟨operation, -, text⟩ := operation_text (operation_known sound)
    obtain ⟨opField, -, -⟩ := fieldText_command { c with key := Utf8.toValid c.key }
    refine ⟨_, congrArg _ (JsonText.readObject_writeObject _), ?_⟩
    rw [commandFields_toValid sound]
    dsimp only at opField ⊢
    rw [opField, operation, text]
  map_roundtrip := by
    intro data utf8
    unfold readMap
    rw [JsonText.readObject_writeObject]
    dsimp only
    rw [readEntries_mapFields, Option.map_some, insertAll_toList]
    intro entry listed
    have found := Std.ExtTreeMap.mem_toList_iff_getElem?_eq_some.mp listed
    exact utf8 _ (Std.ExtTreeMap.mem_iff_isSome_getElem?.mpr (by rw [found]; rfl))
  map_text := by
    intro data
    unfold JsonText.writeObject
    split
    · exact List.cons_ne_nil _ _
    · exact List.cons_ne_nil _ _

end Store
