import Mathlib.Data.Nat.Digits.Lemmas
import RvKeyValue.Base.JsonText
import RvKeyValue.Base.Utf8Text
import RvKeyValue.Base.Word

/-!
# JSON values

Values as `encoding/json` writes them, without insignificant space, and a reader of such texts. Numbers
are natural. A list between brackets is written and read by one pair of functions for every kind of
element, so arrays and objects share their law: what is written is read back, and what follows it is
left.
-/

namespace JsonText

/-- A JSON value. -/
inductive Value
  /-- `null`. -/
  | null
  /-- `true` or `false`. -/
  | bool (value : Bool)
  /-- A natural number. -/
  | number (value : Nat)
  /-- A string, as bytes. -/
  | text (bytes : List UInt8)
  /-- An array. -/
  | array (items : List Value)
  /-- An object. -/
  | object (fields : List (List UInt8 × Value))

section Numbers

/-- Whether a byte is a decimal digit. -/
def isDigit (byte : UInt8) : Bool := decide (48 ≤ byte) && decide (byte ≤ 57)

/-- The decimal digits of a number, the first one first. -/
def decimal (n : Nat) : List Nat := if n = 0 then [0] else (Nat.digits 10 n).reverse

/-- A number in decimal. -/
def writeNumber (n : Nat) : List UInt8 := (decimal n).map fun digit => (48 + digit).toUInt8

/-- Read a number; a leading zero stands alone. -/
def readNumber (bytes : List UInt8) : Option (Nat × List UInt8) :=
  let run := bytes.takeWhile isDigit
  let digits := run.map fun byte => byte.toNat - 48
  if digits = [] ∨ digits.head? = some 0 ∧ digits ≠ [0] then none
  else some (Nat.ofDigits 10 digits.reverse, bytes.drop run.length)

/-- What follows a number does not go on with it. -/
def Ends (suffix : List UInt8) : Prop := ∀ byte ∈ suffix.head?, isDigit byte = false

/-- The digits are below ten, and stand for the number. -/
theorem decimal_digits (n : Nat) : (∀ digit ∈ decimal n, digit < 10) ∧
    Nat.ofDigits 10 (decimal n).reverse = n ∧ decimal n ≠ [] ∧
    ((decimal n).head? = some 0 → decimal n = [0]) := by
  unfold decimal
  split
  · rename_i zero
    subst zero
    exact ⟨by simp, rfl, by simp, fun _ => rfl⟩
  · rename_i positive
    have some : Nat.digits 10 n ≠ [] := Nat.digits_ne_nil_iff_ne_zero.mpr positive
    refine ⟨fun digit listed => ?_, ?_, by simpa using some, fun leading => ?_⟩
    · exact Nat.digits_lt_base (by decide) (List.mem_reverse.mp listed)
    · rw [List.reverse_reverse]
      exact Nat.ofDigits_digits 10 n
    · rw [List.head?_reverse, List.getLast?_eq_getLast_of_ne_nil some] at leading
      exact absurd (Option.some.inj leading) (Nat.getLast_digit_ne_zero 10 positive)

/-- A digit is a byte between `0` and `9`, and is read back. -/
theorem digit_byte {digit : Nat} (low : digit < 10) :
    isDigit (48 + digit).toUInt8 = true ∧ (48 + digit).toUInt8.toNat - 48 = digit := by
  have all : ∀ digit < 10,
      isDigit (48 + digit).toUInt8 = true ∧ (48 + digit).toUInt8.toNat - 48 = digit := by decide
  exact all digit low

/-- The run of digits at the front stops where the number ends. -/
theorem takeWhile_digits {digits suffix : List UInt8} (all : ∀ byte ∈ digits, isDigit byte = true)
    (ends : Ends suffix) : (digits ++ suffix).takeWhile isDigit = digits := by
  rw [List.takeWhile_append_of_pos all]
  cases suffix with
  | nil => simp
  | cons byte rest =>
    have stop := ends byte rfl
    rw [List.takeWhile_cons_of_neg (by simp [stop]), List.append_nil]

/-- A number is read back. -/
theorem readNumber_writeNumber (n : Nat) {suffix : List UInt8} (ends : Ends suffix) :
    readNumber (writeNumber n ++ suffix) = some (n, suffix) := by
  obtain ⟨low, value, some, leading⟩ := decimal_digits n
  have all : ∀ byte ∈ writeNumber n, isDigit byte = true := by
    intro byte listed
    obtain ⟨digit, among, rfl⟩ := List.mem_map.mp listed
    exact (digit_byte (low digit among)).1
  have digits : (writeNumber n).map (fun byte => byte.toNat - 48) = decimal n := by
    unfold writeNumber
    rw [List.map_map]
    refine (List.map_congr_left fun digit among => ?_).trans (List.map_id _)
    exact (digit_byte (low digit among)).2
  unfold readNumber
  simp only [takeWhile_digits all ends, digits]
  rw [if_neg, value, List.drop_left]
  rintro (none | ⟨zero, other⟩)
  · exact some none
  · exact other (leading zero)

/-- A number starts with a digit. -/
theorem writeNumber_starts (n : Nat) :
    ∃ byte rest, writeNumber n = byte :: rest ∧ isDigit byte = true := by
  obtain ⟨low, -, some, -⟩ := decimal_digits n
  obtain ⟨digit, rest, same⟩ := List.exists_cons_of_ne_nil some
  refine ⟨_, _, congrArg _ same, (digit_byte (low digit ?_)).1⟩
  rw [same]
  exact List.mem_cons_self

/-- Other bytes are no digits. -/
theorem ne_of_isDigit {byte other : UInt8} (digit : isDigit byte = true) (not : isDigit other = false) :
    byte ≠ other := by
  rintro rfl
  rw [digit] at not
  contradiction

end Numbers

section Lists

variable {α β : Type*}

/-- The elements of a list after the first, each after a comma, and the closing bracket. -/
def writeRest (close : UInt8) (write : α → List UInt8) : List α → List UInt8
  | [] => [close]
  | item :: rest => 44 :: (write item ++ writeRest close write rest)

/-- A list after its opening bracket. -/
def writeList (close : UInt8) (write : α → List UInt8) : List α → List UInt8
  | [] => [close]
  | item :: rest => write item ++ writeRest close write rest

/-- Read the elements after the first; every one takes a byte. -/
def readRest (close : UInt8) (read : List UInt8 → Option (α × List UInt8)) :
    Nat → List UInt8 → Option (List α × List UInt8)
  | _, [] => none
  | 0, _ => none
  | budget + 1, byte :: bytes =>
    if byte = close then some ([], bytes)
    else if byte = 44 then do
      let (item, bytes) ← read bytes
      let (items, bytes) ← readRest close read budget bytes
      some (item :: items, bytes)
    else none

/-- Read a list after its opening bracket. -/
def readList (close : UInt8) (read : List UInt8 → Option (α × List UInt8)) (budget : Nat) :
    List UInt8 → Option (List α × List UInt8)
  | [] => none
  | byte :: bytes =>
    if byte = close then some ([], bytes)
    else do
      let (item, bytes) ← read (byte :: bytes)
      let (items, bytes) ← readRest close read budget bytes
      some (item :: items, bytes)

/-- An element is read back, whatever ends it. -/
def Reads (read : List UInt8 → Option (α × List UInt8)) (write : α → List UInt8) (item : α) : Prop :=
  ∀ suffix, Ends suffix → read (write item ++ suffix) = some (item, suffix)

variable {close : UInt8} {read : List UInt8 → Option (α × List UInt8)} {write : α → List UInt8}

variable (write) in
/-- What follows an element ends it. -/
theorem ends_writeRest (closes : isDigit close = false) (rest : List α) (suffix : List UInt8) :
    Ends (writeRest close write rest ++ suffix) := by
  intro byte first
  cases rest with
  | nil =>
    obtain rfl := Option.some.inj first
    exact closes
  | cons item rest =>
    obtain rfl := Option.some.inj first
    decide

/-- The elements after the first are read back. -/
theorem readRest_writeRest (closes : isDigit close = false) (apart : close ≠ 44) {items : List α}
    (each : ∀ item ∈ items, Reads read write item) (suffix : List UInt8) {budget : Nat}
    (enough : (writeRest close write items).length ≤ budget) :
    readRest close read budget (writeRest close write items ++ suffix) = some (items, suffix) := by
  induction items generalizing budget with
  | nil =>
    cases budget with
    | zero => simp [writeRest] at enough
    | succ budget => simp [writeRest, readRest]
  | cons item rest ih =>
    obtain ⟨here, later⟩ := List.forall_mem_cons.mp each
    simp only [writeRest, List.length_cons, List.length_append] at enough
    cases budget with
    | zero => omega
    | succ budget =>
      have head := here _ (ends_writeRest write closes rest suffix)
      have tail := ih later (show _ ≤ budget by omega)
      simp only [writeRest, List.cons_append, List.append_assoc, readRest, if_neg apart.symm, if_true,
        head, tail, Option.bind_eq_bind, Option.bind_some]

/-- A list is read back. -/
theorem readList_writeList (closes : isDigit close = false) (apart : close ≠ 44) {items : List α}
    (each : ∀ item ∈ items, Reads read write item)
    (opens : ∀ item ∈ items, ∃ byte rest, write item = byte :: rest ∧ byte ≠ close)
    (suffix : List UInt8) {budget : Nat} (enough : (writeList close write items).length ≤ budget) :
    readList close read budget (writeList close write items ++ suffix) = some (items, suffix) := by
  cases items with
  | nil => simp [writeList, readList]
  | cons item rest =>
    obtain ⟨here, later⟩ := List.forall_mem_cons.mp each
    obtain ⟨byte, text, starts, other⟩ := opens item List.mem_cons_self
    rw [writeList, List.length_append] at enough
    have head := here _ (ends_writeRest write closes rest suffix)
    have tail := readRest_writeRest closes apart later suffix (show _ ≤ budget by omega)
    rw [starts, List.cons_append] at head
    simp only [writeList, starts, List.cons_append, List.append_assoc, readList, if_neg other, head, tail,
      Option.bind_eq_bind, Option.bind_some]

variable (close write) in
/-- An element takes a part of the text of its list, beside a comma and the bracket. -/
theorem length_lt_writeRest {items : List α} {item : α} (listed : item ∈ items) :
    (write item).length + 1 < (writeRest close write items).length := by
  induction items with
  | nil => contradiction
  | cons first rest ih =>
    simp only [writeRest, List.length_cons, List.length_append]
    rcases List.mem_cons.mp listed with rfl | later
    · have closed : 0 < (writeRest close write rest).length := by cases rest <;> simp [writeRest]
      omega
    · have inside := ih later
      omega

variable (close write) in
/-- The first element has no comma. -/
theorem length_lt_writeList {items : List α} {item : α} (listed : item ∈ items) :
    (write item).length < (writeList close write items).length := by
  have part := length_lt_writeRest close write listed
  cases items with
  | nil => contradiction
  | cons first rest =>
    rw [writeRest, List.length_cons] at part
    rw [writeList]
    omega

end Lists

section Values

/-- `true` and `false`. -/
def writeBool : Bool → List UInt8
  | true => [116, 114, 117, 101]
  | false => [102, 97, 108, 115, 101]

mutual

/-- A value, as `json.Marshal` writes it. -/
def write : Value → List UInt8
  | .null => null
  | .bool value => writeBool value
  | .number value => writeNumber value
  | .text bytes => quote bytes
  | .array [] => [91, 93]
  | .array (item :: rest) => 91 :: (write item ++ writeItems rest)
  | .object [] => [123, 125]
  | .object ((name, value) :: rest) => 123 :: (quote name ++ 58 :: write value ++ writeMembers rest)

/-- The items of an array after the first. -/
def writeItems : List Value → List UInt8
  | [] => [93]
  | item :: rest => 44 :: (write item ++ writeItems rest)

/-- The members of an object after the first. -/
def writeMembers : List (List UInt8 × Value) → List UInt8
  | [] => [125]
  | (name, value) :: rest => 44 :: (quote name ++ 58 :: write value ++ writeMembers rest)

end

/-- A member of an object. -/
def writeMember (member : List UInt8 × Value) : List UInt8 := quote member.1 ++ 58 :: write member.2

/-- An array is a list of values. -/
theorem write_array (items : List Value) : write (.array items) = 91 :: writeList 93 write items := by
  have tail : ∀ rest, writeItems rest = writeRest 93 write rest := by
    intro rest
    induction rest with
    | nil => rfl
    | cons item rest ih => rw [writeItems, writeRest, ih]
  cases items with
  | nil => rfl
  | cons item rest => rw [write, tail, writeList]

/-- An object is a list of members. -/
theorem write_object (fields : List (List UInt8 × Value)) :
    write (.object fields) = 123 :: writeList 125 writeMember fields := by
  have tail : ∀ rest, writeMembers rest = writeRest 125 writeMember rest := by
    intro rest
    induction rest with
    | nil => rfl
    | cons member rest ih =>
      obtain ⟨name, value⟩ := member
      rw [writeMembers, writeRest, ih]
      rfl
  cases fields with
  | nil => rfl
  | cons member rest =>
    obtain ⟨name, value⟩ := member
    rw [write, tail, writeList]
    rfl

/-- Read a member of an object. -/
def readMember {α : Type*} (read : List UInt8 → Option (α × List UInt8)) :
    List UInt8 → Option ((List UInt8 × α) × List UInt8)
  | [] => none
  | byte :: bytes =>
    if byte = 34 then
      match unquote bytes with
      | some (name, colon :: bytes) =>
        if colon = 58 then (read bytes).map fun (value, bytes) => ((name, value), bytes) else none
      | _ => none
    else none

/-- Read a value; every value takes a byte. -/
def read : Nat → List UInt8 → Option (Value × List UInt8)
  | 0, _ => none
  | _, [] => none
  | budget + 1, byte :: bytes =>
    if byte = 34 then (unquote bytes).map fun (text, bytes) => (.text text, bytes)
    else if byte = 91 then
      (readList 93 (read budget) budget bytes).map fun (items, bytes) => (.array items, bytes)
    else if byte = 123 then
      (readList 125 (readMember (read budget)) budget bytes).map fun (fields, bytes) =>
        (.object fields, bytes)
    else if isDigit byte then
      (readNumber (byte :: bytes)).map fun (value, bytes) => (.number value, bytes)
    else if (byte :: bytes).take 4 = null then some (.null, bytes.drop 3)
    else if (byte :: bytes).take 4 = writeBool true then some (.bool true, bytes.drop 3)
    else if (byte :: bytes).take 5 = writeBool false then some (.bool false, bytes.drop 4)
    else none

/-- Read a text that is one value. -/
def parse (bytes : List UInt8) : Option Value :=
  match read bytes.length bytes with
  | some (value, []) => some value
  | _ => none

/-- A value whose strings are UTF-8. -/
inductive Value.Valid : Value → Prop
  /-- `null`. -/
  | null : Valid .null
  /-- `true` or `false`. -/
  | bool (value : Bool) : Valid (.bool value)
  /-- A number. -/
  | number (value : Nat) : Valid (.number value)
  /-- A string. -/
  | text {bytes : List UInt8} (valid : Utf8.valid bytes = true) : Valid (.text bytes)
  /-- An array. -/
  | array {items : List Value} (valid : ∀ item ∈ items, Valid item) : Valid (.array items)
  /-- An object. -/
  | object {fields : List (List UInt8 × Value)} (names : ∀ field ∈ fields, Utf8.valid field.1 = true)
      (valid : ∀ field ∈ fields, Valid field.2) : Valid (.object fields)

/-- The first byte of a value closes no list. -/
theorem write_starts (value : Value) :
    ∃ byte rest, write value = byte :: rest ∧ byte ≠ 93 ∧ byte ≠ 125 := by
  cases value with
  | null => exact ⟨110, _, rfl, by decide⟩
  | bool value => cases value <;> exact ⟨_, _, rfl, by decide⟩
  | number value =>
    obtain ⟨byte, rest, same, digit⟩ := writeNumber_starts value
    exact ⟨byte, rest, same, ne_of_isDigit digit (by decide), ne_of_isDigit digit (by decide)⟩
  | text bytes => exact ⟨34, _, rfl, by decide⟩
  | array items => exact ⟨91, _, write_array items, by decide⟩
  | object fields => exact ⟨123, _, write_object fields, by decide⟩

/-- A member with a name in UTF-8 is read back when its value is. -/
theorem readMember_writeMember {name : List UInt8} {value : Value}
    {reader : List UInt8 → Option (Value × List UInt8)} (valid : Utf8.valid name = true)
    (reads : Reads reader write value) : Reads (readMember reader) writeMember (name, value) := by
  intro suffix ends
  have quoted := unquote_quote name (58 :: (write value ++ suffix))
  rw [Utf8.toValid_eq_self_iff.mpr valid] at quoted
  have back := reads suffix ends
  simp only [writeMember, quote, List.cons_append, List.append_assoc, List.nil_append, readMember, if_true,
    quoted, back, Option.map_some]

/-- A value takes a byte. -/
theorem budget_succ {value : Value} {budget : Nat} (enough : (write value).length ≤ budget) :
    ∃ rest, budget = rest + 1 := by
  obtain ⟨byte, rest, same, -⟩ := write_starts value
  rw [same, List.length_cons] at enough
  exact Nat.exists_eq_add_one.mpr (by omega)

/-- A value whose strings are UTF-8 is read back. -/
theorem read_write {value : Value} (valid : value.Valid) {budget : Nat}
    (enough : (write value).length ≤ budget) : Reads (read budget) write value := by
  induction valid generalizing budget with
  | null =>
    intro suffix _
    obtain ⟨budget, rfl⟩ := budget_succ enough
    rfl
  | bool value =>
    intro suffix _
    obtain ⟨budget, rfl⟩ := budget_succ enough
    cases value <;> rfl
  | number value =>
    intro suffix ends
    obtain ⟨budget, rfl⟩ := budget_succ enough
    have back := readNumber_writeNumber value ends
    obtain ⟨byte, rest, same, digit⟩ := writeNumber_starts value
    rw [same, List.cons_append] at back
    have quote : byte ≠ 34 := ne_of_isDigit digit (by decide)
    have bracket : byte ≠ 91 := ne_of_isDigit digit (by decide)
    have brace : byte ≠ 123 := ne_of_isDigit digit (by decide)
    simp only [write, same, List.cons_append, read, if_neg quote, if_neg bracket, if_neg brace, digit,
      if_true, back, Option.map_some]
  | @text bytes valid =>
    intro suffix _
    obtain ⟨budget, rfl⟩ := budget_succ enough
    have back := unquote_quote bytes suffix
    rw [Utf8.toValid_eq_self_iff.mpr valid] at back
    simp only [write, quote, List.cons_append, List.append_assoc, List.nil_append, read, if_true, back,
      Option.map_some]
  | @array items valid ih =>
    intro suffix _
    obtain ⟨budget, rfl⟩ := budget_succ enough
    rw [write_array, List.length_cons] at enough
    have each : ∀ item ∈ items, Reads (read budget) write item := by
      intro item listed
      have inside := length_lt_writeList 93 write listed
      exact ih item listed (by omega)
    have opens : ∀ item ∈ items, ∃ byte rest, write item = byte :: rest ∧ byte ≠ 93 := by
      intro item _
      obtain ⟨byte, rest, same, other, -⟩ := write_starts item
      exact ⟨byte, rest, same, other⟩
    have back := readList_writeList (by decide) (by decide) each opens suffix
      (Nat.le_of_succ_le_succ enough)
    rw [write_array, List.cons_append]
    simp only [read, show ((91 : UInt8) = 34) = False by decide, if_false, if_true, back, Option.map_some]
  | @object fields names valid ih =>
    intro suffix _
    obtain ⟨budget, rfl⟩ := budget_succ enough
    rw [write_object, List.length_cons] at enough
    have each : ∀ field ∈ fields, Reads (readMember (read budget)) writeMember field := by
      intro field listed
      have inside := length_lt_writeList 125 writeMember listed
      simp only [writeMember, List.length_append, List.length_cons] at inside
      exact readMember_writeMember (names field listed) (ih field listed (by omega))
    have opens : ∀ field ∈ fields, ∃ byte rest, writeMember field = byte :: rest ∧ byte ≠ 125 :=
      fun field _ => ⟨34, _, rfl, by decide⟩
    have back := readList_writeList (by decide) (by decide) each opens suffix
      (Nat.le_of_succ_le_succ enough)
    rw [write_object, List.cons_append]
    simp only [read, show ((123 : UInt8) = 34) = False by decide, show ((123 : UInt8) = 91) = False by decide,
      if_false, if_true, back, Option.map_some]

/-- A value whose strings are UTF-8 is parsed. -/
theorem parse_write {value : Value} (valid : value.Valid) : parse (write value) = some value := by
  have back := read_write valid le_rfl [] (by simp [Ends])
  rw [List.append_nil] at back
  unfold parse
  rw [back]

end Values

section Structs

/-- The members of a struct that are not left out, in the order of its fields. -/
def present (members : List (String × Option Value)) : List (List UInt8 × Value) :=
  members.filterMap fun member => member.2.map fun value => (Utf8.encode member.1, value)

/-- The member with a name, null when there is none. -/
def member (name : String) (fields : List (List UInt8 × Value)) : Value :=
  ((fields.find? fun field => decide (field.1 = Utf8.encode name)).map Prod.snd).getD .null

/-- A struct has names in UTF-8, and values that its members have. -/
theorem present_valid {members : List (String × Option Value)}
    (valid : ∀ member ∈ members, ∀ value ∈ member.2, value.Valid) :
    (Value.object (present members)).Valid := by
  refine .object (fun field listed => ?_) fun field listed => ?_
  all_goals
    obtain ⟨⟨name, value⟩, among, made⟩ := List.mem_filterMap.mp listed
    obtain ⟨found, has, rfl⟩ := Option.map_eq_some_iff.mp made
  · exact Utf8.valid_encode name
  · exact valid _ among found has

/-- A member is found under its name. -/
theorem member_present {members : List (String × Option Value)}
    (distinct : (members.map Prod.fst).Nodup) {name : String} {value : Option Value}
    (listed : (name, value) ∈ members) : member name (present members) = value.getD .null := by
  -- what is found under the name is the value of the one member that has it
  have same : ∀ field ∈ present members, field.1 = Utf8.encode name → value = some field.2 := by
    intro field among named
    obtain ⟨other, there, made⟩ := List.mem_filterMap.mp among
    obtain ⟨found, here, rfl⟩ := Option.map_eq_some_iff.mp made
    have one := List.inj_on_of_nodup_map distinct there listed (Utf8.encode_injective named)
    rw [one] at here
    exact here
  unfold member
  cases search : (present members).find? fun field => decide (field.1 = Utf8.encode name) with
  | some field =>
    have named : field.1 = Utf8.encode name := by simpa using List.find?_some search
    rw [same field (List.mem_of_find?_eq_some search) named]
    rfl
  | none =>
    cases value with
    | none => rfl
    | some found =>
      have there : (Utf8.encode name, found) ∈ present members :=
        List.mem_filterMap.mpr ⟨_, listed, rfl⟩
      exact absurd (decide_eq_true rfl) (List.find?_eq_none.mp search _ there)

end Structs

section Fields

namespace Value

/-- A string. -/
def ofText (text : String) : Value := .text (Utf8.encode text)

/-- A byte slice, in base 64; a nil one is null. -/
def ofBytes (bytes : List UInt8) : Value := if bytes = [] then .null else .text (encode64 bytes)

/-- A number that is left out when it is zero. -/
def unlessZero (value : Nat) : Option Value := if value = 0 then none else some (.number value)

/-- A byte slice that is left out when it is empty. -/
def unlessEmpty (bytes : List UInt8) : Option Value := if bytes = [] then none else some (ofBytes bytes)

/-- Read an unsigned 64-bit integer. Null leaves the zero value, here and below. -/
def toWord : Value → Option Nat
  | null => some 0
  | number value => if value < Word.limit then some value else none
  | _ => none

/-- Read a string. -/
def toText : Value → Option String
  | null => some ""
  | text bytes => Utf8.decode bytes
  | _ => none

/-- Read a byte slice. -/
def toBytes : Value → Option (List UInt8)
  | null => some []
  | text bytes => decode64 bytes
  | _ => none

/-- Read a pointer to a Boolean. -/
def toFlag : Value → Option (Option Bool)
  | null => some none
  | bool value => some (some value)
  | _ => none

/-- Read a slice; null is the nil slice. -/
def toSlice {α : Type} (read : Value → Option α) : Value → Option (Option (List α))
  | null => some none
  | array items => (items.mapM read).map some
  | _ => none

/-- A word is read back. -/
theorem toWord_number {value : Nat} (fits : value < Word.limit) : toWord (.number value) = some value :=
  if_pos fits

/-- Also when it may have been left out. -/
theorem toWord_unlessZero {value : Nat} (fits : value < Word.limit) :
    toWord ((unlessZero value).getD .null) = some value := by
  unfold unlessZero
  split
  · rename_i zero
    rw [zero]
    rfl
  · exact toWord_number fits

/-- A string is read back. -/
theorem toText_ofText (text : String) : toText (ofText text) = some text := Utf8.decode_encode text

/-- A byte slice is read back. -/
theorem toBytes_ofBytes (bytes : List UInt8) : toBytes (ofBytes bytes) = some bytes := by
  unfold ofBytes
  split
  · rename_i empty
    rw [empty]
    rfl
  · exact decode64_encode64 bytes

/-- Also when it may have been left out. -/
theorem toBytes_unlessEmpty (bytes : List UInt8) :
    toBytes ((unlessEmpty bytes).getD .null) = some bytes := by
  unfold unlessEmpty
  split
  · rename_i empty
    rw [empty]
    rfl
  · exact toBytes_ofBytes bytes

/-- A flag is read back, and so is none. -/
theorem toFlag_bool (flag : Option Bool) : toFlag ((flag.map Value.bool).getD .null) = some flag := by
  cases flag with
  | none => rfl
  | some value => rfl

/-- A slice is read back when its elements are. -/
theorem toSlice_array {α : Type} {read : Value → Option α} {write : α → Value} {items : List α}
    (each : ∀ item ∈ items, read (write item) = some item) :
    toSlice read (.array (items.map write)) = some (some items) := by
  have all : (items.map write).mapM read = some items := by
    induction items with
    | nil => rfl
    | cons item rest ih =>
      have head := each item List.mem_cons_self
      have tail := ih fun other listed => each other (List.mem_cons_of_mem _ listed)
      rw [List.map_cons, List.mapM_cons, head, tail]
      rfl
  show ((items.map write).mapM read).map some = some (some items)
  rw [all, Option.map_some]

/-- A string is UTF-8. -/
theorem ofText_valid (text : String) : (ofText text).Valid := .text (Utf8.valid_encode text)

/-- So is base 64. -/
theorem ofBytes_valid (bytes : List UInt8) : (ofBytes bytes).Valid := by
  unfold ofBytes
  split
  · exact .null
  · exact .text (Utf8.valid_of_ascii (encode64_ascii bytes))

end Value

end Fields

end JsonText
