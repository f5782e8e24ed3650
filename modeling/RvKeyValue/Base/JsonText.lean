import RvKeyValue.Base.Utf8

/-!
# JSON objects of strings

The part of JSON that is an object whose values are strings or null, as a writer writes it without
blanks, with byte values as base64 text. Bytes of a string that are not UTF-8 are written as the escape
of the replacement character. A reader of such texts gives back what was written, in front of every
suffix, with those bytes replaced.
-/

namespace JsonText

section Base64

/-- The base64 digit of a number below 64. -/
def digit (n : Nat) : UInt8 :=
  if n < 26 then (65 + n).toUInt8
  else if n < 52 then (97 + (n - 26)).toUInt8
  else if n < 62 then (48 + (n - 52)).toUInt8
  else if n = 62 then 43
  else 47

/-- The number a base64 digit stands for. -/
def digitValue (byte : UInt8) : Option Nat :=
  let code := byte.toNat
  if 65 ≤ code ∧ code ≤ 90 then some (code - 65)
  else if 97 ≤ code ∧ code ≤ 122 then some (code - 97 + 26)
  else if 48 ≤ code ∧ code ≤ 57 then some (code - 48 + 52)
  else if code = 43 then some 62
  else if code = 47 then some 63
  else none

/-- Base64 with padding. -/
def encode64 : List UInt8 → List UInt8
  | [] => []
  | [a] => [digit (a.toNat / 4), digit (a.toNat % 4 * 16), 61, 61]
  | [a, b] =>
    [digit (a.toNat / 4), digit (a.toNat % 4 * 16 + b.toNat / 16), digit (b.toNat % 16 * 4), 61]
  | a :: b :: c :: rest =>
    digit (a.toNat / 4) :: digit (a.toNat % 4 * 16 + b.toNat / 16) ::
      digit (b.toNat % 16 * 4 + c.toNat / 64) :: digit (c.toNat % 64) :: encode64 rest

/-- The bytes a base64 text stands for. -/
def decode64 : List UInt8 → Option (List UInt8)
  | [] => some []
  | w :: x :: y :: z :: rest =>
    match digitValue w, digitValue x with
    | some w, some x =>
      if y = 61 then if z = 61 ∧ rest = [] then some [(w * 4 + x / 16).toUInt8] else none
      else
        match digitValue y with
        | none => none
        | some y =>
          if z = 61 then
            if rest = [] then some [(w * 4 + x / 16).toUInt8, (x % 16 * 16 + y / 4).toUInt8] else none
          else
            match digitValue z with
            | none => none
            | some z => (decode64 rest).map fun bytes => (w * 4 + x / 16).toUInt8 ::
                (x % 16 * 16 + y / 4).toUInt8 :: (y % 4 * 64 + z).toUInt8 :: bytes
    | _, _ => none
  | _ => none

/-- Digits are read back, are not padding, and are ASCII. -/
theorem digit_read : ∀ n < 64, digitValue (digit n) = some n ∧ digit n ≠ 61 ∧ digit n < 128 := by
  decide

/-- A byte put together from its parts. -/
theorem toUInt8_of_parts {byte : UInt8} {n : Nat} (same : n = byte.toNat) : n.toUInt8 = byte := by
  rw [same]
  exact UInt8.ofNat_toNat

/-- Base64 is read back. -/
theorem decode64_encode64 (bytes : List UInt8) : decode64 (encode64 bytes) = some bytes := by
  fun_induction encode64 bytes with
  | case1 => rfl
  | case2 a =>
    have low := a.toNat_lt
    have first := digit_read (a.toNat / 4) (by omega)
    have second := digit_read (a.toNat % 4 * 16) (by omega)
    have whole : (a.toNat / 4 * 4 + a.toNat % 4 * 16 / 16).toUInt8 = a :=
      toUInt8_of_parts (by omega)
    simp only [decode64, first.1, second.1, if_true, and_self, whole]
  | case3 a b =>
    have lowA := a.toNat_lt
    have lowB := b.toNat_lt
    have first := digit_read (a.toNat / 4) (by omega)
    have second := digit_read (a.toNat % 4 * 16 + b.toNat / 16) (by omega)
    have third := digit_read (b.toNat % 16 * 4) (by omega)
    have wholeA : (a.toNat / 4 * 4 + (a.toNat % 4 * 16 + b.toNat / 16) / 16).toUInt8 = a :=
      toUInt8_of_parts (by omega)
    have wholeB : ((a.toNat % 4 * 16 + b.toNat / 16) % 16 * 16 + b.toNat % 16 * 4 / 4).toUInt8 = b :=
      toUInt8_of_parts (by omega)
    simp only [decode64, first.1, second.1, third.1, if_neg third.2.1, if_true, wholeA, wholeB]
  | case4 a b c rest ih =>
    have lowA := a.toNat_lt
    have lowB := b.toNat_lt
    have lowC := c.toNat_lt
    have first := digit_read (a.toNat / 4) (by omega)
    have second := digit_read (a.toNat % 4 * 16 + b.toNat / 16) (by omega)
    have third := digit_read (b.toNat % 16 * 4 + c.toNat / 64) (by omega)
    have fourth := digit_read (c.toNat % 64) (by omega)
    have wholeA : (a.toNat / 4 * 4 + (a.toNat % 4 * 16 + b.toNat / 16) / 16).toUInt8 = a :=
      toUInt8_of_parts (by omega)
    have wholeB : ((a.toNat % 4 * 16 + b.toNat / 16) % 16 * 16 +
        (b.toNat % 16 * 4 + c.toNat / 64) / 4).toUInt8 = b :=
      toUInt8_of_parts (by omega)
    have wholeC : ((b.toNat % 16 * 4 + c.toNat / 64) % 4 * 64 + c.toNat % 64).toUInt8 = c :=
      toUInt8_of_parts (by omega)
    simp only [decode64, first.1, second.1, third.1, fourth.1, if_neg third.2.1, if_neg fourth.2.1, ih,
      Option.map_some, wholeA, wholeB, wholeC]

/-- A base64 text is ASCII. -/
theorem encode64_ascii (bytes : List UInt8) : ∀ byte ∈ encode64 bytes, byte < 128 := by
  have ascii : ∀ n < 64, digit n < 128 := fun n low => (digit_read n low).2.2
  fun_induction encode64 bytes with
  | case1 => simp
  | case2 a =>
    have low := a.toNat_lt
    simp only [List.forall_mem_cons]
    exact ⟨ascii _ (by omega), ascii _ (by omega), by decide, by decide, by simp⟩
  | case3 a b =>
    have lowA := a.toNat_lt
    have lowB := b.toNat_lt
    simp only [List.forall_mem_cons]
    exact ⟨ascii _ (by omega), ascii _ (by omega), ascii _ (by omega), by decide, by simp⟩
  | case4 a b c rest ih =>
    have lowA := a.toNat_lt
    have lowB := b.toNat_lt
    have lowC := c.toNat_lt
    simp only [List.forall_mem_cons]
    exact ⟨ascii _ (by omega), ascii _ (by omega), ascii _ (by omega), ascii _ (by omega), ih⟩

end Base64

section Strings

/-- A hexadecimal digit. -/
def hexDigit (n : Nat) : UInt8 := if n < 10 then (48 + n).toUInt8 else (87 + n).toUInt8

/-- The number a hexadecimal digit stands for. -/
def hexValue (byte : UInt8) : Option Nat :=
  let code := byte.toNat
  if 48 ≤ code ∧ code ≤ 57 then some (code - 48)
  else if 97 ≤ code ∧ code ≤ 102 then some (code - 87)
  else if 65 ≤ code ∧ code ≤ 70 then some (code - 55)
  else none

/-- The code point four hexadecimal digits stand for. -/
def codePoint (h1 h2 h3 h4 : UInt8) : Option Nat :=
  match hexValue h1, hexValue h2, hexValue h3, hexValue h4 with
  | some a, some b, some c, some d => some (((a * 16 + b) * 16 + c) * 16 + d)
  | _, _, _, _ => none

/-- The encoding of a code point below 65536; a surrogate is replaced. -/
def encodeRune (point : Nat) : List UInt8 :=
  if point < 0x80 then [point.toUInt8]
  else if point < 0x800 then [(0xC0 + point / 64).toUInt8, (0x80 + point % 64).toUInt8]
  else if 0xD800 ≤ point ∧ point ≤ 0xDFFF then Utf8.replacement
  else [(0xE0 + point / 4096).toUInt8, (0x80 + point / 64 % 64).toUInt8, (0x80 + point % 64).toUInt8]

/-- How an ASCII character is written in a string. -/
def escapeByte (byte : UInt8) : List UInt8 :=
  if byte = 34 ∨ byte = 92 then [92, byte]
  else if byte = 8 then [92, 98]
  else if byte = 12 then [92, 102]
  else if byte = 10 then [92, 110]
  else if byte = 13 then [92, 114]
  else if byte = 9 then [92, 116]
  else if byte < 32 ∨ byte = 60 ∨ byte = 62 ∨ byte = 38 then
    [92, 117, 48, 48, hexDigit (byte.toNat / 16), hexDigit (byte.toNat % 16)]
  else [byte]

/-- The character a letter after a backslash stands for. -/
def unescape (byte : UInt8) : Option UInt8 :=
  if byte = 34 ∨ byte = 92 ∨ byte = 47 then some byte
  else if byte = 98 then some 8
  else if byte = 102 then some 12
  else if byte = 110 then some 10
  else if byte = 114 then some 13
  else if byte = 116 then some 9
  else none

/-- The inside of a string, with a number of bytes of the current character to go. The separators U+2028
and U+2029 are escaped. -/
def quoteRunes : Nat → List UInt8 → List UInt8
  | _, [] => []
  | pending + 1, byte :: rest => byte :: quoteRunes pending rest
  | 0, byte :: rest =>
    match Utf8.runeSize (byte :: rest) with
    | 0 => [92, 117, 102, 102, 102, 100] ++ quoteRunes 0 rest
    | 1 => escapeByte byte ++ quoteRunes 0 rest
    | size + 2 =>
      match rest with
      | second :: third :: after =>
        if byte = 0xE2 ∧ second = 0x80 ∧ (third = 0xA8 ∨ third = 0xA9) then
          [92, 117, 50, 48, 50, hexDigit (third.toNat - 0xA0)] ++ quoteRunes 0 after
        else byte :: quoteRunes (size + 1) (second :: third :: after)
      | rest => byte :: quoteRunes (size + 1) rest

/-- A string in quotes. -/
def quote (text : List UInt8) : List UInt8 := 34 :: (quoteRunes 0 text ++ [34])

/-- Read the rest of a string after its opening quote. -/
def unquote : List UInt8 → Option (List UInt8 × List UInt8)
  | [] => none
  | byte :: rest =>
    if byte = 34 then some ([], rest)
    else if byte = 92 then
      match rest with
      | [] => none
      | kind :: rest =>
        if kind = 117 then
          match rest with
          | h1 :: h2 :: h3 :: h4 :: rest =>
            match codePoint h1 h2 h3 h4 with
            | none => none
            | some point => (unquote rest).map fun (text, rest) => (encodeRune point ++ text, rest)
          | _ => none
        else
          match unescape kind with
          | none => none
          | some byte => (unquote rest).map fun (text, rest) => (byte :: text, rest)
    else (unquote rest).map fun (text, rest) => (byte :: text, rest)
termination_by structural bytes => bytes

/-- A string ends at its closing quote. -/
theorem unquote_end (rest : List UInt8) : unquote (34 :: rest) = some ([], rest) := by
  rw [unquote.eq_def]
  exact if_pos rfl

/-- A byte that is neither a quote nor a backslash stands for itself. -/
theorem unquote_raw {byte : UInt8} (noQuote : byte ≠ 34) (noEscape : byte ≠ 92) (rest : List UInt8) :
    unquote (byte :: rest) = (unquote rest).map fun (text, rest) => (byte :: text, rest) := by
  rw [unquote.eq_def]
  dsimp only
  rw [if_neg noQuote, if_neg noEscape]

/-- A backslash and a letter stand for one character. -/
theorem unquote_letter {kind byte : UInt8} (noPoint : kind ≠ 117) (letter : unescape kind = some byte)
    (rest : List UInt8) :
    unquote (92 :: kind :: rest) = (unquote rest).map fun (text, rest) => (byte :: text, rest) := by
  rw [unquote.eq_def]
  dsimp only
  rw [if_neg (by decide), if_pos rfl, if_neg noPoint, letter]

/-- A backslash, a `u` and four digits stand for a code point. -/
theorem unquote_point {h1 h2 h3 h4 : UInt8} {point : Nat} (digits : codePoint h1 h2 h3 h4 = some point)
    (rest : List UInt8) : unquote (92 :: 117 :: h1 :: h2 :: h3 :: h4 :: rest) =
      (unquote rest).map fun (text, rest) => (encodeRune point ++ text, rest) := by
  rw [unquote.eq_def]
  dsimp only
  rw [if_neg (by decide), if_pos rfl, if_pos rfl, digits]

/-- The digits of an ASCII character. -/
theorem codePoint_ascii : ∀ n < 128, codePoint 48 48 (hexDigit (n / 16)) (hexDigit (n % 16)) = some n ∧
    encodeRune n = [n.toUInt8] := by
  decide

/-- An ASCII character is read back. -/
theorem unquote_escapeByte {byte : UInt8} (ascii : byte < 128) (rest : List UInt8) :
    unquote (escapeByte byte ++ rest) =
      (unquote rest).map fun (text, rest) => (byte :: text, rest) := by
  unfold escapeByte
  split
  · rename_i marked
    have letter : unescape byte = some byte := by
      rw [unescape, if_pos]
      exact marked.imp_right Or.inl
    refine unquote_letter ?_ letter rest
    rintro rfl
    revert marked
    decide
  split
  · rename_i same
    rw [same]
    exact unquote_letter (by decide) (by decide) rest
  split
  · rename_i same
    rw [same]
    exact unquote_letter (by decide) (by decide) rest
  split
  · rename_i same
    rw [same]
    exact unquote_letter (by decide) (by decide) rest
  split
  · rename_i same
    rw [same]
    exact unquote_letter (by decide) (by decide) rest
  split
  · rename_i same
    rw [same]
    exact unquote_letter (by decide) (by decide) rest
  split
  · obtain ⟨digits, rune⟩ := codePoint_ascii byte.toNat ascii
    have point := unquote_point digits rest
    rw [rune, toUInt8_of_parts rfl] at point
    exact point
  · rename_i unmarked _ _ _ _ _ _
    rw [not_or] at unmarked
    exact unquote_raw unmarked.1 unmarked.2 rest

/-- Nor is a byte of a wide character special. -/
theorem unquote_wide {byte : UInt8} (wide : ¬ byte < 128) (rest : List UInt8) :
    unquote (byte :: rest) = (unquote rest).map fun (text, rest) => (byte :: text, rest) := by
  refine unquote_raw ?_ ?_ rest
  · rintro rfl
    exact wide (by decide)
  · rintro rfl
    exact wide (by decide)

/-- The two separators are read back. -/
theorem unquote_separator {third : UInt8} (separator : third = 0xA8 ∨ third = 0xA9) (rest : List UInt8) :
    unquote ([92, 117, 50, 48, 50, hexDigit (third.toNat - 0xA0)] ++ rest) =
      (unquote rest).map fun (text, rest) => (0xE2 :: 0x80 :: third :: text, rest) := by
  obtain ⟨point, digits, rune⟩ : ∃ point, codePoint 50 48 50 (hexDigit (third.toNat - 0xA0)) = some point ∧
      encodeRune point = [0xE2, 0x80, third] := by
    rcases separator with rfl | rfl
    · exact ⟨0x2028, by decide, by decide⟩
    · exact ⟨0x2029, by decide, by decide⟩
  have read := unquote_point digits rest
  rw [rune] at read
  exact read

/-- A string is read back in front of every suffix, with the bytes replaced that are not UTF-8. -/
theorem unquote_quoteRunes (suffix : List UInt8) (text : List UInt8) (pending : Nat)
    (wide : ∀ position < pending, ∀ next, text[position]? = some next → ¬ next < 128) :
    unquote (quoteRunes pending text ++ 34 :: suffix) = some (Utf8.copyRunes pending text, suffix) := by
  fun_induction quoteRunes pending text with
  | case1 pending => cases pending <;> exact unquote_end suffix
  | case2 pending byte rest ih =>
    have later := ih fun position low => wide (position + 1) (Nat.succ_lt_succ low)
    rw [Utf8.copyRunes, List.cons_append, unquote_wide (wide 0 (Nat.succ_pos _) byte rfl), later]
    rfl
  | case3 byte rest read ih =>
    have point : codePoint 102 102 102 100 = some 0xFFFD := by decide
    have escaped := unquote_point point (quoteRunes 0 rest ++ 34 :: suffix)
    rw [ih (by simp)] at escaped
    rw [Utf8.copyRunes, read, List.append_assoc]
    exact escaped
  | case4 byte rest read ih =>
    rw [Utf8.copyRunes, read, List.append_assoc, unquote_escapeByte (Utf8.runeSize_one read), ih (by simp)]
    rfl
  | case5 byte size second third after separator read ih =>
    obtain ⟨rfl, rfl, last⟩ := separator
    have three : Utf8.runeSize (0xE2 :: 0x80 :: third :: after) = 3 := by
      rcases last with rfl | rfl <;> rfl
    obtain rfl : size = 1 := by omega
    rw [Utf8.copyRunes, read, List.append_assoc, unquote_separator last, ih (by simp)]
    rfl
  | case6 byte size second third after other read ih =>
    obtain ⟨first, rest⟩ := Utf8.runeSize_wide read
    rw [Utf8.copyRunes, read, List.cons_append, unquote_wide first, ih rest]
    rfl
  | case7 byte size rest short read ih =>
    obtain ⟨first, rest⟩ := Utf8.runeSize_wide read
    rw [Utf8.copyRunes, read, List.cons_append, unquote_wide first, ih rest]
    rfl

/-- A quoted string is read back. -/
theorem unquote_quote (text suffix : List UInt8) :
    unquote (quoteRunes 0 text ++ 34 :: suffix) = some (Utf8.toValid text, suffix) :=
  unquote_quoteRunes suffix text 0 (by simp)

end Strings

section Objects

/-- A field of an object: its name, and a string or null. -/
abbrev Field := List UInt8 × Option (List UInt8)

/-- `null`. -/
def null : List UInt8 := [110, 117, 108, 108]

/-- The value of a field. -/
def writeValue : Option (List UInt8) → List UInt8
  | none => null
  | some text => quote text

/-- A field. -/
def writeField (field : Field) : List UInt8 := quote field.1 ++ 58 :: writeValue field.2

/-- The rest of an object after its opening brace or a comma. -/
def writeFields : Field → List Field → List UInt8
  | field, [] => writeField field ++ [125]
  | field, next :: rest => writeField field ++ 44 :: writeFields next rest

/-- An object. -/
def writeObject : List Field → List UInt8
  | [] => [123, 125]
  | field :: rest => 123 :: writeFields field rest

/-- Read a value. -/
def readValue : List UInt8 → Option (Option (List UInt8) × List UInt8)
  | [] => none
  | byte :: rest =>
    if byte = 34 then (unquote rest).map fun (text, rest) => (some text, rest)
    else if (byte :: rest).take 4 = null then some (none, (byte :: rest).drop 4)
    else none

/-- Read a field. -/
def readField : List UInt8 → Option (Field × List UInt8)
  | [] => none
  | byte :: rest =>
    if byte = 34 then
      match unquote rest with
      | some (name, colon :: rest) =>
        if colon = 58 then (readValue rest).map fun (value, rest) => ((name, value), rest)
        else none
      | _ => none
    else none

/-- Read the rest of an object after its opening brace or a comma; every field takes a byte. -/
def readFields : Nat → List UInt8 → Option (List Field × List UInt8)
  | 0, _ => none
  | budget + 1, bytes =>
    match readField bytes with
    | some (field, byte :: rest) =>
      if byte = 125 then some ([field], rest)
      else if byte = 44 then (readFields budget rest).map fun (fields, rest) => (field :: fields, rest)
      else none
    | _ => none

/-- Read an object. -/
def readObject : List UInt8 → Option (List Field)
  | [] => none
  | byte :: rest =>
    if byte = 123 then
      if rest = [125] then some []
      else
        match readFields rest.length rest with
        | some (fields, []) => some fields
        | _ => none
    else none

/-- The field with the bytes replaced that are not UTF-8. -/
def Field.toValid (field : Field) : Field := (Utf8.toValid field.1, field.2.map Utf8.toValid)

/-- A value is read back. -/
theorem readValue_writeValue (value : Option (List UInt8)) (suffix : List UInt8) :
    readValue (writeValue value ++ suffix) = some (value.map Utf8.toValid, suffix) := by
  cases value with
  | none => rfl
  | some text =>
    have read := unquote_quote text suffix
    simp only [writeValue, quote, List.cons_append, List.append_assoc, List.nil_append, readValue,
      if_true, read, Option.map_some]

/-- A field is read back. -/
theorem readField_writeField (field : Field) (suffix : List UInt8) :
    readField (writeField field ++ suffix) = some (field.toValid, suffix) := by
  have name := unquote_quote field.1 (58 :: (writeValue field.2 ++ suffix))
  have value := readValue_writeValue field.2 suffix
  simp only [writeField, quote, List.cons_append, List.append_assoc, List.nil_append, readField, if_true,
    name, value, Option.map_some]
  rfl

/-- A field takes a byte. -/
theorem writeFields_length (field : Field) (rest : List Field) :
    rest.length + 1 ≤ (writeFields field rest).length := by
  induction rest generalizing field with
  | nil =>
    simp only [writeFields, List.length_append, List.length_cons, List.length_nil]
    omega
  | cons next rest ih =>
    have later := ih next
    simp only [writeFields, List.length_append, List.length_cons]
    omega

/-- The fields of an object are read back. -/
theorem readFields_writeFields (field : Field) (rest : List Field) (suffix : List UInt8) {budget : Nat}
    (enough : rest.length + 1 ≤ budget) :
    readFields budget (writeFields field rest ++ suffix) =
      some ((field :: rest).map Field.toValid, suffix) := by
  induction rest generalizing field budget with
  | nil =>
    cases budget with
    | zero => omega
    | succ budget =>
      have read := readField_writeField field (125 :: suffix)
      simp only [writeFields, List.append_assoc, List.cons_append, List.nil_append, readFields, read,
        if_true, List.map_cons, List.map_nil]
  | cons next rest ih =>
    cases budget with
    | zero => omega
    | succ budget =>
      have read := readField_writeField field (44 :: (writeFields next rest ++ suffix))
      have later := ih next (by simpa using enough : rest.length + 1 ≤ budget)
      simp only [writeFields, List.append_assoc, List.cons_append, readFields, read, later]
      rfl

/-- An object is read back, with the bytes replaced that are not UTF-8. -/
theorem readObject_writeObject (fields : List Field) :
    readObject (writeObject fields) = some (fields.map Field.toValid) := by
  cases fields with
  | nil => rfl
  | cons field rest =>
    have read := readFields_writeFields field rest [] (writeFields_length field rest)
    rw [List.append_nil] at read
    have quoted : ∃ tail, writeFields field rest = 34 :: tail := by
      cases rest <;> exact ⟨_, rfl⟩
    obtain ⟨tail, same⟩ := quoted
    have quoted : writeFields field rest ≠ [125] := by
      rw [same]
      exact fun equal => absurd (List.cons.inj equal).1 (by decide)
    simp only [writeObject, readObject, if_true, if_neg quoted, read]

end Objects

end JsonText
