import RvKeyValue.Base.Utf8

/-!
# Texts as UTF-8

The bytes of a text, which a reader of encoded characters takes one by one, and the text of bytes that
are UTF-8.
-/

namespace Utf8

/-- The bytes of a text. -/
def encode (text : String) : List UInt8 := text.toList.flatMap String.utf8EncodeChar

/-- The text of bytes that are UTF-8. -/
def decode (bytes : List UInt8) : Option String := String.fromUTF8? bytes.toByteArray

/-- A text is read back from its bytes. -/
theorem decode_encode (text : String) : decode (encode text) = some text := by
  have same : (encode text).toByteArray = text.toByteArray := by
    have whole := congrArg String.toByteArray text.ofList_toList
    rw [String.toByteArray_ofList] at whole
    exact whole
  unfold decode
  rw [same, String.fromUTF8?, dif_pos text.isValidUTF8]
  rfl

/-- Texts are told apart by their bytes. -/
theorem encode_injective : Function.Injective encode := by
  intro left right same
  have read := decode_encode left
  rw [same, decode_encode right] at read
  exact (Option.some.inj read).symm

section Numbers

variable {first second : UInt8}

/-- A byte that continues a character, as a number. -/
theorem isContinuation_iff {byte : UInt8} :
    isContinuation byte = true ↔ 0x80 ≤ byte.toNat ∧ byte.toNat ≤ 0xBF := by
  simp [isContinuation, UInt8.le_iff_toNat_le]

/-- The first two bytes of a character of three, as numbers. -/
theorem secondOfThree_iff : secondOfThree first second = true ↔
    first.toNat = 0xE0 ∧ 0xA0 ≤ second.toNat ∧ second.toNat ≤ 0xBF ∨
    (0xE1 ≤ first.toNat ∧ first.toNat ≤ 0xEC ∨ 0xEE ≤ first.toNat ∧ first.toNat ≤ 0xEF) ∧
      0x80 ≤ second.toNat ∧ second.toNat ≤ 0xBF ∨
    first.toNat = 0xED ∧ 0x80 ≤ second.toNat ∧ second.toNat ≤ 0x9F := by
  simp only [secondOfThree, isContinuation_iff, Bool.or_eq_true, Bool.and_eq_true, decide_eq_true_eq,
    UInt8.le_iff_toNat_le, ← UInt8.toNat_inj, UInt8.reduceToNat]
  omega

/-- The first two of a character of four. -/
theorem secondOfFour_iff : secondOfFour first second = true ↔
    first.toNat = 0xF0 ∧ 0x90 ≤ second.toNat ∧ second.toNat ≤ 0xBF ∨
    (0xF1 ≤ first.toNat ∧ first.toNat ≤ 0xF3) ∧ 0x80 ≤ second.toNat ∧ second.toNat ≤ 0xBF ∨
    first.toNat = 0xF4 ∧ 0x80 ≤ second.toNat ∧ second.toNat ≤ 0x8F := by
  simp only [secondOfFour, isContinuation_iff, Bool.or_eq_true, Bool.and_eq_true, decide_eq_true_eq,
    UInt8.le_iff_toNat_le, ← UInt8.toNat_inj, UInt8.reduceToNat]
  omega

end Numbers

/-- The bytes of a character are one character. -/
theorem runeSize_utf8EncodeChar (char : Char) (rest : List UInt8) : ∃ byte tail,
    String.utf8EncodeChar char = byte :: tail ∧ runeSize (byte :: (tail ++ rest)) = tail.length + 1 := by
  have scalar : char.val.toNat < 0xD800 ∨ 0xDFFF < char.val.toNat ∧ char.val.toNat < 0x110000 :=
    char.valid
  unfold String.utf8EncodeChar
  generalize char.val.toNat = v at scalar
  dsimp only
  -- the tests of the reader, in the numbers of the bytes
  split
  on_goal 2 => split
  on_goal 3 => split
  all_goals
    refine ⟨_, _, rfl, ?_⟩
    simp only [List.cons_append, List.nil_append, runeSize, secondOfThree_iff, secondOfFour_iff,
      isContinuation_iff, UInt8.lt_iff_toNat_lt, UInt8.le_iff_toNat_le, UInt8.toNat_ofNat',
      UInt8.reduceToNat]
  · rw [if_pos (by omega)]
    rfl
  · rw [if_neg (by omega), if_pos (by omega)]
    rfl
  · rw [if_neg (by omega), if_neg (by omega), if_pos (by omega)]
    rfl
  · rw [if_neg (by omega), if_neg (by omega), if_neg (by omega), if_pos (by omega)]
    rfl

/-- The rest of a character is skipped. -/
theorem validRunes_append (tail rest : List UInt8) :
    validRunes tail.length (tail ++ rest) = validRunes 0 rest := by
  induction tail with
  | nil => rfl
  | cons byte tail ih => exact ih

/-- The bytes of a text are UTF-8. -/
theorem valid_encode (text : String) : valid (encode text) = true := by
  unfold valid encode
  induction text.toList with
  | nil => rfl
  | cons char rest ih =>
    obtain ⟨byte, tail, same, size⟩ :=
      runeSize_utf8EncodeChar char (rest.flatMap String.utf8EncodeChar)
    rw [List.flatMap_cons, same, List.cons_append, validRunes, size]
    dsimp only
    rw [validRunes_append]
    exact ih

end Utf8
