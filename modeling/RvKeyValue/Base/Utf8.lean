import Mathlib.Data.List.Basic

/-!
# Text in byte strings

Byte strings that may or may not be UTF-8. A reader takes one encoded character at a time; a byte at
which none starts is replaced by the replacement character, and the reader goes on with the next
byte. The result is UTF-8, and it is the byte string itself exactly when that was UTF-8.
-/

namespace Utf8

/-- A byte that continues an encoded character. -/
def isContinuation (byte : UInt8) : Bool := decide (0x80 ≤ byte) && decide (byte ≤ 0xBF)

/-- The second byte of a character of three bytes: overlong forms and surrogates are not encoded. -/
def secondOfThree (first second : UInt8) : Bool :=
  decide (first = 0xE0) && decide (0xA0 ≤ second) && decide (second ≤ 0xBF) ||
    decide (0xE1 ≤ first) && decide (first ≤ 0xEC) && isContinuation second ||
    decide (first = 0xED) && decide (0x80 ≤ second) && decide (second ≤ 0x9F) ||
    decide (0xEE ≤ first) && decide (first ≤ 0xEF) && isContinuation second

/-- The second byte of a character of four bytes: none above the last code point. -/
def secondOfFour (first second : UInt8) : Bool :=
  decide (first = 0xF0) && decide (0x90 ≤ second) && decide (second ≤ 0xBF) ||
    decide (0xF1 ≤ first) && decide (first ≤ 0xF3) && isContinuation second ||
    decide (first = 0xF4) && decide (0x80 ≤ second) && decide (second ≤ 0x8F)

/-- The number of bytes of the character encoded at the head, zero when there is none. -/
def runeSize : List UInt8 → Nat
  | [] => 0
  | first :: rest =>
    if first < 0x80 then 1
    else
      match rest with
      | [] => 0
      | second :: rest =>
        if 0xC2 ≤ first ∧ first ≤ 0xDF ∧ isContinuation second = true then 2
        else
          match rest with
          | [] => 0
          | third :: rest =>
            if secondOfThree first second = true ∧ isContinuation third = true then 3
            else
              match rest with
              | [] => 0
              | fourth :: _ =>
                if secondOfFour first second = true ∧ isContinuation third = true ∧
                    isContinuation fourth = true then 4
                else 0

/-- The encoding of U+FFFD. -/
def replacement : List UInt8 := [0xEF, 0xBF, 0xBD]

/-- Copy encoded characters, with a number of bytes of the current one to go, and put the replacement
character for every byte at which none starts. -/
def copyRunes : Nat → List UInt8 → List UInt8
  | _, [] => []
  | pending + 1, byte :: rest => byte :: copyRunes pending rest
  | 0, byte :: rest =>
    match runeSize (byte :: rest) with
    | 0 => replacement ++ copyRunes 0 rest
    | size + 1 => byte :: copyRunes size rest

/-- The byte string with every byte that is not UTF-8 replaced. -/
def toValid (bytes : List UInt8) : List UInt8 := copyRunes 0 bytes

/-- The rest is UTF-8, with a number of bytes of the current character to go. -/
def validRunes : Nat → List UInt8 → Bool
  | _, [] => true
  | pending + 1, _ :: rest => validRunes pending rest
  | 0, byte :: rest =>
    match runeSize (byte :: rest) with
    | 0 => false
    | size + 1 => validRunes size rest

/-- The byte string is UTF-8. -/
def valid (bytes : List UInt8) : Bool := validRunes 0 bytes

/-- Replacing does not shorten, and lengthens what is not UTF-8. -/
theorem copyRunes_length (pending : Nat) (bytes : List UInt8) :
    bytes.length ≤ (copyRunes pending bytes).length ∧
      (validRunes pending bytes = false → bytes.length < (copyRunes pending bytes).length) := by
  induction bytes generalizing pending with
  | nil =>
    refine ⟨Nat.zero_le _, fun broken => ?_⟩
    cases pending <;> contradiction
  | cons byte rest ih =>
    cases pending with
    | succ pending =>
      have copied := ih pending
      simp only [copyRunes, validRunes, List.length_cons]
      exact ⟨Nat.succ_le_succ copied.1, fun broken => Nat.succ_lt_succ (copied.2 broken)⟩
    | zero =>
      simp only [copyRunes, validRunes]
      cases runeSize (byte :: rest) with
      | zero =>
        have copied := (ih 0).1
        simp only [replacement, List.length_append, List.length_cons, List.length_nil]
        omega
      | succ size =>
        have copied := ih size
        simp only [List.length_cons]
        exact ⟨Nat.succ_le_succ copied.1, fun broken => Nat.succ_lt_succ (copied.2 broken)⟩

/-- What is UTF-8 is copied as it is. -/
theorem copyRunes_of_valid {pending : Nat} {bytes : List UInt8} (sound : validRunes pending bytes = true) :
    copyRunes pending bytes = bytes := by
  induction bytes generalizing pending with
  | nil => cases pending <;> rfl
  | cons byte rest ih =>
    cases pending with
    | succ pending =>
      simp only [copyRunes, validRunes] at sound ⊢
      rw [ih sound]
    | zero =>
      simp only [copyRunes, validRunes] at sound ⊢
      cases read : runeSize (byte :: rest) with
      | zero =>
        rw [read] at sound
        contradiction
      | succ size =>
        rw [read] at sound
        simp only [ih sound]

/-- A byte string is unchanged exactly when it is UTF-8. -/
theorem toValid_eq_self_iff {bytes : List UInt8} : toValid bytes = bytes ↔ valid bytes = true := by
  refine ⟨fun same => ?_, copyRunes_of_valid⟩
  by_contra broken
  have longer := (copyRunes_length 0 bytes).2 (Bool.eq_false_iff.mpr broken)
  have equal := congrArg List.length same
  unfold toValid at equal
  omega

/-- The head decides how long the character at it is. -/
theorem runeSize_copyRunes {byte : UInt8} {rest : List UInt8} {size : Nat}
    (read : runeSize (byte :: rest) = size + 1) : runeSize (byte :: copyRunes size rest) = size + 1 := by
  unfold runeSize at read ⊢
  dsimp only at read ⊢
  split at read
  · rename_i ascii
    obtain rfl : size = 0 := by omega
    rw [if_pos ascii]
  · rename_i wide
    cases rest with
    | nil => contradiction
    | cons second rest =>
      dsimp only at read
      split at read
      · rename_i two
        obtain rfl : size = 1 := by omega
        rw [if_neg wide, copyRunes]
        exact if_pos two
      · rename_i more
        cases rest with
        | nil => contradiction
        | cons third rest =>
          dsimp only at read
          split at read
          · rename_i three
            obtain rfl : size = 2 := by omega
            rw [if_neg wide, copyRunes, copyRunes]
            dsimp only
            rw [if_neg more, if_pos three]
          · rename_i most
            cases rest with
            | nil => contradiction
            | cons fourth rest =>
              dsimp only at read
              split at read
              · rename_i four
                obtain rfl : size = 3 := by omega
                rw [if_neg wide, copyRunes, copyRunes, copyRunes]
                dsimp only
                rw [if_neg more, if_neg most, if_pos four]
              · contradiction

/-- A continuation byte is not ASCII. -/
theorem isContinuation_wide {byte : UInt8} (continues : isContinuation byte = true) : ¬ byte < 128 := by
  simp only [isContinuation, Bool.and_eq_true, decide_eq_true_eq] at continues
  exact UInt8.not_lt.mpr continues.1

/-- Nor is the second byte of a character of three. -/
theorem secondOfThree_wide {first second : UInt8} (follows : secondOfThree first second = true) :
    ¬ second < 128 := by
  simp only [secondOfThree, Bool.or_eq_true, Bool.and_eq_true, decide_eq_true_eq] at follows
  rcases follows with ((⟨⟨-, low⟩, -⟩ | ⟨-, continues⟩) | ⟨⟨-, low⟩, -⟩) | ⟨-, continues⟩
  · exact UInt8.not_lt.mpr (UInt8.le_trans (by decide) low)
  · exact isContinuation_wide continues
  · exact UInt8.not_lt.mpr low
  · exact isContinuation_wide continues

/-- Nor is the second byte of a character of four. -/
theorem secondOfFour_wide {first second : UInt8} (follows : secondOfFour first second = true) :
    ¬ second < 128 := by
  simp only [secondOfFour, Bool.or_eq_true, Bool.and_eq_true, decide_eq_true_eq] at follows
  rcases follows with (⟨⟨-, low⟩, -⟩ | ⟨-, continues⟩) | ⟨⟨-, low⟩, -⟩
  · exact UInt8.not_lt.mpr (UInt8.le_trans (by decide) low)
  · exact isContinuation_wide continues
  · exact UInt8.not_lt.mpr low

/-- A character of one byte is ASCII. -/
theorem runeSize_one {byte : UInt8} {rest : List UInt8} (read : runeSize (byte :: rest) = 1) :
    byte < 128 := by
  by_contra wide
  unfold runeSize at read
  dsimp only at read
  rw [if_neg wide] at read
  split at read
  · contradiction
  split at read
  · contradiction
  split at read
  · contradiction
  split at read
  · contradiction
  split at read
  · contradiction
  split at read
  · contradiction
  · contradiction

/-- No byte of a longer character is ASCII. -/
theorem runeSize_wide {byte : UInt8} {rest : List UInt8} {size : Nat}
    (read : runeSize (byte :: rest) = size + 2) :
    ¬ byte < 128 ∧ ∀ position < size + 1, ∀ next, rest[position]? = some next → ¬ next < 128 := by
  unfold runeSize at read
  dsimp only at read
  split at read
  · omega
  rename_i wide
  refine ⟨wide, fun position low next found => ?_⟩
  split at read
  · contradiction
  rename_i second rest
  split at read
  · rename_i two
    obtain rfl : position = 0 := by omega
    obtain rfl : second = next := Option.some.inj found
    exact isContinuation_wide two.2.2
  split at read
  · contradiction
  rename_i third rest
  split at read
  · rename_i three
    obtain rfl | rfl : position = 0 ∨ position = 1 := by omega
    · obtain rfl : second = next := Option.some.inj found
      exact secondOfThree_wide three.1
    · obtain rfl : third = next := Option.some.inj found
      exact isContinuation_wide three.2
  split at read
  · contradiction
  rename_i fourth rest
  split at read
  · rename_i four
    obtain rfl | rfl | rfl : position = 0 ∨ position = 1 ∨ position = 2 := by omega
    · obtain rfl : second = next := Option.some.inj found
      exact secondOfFour_wide four.1
    · obtain rfl : third = next := Option.some.inj found
      exact isContinuation_wide four.2.1
    · obtain rfl : fourth = next := Option.some.inj found
      exact isContinuation_wide four.2.2
  · contradiction

/-- ASCII is UTF-8. -/
theorem valid_of_ascii {bytes : List UInt8} (ascii : ∀ byte ∈ bytes, byte < 128) : valid bytes = true := by
  unfold valid
  induction bytes with
  | nil => rfl
  | cons byte rest ih =>
    obtain ⟨first, later⟩ := List.forall_mem_cons.mp ascii
    have one : runeSize (byte :: rest) = 1 := by
      unfold runeSize
      exact if_pos first
    simp only [validRunes, one]
    exact ih later

/-- The result of replacing is UTF-8. -/
theorem valid_copyRunes (pending : Nat) (bytes : List UInt8) :
    validRunes pending (copyRunes pending bytes) = true := by
  induction bytes generalizing pending with
  | nil => cases pending <;> rfl
  | cons byte rest ih =>
    cases pending with
    | succ pending => exact ih pending
    | zero =>
      simp only [copyRunes]
      split
      · exact ih 0
      · rename_i size read
        simp only [validRunes, runeSize_copyRunes read]
        exact ih size

/-- What was replaced is UTF-8. -/
theorem valid_toValid (bytes : List UInt8) : valid (toValid bytes) = true := valid_copyRunes 0 bytes

/-- Replacing twice is replacing once. -/
theorem toValid_toValid (bytes : List UInt8) : toValid (toValid bytes) = toValid bytes :=
  toValid_eq_self_iff.mpr (valid_toValid bytes)

/-- Nothing is replaced in ASCII. -/
theorem toValid_of_ascii {bytes : List UInt8} (ascii : ∀ byte ∈ bytes, byte < 128) :
    toValid bytes = bytes :=
  toValid_eq_self_iff.mpr (valid_of_ascii ascii)

end Utf8
