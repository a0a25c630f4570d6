import SicAssembler.Address
import SicAssembler.Proofs.Numerals
import SicAssembler.Proofs.Spelling

/-! # How many bytes a literal stands for

The size of a literal is counted on its written body, its bytes are made from the characters of the
body. Both numbers agree because a body that is accepted has ASCII characters only, and digits in
pairs.
-/

namespace SicAssembler

namespace Numeral

theorem isHexDigit_iff (c : Char) :
    isHexDigit c = true ↔
      (48 ≤ c.toNat ∧ c.toNat ≤ 57) ∨ (97 ≤ c.toNat ∧ c.toNat ≤ 102) ∨
        (65 ≤ c.toNat ∧ c.toNat ≤ 70) := by
  simp only [isHexDigit, Char.isDigit, Bool.or_eq_true, Bool.and_eq_true, decide_eq_true_eq,
    Char.le_def, UInt32.le_iff_toNat_le, ge_iff_le, or_assoc]
  rfl

private theorem isHexDigit_toUpper {c : Char} (digit : isHexDigit c = true) :
    isHexDigit c.toUpper = true := by
  rw [isHexDigit_iff] at digit ⊢
  rcases Text.toUpper_cases c with same | ⟨_, _, shift⟩
  · rw [same]
    exact digit
  · omega

theorem isHexDigit_map_toUpper {digits : List Char}
    (allDigits : ∀ c ∈ digits, isHexDigit c = true) :
    ∀ c ∈ digits.map Char.toUpper, isHexDigit c = true :=
  List.forall_mem_map.mpr fun c member => isHexDigit_toUpper (allDigits c member)

theorem toNat_lt_of_isHexDigit {c : Char} (digit : isHexDigit c = true) : c.toNat < 128 := by
  rw [isHexDigit_iff] at digit
  omega

theorem hexDigitValue_lt {c : Char} (digit : isHexDigit c = true) : hexDigitValue c < 16 := by
  have lower : 'a' ≤ c ↔ 97 ≤ c.toNat := by
    rw [Char.le_def, UInt32.le_iff_toNat_le]
    rfl
  rw [isHexDigit_iff] at digit
  simp only [hexDigitValue, isDigit_iff, lower, Char.reduceToNat]
  split
  · omega
  · split <;> omega

end Numeral

namespace ByteLiteral

private theorem utf8ByteSize_ofList_of_ascii {text : List Char}
    (ascii : ∀ c ∈ text, c.toNat < 128) :
    (String.ofList text).utf8ByteSize = text.length := by
  induction text with
  | nil => rfl
  | cons c rest ih =>
    obtain ⟨small, others⟩ := List.forall_mem_cons.mp ascii
    have one : c.utf8Size = 1 := by
      rw [Char.utf8Size_eq_one_iff, UInt32.le_iff_toNat_le]
      exact Nat.le_of_lt_succ small
    rw [String.ofList_cons, String.utf8ByteSize_append, String.utf8ByteSize_singleton, one,
      ih others, List.length_cons, Nat.add_comm]

theorem utf8ByteSize_ofList_of_hex {digits : List Char}
    (allDigits : ∀ c ∈ digits, Numeral.isHexDigit c = true) :
    (String.ofList digits).utf8ByteSize = digits.length :=
  utf8ByteSize_ofList_of_ascii fun c member => Numeral.toNat_lt_of_isHexDigit (allDigits c member)

private theorem length_pairBytes (digits : List Char) :
    (pairBytes digits).length = digits.length / 2 := by
  fun_induction pairBytes digits with
  | case1 high low rest ih =>
    simp only [List.length_cons, ih]
    omega
  | case2 digits short =>
    match digits, short with
    | [], _ => simp
    | [_], _ => simp
    | high :: low :: rest, short => exact absurd rfl (short high low rest)

private theorem length_of_unquote? {text body : List Char} (found : unquote? text = some body) :
    body.length ≤ text.length := by
  unfold unquote? at found
  split at found
  · next rest =>
    split at found
    · next reversed ends =>
      cases found
      have count := congrArg List.length ends
      simp only [List.length_reverse, List.length_cons] at count ⊢
      omega
    · contradiction
  · contradiction

theorem readCharacters_eq_ok {body : List Char} {literal : ByteLiteral}
    (read : readCharacters body = .ok literal) :
    literal = .characters (String.ofList body) ∧ body ≠ [] ∧ ∀ c ∈ body, c.toNat < 128 := by
  unfold readCharacters at read
  split at read
  · contradiction
  · next present =>
    split at read
    · contradiction
    · next ascii =>
      cases read
      exact ⟨rfl, by simpa using present, by simpa [isAscii] using ascii⟩

theorem readHexDigits_eq_ok {body : List Char} {literal : ByteLiteral}
    (read : readHexDigits body = .ok literal) :
    literal = .hex (String.ofList (body.map Char.toUpper)) ∧ body ≠ [] ∧ body.length % 2 = 0 ∧
      ∀ c ∈ body, Numeral.isHexDigit c = true := by
  unfold readHexDigits at read
  split at read
  · contradiction
  · next paired =>
    split at read
    · contradiction
    · next digits =>
      cases read
      have allDigits : ∀ c ∈ body, Numeral.isHexDigit c = true := by simpa using digits
      simp only [Bool.or_eq_true, List.isEmpty_iff, bne_iff_ne, ne_eq, not_or, Decidable.not_not,
        utf8ByteSize_ofList_of_hex allDigits] at paired
      exact ⟨rfl, paired.1, paired.2, allDigits⟩

/-- A literal comes from a body inside its text: from ASCII characters, or from digits in pairs. -/
theorem body_of_read {text : String} {literal : ByteLiteral} (found : read text = .ok literal) :
    ∃ body : List Char, body ≠ [] ∧ body.length ≤ text.toList.length ∧
      ((literal = .characters (String.ofList body) ∧ ∀ c ∈ body, c.toNat < 128) ∨
        (literal = .hex (String.ofList (body.map Char.toUpper)) ∧ body.length % 2 = 0 ∧
          ∀ c ∈ body, Numeral.isHexDigit c = true)) := by
  unfold read at found
  split at found
  · contradiction
  · next kind quoted written =>
    split at found
    · contradiction
    · next body unquoted =>
      have inside : body.length ≤ text.toList.length := by
        rw [written, List.length_cons]
        exact Nat.le_succ_of_le (length_of_unquote? unquoted)
      split at found
      · obtain ⟨same, present, ascii⟩ := readCharacters_eq_ok found
        exact ⟨body, present, inside, .inl ⟨same, ascii⟩⟩
      · split at found
        · obtain ⟨same, present, paired, digits⟩ := readHexDigits_eq_ok found
          exact ⟨body, present, inside, .inr ⟨same, paired, digits⟩⟩
        · contradiction

/-- A literal has at least one byte, and its size is the number of its bytes in 32 bits. -/
theorem size_of_read {text : String} {literal : ByteLiteral} (found : read text = .ok literal) :
    literal.bytes.length % Address.limit = literal.size ∧ 0 < literal.bytes.length := by
  obtain ⟨body, present, _, ⟨rfl, ascii⟩ | ⟨rfl, paired, digits⟩⟩ := body_of_read found
  · have positive := List.length_pos_iff.mpr present
    simp [bytes, size, utf8ByteSize_ofList_of_ascii ascii, Address.limit, positive]
  · have positive := List.length_pos_iff.mpr present
    have written := utf8ByteSize_ofList_of_hex (Numeral.isHexDigit_map_toUpper digits)
    rw [List.length_map] at written
    simp only [bytes, size, String.toList_ofList, length_pairBytes, List.length_map, written,
      Address.limit, true_and]
    omega

/-- A literal has no more bytes than its text has characters. -/
theorem length_le_of_read {text : String} {literal : ByteLiteral}
    (found : read text = .ok literal) : literal.bytes.length ≤ text.toList.length := by
  obtain ⟨body, _, inside, ⟨rfl, _⟩ | ⟨rfl, _, _⟩⟩ := body_of_read found
  · rw [bytes, List.length_map, String.toList_ofList]
    exact inside
  · rw [bytes, length_pairBytes, String.toList_ofList, List.length_map]
    omega

end ByteLiteral

end SicAssembler
