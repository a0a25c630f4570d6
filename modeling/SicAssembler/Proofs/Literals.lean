import SicAssembler.Proofs.ByteLiteral
import SicAssembler.Proofs.Columns
import SicAssembler.Proofs.Grammar
import SicAssembler.Proofs.Ranges

/-! # What byte literals store

A literal is read exactly if it has the form of its kind: ASCII characters for `C`, pairs of
hexadecimal digits for `X`. Its bytes are the characters that were written, or those whose digits
were written. On a line the literal is one operand, whatever blank characters stand in it, and a
byte string written in hexadecimal comes back.
-/

namespace SicAssembler

namespace Numeral

/-- A digit is the digit of its value, up to letter case. -/
theorem hexDigit_hexDigitValue {c : Char} (digit : isHexDigit c = true) :
    Text.hexDigit (hexDigitValue c) = c.toUpper := by
  have table : ∀ n < 128, isHexDigit (Char.ofNat n) = true →
      Text.hexDigit (hexDigitValue (Char.ofNat n)) = (Char.ofNat n).toUpper := by
    decide +kernel
  have found := table c.toNat (toNat_lt_of_isHexDigit digit)
  rw [Char.ofNat_toNat] at found
  exact found digit

end Numeral

namespace ByteLiteral

/-- The text of a literal: its kind and its body between apostrophes. -/
def quote (kind : Char) (body : List Char) : List Char := kind :: '\'' :: (body ++ ['\''])

/-- The body of a character literal: ASCII characters, at least one. -/
def IsCharacters (body : List Char) : Prop := body ≠ [] ∧ ∀ c ∈ body, c.toNat < 128

instance (body : List Char) : Decidable (IsCharacters body) :=
  decidable_of_iff (body ≠ [] ∧ body.all (·.toNat < 128) = true) (by simp [IsCharacters])

/-- The body of a hexadecimal literal: pairs of digits, at least one. -/
def IsDigits (body : List Char) : Prop :=
  body ≠ [] ∧ body.length % 2 = 0 ∧ ∀ c ∈ body, Numeral.isHexDigit c = true

private theorem unquote?_eq_some_iff {text body : List Char} :
    unquote? text = some body ↔ text = '\'' :: (body ++ ['\'']) := by
  constructor
  · intro found
    unfold unquote? at found
    split at found
    · next rest =>
      split at found
      · next reversed ends =>
        cases found
        have whole := congrArg List.reverse ends
        rw [List.reverse_reverse, List.reverse_cons] at whole
        rw [whole]
      · contradiction
    · contradiction
  · rintro rfl
    simp [unquote?]

private theorem readCharacters_eq_ok_iff {body : List Char} {literal : ByteLiteral} :
    readCharacters body = .ok literal ↔
      IsCharacters body ∧ literal = .characters (String.ofList body) := by
  constructor
  · intro read
    obtain ⟨same, present, ascii⟩ := readCharacters_eq_ok read
    exact ⟨⟨present, ascii⟩, same⟩
  · rintro ⟨⟨present, ascii⟩, rfl⟩
    have allAscii : body.all isAscii = true := by simpa [isAscii] using ascii
    simp [readCharacters, present, allAscii]

private theorem readHexDigits_eq_ok_iff {body : List Char} {literal : ByteLiteral} :
    readHexDigits body = .ok literal ↔
      IsDigits body ∧ literal = .hex (String.ofList (body.map Char.toUpper)) := by
  constructor
  · intro read
    obtain ⟨same, present, paired, digits⟩ := readHexDigits_eq_ok read
    exact ⟨⟨present, paired, digits⟩, same⟩
  · rintro ⟨⟨present, paired, digits⟩, rfl⟩
    have allDigits : body.all Numeral.isHexDigit = true := by simpa using digits
    simp [readHexDigits, utf8ByteSize_ofList_of_hex digits, present, paired, allDigits]

/-- A literal is read exactly if it is one of the two kinds with a body of that kind. -/
theorem read_eq_ok_iff {text : String} {literal : ByteLiteral} :
    read text = .ok literal ↔
      (∃ body, text = String.ofList (quote 'C' body) ∧ IsCharacters body ∧
        literal = .characters (String.ofList body)) ∨
      (∃ body, text = String.ofList (quote 'X' body) ∧ IsDigits body ∧
        literal = .hex (String.ofList (body.map Char.toUpper))) := by
  constructor
  · intro found
    unfold read at found
    split at found
    · contradiction
    · next kind quoted written =>
      split at found
      · contradiction
      · next body inside =>
        have whole : text = String.ofList (quote kind body) := by
          rw [quote, ← unquote?_eq_some_iff.mp inside, ← written, String.ofList_toList]
        split at found
        · next isC =>
          subst isC
          exact .inl ⟨body, whole, readCharacters_eq_ok_iff.mp found⟩
        · split at found
          · next isX =>
            subst isX
            exact .inr ⟨body, whole, readHexDigits_eq_ok_iff.mp found⟩
          · contradiction
  · have inside (body : List Char) : unquote? ('\'' :: (body ++ ['\''])) = some body :=
      unquote?_eq_some_iff.mpr rfl
    rintro (⟨body, rfl, form⟩ | ⟨body, rfl, form⟩)
    · simp only [read, String.toList_ofList, quote, inside, if_pos]
      exact readCharacters_eq_ok_iff.mpr form
    · have other : ¬('X' = 'C') := by decide
      simp only [read, String.toList_ofList, quote, inside, if_neg other, if_pos]
      exact readHexDigits_eq_ok_iff.mpr form

private theorem exists_read_iff {text : String} :
    (∃ literal, read text = .ok literal) ↔
      (∃ body, text = String.ofList (quote 'C' body) ∧ IsCharacters body) ∨
      (∃ body, text = String.ofList (quote 'X' body) ∧ IsDigits body) := by
  simp only [read_eq_ok_iff]
  constructor
  · rintro ⟨_, ⟨body, same, form, _⟩ | ⟨body, same, form, _⟩⟩
    · exact .inl ⟨body, same, form⟩
    · exact .inr ⟨body, same, form⟩
  · rintro (⟨body, same, form⟩ | ⟨body, same, form⟩)
    · exact ⟨_, .inl ⟨body, same, form, rfl⟩⟩
    · exact ⟨_, .inr ⟨body, same, form, rfl⟩⟩

/-- Kind and body can be seen in the text of a literal. -/
theorem quote_inj {kind other : Char} {body text : List Char}
    (same : String.ofList (quote kind body) = String.ofList (quote other text)) :
    kind = other ∧ body = text := by
  have written := congrArg String.toList same
  rw [String.toList_ofList, String.toList_ofList] at written
  simpa [quote] using written

private theorem read_characters {body : List Char} {literal : ByteLiteral}
    (found : read (String.ofList (quote 'C' body)) = .ok literal) :
    IsCharacters body ∧ literal = .characters (String.ofList body) := by
  rcases read_eq_ok_iff.mp found with ⟨other, same, form⟩ | ⟨other, same, _⟩
  · obtain ⟨_, rfl⟩ := quote_inj same
    exact form
  · exact absurd (quote_inj same).1 (by decide)

private theorem read_digits {body : List Char} {literal : ByteLiteral}
    (found : read (String.ofList (quote 'X' body)) = .ok literal) :
    IsDigits body ∧ literal = .hex (String.ofList (body.map Char.toUpper)) := by
  rcases read_eq_ok_iff.mp found with ⟨other, same, _⟩ | ⟨other, same, form⟩
  · exact absurd (quote_inj same).1 (by decide)
  · obtain ⟨_, rfl⟩ := quote_inj same
    exact form

/-- Characters are stored as they are. -/
theorem bytes_characters {body : List Char} (form : IsCharacters body) :
    (characters (String.ofList body)).bytes.map UInt8.toNat = body.map Char.toNat := by
  rw [bytes, String.toList_ofList, List.map_map]
  apply List.map_congr_left
  intro c member
  have small := form.2 c member
  rw [Function.comp_apply, UInt8.toNat_ofNat']
  omega

/-- The digits of the stored bytes are the digits that were written. -/
theorem hexPairs_pairBytes {digits : List Char} (paired : digits.length % 2 = 0)
    (allDigits : ∀ c ∈ digits, Numeral.isHexDigit c = true) :
    Text.hexPairs (pairBytes digits) = digits.map Char.toUpper := by
  fun_induction pairBytes digits with
  | case1 high low rest ih =>
    obtain ⟨highDigit, others⟩ := List.forall_mem_cons.mp allDigits
    obtain ⟨lowDigit, restDigits⟩ := List.forall_mem_cons.mp others
    have highSmall := Numeral.hexDigitValue_lt highDigit
    have lowSmall := Numeral.hexDigitValue_lt lowDigit
    have restPaired : rest.length % 2 = 0 := by
      simp only [List.length_cons] at paired
      omega
    have value : (UInt8.ofNat (16 * Numeral.hexDigitValue high + Numeral.hexDigitValue low)).toNat =
        16 * Numeral.hexDigitValue high + Numeral.hexDigitValue low := by
      rw [UInt8.toNat_ofNat']
      omega
    have upperNibble : (16 * Numeral.hexDigitValue high + Numeral.hexDigitValue low) / 16 =
        Numeral.hexDigitValue high := by
      omega
    have lowerNibble : (16 * Numeral.hexDigitValue high + Numeral.hexDigitValue low) % 16 =
        Numeral.hexDigitValue low := by
      omega
    rw [Text.hexPairs_cons, value, upperNibble, lowerNibble,
      Numeral.hexDigit_hexDigitValue highDigit, Numeral.hexDigit_hexDigitValue lowDigit,
      ih restPaired restDigits, List.map_cons, List.map_cons]
  | case2 digits short =>
    cases digits with
    | nil => rfl
    | cons high tail =>
      cases tail with
      | nil => simp at paired
      | cons low rest => exact absurd rfl (short high low rest)

private theorem hexPairs_bytes_hex {body : List Char} (form : IsDigits body) :
    Text.hexPairs (hex (String.ofList (body.map Char.toUpper))).bytes =
      body.map Char.toUpper := by
  obtain ⟨_, paired, digits⟩ := form
  rw [bytes, String.toList_ofList,
    hexPairs_pairBytes (by simpa using paired) (Numeral.isHexDigit_map_toUpper digits),
    Words.map_toUpper_map_toUpper]

/-- The size of a literal is the number of its bytes. -/
theorem size_eq_of_read {text : String} {literal : ByteLiteral} (found : read text = .ok literal)
    (short : text.utf8ByteSize < Address.limit) : literal.size = literal.bytes.length := by
  have bound : literal.bytes.length < Address.limit :=
    calc literal.bytes.length
      _ ≤ text.toList.length := length_le_of_read found
      _ ≤ text.utf8ByteSize := by simpa using Text.length_le_utf8ByteSize text.toList
      _ < Address.limit := short
  rw [← (size_of_read found).1, Nat.mod_eq_of_lt bound]

/-- Blank characters between the apostrophes do not end the word. -/
theorem joined_quote {body : List Char} (unmarked : '\'' ∉ body) :
    Words.Joined true (body ++ ['\'']) := by
  induction body with
  | nil => decide
  | cons c rest ih =>
    rw [List.mem_cons, not_or] at unmarked
    rw [List.cons_append, Words.joined_cons, if_neg (Ne.symm unmarked.1)]
    exact ⟨fun _ => rfl, ih unmarked.2⟩

private theorem isWord_quote {kind : Char} {body : List Char} (visible : Text.isBlank kind = false)
    (letter : kind ≠ '\'') (unmarked : '\'' ∉ body) : Words.IsWord (quote kind body) := by
  rw [Words.isWord_iff, quote, Words.joined_cons, if_neg letter, Words.joined_cons, if_pos rfl]
  refine ⟨List.cons_ne_nil _ _, ?_, by decide, joined_quote unmarked⟩
  simp [visible]

private theorem upper_quote {kind : Char} {body : List Char} (capital : kind.toUpper = kind) :
    Words.upper (quote kind body) = String.ofList (quote kind (body.map Char.toUpper)) := by
  have mark : '\''.toUpper = '\'' := by decide
  simp [Words.upper, quote, capital, mark]

theorem IsCharacters.map_toUpper {body : List Char} (form : IsCharacters body) :
    IsCharacters (body.map Char.toUpper) := by
  refine ⟨by simpa using form.1, ?_⟩
  intro c member
  obtain ⟨raw, inBody, rfl⟩ := List.mem_map.mp member
  have small := form.2 raw inBody
  rcases Text.toUpper_cases raw with same | ⟨_, _, shift⟩
  · rwa [same]
  · omega

/-- The digits of a byte string are the body of a literal. -/
theorem isDigits_hexPairs {bytes : List UInt8} (present : bytes ≠ []) :
    IsDigits (Text.hexPairs bytes) := by
  have digits : ∀ c ∈ Text.hexPairs bytes, Numeral.isHexDigit c = true :=
    List.all_eq_true.mp (all_isHexDigit_hexPairs bytes)
  refine ⟨?_, by rw [Text.length_hexPairs]; omega, digits⟩
  intro empty
  have none := Text.length_hexPairs bytes
  rw [empty, List.length_nil] at none
  exact present (List.length_eq_zero_iff.mp (by omega))

end ByteLiteral

namespace Statement

open ByteLiteral

/-- A literal behind `BYTE` is one operand. -/
theorem parse_byte (machine : Machine) (kind : Char) {body : List Char}
    (visible : Text.isBlank kind = false) (letter : kind ≠ '\'') (unmarked : '\'' ∉ body) :
    parse machine ("BYTE " ++ String.ofList (quote kind body)) =
      .ok (some ⟨none, .directive .byte, some ⟨Words.upper (quote kind body)⟩, false⟩) := by
  have member : .directive .byte ∈ machine.operations := by
    cases machine <;> decide
  have mnemonic : Directive.byte.mnemonic ++ " " = "BYTE " := by decide
  rw [← mnemonic]
  apply parse_directive member (isWord_quote visible letter unmarked)
  intro c final
  have last : c = '\'' := by simpa [quote, List.getLast?_cons, eq_comm] using final
  rw [last]
  decide

/-- The literal of `BYTE` is read from the operand. -/
theorem byteLiteral_of_read {text : String} {literal : ByteLiteral}
    {label : Option String} {operation : Operation} {extended : Bool}
    (found : ByteLiteral.read text = .ok literal) :
    byteLiteral ⟨label, operation, some ⟨text⟩, extended⟩ = .ok literal := by
  simp [byteLiteral, required, found, bind, Except.bind, Except.mapError]

/-- Characters behind `BYTE` are stored in upper case. -/
theorem parse_byte_characters (machine : Machine) {characters : List Char}
    (form : IsCharacters characters) (unmarked : '\'' ∉ characters) :
    ∃ statement literal,
      parse machine ("BYTE " ++ String.ofList (quote 'C' characters)) = .ok (some statement) ∧
      statement.operand = some ⟨String.ofList (quote 'C' (characters.map Char.toUpper))⟩ ∧
      statement.byteLiteral = .ok literal ∧
      literal.bytes.map UInt8.toNat = (characters.map Char.toUpper).map Char.toNat := by
  have parsed := parse_byte machine 'C' (by decide) (by decide) unmarked
  rw [upper_quote (by decide)] at parsed
  have found := read_eq_ok_iff.mpr (.inl ⟨_, rfl, form.map_toUpper, rfl⟩)
  exact ⟨_, _, parsed, rfl, byteLiteral_of_read found, bytes_characters form.map_toUpper⟩

/-- The digits of a byte string behind `BYTE`, in any letter case, give the byte string back. -/
theorem parse_byte_digits (machine : Machine) {bytes : List UInt8} {digits : List Char}
    (present : bytes ≠ []) (written : digits.map Char.toUpper = (Text.hexOfBytes bytes).toList) :
    ∃ statement literal,
      parse machine ("BYTE " ++ String.ofList (quote 'X' digits)) = .ok (some statement) ∧
      statement.byteLiteral = .ok literal ∧ literal.bytes = bytes := by
  rw [Text.hexOfBytes, String.toList_ofList] at written
  have form := isDigits_hexPairs present
  have unmarked : '\'' ∉ digits := by
    intro member
    have digit := form.2.2 _ (written ▸ List.mem_map_of_mem member)
    exact absurd digit (by decide)
  have parsed := parse_byte machine 'X' (by decide) (by decide) unmarked
  rw [upper_quote (by decide), written] at parsed
  have found := read_eq_ok_iff.mpr (.inr ⟨_, rfl, form, rfl⟩)
  refine ⟨_, _, parsed, byteLiteral_of_read found, ?_⟩
  rw [← written, Words.map_toUpper_map_toUpper, written, ByteLiteral.bytes, String.toList_ofList,
    pairBytes_hexPairs]

end Statement

open ByteLiteral in
/-- Byte literals store exactly what is written. A text is read as a literal if and only if it is
`C'...'` around ASCII characters or `X'...'` around pairs of hexadecimal digits. The size of a
literal is the number of its bytes; these are the characters of the body for `C`, and for `X` their
digits are those of the body in upper case. On a line behind `BYTE`, a literal without inner
apostrophes is one operand, with all its blank characters: characters are stored in upper case, and
the digits of a byte string, in any letter case, give the byte string back. -/
theorem literals_store_what_is_written :
    (∀ text : String, (∃ literal, ByteLiteral.read text = .ok literal) ↔
      (∃ body, text = String.ofList (quote 'C' body) ∧ IsCharacters body) ∨
      (∃ body, text = String.ofList (quote 'X' body) ∧ IsDigits body)) ∧
    (∀ text literal, ByteLiteral.read text = .ok literal →
      (text.utf8ByteSize < Address.limit → literal.size = literal.bytes.length) ∧
      (∀ body, text = String.ofList (quote 'C' body) →
        literal.bytes.map UInt8.toNat = body.map Char.toNat) ∧
      (∀ body, text = String.ofList (quote 'X' body) →
        Text.hexOfBytes literal.bytes = Words.upper body)) ∧
    (∀ machine characters, IsCharacters characters → '\'' ∉ characters →
      ∃ statement literal,
        Statement.parse machine ("BYTE " ++ String.ofList (quote 'C' characters)) =
          .ok (some statement) ∧
        statement.operand = some ⟨String.ofList (quote 'C' (characters.map Char.toUpper))⟩ ∧
        statement.byteLiteral = .ok literal ∧
        literal.bytes.map UInt8.toNat = (characters.map Char.toUpper).map Char.toNat) ∧
    (∀ machine bytes digits, bytes ≠ [] →
      digits.map Char.toUpper = (Text.hexOfBytes bytes).toList →
      ∃ statement literal,
        Statement.parse machine ("BYTE " ++ String.ofList (quote 'X' digits)) =
          .ok (some statement) ∧
        statement.byteLiteral = .ok literal ∧ literal.bytes = bytes) := by
  refine ⟨fun text => exists_read_iff, ?_, ?_, ?_⟩
  · intro text literal found
    refine ⟨size_eq_of_read found, ?_, ?_⟩
    · rintro body rfl
      obtain ⟨form, rfl⟩ := read_characters found
      exact bytes_characters form
    · rintro body rfl
      obtain ⟨form, rfl⟩ := read_digits found
      exact congrArg String.ofList (hexPairs_bytes_hex form)
  · intro machine characters form unmarked
    exact Statement.parse_byte_characters machine form unmarked
  · intro machine bytes digits present written
    exact Statement.parse_byte_digits machine present written

/-- A literal of blank characters keeps them, and digits may be written in small letters. -/
theorem literals_store_what_is_written_around_blanks :
    (∃ statement literal, Statement.parse .xe "BYTE C' a\t '" = .ok (some statement) ∧
      statement.byteLiteral = .ok literal ∧ literal.bytes = [0x20, 0x41, 0x09, 0x20]) ∧
    (∃ statement literal, Statement.parse .sic "BYTE X'0aFf'" = .ok (some statement) ∧
      statement.byteLiteral = .ok literal ∧ literal.bytes = [0x0A, 0xFF]) := by
  constructor
  · obtain ⟨statement, literal, parsed, _, read, stored⟩ :=
      literals_store_what_is_written.2.2.1 .xe [' ', 'a', '\t', ' '] (by decide) (by decide)
    refine ⟨statement, literal, parsed, read, ?_⟩
    exact List.map_injective_iff.mpr (fun _ _ => UInt8.toNat_inj.mp) stored
  · exact literals_store_what_is_written.2.2.2 .sic [0x0A, 0xFF] ['0', 'a', 'F', 'f']
      (by decide) (by decide)

end SicAssembler
