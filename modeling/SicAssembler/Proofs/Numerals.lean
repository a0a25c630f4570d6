import SicAssembler.Numeral

/-! # What decimal numerals stand for

A decimal numeral is a row of digits, with one sign in front or with none, and stands for a number
of any size. Reading agrees with that number as long as 64 bits hold it, and refuses it otherwise.
-/

namespace SicAssembler.Numeral

def IsDecimal (digits : List Char) : Prop := digits ≠ [] ∧ ∀ c ∈ digits, c.isDigit = true

/-- The number that a decimal numeral stands for. -/
inductive Denotes : List Char → Int → Prop
  | unsigned {digits : List Char} (row : IsDecimal digits) : Denotes digits (decimalValue digits)
  | plus {digits : List Char} (row : IsDecimal digits) :
      Denotes ('+' :: digits) (decimalValue digits)
  | minus {digits : List Char} (row : IsDecimal digits) :
      Denotes ('-' :: digits) (-decimalValue digits)

variable {text digits : List Char} {value : Int}

private theorem isDecimal_iff :
    IsDecimal digits ↔ (!digits.isEmpty && digits.all Char.isDigit) = true := by
  simp [IsDecimal]

instance (digits : List Char) : Decidable (IsDecimal digits) :=
  decidable_of_iff _ isDecimal_iff.symm

/-- A digit is no sign. -/
theorem IsDecimal.splitSign_eq (row : IsDecimal digits) : splitSign digits = (false, digits) := by
  obtain ⟨_, decimal⟩ := row
  unfold splitSign
  split
  · exact absurd (decimal '-' (by simp)) (by decide)
  · exact absurd (decimal '+' (by simp)) (by decide)
  · rfl

/-- The numeral is its digits, behind its sign if it has one. -/
theorem Denotes.exists_digits (denotes : Denotes text value) :
    ∃ digits, IsDecimal digits ∧
      (text = digits ∨ ∃ sign, (sign = '+' ∨ sign = '-') ∧ text = sign :: digits) := by
  cases denotes with
  | unsigned row => exact ⟨_, row, .inl rfl⟩
  | plus row => exact ⟨_, row, .inr ⟨'+', .inl rfl, rfl⟩⟩
  | minus row => exact ⟨_, row, .inr ⟨'-', .inr rfl, rfl⟩⟩

theorem Denotes.ne_nil (denotes : Denotes text value) : text ≠ [] := by
  obtain ⟨digits, ⟨present, _⟩, rfl | ⟨_, _, rfl⟩⟩ := denotes.exists_digits
  · exact present
  · exact List.cons_ne_nil _ _

private theorem decimal?_eq_some_iff : decimal? text = some value ↔ Denotes text value := by
  constructor
  · intro found
    unfold decimal? at found
    split at found
    next negative digits signed =>
    split at found
    · next row =>
      have row := isDecimal_iff.mpr row
      cases found
      unfold splitSign at signed
      split at signed <;> cases signed
      · exact .minus row
      · exact .plus row
      · exact .unsigned row
    · contradiction
  · intro denotes
    cases denotes with
    | unsigned row => simp only [decimal?, row.splitSign_eq, isDecimal_iff.mp row, if_true]; rfl
    | plus row => simp only [decimal?, splitSign, isDecimal_iff.mp row, if_true]; rfl
    | minus row => simp only [decimal?, splitSign, isDecimal_iff.mp row, if_true]

/-- A numeral stands for one number. -/
theorem Denotes.unique {other : Int} (first : Denotes text value) (second : Denotes text other) :
    value = other := by
  rw [← decimal?_eq_some_iff] at first second
  exact Option.some.inj (first.symm.trans second)

theorem isDigit_iff (c : Char) : c.isDigit = true ↔ 48 ≤ c.toNat ∧ c.toNat ≤ 57 := by
  simp only [Char.isDigit, Bool.and_eq_true, decide_eq_true_eq, UInt32.le_iff_toNat_le, ge_iff_le]
  rfl

private theorem isBlank_of_isDigit {c : Char} (digit : c.isDigit = true) :
    Text.isBlank c = false := by
  obtain ⟨low, high⟩ := (isDigit_iff c).mp digit
  exact Text.isBlank_eq_false (by omega) (by omega)

/-- A numeral ends with a digit. -/
theorem Denotes.last_isDigit (denotes : Denotes text value) :
    ∀ c ∈ text.getLast?, c.isDigit = true := by
  intro c last
  obtain ⟨digits, ⟨present, decimal⟩, rfl | ⟨sign, _, rfl⟩⟩ := denotes.exists_digits
  · exact decimal c (List.mem_of_getLast? last)
  · rw [List.getLast?_cons_of_ne_nil present] at last
    exact decimal c (List.mem_of_getLast? last)

theorem Denotes.visible (denotes : Denotes text value) : ∀ c ∈ text, Text.isBlank c = false := by
  intro c member
  obtain ⟨digits, ⟨_, decimal⟩, rfl | ⟨sign, isSign, rfl⟩⟩ := denotes.exists_digits
  · exact isBlank_of_isDigit (decimal c member)
  · rcases List.mem_cons.mp member with rfl | inside
    · rcases isSign with rfl | rfl
      · decide
      · decide
    · exact isBlank_of_isDigit (decimal c inside)

theorem Denotes.trim_eq (denotes : Denotes text value) : Text.trim text = text :=
  Text.trim_of_visible denotes.visible

/-- A numeral is read exactly if 64 bits hold its value. -/
theorem readDecimal_of_denotes {text : String} (denotes : Denotes text.toList value) :
    readDecimal text =
      if -0x8000000000000000 ≤ value ∧ value < 0x8000000000000000 then .ok value
      else .error (.invalidDecimal text) := by
  simp only [readDecimal, denotes.trim_eq, decimal?_eq_some_iff.mpr denotes]

/-- A text is read exactly if, without the blank characters around it, it is a numeral whose value
64 bits hold. -/
theorem readDecimal_eq_ok_iff {text : String} :
    readDecimal text = .ok value ↔
      Denotes (Text.trim text.toList) value ∧
        -0x8000000000000000 ≤ value ∧ value < 0x8000000000000000 := by
  unfold readDecimal
  rw [← decimal?_eq_some_iff]
  cases decimal? (Text.trim text.toList) with
  | none => simp
  | some found =>
    by_cases held : -0x8000000000000000 ≤ found ∧ found < 0x8000000000000000
    · simp only [if_pos held, Except.ok.injEq, Option.some.injEq]
      constructor
      · rintro rfl
        exact ⟨rfl, held⟩
      · exact And.left
    · simp only [if_neg held, reduceCtorEq, Option.some.injEq, false_iff]
      rintro ⟨rfl, bounds⟩
      exact held bounds

/-- A count is a numeral whose value 32 bits hold without a sign. -/
theorem readCount_eq_ok_iff {text : String} {count : Nat} :
    readCount text = .ok count ↔ readDecimal text = .ok (count : Int) ∧ count < 0x100000000 := by
  unfold readCount
  cases readDecimal text with
  | error failure => simp [bind, Except.bind]
  | ok found =>
    simp only [bind, Except.bind, toWord?, Except.ok.injEq]
    by_cases small : 0 ≤ found ∧ found < 0x100000000
    · simp only [if_pos small, Except.ok.injEq]
      omega
    · simp only [if_neg small, reduceCtorEq, false_iff]
      omega

end SicAssembler.Numeral
