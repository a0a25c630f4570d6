import SicAssembler.Proofs.Grammar

/-! # Printed statements

The words of a text, written in upper case and with single spaces between them, are read as the same
words. A statement keeps the words that it was formed from, so printing a statement that was read
and reading it again gives it back.
-/

namespace SicAssembler

namespace Words

private theorem upper_map_toUpper (word : List Char) :
    upper (word.map Char.toUpper) = upper word := by
  rw [upper, map_toUpper_map_toUpper, upper]

/-- The words of a text are found again where they stand with single spaces between them. -/
theorem split_intercalate_split (text : List Char) :
    split ([' '].intercalate (split text)) = split text := by
  obtain ⟨words, spread⟩ := exists_spread text
  rw [spread.split_eq]
  cases spread with
  | blank _ => rfl
  | words _ _ _ separated =>
    rw [separated.map_toUpper.spaced.split_eq, List.map_map]
    exact List.map_congr_left fun word _ => map_toUpper_map_toUpper word

private theorem ofLine_intercalate_ofLine (text : String) :
    ofLine (String.intercalate " " (ofLine text)) = ofLine text := by
  have characters : (ofLine text).map String.toList = split text.toList := by
    simp [ofLine, Function.comp_def]
  rw [ofLine, String.toList_intercalate, characters]
  exact congrArg (List.map String.ofList) (split_intercalate_split text.toList)

end Words

namespace Statement

open Words

variable {machine : Machine} {line : String} {statement : Statement}

/-- A statement that was read is printed as the words of its line in upper case. -/
theorem toList_print {words : List (List Char)}
    (separated : Separated (Text.trim line.toList) words)
    (parsed : parse machine line = .ok (some statement)) :
    statement.print.toList = [' '].intercalate (words.map (List.map Char.toUpper)) := by
  have written := words_of_ofWords? (formed_of_parse parsed).1
  rw [separated.ofList_split] at written
  have characters : (words.map upper).map String.toList = words.map (List.map Char.toUpper) := by
    rw [List.map_map]
    exact List.map_congr_left fun word _ => String.toList_ofList
  rw [print, String.toList_intercalate, written, characters]
  rfl

/-- Printing a statement that was read and reading it again gives it back. -/
theorem parse_print (parsed : parse machine line = .ok (some statement)) :
    parse machine statement.print = .ok (some statement) := by
  have spoken : isInert (Text.trim line.toList) = false := by
    rcases parse_eq_ok_iff.mp parsed with ⟨_, absent⟩ | ⟨spoken, _⟩
    · contradiction
    · exact spoken
  obtain ⟨words, separated⟩ := exists_separated_of_spoken spoken
  have raised := separated.map_toUpper
  have printed := raised.spaced
  rw [← toList_print separated parsed] at printed
  -- The print starts and ends as the trimmed line does.
  have starts : statement.print.toList.head? ≠ some '.' := by
    rw [printed.head?_eq, ← raised.head?_eq]
    intro dot
    rw [← isInert_map_toUpper, isInert_iff.mpr (.inr dot)] at spoken
    contradiction
  have ends : ∀ c ∈ statement.print.toList.getLast?, Text.isBlank c = false := by
    intro c final
    rw [printed.getLast?_eq, ← raised.getLast?_eq, List.getLast?_map, Option.mem_def,
      Option.map_eq_some_iff] at final
    obtain ⟨raw, last, rfl⟩ := final
    rw [Text.isBlank_toUpper]
    exact Text.last_trim_visible line.toList raw last
  have forms := forms_iff.mp ((parse_eq_ok_some_iff spoken separated).mp parsed)
  have same : upper ∘ List.map Char.toUpper = upper := funext upper_map_toUpper
  apply (parse_eq_ok_some_iff_of_visible printed starts ends).mpr
  rw [forms_iff, List.map_map, same]
  exact forms

end Statement

/-- Printing gives back what was read. A statement that was read from any line and is written as its
label, its operation with a `+` if it is extended, and its operand, with single spaces between them,
is read as the same statement. Below this, the words of any text, joined by single spaces, have the
same words. -/
theorem printing_is_read_back (machine : Machine) :
    (∀ line statement, Statement.parse machine line = .ok (some statement) →
      Statement.parse machine statement.print = .ok (some statement)) ∧
    ∀ text, Words.ofLine (String.intercalate " " (Words.ofLine text)) = Words.ofLine text :=
  ⟨fun _ _ parsed => Statement.parse_print parsed, Words.ofLine_intercalate_ofLine⟩

theorem printing_is_read_back_with_open_apostrophe :
    ∃ statement, Statement.parse .sic " '. '  byte\tc'it''s  " = .ok (some statement) ∧
      statement.print = "'. ' BYTE C'IT''S" ∧
      Statement.parse .sic "'. ' BYTE C'IT''S" = .ok (some statement) := by
  have parsed : Statement.parse .sic " '. '  byte\tc'it''s  " =
      .ok (some ⟨some "'. '", .directive .byte, some ⟨"C'IT''S"⟩, false⟩) := by
    decide +kernel
  have shown : Statement.print ⟨some "'. '", .directive .byte, some ⟨"C'IT''S"⟩, false⟩ =
      "'. ' BYTE C'IT''S" := by
    decide +kernel
  have again := (printing_is_read_back .sic).1 _ _ parsed
  rw [shown] at again
  exact ⟨_, parsed, shown, again⟩

end SicAssembler
