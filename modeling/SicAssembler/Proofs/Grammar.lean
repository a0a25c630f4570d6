import SicAssembler.Proofs.SharedSource
import SicAssembler.Proofs.WordLayout

/-! # The grammar of statements

A line that is neither blank nor a comment is made of words. One to three words form a statement if
they stand in the order label, operation, operand, where only the operation is needed. The grammar
is stated here on the words as they are written, in any letter case; reading a line accepts exactly
what it admits, and rejects everything else with the error that the words call for.
-/

namespace SicAssembler

namespace Words

def upper (word : List Char) : String := String.ofList (word.map Char.toUpper)

variable {text word : List Char} {words : List (List Char)}

theorem Separated.ofList_split (separated : Separated text words) :
    (split text).map String.ofList = words.map upper := by
  rw [separated.split_eq, List.map_map]
  rfl

private theorem hasPlus_upper : hasPlus (upper word) = true ↔ word.head? = some '+' := by
  cases word with
  | nil => simp [hasPlus, upper]
  | cons c rest =>
    have plus : c.toUpper = '+' ↔ c = '+' := Text.toUpper_eq_iff (by decide) (by decide) c
    simp [hasPlus, upper, plus]

private theorem hasPlus_upper_eq_false : hasPlus (upper word) = false ↔ word.head? ≠ some '+' := by
  rw [← Bool.not_eq_true, hasPlus_upper]

end Words

namespace Machine

variable {machine : Machine}

/-- No mnemonic starts with the mark of the extended format. -/
theorem hasPlus_mnemonic {operation : Operation} (member : operation ∈ machine.operations) :
    hasPlus operation.mnemonic = false := by
  revert operation
  cases machine <;> decide +kernel

private theorem mnemonic_of_operation? {mnemonic : String} {operation : Operation}
    (found : machine.operation? mnemonic = some operation) : operation.mnemonic = mnemonic := by
  simpa using List.find?_some found

private theorem operator?_plus_append (bare : String) :
    machine.operator? ("+" ++ bare) = (machine.operation? bare).map (·, true) := by
  simp [operator?]

/-- A word that is read as an operation is the mnemonic of the operation, with its mark. -/
theorem operator?_eq_some_iff {word : String} {operation : Operation} {extended : Bool} :
    machine.operator? word = some (operation, extended) ↔
      operation ∈ machine.operations ∧
        word = if extended then "+" ++ operation.mnemonic else operation.mnemonic := by
  constructor
  · intro found
    refine ⟨mem_operations_of_operator? found, ?_⟩
    by_cases marked : hasPlus word = true
    · obtain ⟨bare, rfl⟩ : ∃ bare, word = "+" ++ bare := by
        obtain ⟨rest, written⟩ := List.head?_eq_some_iff.mp (beq_iff_eq.mp marked)
        exact ⟨String.ofList rest, String.toList_injective (by simp [written])⟩
      rw [operator?_plus_append] at found
      obtain ⟨other, known, same⟩ := Option.map_eq_some_iff.mp found
      cases same
      rw [mnemonic_of_operation? known, if_pos rfl]
    · rw [operator?_of_plain machine (Bool.eq_false_iff.mpr marked)] at found
      obtain ⟨other, known, same⟩ := Option.map_eq_some_iff.mp found
      cases same
      rw [mnemonic_of_operation? known]
      rfl
  · rintro ⟨member, rfl⟩
    cases extended with
    | true => rw [if_pos rfl, operator?_plus_append, operation?_mnemonic member, Option.map_some]
    | false =>
      rw [if_neg Bool.false_ne_true, operator?_of_plain machine (hasPlus_mnemonic member),
        operation?_mnemonic member, Option.map_some]

end Machine

namespace Statement

open Words

/-- A word that asks for an operation of the machine, in any letter case. A `+` in front of it asks
for the extended format, which format 3 instructions of SIC/XE have. -/
inductive IsOperator (machine : Machine) : List Char → Operation → Bool → Prop
  | plain {word : List Char} {operation : Operation} : operation ∈ machine.operations →
      upper word = operation.mnemonic → IsOperator machine word operation false
  | extended {word : List Char} {instruction : Instruction} : machine = .xe →
      .machine instruction ∈ machine.operations → instruction.format = .three →
      upper word = instruction.mnemonic →
      IsOperator machine ('+' :: word) (.machine instruction) true

/-- The statements that words can form: an operation, with a label in front of it, an operand behind
it, or both. Of two words the first one is the operation if it can be. A label never starts with
`+`. -/
inductive Forms (machine : Machine) : List (List Char) → Statement → Prop
  | operation {word : List Char} {operation : Operation} {extended : Bool} :
      IsOperator machine word operation extended →
      Forms machine [word] ⟨none, operation, none, extended⟩
  | operand {word operand : List Char} {operation : Operation} {extended : Bool} :
      IsOperator machine word operation extended →
      Forms machine [word, operand] ⟨none, operation, some ⟨upper operand⟩, extended⟩
  | label {label word : List Char} {operation : Operation} {extended : Bool} :
      (∀ other flag, ¬ IsOperator machine label other flag) → label.head? ≠ some '+' →
      IsOperator machine word operation extended →
      Forms machine [label, word] ⟨some (upper label), operation, none, extended⟩
  | full {label word operand : List Char} {operation : Operation} {extended : Bool} :
      label.head? ≠ some '+' → IsOperator machine word operation extended →
      Forms machine [label, word, operand]
        ⟨some (upper label), operation, some ⟨upper operand⟩, extended⟩

variable {machine : Machine} {statement : Statement}

private theorem isOperator_iff {word : List Char} {operation : Operation} {extended : Bool} :
    IsOperator machine word operation extended ↔
      machine.operator? (upper word) = some (operation, extended) ∧
        (extended = true → extendedReason? machine operation = none) := by
  rw [Machine.operator?_eq_some_iff]
  constructor
  · intro isOperator
    cases isOperator with
    | plain member named => exact ⟨⟨member, named⟩, nofun⟩
    | @extended word instruction isXe member format named =>
      have marked : upper ('+' :: word) = "+" ++ upper word := by
        apply String.toList_injective
        simp [upper]
      refine ⟨⟨member, ?_⟩, fun _ => extendedReason?_eq_none_iff.mpr ⟨isXe, _, rfl, format⟩⟩
      rw [marked, named, if_pos rfl]
      rfl
  · rintro ⟨⟨member, named⟩, allowed⟩
    cases extended with
    | false => exact .plain member named
    | true =>
      obtain ⟨isXe, instruction, rfl, format⟩ := extendedReason?_eq_none_iff.mp (allowed rfl)
      have plus : word.head? = some '+' := by
        rw [← hasPlus_upper, named]
        simp [hasPlus]
      obtain ⟨bare, rfl⟩ := List.head?_eq_some_iff.mp plus
      refine .extended isXe member format (String.toList_injective ?_)
      have written := congrArg String.toList named
      simpa [upper, Operation.mnemonic] using written

/-- A word without a mark that asks for no operation is not read as one. -/
theorem operator?_eq_none {word : List Char} (plain : word.head? ≠ some '+')
    (unnamed : ∀ operation extended, ¬ IsOperator machine word operation extended) :
    machine.operator? (upper word) = none := by
  rw [Machine.operator?_of_plain machine (hasPlus_upper_eq_false.mpr plain),
    Option.map_eq_none_iff]
  cases found : machine.operation? (upper word) with
  | none => rfl
  | some operation =>
    have named := Machine.mnemonic_of_operation? found
    exact absurd (.plain (Machine.mem_operations_of_operation? found) named.symm)
      (unnamed operation false)

/-- The words of a statement that was formed are the words that it was formed from. -/
theorem words_of_ofWords? {words : List String} (formed : ofWords? machine words = some statement) :
    statement.words = words := by
  obtain ⟨word, read, rfl⟩ := exists_operator_of_ofWords? formed
  rw [Statement.words, operator, (Machine.operator?_eq_some_iff.mp read).2]

/-- Reading finds the statements that words can form, and no others. -/
theorem forms_iff {words : List (List Char)} :
    Forms machine words statement ↔
      ofWords? machine (words.map upper) = some statement ∧
        checkPlus machine statement = .ok statement := by
  rw [checkPlus_eq_ok_iff]
  constructor
  · intro forms
    cases forms with
    | operation isOperator =>
      obtain ⟨read, allowed⟩ := isOperator_iff.mp isOperator
      exact ⟨by simp [ofWords?, read], rfl, rfl, allowed⟩
    | operand isOperator =>
      obtain ⟨read, allowed⟩ := isOperator_iff.mp isOperator
      exact ⟨by simp [ofWords?, read], rfl, rfl, allowed⟩
    | label unnamed plain isOperator =>
      obtain ⟨read, allowed⟩ := isOperator_iff.mp isOperator
      have unknown := operator?_eq_none plain unnamed
      have unmarked := hasPlus_upper_eq_false.mpr plain
      exact ⟨by simp [ofWords?, unknown, read], rfl, by simp [Option.filter, unmarked], allowed⟩
    | full plain isOperator =>
      obtain ⟨read, allowed⟩ := isOperator_iff.mp isOperator
      have unmarked := hasPlus_upper_eq_false.mpr plain
      exact ⟨by simp [ofWords?, read], rfl, by simp [Option.filter, unmarked], allowed⟩
  · rintro ⟨formed, _, plain, allowed⟩
    match words with
    | [] => contradiction
    | [word] =>
      obtain ⟨⟨operation, extended⟩, read, rfl⟩ := Option.map_eq_some_iff.mp formed
      exact .operation (isOperator_iff.mpr ⟨read, allowed⟩)
    | [first, second] =>
      simp only [List.map_cons, List.map_nil, ofWords?] at formed
      split at formed
      · next operation extended read =>
        cases formed
        exact .operand (isOperator_iff.mpr ⟨read, allowed⟩)
      · next unknown =>
        obtain ⟨⟨operation, extended⟩, read, rfl⟩ := Option.map_eq_some_iff.mp formed
        refine .label ?_ ?_ (isOperator_iff.mpr ⟨read, allowed⟩)
        · intro other flag isOperator
          rw [(isOperator_iff.mp isOperator).1] at unknown
          contradiction
        · exact hasPlus_upper_eq_false.mp (by simpa [Option.filter] using plain)
    | [label, word, operand] =>
      obtain ⟨⟨operation, extended⟩, read, rfl⟩ := Option.map_eq_some_iff.mp formed
      refine .full ?_ (isOperator_iff.mpr ⟨read, allowed⟩)
      exact hasPlus_upper_eq_false.mp (by simpa [Option.filter] using plain)
    | _ :: _ :: _ :: _ :: _ => contradiction

/-- A statement whose marks are rejected has a mark on its first or second word. -/
theorem marked_of_checkPlus {words : List String} {fault : Fault}
    (formed : ofWords? machine words = some statement)
    (rejected : checkPlus machine statement = .error fault) :
    (∃ mnemonic reason, fault = .invalidOpcode mnemonic reason) ∧
      ∃ word ∈ words.take 2, hasPlus word = true := by
  rw [← words_of_ofWords? formed]
  unfold checkPlus at rejected
  split at rejected
  · next label marked =>
    cases rejected
    obtain ⟨present, plus⟩ := Option.filter_eq_some_iff.mp marked
    exact ⟨⟨label, _, rfl⟩, label, by simp [Statement.words, present], plus⟩
  · split at rejected
    · next extended =>
      split at rejected
      · next reason _ =>
        cases rejected
        refine ⟨⟨_, reason, rfl⟩, statement.operator, ?_, by simp [operator, extended, hasPlus]⟩
        cases label : statement.label <;> simp [Statement.words, label]
      · contradiction
    · contradiction

theorem isInert_iff {text : List Char} :
    isInert text = true ↔ text = [] ∨ text.head? = some '.' := by
  simp [isInert]

theorem Forms.length_le {words : List (List Char)} (forms : Forms machine words statement) :
    words.length ≤ 3 := by
  cases forms <;> simp

/-- A mark on one of the first two words is kept by upper case. -/
theorem exists_hasPlus_iff {words : List (List Char)} :
    (∃ word ∈ (words.map upper).take 2, hasPlus word = true) ↔
      ∃ word ∈ words.take 2, word.head? = some '+' := by
  simp only [← List.map_take, List.mem_map, exists_exists_and_eq_and, hasPlus_upper]

section Words

variable {line : String} {words : List (List Char)}
  (spoken : isInert (Text.trim line.toList) = false)

include spoken

/-- A line that is neither blank nor a comment is made of words. -/
theorem exists_separated_of_spoken : ∃ words, Separated (Text.trim line.toList) words := by
  apply exists_separated _ (Text.head_trim_visible _) (Text.last_trim_visible _)
  intro empty
  rw [empty] at spoken
  contradiction

variable (separated : Separated (Text.trim line.toList) words)

include separated

/-- A line is read by its words. -/
theorem parse_of_separated :
    parse machine line =
      if 3 < words.length then .error (.malformed (String.ofList (Text.trim line.toList)))
      else match ofWords? machine (words.map upper) with
        | none => .error (wordsFault (String.ofList (Text.trim line.toList)) (words.map upper))
        | some statement => (checkPlus machine statement).map some := by
  rw [← List.length_map (f := upper), ← separated.ofList_split]
  exact if_neg (by simp [spoken])

theorem parse_eq_ok_some_iff :
    parse machine line = .ok (some statement) ↔ Forms machine words statement := by
  rw [parse_eq_ok_iff, separated.ofList_split]
  constructor
  · rintro (⟨_, absent⟩ | ⟨_, _, found, same, formed⟩)
    · contradiction
    · cases same
      exact forms_iff.mpr formed
  · intro forms
    have short := forms.length_le
    rw [← List.length_map (f := upper), ← separated.ofList_split, List.length_map] at short
    exact .inr ⟨spoken, short, statement, rfl, forms_iff.mp forms⟩

/-- Words that form no statement are rejected. A mark `+` in front of one of the first two is
reported as an operation that does not exist. -/
theorem parse_of_not_forms (rejected : ∀ statement, ¬ Forms machine words statement) :
    if words.length ≤ 3 ∧ ∃ word ∈ words.take 2, word.head? = some '+' then
      ∃ mnemonic reason, parse machine line = .error (.invalidOpcode mnemonic reason)
    else parse machine line = .error (.malformed (String.ofList (Text.trim line.toList))) := by
  rw [parse_of_separated spoken separated]
  by_cases long : 3 < words.length
  · rw [if_neg fun short => absurd short.1 (Nat.not_le.mpr long), if_pos long]
  · have short := Nat.not_lt.mp long
    rw [if_neg long]
    cases formed : ofWords? machine (words.map upper) with
    | none =>
      unfold wordsFault
      cases marked : ((words.map upper).take 2).find? hasPlus with
      | none =>
        rw [if_neg fun found => ?_]
        obtain ⟨word, member, plus⟩ := exists_hasPlus_iff.mpr found.2
        exact absurd plus (List.find?_eq_none.mp marked word member)
      | some word =>
        have plus := exists_hasPlus_iff.mp
          ⟨word, List.mem_of_find?_eq_some marked, List.find?_some marked⟩
        rw [if_pos ⟨short, plus⟩]
        exact ⟨word, .unknown, rfl⟩
    | some statement =>
      cases checked : checkPlus machine statement with
      | ok result =>
        have same := (checkPlus_eq_ok_iff.mp checked).1
        rw [same] at checked
        exact absurd (forms_iff.mpr ⟨formed, checked⟩) (rejected statement)
      | error fault =>
        obtain ⟨⟨mnemonic, reason, rfl⟩, marked⟩ := marked_of_checkPlus formed checked
        rw [if_pos ⟨short, exists_hasPlus_iff.mp marked⟩]
        exact ⟨mnemonic, reason, by simp only [checked, Except.map]⟩

end Words

/-- A line that starts and ends with its words is read by them. -/
theorem parse_eq_ok_some_iff_of_visible {line : String} {words : List (List Char)}
    (separated : Separated line.toList words)
    (starts : line.toList.head? ≠ some '.')
    (ends : ∀ c ∈ line.toList.getLast?, Text.isBlank c = false) :
    parse machine line = .ok (some statement) ↔ Forms machine words statement := by
  have trimmed : Text.trim line.toList = line.toList :=
    Text.trim_eq_self separated.head_visible ends
  apply parse_eq_ok_some_iff
  · rw [trimmed, ← Bool.not_eq_true, isInert_iff, not_or]
    exact ⟨separated.ne_nil, starts⟩
  · rwa [trimmed]

/-- A directive and its operand are read from two words with a space between them. -/
theorem parse_directive {directive : Directive} {operand : List Char}
    (member : .directive directive ∈ machine.operations) (isWord : IsWord operand)
    (ends : ∀ c ∈ operand.getLast?, Text.isBlank c = false) :
    parse machine (directive.mnemonic ++ " " ++ String.ofList operand) =
      .ok (some ⟨none, .directive directive, some ⟨upper operand⟩, false⟩) := by
  have named : directive.mnemonic.toList ≠ [] := by cases directive <;> decide
  have written : (directive.mnemonic ++ " " ++ String.ofList operand).toList =
      directive.mnemonic.toList ++ [' '] ++ operand := by
    simp
  have separated : Separated (directive.mnemonic ++ " " ++ String.ofList operand).toList
      [directive.mnemonic.toList, operand] := by
    rw [written]
    apply Separated.cons _ _ (by decide) (by decide) (.last isWord)
    · cases directive <;> decide
    · cases directive <;> decide
  apply (parse_eq_ok_some_iff_of_visible separated _ _).mpr
  · exact .operand (.plain member (by cases directive <;> decide))
  · rw [written, List.append_assoc, List.head?_append_of_ne_nil _ named]
    cases directive <;> decide
  · rw [written, List.getLast?_append_of_ne_nil _ isWord.ne_nil]
    exact ends

/-- An operand with neither blank characters nor small letters is read as it is written. -/
theorem parse_directive_of_plain {directive : Directive} {operand : String}
    (member : .directive directive ∈ machine.operations) (present : operand.toList ≠ [])
    (visible : ∀ c ∈ operand.toList, Text.isBlank c = false)
    (capital : ∀ c ∈ operand.toList, c.toUpper = c) :
    parse machine (directive.mnemonic ++ " " ++ operand) =
      .ok (some ⟨none, .directive directive, some ⟨operand⟩, false⟩) := by
  have kept : upper operand.toList = operand := by
    rw [upper, List.map_congr_left capital, List.map_id', String.ofList_toList]
  have parsed := parse_directive member (isWord_of_visible present visible)
    fun c last => visible c (List.mem_of_getLast? last)
  rwa [kept, String.ofList_toList] at parsed

end Statement

/-- Reading a line accepts exactly the grammar of statements. A trimmed line that is empty or starts
with `.` holds nothing. Every other line is made of words in exactly one way, and it is read as a
statement if and only if its words form that statement. Words that form none are rejected: as an
invalid operation if there are at most three of them and one of the first two starts with `+`, and
as a malformed line otherwise. -/
theorem lines_follow_grammar (machine : Machine) (line : String) :
    (Statement.parse machine line = .ok none ↔
      Text.trim line.toList = [] ∨ (Text.trim line.toList).head? = some '.') ∧
    (¬(Text.trim line.toList = [] ∨ (Text.trim line.toList).head? = some '.') →
      ∃ words, (∀ others, Words.Separated (Text.trim line.toList) others ↔ others = words) ∧
        (∀ statement, Statement.parse machine line = .ok (some statement) ↔
          Statement.Forms machine words statement) ∧
        ((∀ statement, ¬ Statement.Forms machine words statement) →
          if words.length ≤ 3 ∧ ∃ word ∈ words.take 2, word.head? = some '+' then
            ∃ mnemonic reason,
              Statement.parse machine line = .error (.invalidOpcode mnemonic reason)
          else
            Statement.parse machine line =
              .error (.malformed (String.ofList (Text.trim line.toList))))) := by
  rw [← Statement.isInert_iff]
  refine ⟨?_, fun visible => ?_⟩
  · rw [Statement.parse_eq_ok_iff]
    simp
  · have spoken := Bool.eq_false_iff.mpr visible
    obtain ⟨words, separated⟩ := Statement.exists_separated_of_spoken spoken
    refine ⟨words, fun others => ?_, fun statement => ?_, ?_⟩
    · constructor
      · intro other
        exact other.unique separated
      · rintro rfl
        exact separated
    · exact Statement.parse_eq_ok_some_iff spoken separated
    · exact Statement.parse_of_not_forms spoken separated

/-- An apostrophe that is never closed keeps the rest of the line in one operand. -/
theorem lines_follow_grammar_with_open_apostrophe :
    ∃ instruction, Statement.parse .xe "\tloop +lda  c'a  b " =
        .ok (some ⟨some "LOOP", .machine instruction, some ⟨"C'A  B"⟩, true⟩) ∧
      Statement.Forms .xe ["loop".toList, "+lda".toList, "c'a  b".toList]
        ⟨some "LOOP", .machine instruction, some ⟨"C'A  B"⟩, true⟩ := by
  have parsed : Statement.parse .xe "\tloop +lda  c'a  b " =
      .ok (some ⟨some "LOOP", .machine ⟨"LDA", 0x00, .three⟩, some ⟨"C'A  B"⟩, true⟩) := by
    decide +kernel
  have written : Text.trim "\tloop +lda  c'a  b ".toList =
      "loop".toList ++ " ".toList ++ ("+lda".toList ++ "  ".toList ++ "c'a  b".toList) := by
    decide
  have separated : Words.Separated (Text.trim "\tloop +lda  c'a  b ".toList)
      ["loop".toList, "+lda".toList, "c'a  b".toList] := by
    rw [written]
    apply Words.Separated.cons (by decide) (by decide) (by decide) (by decide)
    apply Words.Separated.cons (by decide) (by decide) (by decide) (by decide)
    exact .last (by decide)
  obtain ⟨words, unique, accepted, _⟩ :=
    (lines_follow_grammar .xe "\tloop +lda  c'a  b ").2 (by decide)
  cases (unique _).mp separated
  exact ⟨_, parsed, (accepted _).mp parsed⟩

end SicAssembler
