import Mathlib.Data.List.Basic
import SicAssembler.Proofs.Assembly
import SicAssembler.Text.Separated

/-! # One record a line

No record of a program that was assembled from a text holds a newline: a program's name is a word of
one of its lines, and everything else in a record is a letter in front or a hexadecimal digit.
Written one a line, the records can therefore be told apart again.
-/

namespace SicAssembler

namespace Text

/-- A line that ends neither early nor with what belongs to a line ending. -/
structure IsLine (line : List Char) : Prop where
  unbroken : '\n' ∉ line
  ends : line.getLast? ≠ some '\r'

private theorem splitLines_cons {c : Char} {rest : List Char} (unbroken : c ≠ '\n')
    (within : c = '\r' → rest.head? ≠ some '\n') :
    splitLines (c :: rest) = consToFirst c (splitLines rest) := by
  rw [splitLines]
  · exact unbroken
  · rintro others rfl rfl
    exact within rfl rfl

private theorem splitLines_line_append {line : List Char} (isLine : IsLine line)
    (rest : List Char) :
    splitLines (line ++ '\n' :: rest) = line :: splitLines rest := by
  obtain ⟨unbroken, ends⟩ := isLine
  induction line with
  | nil => rfl
  | cons c tail ih =>
    rw [List.mem_cons, not_or] at unbroken
    obtain ⟨here, later⟩ := unbroken
    have tailEnds : tail.getLast? ≠ some '\r' := by
      cases tail with
      | nil => simp
      | cons d others => simpa [List.getLast?_cons] using ends
    have within : c = '\r' → (tail ++ '\n' :: rest).head? ≠ some '\n' := by
      rintro rfl
      cases tail with
      | nil => simp at ends
      | cons d others =>
        rw [List.mem_cons, not_or] at later
        simpa using Ne.symm later.1
    rw [List.cons_append, splitLines_cons (Ne.symm here) within, ih later tailEnds]
    rfl

/-- Every line of a text is free of newlines. -/
theorem newline_not_mem_splitLines (text : List Char) : ∀ line ∈ splitLines text, '\n' ∉ line := by
  fun_induction splitLines text with
  | case1 => simp
  | case2 rest ih => simpa using ih
  | case3 rest ih => simpa using ih
  | case4 c rest unbroken _ ih =>
    intro line member
    have here : c ≠ '\n' := fun same => unbroken same
    unfold consToFirst at member
    split at member
    · obtain rfl := List.mem_singleton.mp member
      simpa using Ne.symm here
    · next first others split =>
      rw [split] at ih
      rcases List.mem_cons.mp member with rfl | later
      · rw [List.mem_cons, not_or]
        exact ⟨Ne.symm here, ih first List.mem_cons_self⟩
      · exact ih line (List.mem_cons_of_mem first later)

private theorem newline_not_mem_lines {text line : String} (member : line ∈ lines text) :
    '\n' ∉ line.toList := by
  obtain ⟨characters, found, rfl⟩ := List.mem_map.mp member
  rw [String.toList_ofList]
  exact newline_not_mem_splitLines text.toList characters found

private theorem toList_unlines (texts : List String) :
    (unlines texts).toList = texts.flatMap fun text => text.toList ++ ['\n'] := by
  induction texts with
  | nil => rfl
  | cons text rest ih =>
    have unfolded : unlines (text :: rest) = text ++ "\n" ++ unlines rest := by
      simp [unlines, String.join_cons]
    rw [unfolded, String.toList_append, String.toList_append, ih, List.flatMap_cons]
    rfl

/-- Lines that were written one after another are read back. -/
theorem lines_unlines {texts : List String} (clean : ∀ text ∈ texts, IsLine text.toList) :
    lines (unlines texts) = texts := by
  have split : splitLines (texts.flatMap fun text => text.toList ++ ['\n']) =
      texts.map String.toList := by
    induction texts with
    | nil => rfl
    | cons text rest ih =>
      rw [List.flatMap_cons, List.append_assoc, List.singleton_append,
        splitLines_line_append (clean text List.mem_cons_self), List.map_cons,
        ih fun other member => clean other (List.mem_cons_of_mem text member)]
  rw [lines, toList_unlines, split, List.map_map]
  simp

end Text

namespace Words

/-- A word is made of the characters of its line, in upper case. -/
theorem newline_not_mem_scan (quoted : Bool) {text : List Char} (unbroken : '\n' ∉ text) :
    '\n' ∉ (scan quoted text).1 ∧ ∀ word ∈ (scan quoted text).2, '\n' ∉ word := by
  induction text generalizing quoted with
  | nil => simp [scan]
  | cons c rest ih =>
    rw [List.mem_cons, not_or] at unbroken
    obtain ⟨here, later⟩ := unbroken
    have upper : '\n' ≠ c.toUpper := fun same =>
      here ((Text.toUpper_eq_iff (by decide) (by decide) c).mp same.symm).symm
    unfold scan
    split
    · exact ⟨by simpa [here] using (ih (!quoted) later).1, (ih (!quoted) later).2⟩
    · split
      · refine ⟨List.not_mem_nil, fun word member => ?_⟩
        rcases mem_consWord.mp member with ⟨rfl, _⟩ | others
        · exact (ih quoted later).1
        · exact (ih quoted later).2 word others
      · exact ⟨by simpa [upper] using (ih quoted later).1, (ih quoted later).2⟩

private theorem newline_not_mem_split {text word : List Char} (unbroken : '\n' ∉ text)
    (member : word ∈ split text) : '\n' ∉ word := by
  obtain ⟨first, others⟩ := newline_not_mem_scan false unbroken
  rcases mem_consWord.mp member with ⟨rfl, _⟩ | later
  · exact first
  · exact others word later

end Words

/-- Trimming adds no character. -/
theorem Text.trim_subset (text : List Char) : Text.trim text ⊆ text := by
  intro c member
  have inStart : c ∈ Text.trimStart text := by
    have := (List.dropWhile_sublist Text.isBlank).subset (List.mem_reverse.mp member)
    exact List.mem_reverse.mp this
  exact (List.dropWhile_sublist Text.isBlank).subset inStart

/-- The label of a line without newlines has none. -/
theorem Statement.newline_not_mem_label {machine : Machine} {line label : String}
    {statement : Statement} (parsed : parse machine line = .ok (some statement))
    (labelled : statement.label = some label) (unbroken : '\n' ∉ line.toList) :
    '\n' ∉ label.toList := by
  obtain ⟨formed, _⟩ := formed_of_parse parsed
  obtain ⟨_, _, words⟩ := exists_operator_of_ofWords? formed
  have present : label ∈ (Words.split (Text.trim line.toList)).map String.ofList := by
    rw [words, labelled]
    simp
  obtain ⟨word, found, rfl⟩ := List.mem_map.mp present
  rw [String.toList_ofList]
  exact Words.newline_not_mem_split (fun member => unbroken (Text.trim_subset _ member)) found

namespace Layout

/-- A program is named by the label of its first line, or not at all. -/
theorem name_of_ofLines {lines : List SourceLine} {layout : Layout}
    (placed : ofLines lines = .ok layout) :
    layout.name = "" ∨ ∃ line ∈ lines, line.statement.label = some layout.name := by
  obtain ⟨opened, sizes, opens, _, run⟩ := ofLines_eq_ok_iff.mp placed
  rw [run.name_eq]
  cases proper : SourceLine.throughEnd lines with
  | nil =>
    rw [proper] at opens
    obtain rfl : opened = {} := opens
    exact .inl rfl
  | cons first rest =>
    have member : first ∈ lines := by
      apply (SourceLine.isPrefix_throughEnd lines).subset
      rw [proper]
      exact List.mem_cons_self
    rw [proper] at opens
    simp only [Opens, applyStart, ↓reduceIte] at opens
    split at opens
    · split at opens
      · cases opens
        cases label : first.statement.label with
        | none => exact .inl rfl
        | some name => exact .inr ⟨first, member, label⟩
      · contradiction
    · cases opens
      exact .inl rfl

end Layout

/-- The name of a program that was assembled from a text holds no newline. -/
theorem newline_not_mem_name {state after : Assembler} {text : String} {program : ObjectProgram}
    (assembled : state.assembleText text = (.ok program, after)) :
    '\n' ∉ program.header.name.toList := by
  obtain ⟨source, lines, sizes, final, assembly⟩ := Assembler.assemble_eq_ok_iff.mp assembled
  have named : program.header.name = after.name := by
    rw [assembly.program_eq]
    rfl
  rw [named]
  rcases Layout.name_of_ofLines assembly.placed with empty | ⟨line, member, labelled⟩
  · have nameless : after.name = "" := empty
    simp [nameless]
  · obtain ⟨raw, inText, parsed⟩ := SourceLine.parse_of_mem_parseFrom assembly.parsed line member
    exact Statement.newline_not_mem_label parsed labelled (Text.newline_not_mem_lines inText)

section Records

private theorem Text.isLine_append {front digits : List Char} (unbroken : '\n' ∉ front)
    (present : digits ≠ []) (hex : digits.all Numeral.isHexDigit = true) :
    IsLine (front ++ digits) := by
  rw [List.all_eq_true] at hex
  refine ⟨?_, ?_⟩
  · rw [List.mem_append, not_or]
    exact ⟨unbroken, fun member => absurd (hex _ member) (by decide)⟩
  · rw [List.getLast?_append_of_ne_nil front present]
    intro last
    exact absurd (hex _ (List.mem_of_getLast? last)) (by decide)

theorem Text.hexColumn_ne_nil (width n : Nat) : (hexColumn width n).toList ≠ [] := by
  rw [toList_hexColumn, hexDigits]
  simp [Nat.toDigits_ne_nil]

private theorem Text.newline_not_mem_hexColumn (width n : Nat) :
    '\n' ∉ (hexColumn width n).toList :=
  fun member => absurd (List.all_eq_true.mp (all_isHexDigit_hexColumn width n) _ member) (by decide)

private theorem Header.isLine_render {header : Header} (unbroken : '\n' ∉ header.name.toList) :
    Text.IsLine header.render.toList := by
  have name : '\n' ∉ (Header.nameColumn header.name).toList := by
    simp only [Header.nameColumn, Text.alignLeft, String.toList_ofList, List.rightpad,
      List.mem_append, List.mem_replicate, not_or]
    exact ⟨fun member => unbroken (List.mem_of_mem_take member), by simp⟩
  have written : header.render.toList =
      'H' :: ((Header.nameColumn header.name).toList ++ (Text.hexColumn 6 header.start).toList) ++
        (Text.hexColumn 6 header.length).toList := by
    simp [Header.render, Header.nameColumn]
  rw [written]
  apply Text.isLine_append _ (Text.hexColumn_ne_nil _ _) (Text.all_isHexDigit_hexColumn _ _)
  simp [name, Text.newline_not_mem_hexColumn]

private theorem TextRecord.isLine_render (record : TextRecord) :
    Text.IsLine record.render.toList := by
  have written : record.render.toList = 'T' :: (Text.hexColumn 6 record.start).toList ++
      ((Text.hexColumn 2 record.bytes.length).toList ++ Text.hexPairs record.bytes) := by
    rw [toList_render, List.cons_append]
  rw [written]
  apply Text.isLine_append
  · simp [Text.newline_not_mem_hexColumn]
  · exact List.append_ne_nil_of_left_ne_nil (Text.hexColumn_ne_nil _ _) _
  · rw [List.all_append, Text.all_isHexDigit_hexColumn, all_isHexDigit_hexPairs, Bool.and_self]

private theorem Modification.isLine_render (modification : Modification) :
    Text.IsLine modification.render.toList := by
  have written : modification.render.toList =
      'M' :: (Text.hexColumn 6 modification.address).toList ++
        (Text.hexColumn 2 modification.halfBytes).toList := by
    simp [render]
  rw [written]
  apply Text.isLine_append _ (Text.hexColumn_ne_nil _ _) (Text.all_isHexDigit_hexColumn _ _)
  simp [Text.newline_not_mem_hexColumn]

private theorem isLine_renderEnd (entry : Nat) : Text.IsLine (renderEnd entry).toList := by
  rw [renderEnd, String.toList_append]
  exact Text.isLine_append (by decide) (Text.hexColumn_ne_nil _ _)
    (Text.all_isHexDigit_hexColumn _ _)

/-- No record is broken by a newline or ends with a part of a line ending. -/
theorem ObjectProgram.isLine_of_mem_records {program : ObjectProgram}
    (unbroken : '\n' ∉ program.header.name.toList) :
    ∀ record ∈ program.records, Text.IsLine record.toList := by
  intro record member
  simp only [records, List.cons_append, List.mem_cons, List.mem_append, List.mem_map,
    List.not_mem_nil, or_false] at member
  rcases member with rfl | (⟨text, _, rfl⟩ | ⟨modification, _, rfl⟩) | rfl
  · exact Header.isLine_render unbroken
  · exact text.isLine_render
  · exact modification.isLine_render
  · exact isLine_renderEnd program.entry

/-- The records of a program that was assembled from a text are told apart by the newlines behind
them. -/
theorem lines_unlines_records {state after : Assembler} {text : String} {program : ObjectProgram}
    (assembled : state.assembleText text = (.ok program, after)) :
    Text.lines (Text.unlines program.records) = program.records ∧
      (Text.splitParts '\n' (Text.unlines program.records).toList).1 ::
          (Text.splitParts '\n' (Text.unlines program.records).toList).2 =
        program.records.map String.toList ++ [[]] := by
  have clean := program.isLine_of_mem_records (newline_not_mem_name assembled)
  refine ⟨Text.lines_unlines clean, ?_⟩
  have written : (Text.unlines program.records).toList =
      ((program.records.map String.toList).flatMap fun record => record ++ ['\n']) ++ [] := by
    rw [Text.toList_unlines, List.flatMap_map, List.append_nil]
  rw [written]
  apply Text.splitParts_flatMap_append _ List.not_mem_nil
  intro part member
  obtain ⟨record, present, rfl⟩ := List.mem_map.mp member
  exact (clean record present).unbroken

end Records

end SicAssembler
