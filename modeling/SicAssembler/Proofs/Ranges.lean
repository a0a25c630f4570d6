import SicAssembler.Proofs.Stopping

/-! # Address arithmetic stays in range

The first pass looks at the limit before it moves its counter; the second pass adds the same sizes
without looking. It need not look: a statement that the first pass has placed ends below the limit,
and every address that its encoding computes lies between its own address and its end. What is left
are the faults of the program itself.
-/

namespace SicAssembler

/-- A step that does not leave the range of addresses, whether it succeeds or finds a fault. -/
abbrev InRange {α : Type} (result : Except Fault α) : Prop := Avoids (· = Fault.addressRange) result

theorem Statement.inRange_parse (machine : Machine) (line : String) :
    InRange (parse machine line) :=
  avoids_parse nofun nofun machine line

/-- A statement that ends below the limit is generated in range. -/
theorem Statement.inRange_generate {machine : Machine} {symbols : SymbolTable} {site : Site}
    {statement : Statement} {size : Nat} (sized : statement.size = .ok size)
    (room : site.address + size < Address.limit) :
    InRange (statement.generate machine symbols site) :=
  avoids_generate (Fault.foreign_addressRange site.address) sized room

/-- A diagnostic that tells of address arithmetic and not of the program. -/
def Diagnostic.IsRange (diagnostic : Diagnostic) : Prop :=
  ∃ line, diagnostic = .source line .addressRange

theorem Diagnostic.not_isRange {fault : Fault} (other : fault ≠ .addressRange) (line : Nat) :
    ¬ (Diagnostic.source line fault).IsRange := by
  rintro ⟨_, same⟩
  cases same
  exact other rfl

/-- Lines that cannot be read stop the reading by faults of the program only. -/
theorem SourceLine.avoids_parseFrom (machine : Machine) (line : Nat) (texts : List String) :
    Avoids Diagnostic.IsRange (parseFrom machine line texts) := by
  intro diagnostic failed
  obtain ⟨front, text, _, fault, _, _, rejected, rfl⟩ := exists_of_parseFrom_eq_error failed
  exact Diagnostic.not_isRange (Statement.inRange_parse machine text fault rejected) _

namespace Layout

def Halt.IsRange (halt : Halt) : Prop := halt.diagnostic.IsRange

private theorem Stops.ne_addressRange {first : Bool} {layout left : Layout} {line : SourceLine}
    {fault : Fault} (stops : Stops first layout line fault left) : fault ≠ .addressRange := by
  have foreign := Fault.foreign_addressRange layout.counter
  cases stops with
  | lateStart => nofun
  | badStart _ _ failed => exact Statement.avoids_startAddress foreign fault failed
  | duplicate => nofun
  | noRoom _ _ noRoom => exact noRoom.not_foreign foreign

/-- The first pass stops at faults of the program only. -/
theorem avoids_ofLines (lines : List SourceLine) : Avoids Halt.IsRange (ofLines lines) := by
  intro halt failed isRange
  obtain ⟨front, line, _, reached, _, _, stopped⟩ := ofLines_eq_error_iff.mp failed
  obtain ⟨fault, located, stops⟩ := stops_of_place stopped
  rw [Halt.IsRange, located] at isRange
  exact Diagnostic.not_isRange stops.ne_addressRange line.line isRange

end Layout

namespace Words

private theorem length_of_mem_consWord {word other : List Char} {words : List (List Char)}
    {bound : Nat} (here : word.length ≤ bound) (rest : ∀ later ∈ words, later.length ≤ bound)
    (member : other ∈ consWord word words) : other.length ≤ bound := by
  rcases mem_consWord.mp member with ⟨rfl, _⟩ | later
  · exact here
  · exact rest other later

private theorem length_scan_le (quoted : Bool) (text : List Char) :
    (scan quoted text).1.length ≤ text.length ∧
      ∀ word ∈ (scan quoted text).2, word.length ≤ text.length := by
  induction text generalizing quoted with
  | nil => simp [scan]
  | cons c rest ih =>
    have later (quoted : Bool) : ∀ word ∈ (scan quoted rest).2, word.length ≤ rest.length + 1 :=
      fun word member => Nat.le_succ_of_le ((ih quoted).2 word member)
    unfold scan
    split
    · exact ⟨Nat.succ_le_succ (ih (!quoted)).1, later (!quoted)⟩
    · split
      · refine ⟨Nat.zero_le _, fun word member => ?_⟩
        exact length_of_mem_consWord (Nat.le_succ_of_le (ih quoted).1) (later quoted) member
      · exact ⟨Nat.succ_le_succ (ih quoted).1, later quoted⟩

/-- No word is longer than its line. -/
theorem length_of_mem_split {text word : List Char} (member : word ∈ split text) :
    word.length ≤ text.length :=
  length_of_mem_consWord (length_scan_le false text).1 (length_scan_le false text).2 member

end Words

private theorem Text.length_trim_le (text : List Char) : (Text.trim text).length ≤ text.length := by
  have front : (Text.trimStart text).length ≤ text.length :=
    (List.dropWhile_sublist Text.isBlank).length_le
  have back := (List.dropWhile_sublist Text.isBlank (l := (Text.trimStart text).reverse)).length_le
  rw [List.length_reverse] at back
  rw [Text.trim, Text.trimEnd, List.length_reverse]
  exact Nat.le_trans back front

theorem Text.length_le_utf8ByteSize (text : List Char) :
    text.length ≤ (String.ofList text).utf8ByteSize := by
  induction text with
  | nil => exact Nat.zero_le _
  | cons c rest ih =>
    have positive := c.utf8Size_pos
    rw [String.ofList_cons, String.utf8ByteSize_append, String.utf8ByteSize_singleton,
      List.length_cons]
    omega

namespace Statement

/-- A statement whose literal, if it has one, has fewer bytes than there are addresses. -/
def Short (statement : Statement) : Prop :=
  ∀ literal, statement.byteLiteral = .ok literal → literal.bytes.length < Address.limit

private theorem operand_mem_of_ofWords? {machine : Machine} {words : List String}
    {statement : Statement} {operand : Operand} (found : ofWords? machine words = some statement)
    (present : statement.operand = some operand) : operand.text ∈ words := by
  obtain ⟨word, _, rfl⟩ := exists_operator_of_ofWords? found
  simp [present]

private theorem operand_mem_of_parse {machine : Machine} {line : String} {statement : Statement}
    {operand : Operand} (parsed : parse machine line = .ok (some statement))
    (present : statement.operand = some operand) :
    operand.text.toList ∈ Words.split (Text.trim line.toList) := by
  have formed := (formed_of_parse parsed).1
  obtain ⟨word, member, same⟩ := List.mem_map.mp (operand_mem_of_ofWords? formed present)
  rw [← same, String.toList_ofList]
  exact member

/-- A line of fewer bytes than there are addresses holds a short statement. -/
theorem short_of_parse {machine : Machine} {line : String} {statement : Statement}
    (short : line.utf8ByteSize < Address.limit)
    (parsed : parse machine line = .ok (some statement)) : statement.Short := by
  intro literal read
  obtain ⟨operand, present, found⟩ := read_of_byteLiteral read
  calc literal.bytes.length
    _ ≤ operand.text.toList.length := ByteLiteral.length_le_of_read found
    _ ≤ (Text.trim line.toList).length :=
      Words.length_of_mem_split (operand_mem_of_parse parsed present)
    _ ≤ line.toList.length := Text.length_trim_le line.toList
    _ ≤ line.utf8ByteSize := by simpa using Text.length_le_utf8ByteSize line.toList
    _ < Address.limit := short

private theorem length_lt_of_generate {machine : Machine} {symbols : SymbolTable} {site : Site}
    {statement : Statement} {made : Generated} (short : statement.Short)
    (generated : statement.generate machine symbols site = .ok made) :
    made.bytes.length < Address.limit := by
  have none : ([] : List UInt8).length < Address.limit := by decide
  unfold generate at generated
  split at generated
  · obtain ⟨encoded, _, rfl⟩ := exists_of_bind_pure_eq_ok generated
    rw [MachineCode.length_bytes]
    cases encoded.code <;> simp [MachineCode.size, Address.limit]
  · obtain ⟨bytes, encoded, rfl⟩ := exists_of_bind_pure_eq_ok generated
    rw [length_of_word encoded]
    decide
  · obtain ⟨literal, read, rfl⟩ := exists_of_bind_pure_eq_ok generated
    exact short literal read
  · obtain ⟨base, _, rfl⟩ := exists_of_bind_pure_eq_ok generated
    exact none
  all_goals
    cases generated
    exact none

/-- The code of a short statement ends where the statement does, or in front of it. -/
theorem length_le_of_generate {machine : Machine} {symbols : SymbolTable} {site : Site}
    {statement : Statement} {size : Nat} {made : Generated}
    (admissible : statement.Admissible machine) (short : statement.Short)
    (sized : statement.size = .ok size)
    (generated : statement.generate machine symbols site = .ok made) :
    made.bytes.length ≤ size := by
  obtain ⟨blank, filled, _⟩ := length_of_generate admissible sized generated
  cases reserves : statement.reserves with
  | true =>
    rw [blank reserves]
    exact Nat.zero_le size
  | false =>
    rw [← filled reserves, Nat.mod_eq_of_lt (length_lt_of_generate short generated)]

end Statement

theorem SourceLine.short_of_parseFrom {machine : Machine} {number : Nat} {texts : List String}
    {lines : List SourceLine} (short : ∀ text ∈ texts, text.utf8ByteSize < Address.limit)
    (parsed : parseFrom machine number texts = .ok lines) :
    ∀ line ∈ lines, line.statement.Short := by
  intro line member
  obtain ⟨text, present, read⟩ := parse_of_mem_parseFrom parsed line member
  exact Statement.short_of_parse (short text present) read

end SicAssembler
