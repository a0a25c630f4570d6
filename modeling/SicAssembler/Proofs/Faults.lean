import SicAssembler.ObjectLine
import SicAssembler.Proofs.Encoding

/-! # Which faults a statement can have

Placing a statement and generating its code look at its operand, at the symbol table and at the
distance to a target. The faults that they report tell of the operand, or of a symbol or a target
that was missed at the address of the statement. Every other fault is foreign to the statement: in
particular, a fault never shows the address of another one.
-/

namespace SicAssembler

/-- A result whose error, if it is one, is not of a certain kind. -/
def Avoids {ε α : Type} (kind : ε → Prop) (result : Except ε α) : Prop :=
  ∀ failure, result = .error failure → ¬ kind failure

namespace Avoids

variable {ε ε' α β : Type} {kind : ε → Prop}

theorem ok (value : α) : Avoids kind (.ok value) := nofun

theorem error {failure : ε} (other : ¬ kind failure) :
    Avoids kind (.error failure : Except ε α) := by
  intro _ same
  cases same
  exact other

theorem bind {first : Except ε α} {second : α → Except ε β} (start : Avoids kind first)
    (rest : ∀ value, first = .ok value → Avoids kind (second value)) :
    Avoids kind (first >>= second) := by
  cases first with
  | error failure => exact error (start failure rfl)
  | ok value => exact rest value rfl

/-- A step whose result is only wrapped up. -/
theorem wrap {first : Except ε α} (start : Avoids kind first) (pack : α → β) :
    Avoids kind (do let value ← first; return pack value) :=
  start.bind fun value _ => ok (pack value)

theorem map {first : Except ε α} (start : Avoids kind first) (pack : α → β) :
    Avoids kind (first.map pack) := by
  cases first with
  | error failure => exact error (start failure rfl)
  | ok value => exact ok (pack value)

/-- A reader whose failures are reported as errors of another type. -/
theorem mapError {read : Except ε' α} {report : ε' → ε}
    (other : ∀ failure, ¬ kind (report failure)) : Avoids kind (read.mapError report) := by
  cases read with
  | error failure => exact error (other failure)
  | ok value => exact ok value

end Avoids

namespace Fault

/-- A kind of faults that a statement at an address cannot have: neither a fault of its operand nor
one that shows its address. -/
structure Foreign (address : Nat) (kind : Fault → Prop) : Prop where
  operand : ∀ text reason, ¬ kind (.invalidOperand text reason)
  symbol : ∀ name, ¬ kind (.unresolvedSymbol name address)
  target : ∀ text, ¬ kind (.outOfReach text address)

theorem foreign_addressRange (address : Nat) : Foreign address (· = .addressRange) :=
  ⟨nofun, nofun, nofun⟩

theorem foreign_duplicateLabel (address : Nat) (label : String) (shown : Nat) :
    Foreign address (· = .duplicateLabel label shown) :=
  ⟨nofun, nofun, nofun⟩

/-- A fault that shows another address than the given one. -/
def PointsElsewhere (address : Nat) (fault : Fault) : Prop :=
  ∃ shown, fault.address? = some shown ∧ shown ≠ address

theorem foreign_pointsElsewhere (address : Nat) : Foreign address (PointsElsewhere address) := by
  refine ⟨?_, ?_, ?_⟩
  · rintro text reason ⟨shown, absent, _⟩
    contradiction
  · rintro name ⟨shown, same, other⟩
    exact other (Option.some.inj same).symm
  · rintro text ⟨shown, same, other⟩
    exact other (Option.some.inj same).symm

/-- A fault that does not point elsewhere shows the address, if it shows one. -/
theorem address_eq {address shown : Nat} {fault : Fault}
    (here : ¬ fault.PointsElsewhere address) (shows : fault.address? = some shown) :
    shown = address :=
  Decidable.byContradiction fun other => here ⟨shown, shows, other⟩

/-- A fault that points elsewhere from no address shows none. -/
theorem address?_eq_none {fault : Fault} (nowhere : ∀ address, ¬ fault.PointsElsewhere address) :
    fault.address? = none := by
  cases shows : fault.address? with
  | none => rfl
  | some shown =>
    have := address_eq (nowhere (shown + 1)) shows
    omega

end Fault

variable {kind : Fault → Prop} {site : Site} {statement : Statement}

namespace Statement

variable {address : Nat}

private theorem avoids_required (foreign : Fault.Foreign address kind) :
    Avoids kind statement.required := by
  unfold required
  split
  · exact .ok _
  · exact .error (foreign.operand _ _)

theorem avoids_startAddress (foreign : Fault.Foreign address kind) :
    Avoids kind statement.startAddress := by
  unfold startAddress
  split
  · exact .ok _
  · exact .mapError fun _ => foreign.operand _ _

private theorem avoids_reserveCount (foreign : Fault.Foreign address kind) :
    Avoids kind statement.reserveCount :=
  (avoids_required foreign).bind fun _ _ => .mapError fun _ => foreign.operand _ _

private theorem avoids_byteLiteral (foreign : Fault.Foreign address kind) :
    Avoids kind statement.byteLiteral :=
  (avoids_required foreign).bind fun _ _ => .mapError fun _ => foreign.operand _ _

private theorem avoids_wordValue (foreign : Fault.Foreign address kind) :
    Avoids kind statement.wordValue := by
  apply (avoids_required foreign).bind
  intro operand _
  apply Avoids.bind (.mapError fun _ => foreign.operand _ _)
  intro value _
  split
  · exact .ok _
  · exact .error (foreign.operand _ _)

theorem avoids_size (foreign : Fault.Foreign address kind) : Avoids kind statement.size := by
  unfold size
  split
  · exact .ok _
  · exact .ok _
  · apply (avoids_reserveCount foreign).bind
    intro count _
    split
    · exact .ok _
    · exact .error (foreign.operand _ _)
  · exact avoids_reserveCount foreign
  · exact (avoids_byteLiteral foreign).wrap _
  all_goals exact .ok _

private theorem avoids_checkPlus
    (invalidOpcode : ∀ mnemonic reason, ¬ kind (.invalidOpcode mnemonic reason))
    (machine : Machine) : Avoids kind (checkPlus machine statement) := by
  unfold checkPlus
  split
  · exact .error (invalidOpcode _ _)
  · split
    · split
      · exact .error (invalidOpcode _ _)
      · exact .ok _
    · exact .ok _

/-- A line is not read because its words form no statement or because its operation is not valid. -/
theorem avoids_parse (malformed : ∀ text, ¬ kind (.malformed text))
    (invalidOpcode : ∀ mnemonic reason, ¬ kind (.invalidOpcode mnemonic reason))
    (machine : Machine) (line : String) : Avoids kind (parse machine line) := by
  simp only [parse]
  split
  · exact .ok _
  · split
    · exact .error (malformed _)
    · cases ofWords? machine ((Words.split (Text.trim line.toList)).map String.ofList) with
      | some statement => exact (avoids_checkPlus invalidOpcode machine).map some
      | none =>
        apply Avoids.error
        rw [wordsFault]
        cases ((Words.split (Text.trim line.toList)).map String.ofList |>.take 2).find? hasPlus with
        | some word => exact invalidOpcode word _
        | none => exact malformed _

/-- Nothing is placed when lines are read. -/
theorem address?_of_parse_eq_error {machine : Machine} {line : String} {fault : Fault}
    (failed : parse machine line = .error fault) : fault.address? = none := by
  have unplaced : Avoids (fun fault : Fault => fault.address? ≠ none) (parse machine line) := by
    apply avoids_parse
    · intro text shows
      exact shows rfl
    · intro mnemonic reason shows
      exact shows rfl
  exact Decidable.not_not.mp (unplaced fault failed)

end Statement

namespace Encode

variable {symbols : SymbolTable}

private theorem avoids_target (foreign : Fault.Foreign site.address kind) (operand : Operand) :
    Avoids kind (target symbols site operand) := by
  unfold target
  split
  · exact .ok _
  · split
    · split
      · exact .ok _
      · exact .error (foreign.operand _ _)
    · exact .error (foreign.symbol _)

private theorem avoids_baseValue (foreign : Fault.Foreign site.address kind) :
    Avoids kind (baseValue symbols site statement) := by
  apply (Statement.avoids_required foreign).bind
  intro operand _
  split
  · exact .ok _
  · split
    · split
      · exact .ok _
      · exact .error (foreign.operand _ _)
    · exact .error (foreign.symbol _)

section Nibbles

variable {address : Nat}

private theorem avoids_registerCode (foreign : Fault.Foreign address kind) (name : String) :
    Avoids kind (registerCode name) := by
  unfold registerCode
  split
  · exact .ok _
  · exact .error (foreign.operand _ _)

private theorem avoids_smallNumber (foreign : Fault.Foreign address kind) (least greatest : Nat)
    (text : String) : Avoids kind (smallNumber least greatest text) := by
  unfold smallNumber
  split
  · split
    · exact .ok _
    · exact .error (foreign.operand _ _)
  · exact .error (foreign.operand _ _)

private theorem avoids_firstNibble (foreign : Fault.Foreign address kind)
    (instruction : Instruction) (text : String) : Avoids kind (firstNibble instruction text) := by
  unfold firstNibble
  split
  · exact avoids_smallNumber foreign 0 15 text
  · exact avoids_registerCode foreign text

/-- The count of a shift is at least 1, so one less is still a number. -/
theorem avoids_secondNibble (foreign : Fault.Foreign address kind) (instruction : Instruction)
    (text : String) : Avoids kind (secondNibble instruction text) := by
  unfold secondNibble
  split
  · apply (avoids_smallNumber foreign 1 16 text).bind
    intro count read
    rw [Address.sub_eq_ok_iff.mpr (Nat.add_sub_of_le (bounds_of_smallNumber read).1)]
    exact .ok _
  · exact avoids_registerCode foreign text

private theorem avoids_format1 (foreign : Fault.Foreign address kind) (instruction : Instruction) :
    Avoids kind (format1 instruction statement) := by
  unfold format1
  split
  · exact .error (foreign.operand _ _)
  · exact .ok _

private theorem avoids_format2 (foreign : Fault.Foreign address kind) (instruction : Instruction) :
    Avoids kind (format2 instruction statement) := by
  apply (Statement.avoids_required foreign).bind
  intro operand _
  split
  · exact (avoids_firstNibble foreign instruction _).wrap _
  · apply (avoids_firstNibble foreign instruction _).bind
    intro high _
    exact (avoids_secondNibble foreign instruction _).wrap _
  · exact .error (foreign.operand _ _)

end Nibbles

/-- The program counter of a format 3 instruction is the end of the instruction. -/
theorem avoids_format3 (foreign : Fault.Foreign site.address kind) (instruction : Instruction)
    (room : site.address + 3 < Address.limit) :
    Avoids kind (format3 symbols site instruction statement) := by
  unfold format3
  split
  · exact .ok _
  · apply (avoids_target foreign _).bind
    intro found _
    split
    · split
      · exact .ok _
      · exact .error (foreign.target _)
    · rw [Address.add_eq_ok_iff.mpr ⟨rfl, room⟩]
      apply Avoids.bind (.ok _)
      intro next _
      split
      · exact .ok _
      · exact .error (foreign.target _)

/-- The field of a format 4 instruction lies inside the instruction. -/
theorem avoids_format4 (foreign : Fault.Foreign site.address kind) (instruction : Instruction)
    (room : site.address + 4 < Address.limit) :
    Avoids kind (format4 symbols site instruction statement) := by
  have inside : Address.add site.address 1 = .ok (site.address + 1) :=
    Address.add_eq_ok_iff.mpr ⟨rfl, by omega⟩
  unfold format4
  split
  · exact .ok _
  · apply (avoids_target foreign _).bind
    intro found _
    cases found
    all_goals
      dsimp only
      split
      · exact .error (foreign.operand _ _)
      · split
        · exact .ok _
        · rw [inside]
          exact Avoids.bind (.ok _) fun _ _ => .ok _

private theorem avoids_absolute (foreign : Fault.Foreign site.address kind)
    (instruction : Instruction) :
    Avoids kind (absolute symbols site instruction statement) := by
  unfold absolute
  split
  · exact .ok _
  · split
    · exact .error (foreign.operand _ _)
    · split
      · exact .error (foreign.symbol _)
      · split
        · exact .ok _
        · exact .error (foreign.operand _ _)

/-- An instruction that ends below the limit has no foreign fault. -/
theorem avoids_instruction (foreign : Fault.Foreign site.address kind) (machine : Machine)
    (found : Instruction)
    (room : site.address + (if statement.extended then 4 else found.format.size) < Address.limit) :
    Avoids kind (instruction machine symbols site found statement) := by
  unfold instruction
  split
  · exact (avoids_absolute foreign found).wrap _
  · exact (avoids_format1 foreign found).wrap _
  · exact (avoids_format2 foreign found).wrap _
  · next format =>
    split
    · next extended =>
      rw [if_pos extended] at room
      exact avoids_format4 foreign found room
    · next plain =>
      rw [if_neg plain, format] at room
      exact (avoids_format3 foreign found room).wrap _

end Encode

/-- A statement that ends below the limit has no foreign fault when its code is generated. -/
theorem Statement.avoids_generate {machine : Machine} {symbols : SymbolTable} {size : Nat}
    (foreign : Fault.Foreign site.address kind) (sized : statement.size = .ok size)
    (room : site.address + size < Address.limit) :
    Avoids kind (statement.generate machine symbols site) := by
  unfold generate
  split
  · next instruction isMachine =>
    simp only [Statement.size, isMachine] at sized
    cases sized
    exact (Encode.avoids_instruction foreign machine instruction room).wrap _
  · exact ((Statement.avoids_wordValue foreign).wrap _).wrap _
  · exact (Statement.avoids_byteLiteral foreign).wrap _
  · exact (Encode.avoids_baseValue foreign).wrap _
  all_goals exact .ok _

/-- Where there is room for a line, only its statement can be at fault. -/
theorem ObjectLine.avoids_generate {machine : Machine} {symbols : SymbolTable} {source : SourceLine}
    {size : Nat} (foreign : Fault.Foreign site.address kind)
    (sized : source.statement.size = .ok size) (room : site.address + size < Address.limit) :
    Avoids kind (generate machine symbols site source) := by
  rw [generate, sized]
  apply Avoids.bind (.ok size)
  rintro _ ⟨⟩
  apply (Statement.avoids_generate foreign sized room).bind
  intro generated _
  rw [Address.add_eq_ok_iff.mpr ⟨rfl, room⟩]
  exact Avoids.wrap (.ok _) _

end SicAssembler
