import Mathlib.Data.List.Nodup
import SicAssembler.Proofs.Source

/-! # Source that both machines read

SIC/XE knows every operation of SIC by the same name. Its catalog is larger, so a line of two words
can change its meaning: what is a label in front of an operation for SIC may be an operation with
an operand for SIC/XE. If no label is a mnemonic that only SIC/XE has, both machines read the same
statements.
-/

namespace SicAssembler

namespace Machine

/-- Whether a word is a mnemonic of SIC/XE that SIC does not have. -/
def isXeOnly (word : String) : Bool := (xe.operation? word).isSome && (sic.operation? word).isNone

example : isXeOnly "BASE" = true ∧ isXeOnly "LDB" = true := by decide
example : isXeOnly "LDA" = false ∧ isXeOnly "LOOP" = false := by decide

/-- An operation of the catalog is found by its mnemonic. -/
theorem operation?_mnemonic {machine : Machine} {operation : Operation}
    (member : operation ∈ machine.operations) :
    machine.operation? operation.mnemonic = some operation := by
  have present : (machine.operation? operation.mnemonic).isSome :=
    List.find?_isSome.mpr ⟨operation, member, beq_self_eq_true _⟩
  obtain ⟨other, found⟩ := Option.isSome_iff_exists.mp present
  have named : other.mnemonic = operation.mnemonic := by simpa using List.find?_some found
  rw [found, List.inj_on_of_nodup_map (nodup_mnemonics machine)
    (mem_operations_of_operation? found) member named]

variable {word : String} {operation : Operation} {extended : Bool}

/-- SIC/XE knows every mnemonic of SIC, with the same code and the same format. -/
theorem operation?_xe_of_sic (found : sic.operation? word = some operation) :
    xe.operation? word = some operation := by
  have named : operation.mnemonic = word := by simpa using List.find?_some found
  rw [← named]
  apply operation?_mnemonic
  exact operations_sic_subset_xe operation (mem_operations_of_operation? found)

private theorem operator?_xe_of_sic (found : sic.operator? word = some (operation, extended)) :
    xe.operator? word = some (operation, extended) := by
  unfold operator? at found ⊢
  split at found
  · obtain ⟨other, known, same⟩ := Option.map_eq_some_iff.mp found
    rw [operation?_xe_of_sic known, Option.map_some, same]
  · obtain ⟨other, known, same⟩ := Option.map_eq_some_iff.mp found
    rw [operation?_xe_of_sic known, Option.map_some, same]

theorem operator?_of_plain (machine : Machine) (plain : hasPlus word = false) :
    machine.operator? word = (machine.operation? word).map (·, false) := by
  unfold operator?
  split
  · next marked => simp [hasPlus, marked] at plain
  · rfl

/-- A word that is no operation for SIC is none for SIC/XE, unless it is new there. -/
theorem operator?_xe_eq_none (plain : hasPlus word = false) (old : isXeOnly word = false)
    (unknown : sic.operator? word = none) : xe.operator? word = none := by
  rw [operator?_of_plain _ plain, Option.map_eq_none_iff] at unknown ⊢
  simpa [isXeOnly, unknown] using old

end Machine

namespace Statement

/-- The label, if there is one, is no mnemonic that only SIC/XE has. -/
def HasOldLabel (statement : Statement) : Prop :=
  ∀ label ∈ statement.label, Machine.isXeOnly label = false

variable {statement : Statement}

/-- SIC has no extended format. -/
theorem plain_of_admissible_sic (admissible : statement.Admissible .sic) :
    statement.extended = false := by
  apply Bool.eq_false_iff.mpr
  intro extended
  have other := (admissible.extended_cases extended).1
  contradiction

private theorem Admissible.xe_of_sic (admissible : statement.Admissible .sic) :
    statement.Admissible .xe where
  operation_mem := Machine.operations_sic_subset_xe _ admissible.operation_mem
  extended_allowed := by
    intro extended
    rw [plain_of_admissible_sic admissible] at extended
    contradiction

/-- Words that form a statement for SIC form the same one for SIC/XE. The case that needs the label
is that of two words, where SIC/XE could take the first one for the operation. -/
theorem ofWords?_xe_of_sic {words : List String} (formed : ofWords? .sic words = some statement)
    (plain : statement.label.filter hasPlus = none) (old : statement.HasOldLabel) :
    ofWords? .xe words = some statement := by
  unfold ofWords? at formed ⊢
  split at formed
  · obtain ⟨⟨operation, extended⟩, read, rfl⟩ := Option.map_eq_some_iff.mp formed
    rw [Machine.operator?_xe_of_sic read, Option.map_some]
  · next first second =>
    split at formed
    · next operation extended read =>
      cases formed
      rw [Machine.operator?_xe_of_sic read]
    · next unknown =>
      obtain ⟨⟨operation, extended⟩, read, rfl⟩ := Option.map_eq_some_iff.mp formed
      have unmarked : hasPlus first = false := by simpa using plain
      rw [Machine.operator?_xe_eq_none unmarked (old first rfl) unknown,
        Machine.operator?_xe_of_sic read, Option.map_some]
  · obtain ⟨⟨operation, extended⟩, read, rfl⟩ := Option.map_eq_some_iff.mp formed
    rw [Machine.operator?_xe_of_sic read, Option.map_some]
  · contradiction

/-- What SIC reads in a line, SIC/XE reads too. -/
theorem parse_xe_of_sic {text : String} {found : Option Statement}
    (parsed : parse .sic text = .ok found)
    (old : ∀ statement, found = some statement → statement.HasOldLabel) :
    parse .xe text = .ok found := by
  rw [parse_eq_ok_iff] at parsed ⊢
  rcases parsed with inert | ⟨spoken, short, statement, rfl, formed, checked⟩
  · exact .inl inert
  · obtain ⟨_, plain, allowed⟩ := checkPlus_eq_ok_iff.mp checked
    have admissible : statement.Admissible .sic := ⟨operation_mem_of_ofWords? formed, allowed⟩
    refine .inr ⟨spoken, short, statement, rfl, ?_, ?_⟩
    · exact ofWords?_xe_of_sic formed plain (old statement rfl)
    · exact checkPlus_eq_ok_iff.mpr ⟨rfl, plain, admissible.xe_of_sic.extended_allowed⟩

end Statement

/-- SIC/XE reads the same statements as SIC where no label is a mnemonic that only SIC/XE has. -/
theorem SourceLine.parseFrom_xe_of_sic {number : Nat} {texts : List String}
    {lines : List SourceLine} (parsed : parseFrom .sic number texts = .ok lines)
    (old : ∀ line ∈ lines, line.statement.HasOldLabel) :
    parseFrom .xe number texts = .ok lines := by
  induction texts generalizing number lines with
  | nil => exact parsed
  | cons text rest ih =>
    obtain ⟨found, others, read, parsedRest, rfl⟩ := exists_of_parseFrom_cons parsed
    obtain ⟨oldHere, oldRest⟩ := List.forall_mem_append.mp old
    have readXe : Statement.parse .xe text = .ok found := by
      apply Statement.parse_xe_of_sic read
      rintro statement rfl
      exact oldHere _ (List.mem_singleton.mpr rfl)
    rw [parseFrom_cons, readXe, ih parsedRest oldRest]
    rfl

end SicAssembler
