import SicAssembler.Assembler
import SicAssembler.Proofs.Placement

/-! # What the first pass accepts

The first pass looks at a program through its first `END`. It accepts exactly the programs whose
`START` stands in front and gives an address, whose labels are distinct, whose sizes are known and
whose last address is below `2 ^ 32`. What it leaves in the state is determined by the address of
`START` and by the sizes.
-/

namespace SicAssembler

namespace SourceLine

def beforeEnd (lines : List SourceLine) : List SourceLine :=
  lines.takeWhile fun line => !line.isEnd

/-- The address that `START` gives to a program. Without a `START` in front, or without an operand
behind it, a program begins at 0. -/
def StartsAt (start : Nat) : List SourceLine → Prop
  | [] => start = 0
  | first :: _ =>
    if first.statement.operation = .directive .start then
      match first.statement.operand with
      | none => start = 0
      | some operand => Numeral.readHex operand.text = .ok start
    else start = 0

/-- The name of a program: the label of its `START`. -/
def programName : List SourceLine → String
  | [] => ""
  | first :: _ =>
    if first.statement.operation = .directive .start then first.statement.label.getD "" else ""

/-- What the first pass asks of a program that begins at an address and whose statements in front
of `END` have the given sizes. -/
structure Placeable (lines : List SourceLine) (start : Nat) (sizes : List Nat) : Prop where
  /-- `START` occurs at most as the first statement. -/
  start_first : ∀ line ∈ (throughEnd lines).tail, line.statement.operation ≠ .directive .start
  /-- The operand of `START` is an address in hexadecimal. -/
  startsAt : StartsAt start (throughEnd lines)
  labels_nodup : ((throughEnd lines).filterMap fun line => line.statement.label).Nodup
  sized : HaveSizes (beforeEnd lines) sizes
  bounded : start + sizes.sum < Address.limit

theorem haveSizes_append_iff {front back : List SourceLine} {sizes : List Nat} :
    HaveSizes (front ++ back) sizes ↔
      ∃ first second, sizes = first ++ second ∧ HaveSizes front first ∧ HaveSizes back second := by
  constructor
  · intro sized
    rw [HaveSizes, List.map_append] at sized
    obtain ⟨first, second, rfl, frontSized, backSized⟩ := List.append_eq_map_iff.mp sized
    exact ⟨first, second, rfl, frontSized.symm, backSized.symm⟩
  · rintro ⟨first, second, rfl, frontSized, backSized⟩
    rw [HaveSizes, List.map_append, List.map_append, frontSized, backSized]

theorem size_of_isEnd {line : SourceLine} (isEnd : line.isEnd = true) :
    line.statement.size = .ok 0 := by
  have operation : line.statement.operation = .directive .finish := by
    simpa [SourceLine.isEnd] using isEnd
  rw [Statement.size, operation]

/-- `END` adds one size to those in front of it, which is 0. -/
theorem haveSizes_throughEnd_iff {lines : List SourceLine} {sizes : List Nat} :
    HaveSizes (throughEnd lines) sizes ↔
      ∃ front, HaveSizes (beforeEnd lines) front ∧
        sizes = front ++ (lines.find? isEnd).toList.map fun _ => 0 := by
  rw [throughEnd_eq, haveSizes_append_iff]
  have ofEnd (back : List Nat) : HaveSizes (lines.find? isEnd).toList back ↔
      back = (lines.find? isEnd).toList.map fun _ => 0 := by
    cases found : lines.find? isEnd with
    | none => exact haveSizes_nil_iff
    | some line =>
      have size := size_of_isEnd (List.find?_some found)
      simp [haveSizes_cons_iff, size, eq_comm]
  constructor
  · rintro ⟨front, back, rfl, sized, sizedEnd⟩
    exact ⟨front, sized, congrArg (front ++ ·) ((ofEnd back).mp sizedEnd)⟩
  · rintro ⟨front, sized, rfl⟩
    exact ⟨front, _, rfl, sized, (ofEnd _).mpr rfl⟩

/-- The size of `END` counts for nothing. -/
theorem sum_append_end (sizes : List Nat) (last : Option SourceLine) :
    (sizes ++ last.toList.map fun _ => 0).sum = sizes.sum := by
  cases last <;> simp

private theorem sum_take_append_end (sizes : List Nat) (last : Option SourceLine) (position : Nat) :
    ((sizes ++ last.toList.map fun _ => 0).take position).sum = (sizes.take position).sum := by
  rw [List.take_append, List.sum_append]
  cases last with
  | none => simp
  | some line => cases position - sizes.length <;> simp

private theorem map_fst_labels {lines : List SourceLine} {sizes : List Nat}
    (sized : HaveSizes lines sizes) (address : Nat) :
    (labels address lines sizes).map Prod.fst =
      lines.filterMap fun line => line.statement.label := by
  induction lines generalizing sizes address with
  | nil => rfl
  | cons line rest ih =>
    obtain ⟨size, others, rfl, _, sizedRest⟩ := haveSizes_cons_iff.mp sized
    rw [labels, List.map_append, ih sizedRest, List.filterMap_cons]
    cases line.statement.label <;> rfl

/-- The listed labels are those of the lines, each with the first address plus the sizes in front
of its line. -/
theorem mem_labels_iff {lines : List SourceLine} {sizes : List Nat}
    (sized : HaveSizes lines sizes) {address target : Nat} {label : String} :
    (label, target) ∈ labels address lines sizes ↔
      ∃ (position : Nat) (line : SourceLine), lines[position]? = some line ∧
        line.statement.label = some label ∧ target = address + (sizes.take position).sum := by
  constructor
  · intro member
    induction lines generalizing sizes address with
    | nil => contradiction
    | cons line rest ih =>
      obtain ⟨size, others, rfl, _, sizedRest⟩ := haveSizes_cons_iff.mp sized
      rcases List.mem_append.mp member with here | later
      · rw [Option.mem_toList, Option.map_eq_some_iff] at here
        obtain ⟨name, labelled, same⟩ := here
        cases same
        exact ⟨0, line, rfl, labelled, rfl⟩
      · obtain ⟨position, other, present, labelled, rfl⟩ := ih sizedRest later
        refine ⟨position + 1, other, present, labelled, ?_⟩
        rw [List.take_succ_cons, List.sum_cons, Nat.add_assoc]
  · rintro ⟨position, line, present, labelled, rfl⟩
    exact mem_labels sized address present labelled

end SourceLine

namespace Layout

/-- From a layout without symbols there is a run over lines exactly if their labels are distinct
and the last address is in range. -/
theorem exists_run_iff {before : Layout} (fresh : before.symbols.entries = [])
    {lines : List SourceLine} {sizes : List Nat} (sized : SourceLine.HaveSizes lines sizes) :
    (∃ after, Run before lines sizes after) ↔
      (lines.filterMap fun line => line.statement.label).Nodup ∧
        before.counter + sizes.sum < Address.limit := by
  have keys : ((SourceLine.labels before.counter lines sizes).reverse.map Prod.fst).Nodup ↔
      (lines.filterMap fun line => line.statement.label).Nodup := by
    rw [List.map_reverse, (List.reverse_perm _).nodup_iff, SourceLine.map_fst_labels sized]
  constructor
  · rintro ⟨after, run⟩
    refine ⟨?_, run.counter_eq ▸ run.bounded⟩
    apply keys.mp
    have distinct := after.symbols.nodup
    rwa [run.entries_eq, fresh, List.append_nil] at distinct
  · rintro ⟨distinct, bounded⟩
    refine ⟨⟨before.name, before.start, before.counter + sizes.sum, ⟨_, keys.mpr distinct⟩⟩,
      sized, rfl, rfl, rfl, bounded, ?_⟩
    rw [fresh, List.append_nil]

/-- A program is opened at the address of its `START`, with its name and no symbols. -/
theorem opens_iff {opened : Layout} {lines : List SourceLine} :
    opened.Opens lines ↔
      ∃ start, SourceLine.StartsAt start lines ∧
        opened = ⟨SourceLine.programName lines, start, start, ∅⟩ := by
  cases lines with
  | nil => simp [Opens, SourceLine.StartsAt, SourceLine.programName]
  | cons first rest =>
    by_cases isStart : first.statement.operation = .directive .start
    · simp only [Opens, applyStart, isStart, Statement.startAddress, SourceLine.StartsAt,
        SourceLine.programName, if_true]
      cases first.statement.operand with
      | none => simp [eq_comm]
      | some operand =>
        cases read : Numeral.readHex operand.text with
        | error failure => simp [Except.mapError, read, halt]
        | ok address => simp [Except.mapError, read, eq_comm]
    · simp [Opens, applyStart_of_ne isStart, SourceLine.StartsAt, SourceLine.programName, isStart,
        eq_comm]

/-- A placeable program can be laid out. -/
theorem exists_ofLines_of_placeable {lines : List SourceLine} {start : Nat} {sizes : List Nat}
    (placeable : SourceLine.Placeable lines start sizes) :
    ∃ layout, ofLines lines = .ok layout := by
  have sized := SourceLine.haveSizes_throughEnd_iff.mpr ⟨sizes, placeable.sized, rfl⟩
  have bounded := placeable.bounded
  rw [← SourceLine.sum_append_end sizes (lines.find? SourceLine.isEnd)] at bounded
  have opens := opens_iff.mpr ⟨start, placeable.startsAt, rfl⟩
  obtain ⟨layout, run⟩ := (exists_run_iff opens.fresh.2.2 sized).mpr
    ⟨placeable.labels_nodup, bounded⟩
  exact ⟨layout, ofLines_eq_ok_iff.mpr ⟨_, _, opens, placeable.start_first, run⟩⟩

/-- Only a placeable program can be laid out, and the address of `START` and the sizes in front of
`END` determine all that its layout holds. -/
theorem placeable_of_ofLines {lines : List SourceLine} {layout : Layout}
    (placed : ofLines lines = .ok layout) :
    ∃ sizes, SourceLine.Placeable lines layout.start sizes ∧
      layout.name = SourceLine.programName (SourceLine.throughEnd lines) ∧
      layout.counter = layout.start + sizes.sum ∧
      ∀ name address, layout.symbols.get? name = some address ↔
        ∃ (position : Nat) (line : SourceLine),
          (SourceLine.throughEnd lines)[position]? = some line ∧
          line.statement.label = some name ∧
          address = layout.start + (sizes.take position).sum := by
  obtain ⟨opened, all, opens, noStart, run⟩ := ofLines_eq_ok_iff.mp placed
  obtain ⟨distinct, bounded⟩ := (exists_run_iff opens.fresh.2.2 run.sized).mp ⟨layout, run⟩
  obtain ⟨start, startsAt, rfl⟩ := opens_iff.mp opens
  obtain rfl : layout.start = start := run.start_eq
  obtain ⟨sizes, sized, rfl⟩ := SourceLine.haveSizes_throughEnd_iff.mp run.sized
  have total : layout.counter = layout.start + sizes.sum := by
    rw [run.counter_eq, SourceLine.sum_append_end]
  rw [SourceLine.sum_append_end] at bounded
  refine ⟨sizes, ⟨noStart, startsAt, distinct, sized, bounded⟩, run.name_eq, total, ?_⟩
  intro name address
  rw [SymbolTable.get?_eq_some_iff, run.entries_eq, opens.fresh.2.2, List.append_nil,
    List.mem_reverse, SourceLine.mem_labels_iff run.sized]
  simp only [SourceLine.sum_take_append_end]

end Layout

namespace Assembler

/-- A layout always has a length, so the first pass fails only where placing fails. -/
theorem firstPass_eq (state : Assembler) (lines : List SourceLine) :
    state.firstPass lines =
      match Layout.ofLines lines with
      | .error halt => (.error halt.diagnostic, state.adopt halt.layout)
      | .ok layout =>
        (.ok (), { state.adopt layout with length := layout.counter - layout.start }) := by
  unfold firstPass
  cases placed : Layout.ofLines lines with
  | error halt => rfl
  | ok layout =>
    obtain ⟨sizes, _, total, _⟩ := Layout.sizes_of_ofLines placed
    have measured : layout.length = .ok (layout.counter - layout.start) :=
      Address.sub_eq_ok_iff.mpr (by omega)
    simp only [measured, atLine_ok]

/-- The first pass is exact. It succeeds on the placeable programs and on no others. What it then
leaves is the name and the address of `START`, the sum of the sizes in front of `END`, and a table
of exactly the labels through `END`, each with the address of `START` plus the sizes in front of
its statement; machine and listing are those of the state before. -/
theorem first_pass_is_exact (state : Assembler) (lines : List SourceLine) :
    ((state.firstPass lines).1 = .ok () ↔
      ∃ start sizes, SourceLine.Placeable lines start sizes) ∧
    ∀ next, state.firstPass lines = (.ok (), next) →
      ∃ sizes, SourceLine.Placeable lines next.start sizes ∧
        next.name = SourceLine.programName (SourceLine.throughEnd lines) ∧
        next.length = sizes.sum ∧
        (∀ name address, next.symbols.get? name = some address ↔
          ∃ (position : Nat) (line : SourceLine),
            (SourceLine.throughEnd lines)[position]? = some line ∧
            line.statement.label = some name ∧
            address = next.start + (sizes.take position).sum) ∧
        next.machine = state.machine ∧ next.listing = state.listing := by
  rw [firstPass_eq]
  cases placed : Layout.ofLines lines with
  | error halt =>
    constructor
    · constructor
      · intro failed
        contradiction
      · rintro ⟨start, sizes, placeable⟩
        obtain ⟨layout, placedToo⟩ := Layout.exists_ofLines_of_placeable placeable
        rw [placed] at placedToo
        contradiction
    · intro next failed
      cases failed
  | ok layout =>
    obtain ⟨sizes, placeable, name, total, symbols⟩ := Layout.placeable_of_ofLines placed
    refine ⟨iff_of_true rfl ⟨layout.start, sizes, placeable⟩, ?_⟩
    intro next passed
    cases passed
    refine ⟨sizes, placeable, name, ?_, symbols, rfl, rfl⟩
    simp only [total, Nat.add_sub_cancel_left]

/-- The label of `END` may have the last address of all, and what stands behind `END` may repeat
it. -/
theorem first_pass_is_exact_below_limit :
    ∃ lines next, SourceLine.parseAll .sic
        ["P START FFFFFFF0", "A RESB 15", "Z END", "Z RESB 15"] = .ok lines ∧
      firstPass { machine := .sic } lines = (.ok (), next) ∧
      next.name = "P" ∧ next.length = 15 ∧ next.symbols.get? "Z" = some 0xFFFFFFFF := by
  have passed : firstPass { machine := .sic }
      [⟨1, "P START FFFFFFF0", ⟨some "P", .directive .start, some ⟨"FFFFFFF0"⟩, false⟩⟩,
        ⟨2, "A RESB 15", ⟨some "A", .directive .reserveBytes, some ⟨"15"⟩, false⟩⟩,
        ⟨3, "Z END", ⟨some "Z", .directive .finish, none, false⟩⟩,
        ⟨4, "Z RESB 15", ⟨some "Z", .directive .reserveBytes, some ⟨"15"⟩, false⟩⟩] =
      (.ok (),
        { machine := .sic, name := "P", start := 0xFFFFFFF0, length := 15
          symbols := ⟨[("Z", 0xFFFFFFFF), ("A", 0xFFFFFFF0), ("P", 0xFFFFFFF0)], by decide⟩ }) := by
    decide +kernel
  obtain ⟨sizes, placeable, name, length, symbols, _⟩ := (first_pass_is_exact _ _).2 _ passed
  obtain rfl : sizes = [0, 15] := placeable.sized.unique rfl
  exact ⟨_, _, by decide +kernel, passed, name, length,
    (symbols "Z" 0xFFFFFFFF).mpr ⟨2, _, rfl, rfl, rfl⟩⟩

end Assembler

end SicAssembler
