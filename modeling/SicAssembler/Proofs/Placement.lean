import Mathlib.Algebra.Ring.Nat
import SicAssembler.Layout
import SicAssembler.Proofs.Source

/-! # Where the first pass puts statements

A statement stands behind all statements in front of it, so its address is the first address of
the program plus the sum of their sizes. Placing a list of statements succeeds exactly when every
size is known, the labels are distinct and the counter stays below its limit; the layout is then
determined by the sizes.
-/

namespace SicAssembler

namespace SymbolTable

private theorem ext_entries {left right : SymbolTable} (same : left.entries = right.entries) :
    left = right := by
  cases left
  cases right
  cases same
  rfl

private theorem lookup_eq_some_iff_mem {entries : List (String × Nat)}
    (nodup : (entries.map Prod.fst).Nodup) (name : String) (address : Nat) :
    entries.lookup name = some address ↔ (name, address) ∈ entries := by
  induction entries with
  | nil => simp
  | cons entry rest ih =>
    obtain ⟨key, value⟩ := entry
    obtain ⟨fresh, nodupRest⟩ := List.nodup_cons.mp nodup
    rw [List.lookup_cons]
    by_cases same : name = key
    · subst same
      have absent : (name, address) ∉ rest := fun member =>
        fresh (List.mem_map.mpr ⟨(name, address), member, rfl⟩)
      simp [absent, eq_comm]
    · rw [beq_eq_false_iff_ne.mpr same]
      simp only [List.mem_cons, Prod.mk.injEq, same, false_and, false_or]
      exact ih nodupRest

/-- A table knows exactly its entries. -/
theorem get?_eq_some_iff {table : SymbolTable} {name : String} {address : Nat} :
    table.get? name = some address ↔ (name, address) ∈ table.entries :=
  lookup_eq_some_iff_mem table.nodup name address

/-- Inserting succeeds when the entry can be put in front of the others. -/
theorem insert_eq_ok_iff {table next : SymbolTable} {name : String} {address : Nat} :
    table.insert name address = .ok next ↔ next.entries = (name, address) :: table.entries := by
  constructor
  · intro inserted
    exact (entries_of_insert_eq_ok inserted).2
  · intro entries
    have fresh : table.get? name = none := by
      have nodup := next.nodup
      rw [entries, List.map_cons, List.nodup_cons] at nodup
      cases found : table.get? name with
      | none => rfl
      | some existing =>
        have member := get?_eq_some_iff.mp found
        exact absurd (List.mem_map.mpr ⟨(name, existing), member, rfl⟩) nodup.1
    obtain ⟨other, inserted⟩ := exists_insert_eq_ok fresh address
    rw [inserted]
    congr 1
    exact ext_entries ((entries_of_insert_eq_ok inserted).2.trans entries.symm)

end SymbolTable

private theorem Numeral.readHex_lt {text : String} {value : Nat}
    (read : Numeral.readHex text = .ok value) : value < Address.limit := by
  simp only [Numeral.readHex] at read
  split at read
  · contradiction
  · split at read
    · next valid =>
      cases read
      simp only [Bool.and_eq_true, decide_eq_true_eq] at valid
      exact valid.2
    · contradiction

theorem Statement.startAddress_lt {statement : Statement} {address : Nat}
    (read : statement.startAddress = .ok address) : address < Address.limit := by
  unfold startAddress at read
  split at read
  · cases read
    decide
  · next operand _ =>
    cases value : Numeral.readHex operand.text with
    | error failure => rw [value] at read; contradiction
    | ok number =>
      rw [value] at read
      cases read
      exact Numeral.readHex_lt value

namespace SourceLine

def HaveSizes (lines : List SourceLine) (sizes : List Nat) : Prop :=
  lines.map (fun line => line.statement.size) = sizes.map Except.ok

@[simp] theorem haveSizes_nil_iff {sizes : List Nat} : HaveSizes [] sizes ↔ sizes = [] := by
  simp [HaveSizes, eq_comm]

theorem haveSizes_cons_iff {line : SourceLine} {rest : List SourceLine} {sizes : List Nat} :
    HaveSizes (line :: rest) sizes ↔
      ∃ size others, sizes = size :: others ∧ line.statement.size = .ok size ∧
        HaveSizes rest others := by
  constructor
  · intro sized
    cases sizes with
    | nil => simp [HaveSizes] at sized
    | cons size others =>
      obtain ⟨sizeOk, sizedRest⟩ := List.cons.inj sized
      exact ⟨size, others, rfl, sizeOk, sizedRest⟩
  · rintro ⟨size, others, rfl, sizeOk, sizedRest⟩
    rw [HaveSizes, List.map_cons, List.map_cons, sizeOk, sizedRest]

/-- The sizes of a list are unique. -/
theorem HaveSizes.unique {lines : List SourceLine} {sizes others : List Nat}
    (left : HaveSizes lines sizes) (right : HaveSizes lines others) : sizes = others := by
  exact (List.map_inj_right fun _ _ equal => Except.ok.inj equal).mp (left.symm.trans right)

/-- The labels of lines that stand one behind another from an address on, each with the address
of its line. -/
def labels (address : Nat) : List SourceLine → List Nat → List (String × Nat)
  | line :: rest, size :: sizes =>
    (line.statement.label.map (·, address)).toList ++ labels (address + size) rest sizes
  | _, _ => []

private theorem reverse_labels_singleton (address : Nat) (line : SourceLine) (size : Nat) :
    (labels address [line] [size]).reverse = (line.statement.label.map (·, address)).toList := by
  cases label : line.statement.label <;> simp [labels, label]

/-- A labelled line is listed with the first address plus the sizes in front of it. -/
theorem mem_labels {lines : List SourceLine} {sizes : List Nat} (sized : HaveSizes lines sizes)
    (address : Nat) {position : Nat} {line : SourceLine} {label : String}
    (present : lines[position]? = some line) (labelled : line.statement.label = some label) :
    (label, address + (sizes.take position).sum) ∈ labels address lines sizes := by
  induction lines generalizing sizes address position with
  | nil => simp at present
  | cons first rest ih =>
    obtain ⟨size, others, rfl, _, sizedRest⟩ := haveSizes_cons_iff.mp sized
    cases position with
    | zero =>
      cases present
      simp [labels, labelled]
    | succ position =>
      have later : (label, address + size + (others.take position).sum) ∈
          labels (address + size) rest others :=
        ih sizedRest (address + size) (by simpa using present)
      rw [List.take_succ_cons, List.sum_cons, ← Nat.add_assoc]
      exact List.mem_append_right _ later

/-- No label lies behind the last line. -/
theorem le_of_mem_labels {lines : List SourceLine} {sizes : List Nat} {address target : Nat}
    {label : String} (member : (label, target) ∈ labels address lines sizes) :
    target ≤ address + sizes.sum := by
  induction lines generalizing sizes address with
  | nil => simp [labels] at member
  | cons line rest ih =>
    cases sizes with
    | nil => simp [labels] at member
    | cons size others =>
      rw [List.sum_cons]
      rcases List.mem_append.mp member with here | later
      · rw [Option.mem_toList, Option.map_eq_some_iff] at here
        obtain ⟨name, _, same⟩ := here
        cases same
        omega
      · have := ih later
        omega

end SourceLine

namespace Layout

/-- What placing lines one behind another makes of a layout. -/
structure Run (before : Layout) (lines : List SourceLine) (sizes : List Nat) (after : Layout) :
    Prop where
  sized : SourceLine.HaveSizes lines sizes
  name_eq : after.name = before.name
  start_eq : after.start = before.start
  counter_eq : after.counter = before.counter + sizes.sum
  bounded : after.counter < Address.limit
  entries_eq : after.symbols.entries =
    (SourceLine.labels before.counter lines sizes).reverse ++ before.symbols.entries

private theorem Run.nil_iff {before after : Layout} (below : before.counter < Address.limit) :
    Run before [] [] after ↔ after = before := by
  constructor
  · intro run
    have symbols : after.symbols = before.symbols := by
      apply SymbolTable.ext_entries
      simpa [SourceLine.labels] using run.entries_eq
    have counter : after.counter = before.counter := by simpa using run.counter_eq
    obtain ⟨name, start, _, _⟩ := after
    have nameEq : name = before.name := run.name_eq
    have startEq : start = before.start := run.start_eq
    subst nameEq startEq counter symbols
    rfl
  · rintro rfl
    exact ⟨rfl, rfl, rfl, by simp, below, by simp [SourceLine.labels]⟩

/-- Placing one line and then the others is placing them all. -/
theorem Run.cons {before middle after : Layout} {line : SourceLine} {rest : List SourceLine}
    {size : Nat} {sizes : List Nat} (first : Run before [line] [size] middle)
    (others : Run middle rest sizes after) : Run before (line :: rest) (size :: sizes) after := by
  have counter : middle.counter = before.counter + size := by simpa using first.counter_eq
  refine ⟨?_, others.name_eq.trans first.name_eq, others.start_eq.trans first.start_eq, ?_,
    others.bounded, ?_⟩
  · obtain ⟨measured, _, same, sizeOk, _⟩ := SourceLine.haveSizes_cons_iff.mp first.sized
    cases same
    exact SourceLine.haveSizes_cons_iff.mpr ⟨size, sizes, rfl, sizeOk, others.sized⟩
  · rw [others.counter_eq, counter, List.sum_cons]
    omega
  · rw [others.entries_eq, first.entries_eq, counter]
    simp [SourceLine.labels]

/-- A run over several lines begins with a run over the first one. -/
theorem Run.uncons {before after : Layout} {line : SourceLine} {rest : List SourceLine}
    {sizes : List Nat} (run : Run before (line :: rest) sizes after) :
    ∃ size others middle, sizes = size :: others ∧ Run before [line] [size] middle ∧
      Run middle rest others after := by
  obtain ⟨size, others, rfl, sizeOk, sizedRest⟩ := SourceLine.haveSizes_cons_iff.mp run.sized
  have total : after.counter = before.counter + size + others.sum := by
    rw [run.counter_eq, List.sum_cons]
    omega
  have entries : after.symbols.entries =
      (SourceLine.labels (before.counter + size) rest others).reverse ++
        ((line.statement.label.map (·, before.counter)).toList ++ before.symbols.entries) := by
    rw [run.entries_eq, SourceLine.labels, List.reverse_append, List.append_assoc]
    cases line.statement.label <;> rfl
  -- The table in the middle is a part of the last one, so it repeats no label either.
  have nodup : (((line.statement.label.map (·, before.counter)).toList ++
      before.symbols.entries).map Prod.fst).Nodup := by
    have all := after.symbols.nodup
    rw [entries, List.map_append] at all
    exact (List.nodup_append.mp all).2.1
  refine ⟨size, others,
    { before with counter := before.counter + size, symbols := ⟨_, nodup⟩ }, rfl, ?_, ?_⟩
  · refine ⟨SourceLine.haveSizes_cons_iff.mpr ⟨size, [], rfl, sizeOk, rfl⟩, rfl, rfl, by simp,
      ?_, ?_⟩
    · exact Nat.lt_of_le_of_lt (by simp [total]) run.bounded
    · rw [SourceLine.reverse_labels_singleton]
  · exact ⟨sizedRest, run.name_eq, run.start_eq, total, run.bounded, entries⟩

theorem defineLabel_eq_ok_iff {layout next : Layout} {line : SourceLine} :
    layout.defineLabel line = .ok next ↔
      next.symbols.entries =
          (line.statement.label.map (·, layout.counter)).toList ++ layout.symbols.entries ∧
        next = { layout with symbols := next.symbols } := by
  unfold defineLabel
  cases label : line.statement.label with
  | none =>
    constructor
    · intro defined
      cases defined
      exact ⟨rfl, rfl⟩
    · rintro ⟨entries, same⟩
      have symbols : next.symbols = layout.symbols := SymbolTable.ext_entries entries
      rw [same, symbols]
  | some name =>
    simp only [Option.map_some, Option.toList_some, List.singleton_append]
    constructor
    · intro defined
      split at defined
      · next symbols inserted =>
        cases defined
        exact ⟨SymbolTable.insert_eq_ok_iff.mp inserted, rfl⟩
      · contradiction
    · rintro ⟨entries, same⟩
      rw [SymbolTable.insert_eq_ok_iff.mpr entries, same]

theorem advance_eq_ok_iff {layout next : Layout} {line : SourceLine} :
    layout.advance line = .ok next ↔
      ∃ size, line.statement.size = .ok size ∧ layout.counter + size < Address.limit ∧
        next = { layout with counter := layout.counter + size } := by
  unfold advance
  cases sizeOk : line.statement.size with
  | error fault => simp [halt]
  | ok size =>
    by_cases bound : layout.counter + size < Address.limit
    · simp [bound, eq_comm]
    · simp [bound, halt]

/-- Once its `START` is dealt with, a line is labelled and the counter moves behind it. -/
theorem settle_eq_ok_iff {layout next : Layout} {line : SourceLine} :
    (layout.defineLabel line).bind (·.advance line) = .ok next ↔
      ∃ size, Run layout [line] [size] next := by
  constructor
  · intro settled
    obtain ⟨labelled, defined, advanced⟩ := exists_of_bind_eq_ok settled
    obtain ⟨entries, same⟩ := defineLabel_eq_ok_iff.mp defined
    obtain ⟨size, sizeOk, bound, rfl⟩ := advance_eq_ok_iff.mp advanced
    rw [same] at bound ⊢
    refine ⟨size, SourceLine.haveSizes_cons_iff.mpr ⟨size, [], rfl, sizeOk, rfl⟩, rfl, rfl, by simp,
      bound, ?_⟩
    rw [SourceLine.reverse_labels_singleton]
    exact entries
  · rintro ⟨size, run⟩
    obtain ⟨measured, _, same, sizeOk, _⟩ := SourceLine.haveSizes_cons_iff.mp run.sized
    cases same
    have counter : next.counter = layout.counter + size := by simpa using run.counter_eq
    have defined : layout.defineLabel line = .ok { layout with symbols := next.symbols } := by
      refine defineLabel_eq_ok_iff.mpr ⟨?_, rfl⟩
      rw [run.entries_eq, SourceLine.reverse_labels_singleton]
    rw [defined]
    refine advance_eq_ok_iff.mpr ⟨size, sizeOk, ?_, ?_⟩
    · exact counter ▸ run.bounded
    · obtain ⟨name, start, _, _⟩ := next
      have nameEq : name = layout.name := run.name_eq
      have startEq : start = layout.start := run.start_eq
      subst nameEq startEq counter
      rfl

theorem applyStart_of_ne {layout : Layout} {line : SourceLine}
    (other : line.statement.operation ≠ .directive .start) (first : Bool) :
    layout.applyStart first line = .ok layout := by
  simp [applyStart, other]

theorem applyStart_true_of_eq {layout : Layout} {line : SourceLine} {address : Nat}
    (isStart : line.statement.operation = .directive .start)
    (read : line.statement.startAddress = .ok address) :
    layout.applyStart true line = .ok
      { layout with
        start := address, counter := address, name := line.statement.label.getD "" } := by
  simp [applyStart, isStart, read]

/-- Behind the first statement, a line is placed exactly if it is no `START` and can be settled. -/
theorem place_false_eq_ok_iff {layout next : Layout} {line : SourceLine} :
    layout.place false line = .ok next ↔
      line.statement.operation ≠ .directive .start ∧ ∃ size, Run layout [line] [size] next := by
  by_cases isStart : line.statement.operation = .directive .start
  · simp [place, applyStart, isStart, halt, bind, Except.bind]
  · rw [place, applyStart_of_ne isStart]
    exact settle_eq_ok_iff.trans (by simp [isStart])

/-- Placing lines behind the first one succeeds exactly if there is a run over them. -/
theorem placeAll_eq_ok_iff {layout after : Layout} {lines : List SourceLine}
    (below : layout.counter < Address.limit) :
    layout.placeAll lines = .ok after ↔
      (∀ line ∈ lines, line.statement.operation ≠ .directive .start) ∧
        ∃ sizes, Run layout lines sizes after := by
  induction lines generalizing layout with
  | nil =>
    constructor
    · intro placed
      cases placed
      exact ⟨by simp, [], (Run.nil_iff below).mpr rfl⟩
    · rintro ⟨_, sizes, run⟩
      obtain rfl : sizes = [] := SourceLine.haveSizes_nil_iff.mp run.sized
      rw [(Run.nil_iff below).mp run]
      rfl
  | cons line rest ih =>
    constructor
    · intro placed
      obtain ⟨middle, placedFirst, placedRest⟩ := exists_of_bind_eq_ok placed
      obtain ⟨notStart, size, first⟩ := place_false_eq_ok_iff.mp placedFirst
      obtain ⟨noStart, sizes, others⟩ := (ih first.bounded).mp placedRest
      exact ⟨List.forall_mem_cons.mpr ⟨notStart, noStart⟩, size :: sizes, first.cons others⟩
    · rintro ⟨noStart, sizes, run⟩
      obtain ⟨notStart, noStartRest⟩ := List.forall_mem_cons.mp noStart
      obtain ⟨size, others, middle, rfl, first, runRest⟩ := run.uncons
      rw [placeAll, place_false_eq_ok_iff.mpr ⟨notStart, size, first⟩]
      exact (ih first.bounded).mpr ⟨noStartRest, others, runRest⟩

/-- The layout in front of the first statement, whose `START` has been read already. -/
def Opens (opened : Layout) : List SourceLine → Prop
  | [] => opened = {}
  | first :: _ => applyStart true {} first = .ok opened

theorem Opens.fresh {opened : Layout} {lines : List SourceLine} (opens : opened.Opens lines) :
    opened.counter = opened.start ∧ opened.start < Address.limit ∧ opened.symbols.entries = [] := by
  cases lines with
  | nil =>
    obtain rfl : opened = {} := opens
    exact ⟨rfl, by decide, rfl⟩
  | cons first rest =>
    simp only [Opens, applyStart] at opens
    split at opens
    · simp only [↓reduceIte] at opens
      split at opens
      · next address read =>
        cases opens
        exact ⟨rfl, Statement.startAddress_lt read, rfl⟩
      · contradiction
    · cases opens
      exact ⟨rfl, by decide, rfl⟩

/-- A program can be laid out exactly if `START` stands nowhere but in front and there is a run
over all its statements. -/
theorem ofLines_eq_ok_iff {lines : List SourceLine} {layout : Layout} :
    ofLines lines = .ok layout ↔
      ∃ opened sizes, Opens opened (SourceLine.throughEnd lines) ∧
        (∀ line ∈ (SourceLine.throughEnd lines).tail,
          line.statement.operation ≠ .directive .start) ∧
        Run opened (SourceLine.throughEnd lines) sizes layout := by
  unfold ofLines
  cases SourceLine.throughEnd lines with
  | nil =>
    constructor
    · intro placed
      cases placed
      exact ⟨{}, [], rfl, by simp, (Run.nil_iff (by decide)).mpr rfl⟩
    · rintro ⟨opened, sizes, rfl, _, run⟩
      obtain rfl : sizes = [] := SourceLine.haveSizes_nil_iff.mp run.sized
      rw [(Run.nil_iff (by decide)).mp run]
  | cons first rest =>
    constructor
    · intro placed
      obtain ⟨middle, placedFirst, placedRest⟩ := exists_of_bind_eq_ok placed
      obtain ⟨opened, opens, settled⟩ := exists_of_bind_eq_ok placedFirst
      obtain ⟨size, run⟩ := settle_eq_ok_iff.mp settled
      obtain ⟨noStart, sizes, others⟩ := (placeAll_eq_ok_iff run.bounded).mp placedRest
      exact ⟨opened, size :: sizes, opens, noStart, run.cons others⟩
    · rintro ⟨opened, sizes, opens, noStart, run⟩
      obtain ⟨size, others, middle, rfl, runFirst, runRest⟩ := run.uncons
      have placedFirst : place true {} first = .ok middle := by
        rw [place, show applyStart true {} first = .ok opened from opens]
        exact settle_eq_ok_iff.mpr ⟨size, runFirst⟩
      change (place true {} first).bind (·.placeAll rest) = .ok layout
      rw [placedFirst]
      exact (placeAll_eq_ok_iff runFirst.bounded).mpr ⟨noStart, others, runRest⟩

/-- Everything that the first pass finds follows from the first address and the sizes. -/
theorem sizes_of_ofLines {lines : List SourceLine} {layout : Layout}
    (placed : ofLines lines = .ok layout) :
    ∃ sizes, SourceLine.HaveSizes (SourceLine.throughEnd lines) sizes ∧
      layout.counter = layout.start + sizes.sum ∧ layout.counter < Address.limit ∧
      layout.symbols.entries =
        (SourceLine.labels layout.start (SourceLine.throughEnd lines) sizes).reverse := by
  obtain ⟨opened, sizes, opens, _, run⟩ := ofLines_eq_ok_iff.mp placed
  obtain ⟨counter, _, entries⟩ := opens.fresh
  refine ⟨sizes, run.sized, ?_, run.bounded, ?_⟩
  · rw [run.counter_eq, counter, run.start_eq]
  · rw [run.entries_eq, entries, List.append_nil, counter, run.start_eq]

/-- The table of a layout has each label at the address of its statement. -/
theorem get?_of_ofLines {lines : List SourceLine} {layout : Layout} {sizes : List Nat}
    (placed : ofLines lines = .ok layout)
    (sized : SourceLine.HaveSizes (SourceLine.throughEnd lines) sizes) {position : Nat}
    {line : SourceLine} {label : String}
    (present : (SourceLine.throughEnd lines)[position]? = some line)
    (labelled : line.statement.label = some label) :
    layout.symbols.get? label = some (layout.start + (sizes.take position).sum) := by
  obtain ⟨others, sizedOthers, _, _, entries⟩ := sizes_of_ofLines placed
  obtain rfl := sized.unique sizedOthers
  rw [SymbolTable.get?_eq_some_iff, entries, List.mem_reverse]
  exact SourceLine.mem_labels sized layout.start present labelled

end Layout

end SicAssembler
