import SicAssembler.Proofs.Faults
import SicAssembler.Proofs.ProgramEnd
import SicAssembler.Proofs.TextRecords

/-! # Where an assembly stops

Reading, placing and generating go through a program from top to bottom, and each of them stops at
the first line that it cannot deal with. So an error comes with the lines in front of it, all of
which were dealt with, and with the reason why the next one was not.
-/

namespace SicAssembler

/-- A run of two steps that fails has failed at one of them. -/
theorem cases_of_bind_eq_error {ε α β : Type} {first : Except ε α} {second : α → Except ε β}
    {failure : ε} (run : first >>= second = .error failure) :
    first = .error failure ∨ ∃ middle, first = .ok middle ∧ second middle = .error failure := by
  cases first with
  | error other => exact .inl (congrArg Except.error (Except.error.inj run))
  | ok middle => exact .inr ⟨middle, rfl, run⟩

/-- Wrapping a result up does not fail. -/
theorem eq_error_of_bind_pure {ε α β : Type} {first : Except ε α} {wrap : α → β} {failure : ε}
    (run : (do let value ← first; return wrap value) = .error failure) :
    first = .error failure := by
  rcases cases_of_bind_eq_error run with failed | ⟨_, _, wrapped⟩
  · exact failed
  · cases wrapped

private theorem atLine_eq_error_iff {α : Type} {line : Nat} {result : Except Fault α}
    {diagnostic : Diagnostic} :
    atLine line result = .error diagnostic ↔
      ∃ fault, result = .error fault ∧ diagnostic = .source line fault := by
  cases result <;> simp [eq_comm]

namespace SourceLine

variable {machine : Machine} {number : Nat} {texts : List String} {lines : List SourceLine}

/-- Reading stops at the first text that is no statement, no comment and not blank. -/
theorem exists_of_parseFrom_eq_error {diagnostic : Diagnostic}
    (failed : parseFrom machine number texts = .error diagnostic) :
    ∃ front text back fault, texts = front ++ text :: back ∧
      (∀ earlier ∈ front, ∃ found, Statement.parse machine earlier = .ok found) ∧
      Statement.parse machine text = .error fault ∧
      diagnostic = .source (number + front.length) fault := by
  induction texts generalizing number with
  | nil => contradiction
  | cons text rest ih =>
    rw [parseFrom_cons] at failed
    rcases cases_of_bind_eq_error failed with unread | ⟨found, read, failedRest⟩
    · obtain ⟨fault, stopped, rfl⟩ := atLine_eq_error_iff.mp unread
      exact ⟨[], text, rest, fault, rfl, by simp, stopped, rfl⟩
    · obtain ⟨front, other, back, fault, rfl, readable, stopped, rfl⟩ :=
        ih (eq_error_of_bind_pure failedRest)
      refine ⟨text :: front, other, back, fault, rfl, ?_, stopped, ?_⟩
      · exact List.forall_mem_cons.mpr ⟨⟨found, atLine_eq_ok_iff.mp read⟩, readable⟩
      · rw [List.length_cons, Nat.add_assoc, Nat.add_comm 1]

/-- A program can be read only if each of its texts can. -/
theorem readable_of_parseFrom (parsed : parseFrom machine number texts = .ok lines) :
    ∀ text ∈ texts, ∃ found, Statement.parse machine text = .ok found := by
  induction texts generalizing number lines with
  | nil => simp
  | cons text rest ih =>
    obtain ⟨found, others, read, parsedRest, _⟩ := exists_of_parseFrom_cons parsed
    exact List.forall_mem_cons.mpr ⟨⟨found, read⟩, ih parsedRest⟩

/-- The number of a line tells where its text stands. -/
theorem text_of_mem_parseFrom (parsed : parseFrom machine number texts = .ok lines) :
    ∀ line ∈ lines, number ≤ line.line ∧ ∃ text, texts[line.line - number]? = some text ∧
      Statement.parse machine text = .ok (some line.statement) := by
  induction texts generalizing number lines with
  | nil =>
    cases parsed
    simp
  | cons text rest ih =>
    obtain ⟨found, others, read, parsedRest, rfl⟩ := exists_of_parseFrom_cons parsed
    intro line member
    rcases List.mem_append.mp member with here | later
    · rw [Option.mem_toList, Option.map_eq_some_iff] at here
      obtain ⟨statement, rfl, rfl⟩ := here
      exact ⟨Nat.le_refl _, text, by simp, read⟩
    · obtain ⟨below, other, atLine, readOther⟩ := ih parsedRest line later
      refine ⟨by omega, other, ?_, readOther⟩
      rw [show line.line - number = line.line - (number + 1) + 1 by omega, List.getElem?_cons_succ]
      exact atLine

/-- Lines come in the order of their numbers. -/
theorem pairwise_of_parseFrom (parsed : parseFrom machine number texts = .ok lines) :
    lines.Pairwise fun earlier later => earlier.line < later.line := by
  induction texts generalizing number lines with
  | nil =>
    cases parsed
    exact .nil
  | cons text rest ih =>
    obtain ⟨found, others, _, parsedRest, rfl⟩ := exists_of_parseFrom_cons parsed
    cases found with
    | none => exact ih parsedRest
    | some statement =>
      refine .cons (fun later member => ?_) (ih parsedRest)
      exact (text_of_mem_parseFrom parsedRest later member).1

def above (number : Nat) (lines : List SourceLine) : List SourceLine :=
  lines.filter fun line => line.line < number

/-- In a program in order, the statements above a line are those in front of it. -/
theorem above_eq {front back : List SourceLine} {line : SourceLine}
    (ordered : (front ++ line :: back).Pairwise fun earlier later => earlier.line < later.line) :
    above line.line (front ++ line :: back) = front := by
  obtain ⟨_, orderedBack, inFront⟩ := List.pairwise_append.mp ordered
  have kept : front.filter (fun earlier => decide (earlier.line < line.line)) = front :=
    List.filter_eq_self.mpr fun earlier member => by
      simpa using inFront earlier member line List.mem_cons_self
  have dropped : (line :: back).filter (fun later => decide (later.line < line.line)) = [] := by
    refine List.filter_eq_nil_iff.mpr (List.forall_mem_cons.mpr ⟨by simp, fun later member => ?_⟩)
    have := (List.pairwise_cons.mp orderedBack).1 later member
    simp only [decide_eq_true_eq]
    omega
  rw [above, List.filter_append, kept, dropped, List.append_nil]

/-- Nothing in front of a line of the program proper ends the program. -/
theorem unclosed_of_throughEnd {front back : List SourceLine} {line : SourceLine}
    (cut : throughEnd lines = front ++ line :: back) :
    ∀ earlier ∈ front, earlier.isEnd = false := by
  induction lines generalizing front with
  | nil => simp [throughEnd] at cut
  | cons first rest ih =>
    cases front with
    | nil => simp
    | cons earlier others =>
      rw [throughEnd] at cut
      split at cut
      · have := congrArg List.length cut
        simp at this
      · next notEnd =>
        obtain ⟨rfl, cutRest⟩ := List.cons.inj cut
        exact List.forall_mem_cons.mpr ⟨Bool.eq_false_iff.mpr notEnd, ih cutRest⟩

/-- A line behind lines that do not end the program belongs to it. -/
theorem throughEnd_append_singleton {front : List SourceLine}
    (unclosed : ∀ earlier ∈ front, earlier.isEnd = false) (line : SourceLine) :
    throughEnd (front ++ [line]) = front ++ [line] := by
  rw [throughEnd_append_of_forall unclosed]
  simp [throughEnd]

/-- The fault of a line that is left without room: its size is not known, or it does not end below
the limit. -/
def SizeFault (line : SourceLine) (counter : Nat) (fault : Fault) : Prop :=
  line.statement.size = .error fault ∨
    ∃ size, line.statement.size = .ok size ∧ Address.limit ≤ counter + size ∧
      fault = line.statement.overflow

theorem SizeFault.not_foreign {line : SourceLine} {counter address : Nat} {fault : Fault}
    {kind : Fault → Prop} (noRoom : line.SizeFault counter fault)
    (foreign : Fault.Foreign address kind) : ¬ kind fault := by
  rcases noRoom with failed | ⟨_, _, _, rfl⟩
  · exact Statement.avoids_size foreign fault failed
  · exact foreign.operand _ _

end SourceLine

namespace Layout

variable {layout : Layout} {line : SourceLine} {halt : Halt}

/-- Why a line cannot be placed, with the fault that is reported and the layout that is left. -/
inductive Stops (first : Bool) (layout : Layout) (line : SourceLine) : Fault → Layout → Prop
  /-- `START` stands behind other statements. -/
  | lateStart : first = false → line.statement.operation = .directive .start →
      Stops first layout line (.invalidOpcode Directive.start.mnemonic .startNotFirst) layout
  /-- The operand of `START` is no address. -/
  | badStart {fault : Fault} : first = true → line.statement.operation = .directive .start →
      line.statement.startAddress = .error fault → Stops first layout line fault layout
  /-- The label was defined above. -/
  | duplicate {opened : Layout} {label : String} {existing : Nat} :
      layout.applyStart first line = .ok opened → line.statement.label = some label →
      opened.symbols.get? label = some existing →
      Stops first layout line (.duplicateLabel label opened.counter) opened
  /-- The label is defined, and then there is no room for the statement. -/
  | noRoom {opened labelled : Layout} {fault : Fault} :
      layout.applyStart first line = .ok opened → opened.defineLabel line = .ok labelled →
      line.SizeFault labelled.counter fault → Stops first layout line fault labelled

private theorem stops_of_applyStart {first : Bool}
    (stopped : layout.applyStart first line = .error halt) :
    ∃ fault, halt.diagnostic = .source line.line fault ∧
      Stops first layout line fault halt.layout := by
  unfold applyStart at stopped
  split at stopped
  · next isStart =>
    split at stopped
    · next isFirst =>
      split at stopped
      · contradiction
      · next fault failed =>
        cases stopped
        exact ⟨fault, rfl, .badStart isFirst isStart failed⟩
    · next notFirst =>
      cases stopped
      exact ⟨_, rfl, .lateStart (Bool.eq_false_iff.mpr notFirst) isStart⟩
  · contradiction

private theorem existing_of_defineLabel (stopped : layout.defineLabel line = .error halt) :
    ∃ label existing, line.statement.label = some label ∧
      layout.symbols.get? label = some existing ∧
      halt = ⟨.source line.line (.duplicateLabel label layout.counter), layout⟩ := by
  unfold defineLabel at stopped
  split at stopped
  · contradiction
  · next label labelled =>
    split at stopped
    · contradiction
    · next refused =>
      cases stopped
      cases found : layout.symbols.get? label with
      | some existing => exact ⟨label, existing, labelled, found, rfl⟩
      | none =>
        obtain ⟨next, inserted⟩ := SymbolTable.exists_insert_eq_ok found layout.counter
        rw [inserted] at refused
        contradiction

private theorem sizeFault_of_advance (stopped : layout.advance line = .error halt) :
    ∃ fault, line.SizeFault layout.counter fault ∧
      halt = ⟨.source line.line fault, layout⟩ := by
  unfold advance at stopped
  split at stopped
  · next fault failed =>
    cases stopped
    exact ⟨fault, .inl failed, rfl⟩
  · next size sized =>
    split at stopped
    · contradiction
    · next beyond =>
      cases stopped
      exact ⟨_, .inr ⟨size, sized, Nat.not_lt.mp beyond, rfl⟩, rfl⟩

/-- A line that cannot be placed stops the run for one of four reasons. -/
theorem stops_of_place {first : Bool} (stopped : layout.place first line = .error halt) :
    ∃ fault, halt.diagnostic = .source line.line fault ∧
      Stops first layout line fault halt.layout := by
  rcases cases_of_bind_eq_error stopped with notStarted | ⟨opened, started, afterStart⟩
  · exact stops_of_applyStart notStarted
  · rcases cases_of_bind_eq_error afterStart with undefined | ⟨labelled, defined, afterLabel⟩
    · obtain ⟨label, existing, labelled, known, rfl⟩ := existing_of_defineLabel undefined
      exact ⟨_, rfl, .duplicate started labelled known⟩
    · obtain ⟨fault, noRoom, rfl⟩ := sizeFault_of_advance afterLabel
      exact ⟨fault, rfl, .noRoom started defined noRoom⟩

/-- Every other reason tells of the operand of the line, or of a `START` that comes late. -/
theorem Stops.of_duplicate {first : Bool} {left : Layout} {label : String} {address : Nat}
    (stops : Stops first layout line (.duplicateLabel label address) left) :
    layout.applyStart first line = .ok left ∧ line.statement.label = some label ∧
      ∃ existing, left.symbols.get? label = some existing := by
  have foreign := Fault.foreign_duplicateLabel layout.counter label address
  cases stops with
  | badStart _ _ failed => exact (Statement.avoids_startAddress foreign _ failed rfl).elim
  | duplicate started labelled known => exact ⟨started, labelled, _, known⟩
  | noRoom _ _ noRoom => exact (noRoom.not_foreign foreign rfl).elim

/-- Only the fault of a duplicate label shows an address, the one that the label would have got. -/
theorem Stops.of_address {first : Bool} {left : Layout} {fault : Fault} {shown : Nat}
    (stops : Stops first layout line fault left) (shows : fault.address? = some shown) :
    layout.applyStart first line = .ok left ∧ shown = left.counter := by
  have nowhere (none : fault.address? = none) : False := by
    rw [none] at shows
    contradiction
  cases stops with
  | lateStart _ _ => contradiction
  | badStart _ _ failed =>
    refine (nowhere (Fault.address?_eq_none fun address => ?_)).elim
    exact Statement.avoids_startAddress (Fault.foreign_pointsElsewhere address) _ failed
  | duplicate started _ _ => exact ⟨started, (Option.some.inj shows).symm⟩
  | noRoom _ _ noRoom =>
    refine (nowhere (Fault.address?_eq_none fun address => ?_)).elim
    exact noRoom.not_foreign (Fault.foreign_pointsElsewhere address)

/-- Placing stops at the first line that cannot be placed. -/
theorem placeAll_eq_error_iff {lines : List SourceLine} :
    layout.placeAll lines = .error halt ↔
      ∃ front line back reached, lines = front ++ line :: back ∧
        layout.placeAll front = .ok reached ∧ reached.place false line = .error halt := by
  constructor
  · intro failed
    induction lines generalizing layout with
    | nil => contradiction
    | cons line rest ih =>
      rcases cases_of_bind_eq_error failed with stopped | ⟨next, placed, failedRest⟩
      · exact ⟨[], line, rest, layout, rfl, rfl, stopped⟩
      · obtain ⟨front, other, back, reached, rfl, placedFront, stopped⟩ := ih failedRest
        refine ⟨line :: front, other, back, reached, rfl, ?_, stopped⟩
        simp only [placeAll, bind, Except.bind, placed, placedFront]
  · rintro ⟨front, line, back, reached, rfl, placed, stopped⟩
    rw [placeAll_append, placed]
    simp only [Except.bind, placeAll, stopped, bind]

/-- A program cannot be laid out exactly if it has a first statement that cannot be placed behind
the layout of those in front of it. -/
theorem ofLines_eq_error_iff {lines : List SourceLine} :
    ofLines lines = .error halt ↔
      ∃ front line back reached, SourceLine.throughEnd lines = front ++ line :: back ∧
        ofLines front = .ok reached ∧ reached.place front.isEmpty line = .error halt := by
  have inFront {first : SourceLine} {rest : List SourceLine}
      (unclosed : ∀ line ∈ first :: rest, line.isEnd = false) :
      ofLines (first :: rest) = (place true {} first).bind (·.placeAll rest) := by
    rw [ofLines, SourceLine.throughEnd_of_forall unclosed]
    rfl
  constructor
  · intro failed
    unfold ofLines at failed
    cases cut : SourceLine.throughEnd lines with
    | nil =>
      rw [cut] at failed
      contradiction
    | cons first rest =>
      simp only [cut] at failed
      rcases cases_of_bind_eq_error failed with stopped | ⟨next, placed, failedRest⟩
      · exact ⟨[], first, rest, {}, rfl, rfl, stopped⟩
      · obtain ⟨front, line, back, reached, rfl, placedFront, stopped⟩ :=
          placeAll_eq_error_iff.mp failedRest
        refine ⟨first :: front, line, back, reached, rfl, ?_, stopped⟩
        rw [inFront (SourceLine.unclosed_of_throughEnd cut), placed]
        exact placedFront
  · rintro ⟨front, line, back, reached, cut, placed, stopped⟩
    rw [ofLines, cut]
    cases front with
    | nil =>
      cases placed
      change (place true {} line).bind _ = _
      rw [show place true {} line = .error halt from stopped]
      rfl
    | cons first rest =>
      rw [inFront (SourceLine.unclosed_of_throughEnd cut)] at placed
      obtain ⟨next, placedFirst, placedRest⟩ := exists_of_bind_eq_ok placed
      change (place true {} first).bind (·.placeAll (rest ++ line :: back)) = _
      rw [placedFirst]
      exact placeAll_eq_error_iff.mpr ⟨rest, line, back, reached, rfl, placedRest, stopped⟩

/-- A layout behind some lines, all of which are placed. -/
structure Reached (front : List SourceLine) (sizes : List Nat) (layout : Layout) : Prop where
  sized : SourceLine.HaveSizes front sizes
  counter_eq : layout.counter = layout.start + sizes.sum
  bounded : layout.counter < Address.limit
  /-- The table has exactly the labels of the lines, each with the address of its line. -/
  get?_iff : ∀ name address, layout.symbols.get? name = some address ↔
    ∃ (position : Nat) (line : SourceLine), front[position]? = some line ∧
      line.statement.label = some name ∧ address = layout.start + (sizes.take position).sum

theorem reached_of_ofLines {front : List SourceLine}
    (unclosed : ∀ line ∈ front, line.isEnd = false) (placed : ofLines front = .ok layout) :
    ∃ sizes, Reached front sizes layout := by
  obtain ⟨sizes, sized, counter, bounded, entries⟩ := sizes_of_ofLines placed
  rw [SourceLine.throughEnd_of_forall unclosed] at sized entries
  refine ⟨sizes, sized, counter, bounded, fun name address => ?_⟩
  rw [SymbolTable.get?_eq_some_iff, entries, List.mem_reverse, SourceLine.mem_labels_iff sized]

/-- `START` changes only what nothing was placed in. -/
theorem Reached.applyStart {front : List SourceLine} {sizes : List Nat} {opened : Layout}
    (reached : Reached front sizes layout)
    (started : layout.applyStart front.isEmpty line = .ok opened) :
    Reached front sizes opened := by
  unfold Layout.applyStart at started
  split at started
  · split at started
    · next isFirst =>
      obtain rfl := List.isEmpty_iff.mp isFirst
      split at started
      · next address read =>
        cases started
        obtain rfl : sizes = [] := SourceLine.haveSizes_nil_iff.mp reached.sized
        refine ⟨reached.sized, rfl, Statement.startAddress_lt read, fun name place => ?_⟩
        simpa using reached.get?_iff name place
      · contradiction
    · contradiction
  · cases started
    exact reached

/-- The address of a program is read off its first statement. -/
theorem startsAt_of_ofLines {first : SourceLine} {rest : List SourceLine}
    (unclosed : ∀ line ∈ first :: rest, line.isEnd = false)
    (placed : ofLines (first :: rest) = .ok layout) (others : List SourceLine) :
    SourceLine.StartsAt layout.start (first :: others) := by
  obtain ⟨_, placeable, _⟩ := placeable_of_ofLines placed
  have startsAt := placeable.startsAt
  rw [SourceLine.throughEnd_of_forall unclosed] at startsAt
  exact startsAt

theorem startsAt_of_applyStart {front back : List SourceLine} {opened : Layout}
    (unclosed : ∀ earlier ∈ front, earlier.isEnd = false) (placed : ofLines front = .ok layout)
    (started : layout.applyStart front.isEmpty line = .ok opened) :
    SourceLine.StartsAt opened.start (front ++ line :: back) := by
  cases front with
  | nil =>
    cases placed
    have opens : opened.Opens (line :: back) := started
    obtain ⟨start, startsAt, rfl⟩ := opens_iff.mp opens
    exact startsAt
  | cons first rest =>
    obtain rfl : opened = layout := by
      unfold applyStart at started
      split at started
      · contradiction
      · exact (Except.ok.inj started).symm
    exact startsAt_of_ofLines unclosed placed (rest ++ line :: back)

/-- A program that cannot be laid out, and the line where placing stops: the lines in front of it
are placed, and it is refused for a reason. -/
structure Stopped (source front : List SourceLine) (line : SourceLine) (fault : Fault)
    (reached : Layout) (halt : Halt) : Prop where
  cut : ∃ back, SourceLine.throughEnd source = front ++ line :: back
  placed : ofLines front = .ok reached
  refused : reached.place front.isEmpty line = .error halt
  reported : halt.diagnostic = .source line.line fault
  stops : Stops front.isEmpty reached line fault halt.layout

theorem exists_stopped {source : List SourceLine} (failed : ofLines source = .error halt) :
    ∃ front line fault reached, Stopped source front line fault reached halt := by
  obtain ⟨front, line, back, reached, cut, placed, refused⟩ := ofLines_eq_error_iff.mp failed
  obtain ⟨fault, reported, stops⟩ := stops_of_place refused
  exact ⟨front, line, fault, reached, ⟨back, cut⟩, placed, refused, reported, stops⟩

namespace Stopped

variable {source front : List SourceLine} {fault : Fault} {reached : Layout}

theorem unclosed (stopped : Stopped source front line fault reached halt) :
    ∀ earlier ∈ front, earlier.isEnd = false := by
  obtain ⟨back, cut⟩ := stopped.cut
  exact SourceLine.unclosed_of_throughEnd cut

/-- The program stops at the same line if nothing stands behind it. -/
theorem ofLines_append_singleton (stopped : Stopped source front line fault reached halt) :
    ofLines (front ++ [line]) = .error halt :=
  ofLines_eq_error_iff.mpr ⟨front, line, [], reached,
    SourceLine.throughEnd_append_singleton stopped.unclosed line, stopped.placed, stopped.refused⟩

end Stopped

end Layout

namespace ObjectLine

variable {machine : Machine} {symbols : SymbolTable} {site : Site} {diagnostic : Diagnostic}

/-- Generating stops at the first line whose code cannot be generated. -/
theorem generateFrom_eq_error_iff {sources : List SourceLine} :
    generateFrom machine symbols site sources = .error diagnostic ↔
      ∃ lines source back sizes here fault,
        sources = lines.map ObjectLine.source ++ source :: back ∧
        Trail machine symbols site lines sizes here ∧
        generate machine symbols here source = .error fault ∧
        diagnostic = .source source.line fault := by
  constructor
  · intro failed
    induction sources generalizing site with
    | nil => contradiction
    | cons source rest ih =>
      simp only [generateFrom] at failed
      cases generated : generate machine symbols site source with
      | error fault =>
        rw [generated] at failed
        cases failed
        exact ⟨[], source, rest, [], site, fault, rfl, .nil site, generated, rfl⟩
      | ok made =>
        obtain ⟨line, next⟩ := made
        rw [generated] at failed
        cases generatedRest : generateFrom machine symbols next rest with
        | ok others => simp [generatedRest] at failed
        | error later =>
          simp only [generatedRest] at failed
          cases failed
          obtain ⟨lines, other, back, sizes, here, fault, rfl, trail, stopped, rfl⟩ :=
            ih generatedRest
          obtain ⟨rfl, size, madeHere⟩ := generate_eq_ok_iff.mp generated
          exact ⟨line :: lines, other, back, size :: sizes, here, fault, rfl, .cons madeHere trail,
            stopped, rfl⟩
  · rintro ⟨lines, source, back, sizes, here, fault, rfl, trail, stopped, rfl⟩
    induction trail with
    | nil site => simp [generateFrom, stopped]
    | cons made _ ih =>
      simp only [List.map_cons, List.cons_append, generateFrom]
      rw [generate_eq_ok_iff.mpr ⟨rfl, _, made⟩]
      simp only [ih stopped]

/-- Every front part of a trail is a trail. -/
theorem Trail.of_append {front back : List ObjectLine} {sizes : List Nat} {final : Site}
    (trail : Trail machine symbols site (front ++ back) sizes final) :
    ∃ first here, Trail machine symbols site front first here := by
  induction front generalizing site sizes with
  | nil => exact ⟨[], site, .nil site⟩
  | cons line rest ih =>
    cases trail with
    | cons made tail =>
      obtain ⟨first, here, others⟩ := ih tail
      exact ⟨_ :: first, here, .cons made others⟩

end ObjectLine

namespace Piece

private theorem eq_addressRange_of_place {gap : Bool} {address : Nat} {parts : List (List UInt8)}
    {fault : Fault} (failed : place gap address parts = .error fault) : fault = .addressRange := by
  induction parts generalizing gap address with
  | nil => contradiction
  | cons part rest ih =>
    rcases cases_of_bind_eq_error failed with beyond | ⟨next, _, failedRest⟩
    · unfold Address.add at beyond
      split at beyond
      · contradiction
      · exact (Except.error.inj beyond).symm
    · exact ih (eq_error_of_bind_pure failedRest)

/-- Cutting stops at the first line whose code reaches beyond the limit. -/
theorem ofLines_eq_error {gap : Bool} {lines : List ObjectLine} {diagnostic : Diagnostic}
    (failed : ofLines gap lines = .error diagnostic) :
    ∃ front line back, lines = front ++ line :: back ∧
      diagnostic = .source line.source.line .addressRange ∧
      ofLines gap (front ++ [line]) = .error diagnostic := by
  induction lines generalizing gap with
  | nil => contradiction
  | cons line rest ih =>
    rcases cases_of_bind_eq_error failed with beyond | ⟨front, placed, failedRest⟩
    · obtain ⟨fault, stopped, rfl⟩ := atLine_eq_error_iff.mp beyond
      obtain rfl := eq_addressRange_of_place stopped
      refine ⟨[], line, rest, rfl, rfl, ?_⟩
      simp only [List.nil_append, ofLines, bind, Except.bind, beyond]
    · obtain ⟨others, other, back, rfl, rfl, cutAgain⟩ := ih (eq_error_of_bind_pure failedRest)
      refine ⟨line :: others, other, back, rfl, rfl, ?_⟩
      simp only [List.cons_append, ofLines, bind, Except.bind, placed, cutAgain]

end Piece

/-- An assembly fails because its lines cannot be read, because they cannot be laid out, or because
code cannot be generated from the layout. -/
theorem Assembler.assemble_eq_error_cases {state after : Assembler} {texts : List String}
    {diagnostic : Diagnostic} (failed : state.assemble texts = (.error diagnostic, after)) :
    (SourceLine.parseAll state.machine texts = .error diagnostic ∧ after = state.reset) ∨
    ∃ source, SourceLine.parseAll state.machine texts = .ok source ∧
      ((∃ halt, Layout.ofLines source = .error halt ∧ diagnostic = halt.diagnostic ∧
          after = state.reset.adopt halt.layout) ∨
        (state.reset.firstPass source = (.ok (), after) ∧
          after.generate source = .error diagnostic)) := by
  unfold assemble at failed
  split at failed
  · next other unreadable =>
    cases failed
    exact .inl ⟨unreadable, rfl⟩
  · next source parsed =>
    refine .inr ⟨source, parsed, ?_⟩
    cases placed : Layout.ofLines source with
    | error halt =>
      simp only [runPasses, firstPass, placed] at failed
      cases failed
      exact .inl ⟨halt, rfl, rfl, rfl⟩
    | ok layout =>
      refine .inr ?_
      have passed := state.reset.firstPass_eq source
      simp only [placed] at passed
      simp only [runPasses, passed, secondPass] at failed
      split at failed
      · next other generated =>
        cases failed
        exact ⟨passed, generated⟩
      · cases failed

end SicAssembler
