import Mathlib.Data.List.Pairwise
import SicAssembler.Proofs.Assembly
import SicAssembler.Proofs.InertLines
import SicAssembler.Proofs.Stopping

/-! # The error of a failed assembly

An assembly reports one error. Lines that cannot be read come before everything else, wherever they
stand; then the first pass is asked, and then the second. In each of the three the error belongs to
the first line at which it can arise, so the program above that line is in order as far as this
pass is concerned. An address in the error is the address of the statement on that line.
-/

namespace SicAssembler

/-- A line that cannot be ignored: it holds a statement, or it is at fault. -/
theorem Text.not_isInert_of_parse {machine : Machine} {text : String}
    (visible : Statement.parse machine text ≠ .ok none) : ¬ Text.IsInert text :=
  fun inert => visible (Statement.parse_of_isInert machine inert)

namespace SourceLine

/-- A line of the program proper and the text that it was read from. -/
structure Located (machine : Machine) (texts : List String) (source : List SourceLine)
    (line : SourceLine) (text : String) : Prop where
  member : line ∈ throughEnd source
  positive : 0 < line.line
  text_at : texts[line.line - 1]? = some text
  read : Statement.parse machine text = .ok (some line.statement)

namespace Located

variable {machine : Machine} {texts : List String} {source : List SourceLine} {line : SourceLine}
  {text : String}

private theorem le_length (located : Located machine texts source line text) :
    line.line ≤ texts.length := by
  obtain ⟨bound, _⟩ := List.getElem?_eq_some_iff.mp located.text_at
  have := located.positive
  omega

private theorem not_isInert (located : Located machine texts source line text) :
    ¬ Text.IsInert text := by
  apply Text.not_isInert_of_parse
  intro read
  cases located.read.symm.trans read

end Located

theorem exists_located {machine : Machine} {texts : List String}
    {source front back : List SourceLine} {line : SourceLine}
    (parsed : parseAll machine texts = .ok source)
    (cut : throughEnd source = front ++ line :: back) :
    above line.line source = front ∧ ∃ text, Located machine texts source line text := by
  obtain ⟨rest, whole⟩ := isPrefix_throughEnd source
  have member : line ∈ throughEnd source := by simp [cut]
  obtain ⟨positive, text, atLine, read⟩ :=
    text_of_mem_parseFrom parsed line ((isPrefix_throughEnd source).subset member)
  refine ⟨?_, text, member, positive, atLine, read⟩
  rw [cut, List.append_assoc, List.cons_append] at whole
  rw [← whole]
  apply above_eq
  rw [whole]
  exact pairwise_of_parseFrom parsed

theorem startsAt_throughEnd_iff {start : Nat} {source : List SourceLine} :
    StartsAt start (throughEnd source) ↔ StartsAt start source := by
  cases source with
  | nil => exact Iff.rfl
  | cons first rest =>
    rw [throughEnd]
    split <;> exact Iff.rfl

/-- The address of what stands on a line, in a program that begins at an address: the sizes of all
statements above the line are added to it. -/
def AddressOf (start : Nat) (source : List SourceLine) (number address : Nat) : Prop :=
  StartsAt start source ∧
    ∃ sizes, HaveSizes (above number source) sizes ∧ address = start + sizes.sum

/-- A line whose label is defined on one line above it, and above which no label is repeated. -/
structure RepeatsLabel (source : List SourceLine) (line : SourceLine) (label : String) : Prop where
  defines : line.statement.label = some label
  once : ∃! earlier, earlier ∈ above line.line source ∧ earlier.statement.label = some label
  distinct : ((above line.line source).filterMap fun earlier => earlier.statement.label).Nodup

/-- Where no label is repeated, a label belongs to one line. -/
theorem eq_of_label {lines : List SourceLine} {left right : SourceLine} {label : String}
    (distinct : (lines.filterMap fun line => line.statement.label).Nodup) (left_mem : left ∈ lines)
    (right_mem : right ∈ lines) (ofLeft : left.statement.label = some label)
    (ofRight : right.statement.label = some label) : left = right := by
  have apart := List.pairwise_filterMap.mp distinct
  have : Std.Symm fun left right : SourceLine => ∀ name, left.statement.label = some name →
      ∀ other, right.statement.label = some other → name ≠ other :=
    ⟨fun _ _ unequal name ofLeft other ofRight => (unequal other ofRight name ofLeft).symm⟩
  by_contra different
  exact apart.forall left_mem right_mem different label ofLeft label ofRight rfl

end SourceLine

namespace Assembler

/-- The first pass accepts the statements above a line, and with the statement of the line it
fails. -/
structure StopsFirstPass (state : Assembler) (source : List SourceLine) (line : SourceLine)
    (fault : Fault) : Prop where
  accepted : (state.firstPass (SourceLine.above line.line source)).1 = .ok ()
  refused : (state.firstPass (SourceLine.above line.line source ++ [line])).1 =
    .error (.source line.line fault)

/-- Code is generated for all statements above a line, and with the statement of the line the second
pass fails. -/
structure StopsSecondPass (state : Assembler) (source : List SourceLine) (line : SourceLine)
    (fault : Fault) : Prop where
  generated : ∃ lines, ObjectLine.generateAll state.machine state.symbols state.start
    (SourceLine.above line.line source) = .ok lines
  refused : state.generate (SourceLine.above line.line source ++ [line]) =
    .error (.source line.line fault)

/-- The first pass stops where the layout stops. -/
theorem stopsFirstPass (state : Assembler) {source front : List SourceLine} {line : SourceLine}
    {fault : Fault} {reached : Layout} {halt : Layout.Halt}
    (stopped : Layout.Stopped source front line fault reached halt)
    (inFront : SourceLine.above line.line source = front) :
    state.StopsFirstPass source line fault := by
  constructor
  · rw [inFront, firstPass_eq, stopped.placed]
  · rw [inFront, firstPass_eq, stopped.ofLines_append_singleton, ← stopped.reported]

/-- A duplicate label stands in the layout of the lines in front, whose labels are distinct. -/
theorem repeatsLabel_of_stopped {source front : List SourceLine} {line : SourceLine}
    {label : String} {address : Nat} {reached : Layout} {halt : Layout.Halt}
    (stopped : Layout.Stopped source front line (.duplicateLabel label address) reached halt)
    (inFront : SourceLine.above line.line source = front) :
    line.RepeatsLabel source label := by
  obtain ⟨started, labelled, existing, known⟩ := stopped.stops.of_duplicate
  obtain ⟨sizes, behind⟩ := Layout.reached_of_ofLines stopped.unclosed stopped.placed
  obtain ⟨position, earlier, present, defines, _⟩ :=
    ((behind.applyStart started).get?_iff label existing).mp known
  obtain ⟨_, placeable, _⟩ := Layout.placeable_of_ofLines stopped.placed
  have distinct := placeable.labels_nodup
  rw [SourceLine.throughEnd_of_forall stopped.unclosed, ← inFront] at distinct
  rw [← inFront] at present
  have member := List.mem_of_getElem? present
  refine ⟨labelled, ⟨earlier, ⟨member, defines⟩, ?_⟩, distinct⟩
  rintro other ⟨otherMember, definesToo⟩
  exact SourceLine.eq_of_label distinct otherMember member definesToo defines

/-- An address in the fault of the first pass is the address of the line. -/
theorem addressOf_of_stopped {source front : List SourceLine} {line : SourceLine} {fault : Fault}
    {reached : Layout} {halt : Layout.Halt} {address : Nat}
    (stopped : Layout.Stopped source front line fault reached halt)
    (inFront : SourceLine.above line.line source = front)
    (shows : fault.address? = some address) :
    SourceLine.AddressOf halt.layout.start source line.line address := by
  obtain ⟨started, rfl⟩ := stopped.stops.of_address shows
  obtain ⟨back, cut⟩ := stopped.cut
  obtain ⟨sizes, behind⟩ := Layout.reached_of_ofLines stopped.unclosed stopped.placed
  have opened := behind.applyStart started
  refine ⟨?_, sizes, inFront ▸ opened.sized, opened.counter_eq⟩
  rw [← SourceLine.startsAt_throughEnd_iff, cut]
  exact Layout.startsAt_of_applyStart stopped.unclosed stopped.placed started

/-- Generating stops at one line: its code cannot be generated, or the code does not fit below the
limit. -/
theorem exists_of_generate_eq_error {state : Assembler} {source : List SourceLine}
    {diagnostic : Diagnostic} (failed : state.generate source = .error diagnostic) :
    ∃ lines line back sizes here fault,
      SourceLine.throughEnd source = lines.map ObjectLine.source ++ line :: back ∧
      diagnostic = .source line.line fault ∧
      ObjectLine.Trail state.machine state.symbols state.origin lines sizes here ∧
      state.generate (lines.map ObjectLine.source ++ [line]) = .error diagnostic ∧
      (ObjectLine.generate state.machine state.symbols here line = .error fault ∨
        fault = .addressRange) := by
  rcases cases_of_bind_eq_error failed with stopped | ⟨lines, generated, afterLines⟩
  · obtain ⟨lines, line, back, sizes, here, fault, cut, trail, refused, rfl⟩ :=
      ObjectLine.generateFrom_eq_error_iff.mp stopped
    refine ⟨lines, line, back, sizes, here, fault, cut, rfl, trail, ?_, .inl refused⟩
    have stoppedToo : ObjectLine.generateAll state.machine state.symbols state.start
        (lines.map ObjectLine.source ++ [line]) = .error (.source line.line fault) := by
      rw [ObjectLine.generateAll,
        SourceLine.throughEnd_append_singleton (SourceLine.unclosed_of_throughEnd cut)]
      exact ObjectLine.generateFrom_eq_error_iff.mpr
        ⟨lines, line, [], sizes, here, fault, rfl, trail, refused, rfl⟩
    simp only [generate, stoppedToo, bind, Except.bind]
  · obtain ⟨front, line, back, rfl, rfl, refused⟩ :=
      Piece.ofLines_eq_error (eq_error_of_bind_pure (eq_error_of_bind_pure afterLines))
    obtain ⟨sources, sizes, final, trail⟩ := ObjectLine.generateFrom_eq_ok_iff.mp generated
    rw [List.map_append, List.map_cons] at sources
    obtain ⟨first, here, inFront⟩ := trail.of_append
    refine ⟨front, line.source, back.map ObjectLine.source, first, here, .addressRange,
      sources.symm, rfl, inFront, ?_, .inr rfl⟩
    rw [List.append_cons] at trail
    obtain ⟨others, following, throughLine⟩ := trail.of_append
    have generatedToo : ObjectLine.generateAll state.machine state.symbols state.start
        (front.map ObjectLine.source ++ [line.source]) = .ok (front ++ [line]) := by
      rw [ObjectLine.generateAll,
        SourceLine.throughEnd_append_singleton (SourceLine.unclosed_of_throughEnd sources.symm)]
      exact ObjectLine.generateFrom_eq_ok_iff.mpr ⟨by simp, others, following, throughLine⟩
    simp only [generate, generatedToo, ObjectProgram.ofLines, refused, bind, Except.bind]

/-- Where a trail ends, the first pass has left room for the next line. -/
theorem exists_room {state after : Assembler} {source back : List SourceLine} {line : SourceLine}
    {lines : List ObjectLine} {sizes : List Nat} {here : Site}
    (passed : state.firstPass source = (.ok (), after))
    (cut : SourceLine.throughEnd source = lines.map ObjectLine.source ++ line :: back)
    (trail : ObjectLine.Trail after.machine after.symbols after.origin lines sizes here) :
    here.address = after.start + sizes.sum ∧
      ∃ size, line.statement.size = .ok size ∧ here.address + size < Address.limit := by
  have place : here.address = after.start + sizes.sum := trail.final_address
  obtain ⟨placed, _, _⟩ := firstPass_eq_ok_iff.mp passed
  obtain ⟨all, sized, total, bounded, _⟩ := Layout.sizes_of_ofLines placed
  rw [cut, SourceLine.haveSizes_append_iff] at sized
  obtain ⟨first, second, rfl, sizedFront, sizedBack⟩ := sized
  obtain ⟨size, others, rfl, sizedLine, _⟩ := SourceLine.haveSizes_cons_iff.mp sizedBack
  obtain rfl := trail.haveSizes.unique sizedFront
  refine ⟨place, size, sizedLine, ?_⟩
  rw [List.sum_append, List.sum_cons] at total
  dsimp only at total bounded
  omega

/-- The second pass stops at one line. Its fault is not a duplicate label, and an address in it is
the address of that line. -/
theorem exists_stopsSecondPass {state after : Assembler} {texts : List String}
    {source : List SourceLine} {diagnostic : Diagnostic}
    (parsed : SourceLine.parseAll state.machine texts = .ok source)
    (passed : state.reset.firstPass source = (.ok (), after))
    (failed : after.generate source = .error diagnostic) :
    ∃ line text fault, diagnostic = .source line.line fault ∧
      SourceLine.Located state.machine texts source line text ∧
      after.StopsSecondPass source line fault ∧
      (∀ label address, fault ≠ .duplicateLabel label address) ∧
      ∀ address, fault.address? = some address →
        SourceLine.AddressOf after.start source line.line address := by
  obtain ⟨lines, line, back, sizes, here, fault, cut, rfl, trail, refused, reason⟩ :=
    exists_of_generate_eq_error failed
  obtain ⟨inFront, text, located⟩ := SourceLine.exists_located parsed cut
  obtain ⟨place, size, sized, room⟩ := exists_room passed cut trail
  have generated : ObjectLine.generateAll after.machine after.symbols after.start
      (lines.map ObjectLine.source) = .ok lines := by
    rw [ObjectLine.generateAll,
      SourceLine.throughEnd_of_forall (SourceLine.unclosed_of_throughEnd cut)]
    exact ObjectLine.generateFrom_eq_ok_iff.mpr ⟨rfl, sizes, here, trail⟩
  have native {kind : Fault → Prop} (foreign : Fault.Foreign here.address kind)
      (other : ¬ kind .addressRange) : ¬ kind fault := by
    rcases reason with atLine | rfl
    · exact ObjectLine.avoids_generate foreign sized room fault atLine
    · exact other
  refine ⟨line, text, fault, rfl, located, ⟨⟨lines, inFront ▸ generated⟩, inFront ▸ refused⟩,
    fun label address => ?_, fun address shows => ?_⟩
  · apply native (Fault.foreign_duplicateLabel here.address label address)
    intro same
    contradiction
  · obtain ⟨_, placeable, _⟩ := Layout.placeable_of_ofLines (firstPass_eq_ok_iff.mp passed).1
    have startsAt := SourceLine.startsAt_throughEnd_iff.mp placeable.startsAt
    refine ⟨startsAt, sizes, inFront ▸ trail.haveSizes, ?_⟩
    rw [← place]
    refine Fault.address_eq (native (Fault.foreign_pointsElsewhere here.address) ?_) shows
    rintro ⟨shown, absent, _⟩
    contradiction

/-- An assembly whose lines can be read stops in one of the passes. -/
theorem exists_stop {state after : Assembler} {texts : List String} {source : List SourceLine}
    {diagnostic : Diagnostic} (parsed : SourceLine.parseAll state.machine texts = .ok source)
    (failed : state.assemble texts = (.error diagnostic, after)) :
    ∃ line text fault, diagnostic = .source line.line fault ∧
      SourceLine.Located state.machine texts source line text ∧
      ((state.reset.firstPass source).1 ≠ .ok () → state.reset.StopsFirstPass source line fault) ∧
      ((state.reset.firstPass source).1 = .ok () → after.StopsSecondPass source line fault) ∧
      (∀ label address, fault = .duplicateLabel label address → line.RepeatsLabel source label) ∧
      ∀ address, fault.address? = some address →
        SourceLine.AddressOf after.start source line.line address := by
  rcases assemble_eq_error_cases failed with ⟨unread, _⟩ | ⟨other, parsedToo, stopped⟩
  · rw [parsed] at unread
    contradiction
  · obtain rfl : source = other := Except.ok.inj (parsed.symm.trans parsedToo)
    rcases stopped with ⟨halt, unplaced, rfl, rfl⟩ | ⟨passed, ungenerated⟩
    · obtain ⟨front, line, fault, reached, stopped⟩ := Layout.exists_stopped unplaced
      obtain ⟨back, cut⟩ := stopped.cut
      obtain ⟨inFront, text, located⟩ := SourceLine.exists_located parsed cut
      refine ⟨line, text, fault, stopped.reported, located,
        fun _ => stopsFirstPass _ stopped inFront, fun passed => ?_, ?_,
        fun address shows => addressOf_of_stopped stopped inFront shows⟩
      · rw [firstPass_eq, unplaced] at passed
        contradiction
      · rintro label address rfl
        exact repeatsLabel_of_stopped stopped inFront
    · obtain ⟨line, text, fault, reported, located, stops, other, addresses⟩ :=
        exists_stopsSecondPass parsed passed ungenerated
      refine ⟨line, text, fault, reported, located, fun notPassed => ?_, fun _ => stops,
        fun label address same => absurd same (other label address), addresses⟩
      exact absurd (congrArg Prod.fst passed) notPassed

/-- A failed assembly reports its first error at the right place. The error names a line of the
program that is neither blank nor a comment. If some line cannot be read, also one behind `END`, the
error is that of the first such line. Otherwise the line holds a statement of the program proper. If
the first pass fails, it accepts all that stands above this statement and refuses it with this
fault; if the second pass fails, code is generated for all that stands above. A duplicate label is
defined on the line and on exactly one line above it, and no label is repeated above. An
address in the error is the address of `START` plus the sizes of all statements above the line. -/
theorem first_error_is_reported {state after : Assembler} {texts : List String}
    {diagnostic : Diagnostic} (failed : state.assemble texts = (.error diagnostic, after)) :
    ∃ number fault text, diagnostic = .source number fault ∧
      0 < number ∧ number ≤ texts.length ∧ texts[number - 1]? = some text ∧
      ¬ Text.IsInert text ∧
      ((∃ other ∈ texts, ∃ rejected, Statement.parse state.machine other = .error rejected) →
        Statement.parse state.machine text = .error fault ∧
        ∀ earlier ∈ texts.take (number - 1), ∃ found,
          Statement.parse state.machine earlier = .ok found) ∧
      ((∀ other ∈ texts, ∃ found, Statement.parse state.machine other = .ok found) →
        ∃ source line, SourceLine.parseAll state.machine texts = .ok source ∧
          line ∈ SourceLine.throughEnd source ∧ line.line = number ∧
          Statement.parse state.machine text = .ok (some line.statement) ∧
          ((state.reset.firstPass source).1 ≠ .ok () →
            state.reset.StopsFirstPass source line fault) ∧
          ((state.reset.firstPass source).1 = .ok () → after.StopsSecondPass source line fault)) ∧
      (∀ label address, fault = .duplicateLabel label address →
        ∃ source line, SourceLine.parseAll state.machine texts = .ok source ∧
          line ∈ SourceLine.throughEnd source ∧ line.line = number ∧
          line.RepeatsLabel source label) ∧
      ∀ address, fault.address? = some address →
        ∃ source, SourceLine.parseAll state.machine texts = .ok source ∧
          SourceLine.AddressOf after.start source number address := by
  cases parsed : SourceLine.parseAll state.machine texts with
  | error unread =>
    obtain rfl : unread = diagnostic := by
      rw [assemble, parsed] at failed
      exact Except.error.inj (congrArg Prod.fst failed)
    obtain ⟨front, text, back, fault, rfl, readable, stopped, rfl⟩ :=
      SourceLine.exists_of_parseFrom_eq_error parsed
    have before : 1 + front.length - 1 = front.length := Nat.add_sub_cancel_left ..
    refine ⟨1 + front.length, fault, text, rfl, by omega, by simp; omega, ?_, ?_, ?_, ?_, ?_, ?_⟩
    · simp [before]
    · apply Text.not_isInert_of_parse
      intro read
      rw [stopped] at read
      contradiction
    · intro _
      rw [before, List.take_left]
      exact ⟨stopped, readable⟩
    · intro allReadable
      obtain ⟨found, read⟩ := allReadable text (by simp)
      rw [stopped] at read
      contradiction
    · rintro label address rfl
      have unplaced := Statement.address?_of_parse_eq_error stopped
      contradiction
    · intro address shows
      rw [Statement.address?_of_parse_eq_error stopped] at shows
      contradiction
  | ok source =>
    obtain ⟨line, text, fault, rfl, located, stopsFirst, stopsSecond, repeats, addresses⟩ :=
      exists_stop parsed failed
    refine ⟨line.line, fault, text, rfl, located.positive, located.le_length, located.text_at,
      located.not_isInert, ?_, fun _ => ?_, fun label address same => ?_, fun address shows => ?_⟩
    · rintro ⟨other, member, rejected, unread⟩
      obtain ⟨found, read⟩ := SourceLine.readable_of_parseFrom parsed other member
      rw [unread] at read
      contradiction
    · exact ⟨source, line, rfl, located.member, rfl, located.read, stopsFirst, stopsSecond⟩
    · exact ⟨source, line, rfl, located.member, rfl, repeats label address same⟩
    · exact ⟨source, rfl, addresses address shows⟩

/-- The second `A` is reported with the address of its own line, behind two bytes. -/
theorem first_error_is_reported_for_duplicate :
    ∃ after source line,
      assemble { machine := .xe } ["P START 10", "A RESB 2", ". again", "A WORD 1", "  END P"] =
        (.error (.source 4 (.duplicateLabel "A" 0x12)), after) ∧
      line ∈ SourceLine.throughEnd source ∧ line.line = 4 ∧
      StopsFirstPass { machine := .xe } source line (.duplicateLabel "A" 0x12) ∧
      (∃ earlier ∈ SourceLine.above 4 source, earlier.statement.label = some "A") ∧
      SourceLine.AddressOf 0x10 source 4 0x12 := by
  have parsed : SourceLine.parseAll .xe
      ["P START 10", "A RESB 2", ". again", "A WORD 1", "  END P"] =
      .ok [⟨1, "P START 10", ⟨some "P", .directive .start, some ⟨"10"⟩, false⟩⟩,
        ⟨2, "A RESB 2", ⟨some "A", .directive .reserveBytes, some ⟨"2"⟩, false⟩⟩,
        ⟨4, "A WORD 1", ⟨some "A", .directive .word, some ⟨"1"⟩, false⟩⟩,
        ⟨5, "  END P", ⟨none, .directive .finish, some ⟨"P"⟩, false⟩⟩] := by
    decide +kernel
  have failed :
      assemble { machine := .xe } ["P START 10", "A RESB 2", ". again", "A WORD 1", "  END P"] =
      (.error (.source 4 (.duplicateLabel "A" 0x12)),
        { machine := .xe, name := "P", start := 0x10
          symbols := ⟨[("A", 0x10), ("P", 0x10)], by decide⟩ }) := by
    decide +kernel
  obtain ⟨_, _, _, reported, _, _, _, _, _, stops, duplicates, addresses⟩ :=
    first_error_is_reported failed
  cases reported
  obtain ⟨source, line, read, member, number, _, first, _⟩ :=
    stops (SourceLine.readable_of_parseFrom parsed)
  obtain ⟨_, again, readAgain, _, atFour, repeats⟩ := duplicates "A" 0x12 rfl
  obtain ⟨_, readToo, address⟩ := addresses 0x12 rfl
  cases parsed.symm.trans read
  cases parsed.symm.trans readAgain
  cases parsed.symm.trans readToo
  obtain ⟨earlier, ⟨inFront, labelled⟩, _⟩ := repeats.once
  exact ⟨_, _, line, failed, member, number, first (by decide +kernel),
    ⟨earlier, atFour ▸ inFront, labelled⟩, address⟩

end Assembler

end SicAssembler
