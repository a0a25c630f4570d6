import Mathlib.Data.List.Forall2
import SicAssembler.Proofs.Relabelling
import SicAssembler.Proofs.Spelling

/-! # Assembling another spelling

Behind the reading of lines nothing looks at their text any more: it is carried along for the
listing. Taking the texts away from source lines changes neither the layout nor the object program,
and takes them away from the listing. So two programs whose lines are spellings of each other give
the same object program or the same error.
-/

namespace SicAssembler

/-- A fault without the text of a malformed line. -/
def Fault.withoutText : Fault → Fault
  | .malformed _ => .malformed ""
  | fault => fault

private theorem Fault.withoutText_malformed (text other : String) :
    (malformed text).withoutText = (malformed other).withoutText := rfl

def Diagnostic.withoutText : Diagnostic → Diagnostic
  | .source line fault => .source line fault.withoutText
  | .file failure => .file failure

def SourceLine.bare (source : SourceLine) : SourceLine := { source with source := "" }

def ObjectLine.bare (line : ObjectLine) : ObjectLine := { line with source := line.source.bare }

def ListingLine.bare (entry : ListingLine) : ListingLine := { entry with source := "" }

def Assembler.bare (state : Assembler) : Assembler :=
  { state with listing := state.listing.map ListingLine.bare }

namespace Statement

private theorem withoutText_wordsFault (text other : String) (words : List String) :
    (wordsFault text words).withoutText = (wordsFault other words).withoutText := by
  unfold wordsFault
  split
  · rfl
  · exact Fault.withoutText_malformed text other

/-- Spellings of a line are read alike. -/
theorem parse_respelled (machine : Machine) {left right : String}
    (respelled : Text.Respelled left.toList right.toList) :
    (∃ found, parse machine left = .ok found ∧ parse machine right = .ok found) ∨
    ∃ fault other, parse machine left = .error fault ∧ parse machine right = .error other ∧
      fault.withoutText = other.withoutText := by
  obtain ⟨words, inert⟩ := words_of_respelled respelled
  simp only [parse, words, inert]
  split
  · exact .inl ⟨none, rfl, rfl⟩
  · split
    · exact .inr ⟨_, _, rfl, rfl, Fault.withoutText_malformed _ _⟩
    · split
      · exact .inr ⟨_, _, rfl, rfl, withoutText_wordsFault _ _ _⟩
      · next statement _ =>
        cases checkPlus machine statement with
        | ok found => exact .inl ⟨some found, rfl, rfl⟩
        | error fault => exact .inr ⟨fault, fault, rfl, rfl, rfl⟩

end Statement

/-- Programs whose lines are spellings of each other have the same statements on the same lines, or
the same line stops the reading of both. -/
theorem SourceLine.parseFrom_respelled (machine : Machine) {texts others : List String}
    (respelled : List.Forall₂ (fun text other => Text.Respelled text.toList other.toList)
      texts others) (line : Nat) :
    (∃ sources otherSources, parseFrom machine line texts = .ok sources ∧
      parseFrom machine line others = .ok otherSources ∧
      sources.map bare = otherSources.map bare) ∨
    ∃ diagnostic other, parseFrom machine line texts = .error diagnostic ∧
      parseFrom machine line others = .error other ∧
      diagnostic.withoutText = other.withoutText := by
  induction respelled generalizing line with
  | nil => exact .inl ⟨[], [], rfl, rfl, rfl⟩
  | cons here _ ih =>
    simp only [parseFrom]
    rcases Statement.parse_respelled machine here with
      ⟨found, read, readToo⟩ | ⟨fault, other, failed, failedToo, same⟩
    · rw [read, readToo]
      rcases ih (line + 1) with
        ⟨sources, otherSources, parsed, parsedToo, same⟩ |
        ⟨diagnostic, other, failed, failedToo, same⟩
      · rw [parsed, parsedToo]
        cases found with
        | none => exact .inl ⟨sources, otherSources, rfl, rfl, same⟩
        | some statement =>
          refine .inl ⟨_, _, rfl, rfl, ?_⟩
          rw [List.map_cons, List.map_cons, same]
          rfl
      · rw [failed, failedToo]
        cases found with
        | none => exact .inr ⟨diagnostic, other, rfl, rfl, same⟩
        | some statement => exact .inr ⟨diagnostic, other, rfl, rfl, same⟩
    · rw [failed, failedToo]
      refine .inr ⟨_, _, rfl, rfl, ?_⟩
      rw [Diagnostic.withoutText, Diagnostic.withoutText, same]

private theorem ListingLine.bare_ofObjectLine (line : ObjectLine) :
    (ofObjectLine line.bare).bare = (ofObjectLine line).bare := by
  simp only [bare, ofObjectLine, ObjectLine.bare, SourceLine.bare]

namespace Assembler

private theorem firstPass_map_bare (state : Assembler) (lines : List SourceLine) :
    state.firstPass (lines.map SourceLine.bare) = state.firstPass lines := by
  have relabelled := state.firstPass_map_relabel id (fun _ => "") lines
  rwa [mapError_mapLine_id] at relabelled

private theorem generate_map_bare (state : Assembler) (lines : List SourceLine) :
    state.generate (lines.map SourceLine.bare) =
      (state.generate lines).map fun made => (made.1.map ObjectLine.bare, made.2) := by
  have relabelled := state.generate_map_relabel id (fun _ => "") lines
  rwa [mapError_mapLine_id] at relabelled

private theorem secondPass_map_bare (state : Assembler) (lines : List SourceLine) :
    (state.secondPass (lines.map SourceLine.bare)).1 = (state.secondPass lines).1 ∧
      (state.secondPass (lines.map SourceLine.bare)).2.bare = (state.secondPass lines).2.bare := by
  unfold secondPass
  rw [generate_map_bare]
  cases state.generate lines with
  | error diagnostic => exact ⟨rfl, rfl⟩
  | ok made =>
    refine ⟨rfl, ?_⟩
    have shown : ListingLine.bare ∘ ListingLine.ofObjectLine ∘ ObjectLine.bare =
        ListingLine.bare ∘ ListingLine.ofObjectLine := funext ListingLine.bare_ofObjectLine
    simp only [Except.map, bare, List.map_map, shown]

/-- Both passes give the same result without the texts, and the same state but for the texts in the
listing. -/
theorem runPasses_map_bare (state : Assembler) (lines : List SourceLine) :
    (state.runPasses (lines.map SourceLine.bare)).1 = (state.runPasses lines).1 ∧
      (state.runPasses (lines.map SourceLine.bare)).2.bare = (state.runPasses lines).2.bare := by
  unfold runPasses
  rw [firstPass_map_bare]
  split
  · exact ⟨rfl, rfl⟩
  · next next _ => exact secondPass_map_bare next lines

/-- Programs with the same statements on the same lines are assembled alike. -/
theorem runPasses_eq_of_bare (state : Assembler) {lines others : List SourceLine}
    (same : lines.map SourceLine.bare = others.map SourceLine.bare) :
    (state.runPasses lines).1 = (state.runPasses others).1 ∧
      (state.runPasses lines).2.bare = (state.runPasses others).2.bare := by
  have left := state.runPasses_map_bare lines
  have right := state.runPasses_map_bare others
  rw [same] at left
  exact ⟨left.1.symm.trans right.1, left.2.symm.trans right.2⟩

end Assembler

/-- Letter case and spacing do not matter. Programs whose lines are spellings of each other are
assembled to the same object program, or the same error stops both: only the text of a line without
a statement is shown as it was written. Either way the same name, place, length and symbols are left
behind, and a listing with the same lines, addresses and object codes. -/
theorem respelling_keeps_assembly (state : Assembler) {texts others : List String}
    (respelled : List.Forall₂ (fun text other => Text.Respelled text.toList other.toList)
      texts others) :
    ((∃ program, (state.assemble texts).1 = .ok program ∧
        (state.assemble others).1 = .ok program) ∨
      ∃ diagnostic other, (state.assemble texts).1 = .error diagnostic ∧
        (state.assemble others).1 = .error other ∧
        diagnostic.withoutText = other.withoutText) ∧
    (state.assemble texts).2.bare = (state.assemble others).2.bare := by
  unfold Assembler.assemble SourceLine.parseAll
  rcases SourceLine.parseFrom_respelled state.machine respelled 1 with
    ⟨sources, otherSources, parsed, parsedToo, same⟩ |
    ⟨diagnostic, other, failed, failedToo, same⟩
  · rw [parsed, parsedToo]
    obtain ⟨result, states⟩ := state.reset.runPasses_eq_of_bare same
    refine ⟨?_, states⟩
    simp only [result]
    cases (state.reset.runPasses otherSources).1 with
    | ok program => exact .inl ⟨program, rfl, rfl⟩
    | error diagnostic => exact .inr ⟨diagnostic, diagnostic, rfl, rfl, rfl⟩
  · rw [failed, failedToo]
    exact ⟨.inr ⟨diagnostic, other, rfl, rfl, same⟩, rfl⟩

theorem respelling_keeps_assembly_around_literal :
    ∃ (program : ObjectProgram) (left right : Assembler),
      Assembler.assemble { machine := .xe } ["p start 10", "d byte c'a  b' ", "end"] =
        (.ok program, left) ∧
      Assembler.assemble { machine := .xe } ["P START 10", "\tD\t byte\tC'A  B'", "END"] =
        (.ok program, right) ∧
      program.texts = [⟨16, [0x41, 0x20, 0x20, 0x42]⟩] ∧ left.bare = right.bare := by
  have literal : Text.Respelled "d byte c'a  b' ".toList "\tD\t byte\tC'A  B'".toList := by
    have recased : Text.Respelled "d byte c'a  b' ".toList "D byte C'A  B' ".toList :=
      .recase (by decide)
    have firstGap : Text.Respelled "D byte C'A  B' ".toList "D\t byte C'A  B' ".toList :=
      .gap ['D'] [' '] "byte C'A  B' ".toList ['\t', ' ']
        (by decide) (by decide) (by decide) (by decide) (by decide)
    have secondGap : Text.Respelled "D\t byte C'A  B' ".toList "D\t byte\tC'A  B' ".toList :=
      .gap "D\t byte".toList [' '] "C'A  B' ".toList ['\t']
        (by decide) (by decide) (by decide) (by decide) (by decide)
    have outside : Text.Respelled "D\t byte\tC'A  B' ".toList "\tD\t byte\tC'A  B'".toList :=
      .ends [] "D\t byte\tC'A  B'".toList [' '] ['\t'] []
        (by decide) (by decide) (by decide) (by decide)
    exact .trans recased (.trans firstGap (.trans secondGap outside))
  have respelled : List.Forall₂ (fun text other => Text.Respelled text.toList other.toList)
      ["p start 10", "d byte c'a  b' ", "end"] ["P START 10", "\tD\t byte\tC'A  B'", "END"] :=
    .cons (.recase (by decide)) (.cons literal (.cons (.recase (by decide)) .nil))
  have assembled : (Assembler.assemble { machine := .xe }
      ["p start 10", "d byte c'a  b' ", "end"]).1 =
      .ok ⟨⟨"P", 16, 4⟩, [⟨16, [0x41, 0x20, 0x20, 0x42]⟩], [], 16⟩ := by
    decide +kernel
  obtain ⟨⟨program, left, right⟩ | ⟨_, _, failed, _⟩, states⟩ :=
    respelling_keeps_assembly { machine := .xe } respelled
  · cases left.symm.trans assembled
    exact ⟨_, _, _, Prod.ext assembled rfl, Prod.ext right rfl, rfl, states⟩
  · cases failed.symm.trans assembled

end SicAssembler
