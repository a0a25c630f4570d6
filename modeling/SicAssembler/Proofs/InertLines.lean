import Mathlib.Order.Monotone.Basic
import SicAssembler.Proofs.Relabelling
import SicAssembler.Proofs.Source
import SicAssembler.Proofs.Spelling

/-! # Blank lines and comments

Blank lines and comments hold no statement. Inserting them into a program moves its lines down and
changes nothing else: the object program is the same, or the same error is reported at the new
number of its line, and the listing shows the new numbers.
-/

namespace SicAssembler

/-- A line is inert if it is blank or a comment, whose first character that is not blank is `.`. -/
def Text.IsInert (line : String) : Prop :=
  AllBlank line.toList ∨ line.toList.find? (fun c => !isBlank c) = some '.'

instance (line : String) : Decidable (Text.IsInert line) :=
  inferInstanceAs (Decidable (_ ∨ _))

private theorem Text.head?_trimEnd_cons {c : Char} (visible : isBlank c = false)
    (rest : List Char) :
    (trimEnd (c :: rest)).head? = some c := by
  rw [← List.singleton_append, trimEnd_append]
  split
  · simp [trimEnd, visible]
  · rfl

/-- Inert lines hold no statement. -/
theorem Statement.parse_of_isInert (machine : Machine) {line : String} (inert : Text.IsInert line) :
    parse machine line = .ok none := by
  have trimmed : isInert (Text.trim line.toList) = true := by
    rcases inert with blank | comment
    · rw [Text.trim, Text.trimStart_of_allBlank blank]
      rfl
    · obtain ⟨_, front, rest, same, blank⟩ := List.find?_eq_some_iff_append.mp comment
      have allBlank : Text.AllBlank front := by simpa [Text.AllBlank] using blank
      have visible : Text.isBlank '.' = false := by decide
      have cut : Text.trim line.toList = Text.trimEnd ('.' :: rest) := by
        rw [same, Text.trim, Text.trimStart_append, Text.trimStart_of_allBlank allBlank,
          if_pos List.isEmpty_nil, Text.trimStart_cons_of_not_blank visible]
      simp [isInert, cut, Text.head?_trimEnd_cons visible]
  exact parse_eq_ok_iff.mpr (.inl ⟨trimmed, rfl⟩)

/-- The second program is the first one with inert lines inserted. Positions are counted from 0:
a line keeps its text at its new place, and what stands at no such place is inert. -/
structure Inserted (texts others : List String) (place : Nat → Nat) : Prop where
  increasing : StrictMono place
  kept : ∀ position, others[place position]? = texts[position]?
  inert : ∀ position text, others[position]? = some text →
    (∀ earlier, place earlier ≠ position) → Text.IsInert text

/-- The new number of a line. Numbers are counted from 1. -/
def renumbered (place : Nat → Nat) (line : Nat) : Nat := place (line - 1) + 1

namespace Inserted

variable {texts others : List String} {place : Nat → Nat}

theorem refl (texts : List String) : Inserted texts texts id :=
  ⟨strictMono_id, fun _ => rfl, fun position _ _ unused => absurd rfl (unused position)⟩

/-- One more line is inserted anywhere, and the lines behind it move down by one. -/
theorem insert {front back : List String} {text : String}
    (inserted : Inserted texts (front ++ back) place) (inert : Text.IsInert text) :
    Inserted texts (front ++ text :: back) fun position =>
      if place position < front.length then place position else place position + 1 where
  increasing := by
    intro earlier later before
    have := inserted.increasing before
    dsimp only
    split <;> split <;> omega
  kept := by
    intro position
    rw [← inserted.kept position]
    split
    · next inFront => rw [List.getElem?_append_left inFront, List.getElem?_append_left inFront]
    · next behind =>
      rw [List.getElem?_append_right (by omega), List.getElem?_append_right (by omega),
        show place position + 1 - front.length = place position - front.length + 1 by omega,
        List.getElem?_cons_succ]
  inert := by
    intro position other present unused
    rcases Nat.lt_trichotomy position front.length with inFront | rfl | behind
    · rw [List.getElem?_append_left inFront] at present
      apply inserted.inert position other
      · rw [List.getElem?_append_left inFront]
        exact present
      · intro earlier same
        have := unused earlier
        rw [if_pos (by omega)] at this
        exact this same
    · obtain rfl : text = other := by simpa using present
      exact inert
    · rw [List.getElem?_append_right (by omega),
        show position - front.length = position - 1 - front.length + 1 by omega,
        List.getElem?_cons_succ] at present
      apply inserted.inert (position - 1) other
      · rw [List.getElem?_append_right (by omega)]
        exact present
      · intro earlier same
        have := unused earlier
        rw [if_neg (by omega)] at this
        omega

/-- A first line that no line was moved to is inert, and the others were inserted below it. -/
theorem of_cons_of_ne {text : String} (inserted : Inserted texts (text :: others) place)
    (moved : place 0 ≠ 0) :
    Text.IsInert text ∧ Inserted texts others fun position => place position - 1 := by
  have positive (position : Nat) : 0 < place position :=
    Nat.lt_of_lt_of_le (Nat.pos_of_ne_zero moved) (inserted.increasing.monotone (Nat.zero_le _))
  refine ⟨inserted.inert 0 text rfl fun earlier => (positive earlier).ne', ?_, ?_, ?_⟩
  · intro earlier later before
    have := inserted.increasing before
    have := positive earlier
    dsimp only
    omega
  · intro position
    rw [← inserted.kept position, ← List.getElem?_cons_succ (a := text),
      Nat.sub_add_cancel (positive position)]
  · intro position other present unused
    apply inserted.inert (position + 1) other present
    intro earlier same
    exact unused earlier (by omega)

/-- A first line that stays in place is the first line of both programs. -/
theorem of_cons_of_eq {text : String} (inserted : Inserted texts (text :: others) place)
    (stays : place 0 = 0) :
    ∃ rest, texts = text :: rest ∧
      Inserted rest others fun position => place (position + 1) - 1 := by
  have positive (position : Nat) : 0 < place (position + 1) :=
    stays ▸ inserted.increasing (Nat.succ_pos position)
  have first := inserted.kept 0
  rw [stays] at first
  cases texts with
  | nil => simp at first
  | cons other rest =>
    obtain rfl : text = other := by simpa using first
    refine ⟨rest, rfl, ?_, ?_, ?_⟩
    · intro earlier later before
      have := inserted.increasing (show earlier + 1 < later + 1 by omega)
      have := positive earlier
      dsimp only
      omega
    · intro position
      have kept := inserted.kept (position + 1)
      rw [← Nat.sub_add_cancel (positive position)] at kept
      simpa using kept
    · intro position other present unused
      apply inserted.inert (position + 1) other present
      intro earlier same
      cases earlier with
      | zero => omega
      | succ earlier => exact unused earlier (by omega)

/-- Inserting inert lines renumbers the lines that are read, and the line that cannot be read. -/
theorem parseFrom_eq (inserted : Inserted texts others place) (machine : Machine)
    {number target : Nat} {move : Nat → Nat}
    (moves : ∀ position, move (number + position) = target + place position) :
    SourceLine.parseFrom machine target others =
      ((SourceLine.parseFrom machine number texts).map
        (List.map (SourceLine.relabel move id))).mapError (Diagnostic.mapLine move) := by
  induction others generalizing texts place number target with
  | nil =>
    obtain rfl : texts = [] := by
      have none := inserted.kept 0
      simpa [eq_comm] using none
    rfl
  | cons text rest ih =>
    by_cases stays : place 0 = 0
    · obtain ⟨others, rfl, insertedRest⟩ := inserted.of_cons_of_eq stays
      have here : move number = target := by simpa [stays] using moves 0
      have below (position : Nat) :
          move (number + 1 + position) = target + 1 + (place (position + 1) - 1) := by
        have := inserted.increasing (show 0 < position + 1 by omega)
        rw [Nat.add_assoc, Nat.add_comm 1 position, moves]
        omega
      rw [SourceLine.parseFrom_cons, SourceLine.parseFrom_cons, ih insertedRest below, ← here]
      cases Statement.parse machine text with
      | error fault => rfl
      | ok found =>
        cases SourceLine.parseFrom machine (number + 1) others with
        | error diagnostic => rfl
        | ok lines => cases found <;> rfl
    · obtain ⟨inert, insertedRest⟩ := inserted.of_cons_of_ne stays
      have below (position : Nat) :
          move (number + position) = target + 1 + (place position - 1) := by
        have := inserted.increasing.monotone (Nat.zero_le position)
        rw [moves]
        omega
      rw [SourceLine.parseFrom_cons, Statement.parse_of_isInert machine inert,
        ← ih insertedRest below]
      cases SourceLine.parseFrom machine (target + 1) rest <;> rfl

end Inserted

def ListingLine.renumber (move : Nat → Nat) (entry : ListingLine) : ListingLine :=
  { entry with line := move entry.line }

namespace Assembler

def renumber (move : Nat → Nat) (state : Assembler) : Assembler :=
  { state with listing := state.listing.map (ListingLine.renumber move) }

private theorem renumber_of_listing_eq_nil (move : Nat → Nat) {state : Assembler}
    (unlisted : state.listing = []) : state.renumber move = state := by
  rw [renumber, unlisted, List.map_nil, ← unlisted]

private theorem listing_firstPass (state : Assembler) (lines : List SourceLine) :
    (state.firstPass lines).2.listing = state.listing := by
  rw [firstPass_eq]
  cases Layout.ofLines lines <;> rfl

/-- Renumbering the lines of a program renumbers its error or its listing. -/
theorem secondPass_renumbered (move : Nat → Nat) {state : Assembler} (unlisted : state.listing = [])
    (lines : List SourceLine) :
    state.secondPass (lines.map (SourceLine.relabel move id)) =
      ((state.secondPass lines).1.mapError (Diagnostic.mapLine move),
        (state.secondPass lines).2.renumber move) := by
  rw [secondPass, secondPass, generate_map_relabel]
  cases state.generate lines with
  | error diagnostic =>
    simp only [Except.map, Except.mapError, renumber_of_listing_eq_nil move unlisted]
  | ok made =>
    simp only [Except.map, Except.mapError, renumber, List.map_map]
    rfl

private theorem runPasses_renumbered (move : Nat → Nat) {state : Assembler}
    (unlisted : state.listing = []) (lines : List SourceLine) :
    state.runPasses (lines.map (SourceLine.relabel move id)) =
      ((state.runPasses lines).1.mapError (Diagnostic.mapLine move),
        (state.runPasses lines).2.renumber move) := by
  have kept := (state.listing_firstPass lines).trans unlisted
  rw [runPasses, runPasses, firstPass_map_relabel]
  generalize state.firstPass lines = passed at kept
  obtain ⟨result, next⟩ := passed
  cases result with
  | error diagnostic => simp only [Except.mapError, renumber_of_listing_eq_nil move kept]
  | ok done => exact secondPass_renumbered move kept lines

end Assembler

/-- Blank lines and comments are inert. A program with such lines inserted is assembled to the same
object program, or the same error stops it at the new number of the line; the state that it leaves
is the same but for the numbers in its listing. -/
theorem inert_lines_keep_assembly (state : Assembler) {texts others : List String}
    {place : Nat → Nat} (inserted : Inserted texts others place) :
    (state.assemble others).1 =
        (state.assemble texts).1.mapError (Diagnostic.mapLine (renumbered place)) ∧
      (state.assemble others).2 = (state.assemble texts).2.renumber (renumbered place) := by
  have moves (position : Nat) : renumbered place (1 + position) = 1 + place position := by
    rw [renumbered, Nat.add_sub_cancel_left, Nat.add_comm]
  rw [Assembler.assemble, Assembler.assemble, SourceLine.parseAll, SourceLine.parseAll,
    inserted.parseFrom_eq state.machine moves]
  cases SourceLine.parseFrom state.machine 1 texts with
  | error diagnostic => exact ⟨rfl, rfl⟩
  | ok source =>
    simp only [Except.map, Except.mapError]
    rw [Assembler.runPasses_renumbered _ rfl]
    exact ⟨rfl, rfl⟩

/-- A comment in front of `START` and a blank line below it move an error from line 2 to line 4. -/
theorem inert_lines_keep_assembly_of_error :
    ∃ place : Nat → Nat,
      Inserted ["P START 10", "LDA NOWHERE"] [" . title", "P START 10", "\t", "LDA NOWHERE"] place ∧
      (Assembler.assemble { machine := .sic } ["P START 10", "LDA NOWHERE"]).1 =
        .error (.source 2 (.unresolvedSymbol "NOWHERE" 16)) ∧
      (Assembler.assemble { machine := .sic }
        [" . title", "P START 10", "\t", "LDA NOWHERE"]).1 =
        .error (.source 4 (.unresolvedSymbol "NOWHERE" 16)) := by
  have title : Inserted ["P START 10", "LDA NOWHERE"]
      ([" . title", "P START 10"] ++ ["LDA NOWHERE"]) _ :=
    (show Inserted _ ([] ++ ["P START 10", "LDA NOWHERE"]) id from .refl _).insert
      (by decide : Text.IsInert " . title")
  have inserted := title.insert (by decide : Text.IsInert "\t")
  have failed : (Assembler.assemble { machine := .sic } ["P START 10", "LDA NOWHERE"]).1 =
      .error (.source 2 (.unresolvedSymbol "NOWHERE" 16)) := by decide +kernel
  refine ⟨_, inserted, failed, ?_⟩
  exact (inert_lines_keep_assembly { machine := .sic } inserted).1.trans (by rw [failed]; rfl)

end SicAssembler
