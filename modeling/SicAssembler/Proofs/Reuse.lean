import SicAssembler.Assembler

/-! # Reusing an assembler

An assembler can be used again after any calls, also after calls that failed half way and left the
name of one program beside the listing of another. What it does next depends on its machine alone.
Calling the passes one by one, without a reset, gives the same result: the first pass replaces all
that the second one reads, and the listing, which it leaves alone, is never read.
-/

namespace SicAssembler.Assembler

/-- A call that can change an assembler. No call asks for lines that fit to the state: the passes
may be given any lines. -/
inductive Call where
  | assemble (lines : List String)
  | assembleText (text : String)
  | firstPass (lines : List SourceLine)
  | secondPass (lines : List SourceLine)
  | reset
deriving DecidableEq, Repr

def perform (state : Assembler) : Call → Assembler
  | .assemble lines => (state.assemble lines).2
  | .assembleText text => (state.assembleText text).2
  | .firstPass lines => (state.firstPass lines).2
  | .secondPass lines => (state.secondPass lines).2
  | .reset => state.reset

def afterCalls (machine : Machine) (calls : List Call) : Assembler :=
  calls.foldl perform { machine := machine }

/-- Read the lines of a program and run one pass after the other, without a reset. -/
def passByPass (state : Assembler) (lines : List String) :
    Except Diagnostic ObjectProgram × Assembler :=
  match SourceLine.parseAll state.machine lines with
  | .error diagnostic => (.error diagnostic, state)
  | .ok source =>
    match state.firstPass source with
    | (.error diagnostic, next) => (.error diagnostic, next)
    | (.ok (), next) => next.secondPass source

section Machine

private theorem machine_firstPass (state : Assembler) (lines : List SourceLine) :
    (state.firstPass lines).2.machine = state.machine := by
  rw [firstPass]
  split
  · rfl
  · split <;> rfl

private theorem machine_secondPass (state : Assembler) (lines : List SourceLine) :
    (state.secondPass lines).2.machine = state.machine := by
  rw [secondPass]
  split <;> rfl

private theorem machine_assemble (state : Assembler) (lines : List String) :
    (state.assemble lines).2.machine = state.machine := by
  rw [assemble]
  split
  · rfl
  · next source _ =>
    have kept := machine_firstPass state.reset source
    rw [runPasses]
    split
    · next first => rwa [first] at kept
    · next next first =>
      rw [first] at kept
      exact (machine_secondPass next source).trans kept

/-- No call changes the machine. -/
theorem machine_perform (state : Assembler) (call : Call) :
    (state.perform call).machine = state.machine := by
  cases call with
  | assemble lines => exact machine_assemble state lines
  | assembleText text => exact machine_assemble state (Text.lines text)
  | firstPass lines => exact machine_firstPass state lines
  | secondPass lines => exact machine_secondPass state lines
  | reset => rfl

private theorem machine_afterCalls (machine : Machine) (calls : List Call) :
    (afterCalls machine calls).machine = machine := by
  have along (state : Assembler) : (calls.foldl perform state).machine = state.machine := by
    induction calls generalizing state with
    | nil => rfl
    | cons call rest ih => exact (ih (state.perform call)).trans (machine_perform state call)
  exact along { machine := machine }

end Machine

/-- Assembling begins with a reset, so only the machine of a state counts. -/
theorem assemble_eq_of_machine (state : Assembler) (lines : List String) :
    state.assemble lines = assemble { machine := state.machine } lines := rfl

/-- The first pass reads nothing of the state. When it succeeds it keeps the listing and replaces
everything else. -/
theorem firstPass_cases (state other : Assembler) (same : other.machine = state.machine)
    (lines : List SourceLine) :
    (∃ diagnostic left right, state.firstPass lines = (.error diagnostic, left) ∧
      other.firstPass lines = (.error diagnostic, right)) ∨
    ∃ next, state.firstPass lines = (.ok (), next) ∧
      other.firstPass lines = (.ok (), { next with listing := other.listing }) := by
  unfold firstPass
  cases Layout.ofLines lines with
  | error halt => exact .inl ⟨halt.diagnostic, _, _, rfl, rfl⟩
  | ok layout =>
    cases measured : atLine (lastLine lines) layout.length with
    | error diagnostic =>
      simp only [measured]
      exact .inl ⟨diagnostic, _, _, rfl, rfl⟩
    | ok length =>
      simp only [measured, adopt, same]
      exact .inr ⟨_, rfl, rfl⟩

/-- The second pass does not read the listing, and replaces it when it succeeds. -/
theorem secondPass_cases (state : Assembler) (listing : List ListingLine)
    (lines : List SourceLine) :
    (∃ diagnostic, (state.secondPass lines).1 = .error diagnostic ∧
      (secondPass { state with listing := listing } lines).1 = .error diagnostic) ∨
    ∃ program next, state.secondPass lines = (.ok program, next) ∧
      secondPass { state with listing := listing } lines = (.ok program, next) := by
  have blind : generate { state with listing := listing } lines = state.generate lines := rfl
  unfold secondPass
  rw [blind]
  cases state.generate lines with
  | error diagnostic => exact .inl ⟨diagnostic, rfl, rfl⟩
  | ok made => exact .inr ⟨made.2, _, rfl, rfl⟩

/-- Running the passes without a reset gives the program or the error that assembling gives, and a
program comes with the same state. -/
theorem passByPass_cases (state : Assembler) (lines : List String) :
    (∃ diagnostic, (state.assemble lines).1 = .error diagnostic ∧
      (state.passByPass lines).1 = .error diagnostic) ∨
    ∃ program next, state.assemble lines = (.ok program, next) ∧
      state.passByPass lines = (.ok program, next) := by
  unfold assemble passByPass
  cases SourceLine.parseAll state.machine lines with
  | error diagnostic => exact .inl ⟨diagnostic, rfl, rfl⟩
  | ok source =>
    unfold runPasses
    rcases firstPass_cases state.reset state rfl source with
      ⟨diagnostic, _, _, failed, failedToo⟩ | ⟨next, placed, placedToo⟩
    · simp only [failed, failedToo]
      exact .inl ⟨diagnostic, rfl, rfl⟩
    · simp only [placed, placedToo]
      exact secondPass_cases next state.listing source

/-- The history of an assembler does not matter. After any calls, `assemble` returns what it returns
on a new assembler for the machine, and leaves the same state. Reading the lines and running the two
passes instead returns the same program or the same error, and in the case of a program leaves the
same state as well. -/
theorem reuse_is_history_independent (machine : Machine) (calls : List Call)
    (lines : List String) :
    (afterCalls machine calls).assemble lines = assemble { machine := machine } lines ∧
    ((afterCalls machine calls).passByPass lines).1 = (assemble { machine := machine } lines).1 ∧
    ∀ program, (assemble { machine := machine } lines).1 = .ok program →
      (afterCalls machine calls).passByPass lines = assemble { machine := machine } lines := by
  have fresh : (afterCalls machine calls).assemble lines =
      assemble { machine := machine } lines := by
    rw [assemble_eq_of_machine, machine_afterCalls]
  refine ⟨fresh, ?_⟩
  rw [← fresh]
  rcases passByPass_cases (afterCalls machine calls) lines with
    ⟨diagnostic, failed, failedToo⟩ | ⟨program, next, made, madeToo⟩
  · rw [failed, failedToo]
    exact ⟨rfl, fun program made => by cases made⟩
  · rw [made, madeToo]
    exact ⟨rfl, fun _ _ => rfl⟩

end SicAssembler.Assembler
