import Mathlib.Data.List.Forall2
import SicAssembler.ObjectLine
import SicAssembler.Proofs.Placement

/-! # Layouts at another address

Two programs are alike if their statements are the same but for the address that `START` names. The
sizes of their statements are the same, so the whole layout of the one is the layout of the other,
moved by the distance between the two addresses.
-/

namespace SicAssembler

/-- The same statement, except that `START` may name another address. -/
def Statement.Alike (left right : Statement) : Prop :=
  right = left ∨
    left.operation = .directive .start ∧ right = { left with operand := right.operand }

namespace Statement.Alike

variable {left right : Statement}

private theorem label_eq (alike : Alike left right) : right.label = left.label := by
  rcases alike with rfl | ⟨_, same⟩
  · rfl
  · rw [same]

private theorem operation_eq (alike : Alike left right) : right.operation = left.operation := by
  rcases alike with rfl | ⟨_, same⟩
  · rfl
  · rw [same]

theorem size_eq (alike : Alike left right) : right.size = left.size := by
  rcases alike with rfl | ⟨isStart, same⟩
  · rfl
  · rw [same]
    simp only [size, isStart]

theorem reserves_eq (alike : Alike left right) : right.reserves = left.reserves := by
  unfold reserves
  rw [alike.operation_eq]

theorem generate_eq (alike : Alike left right) (machine : Machine) (symbols : SymbolTable)
    (site : Site) : right.generate machine symbols site = left.generate machine symbols site := by
  rcases alike with rfl | ⟨isStart, same⟩
  · rfl
  · rw [same]
    simp only [generate, isStart]

end Statement.Alike

namespace SourceLine

def Alike (left right : SourceLine) : Prop := left.statement.Alike right.statement

variable {first second : List SourceLine}

private theorem isEnd_of_alike {left right : SourceLine} (alike : Alike left right) :
    right.isEnd = left.isEnd := by
  unfold isEnd
  rw [Statement.Alike.operation_eq alike]

theorem forall₂_throughEnd (alike : List.Forall₂ Alike first second) :
    List.Forall₂ Alike (throughEnd first) (throughEnd second) := by
  induction alike with
  | nil => exact .nil
  | @cons left right rest others same _ ih =>
    rw [throughEnd, throughEnd, isEnd_of_alike same]
    split
    · exact .cons same .nil
    · exact .cons same ih

private theorem forall_operation_of_alike {operation : Operation}
    (alike : List.Forall₂ Alike first second)
    (none : ∀ line ∈ first, line.statement.operation ≠ operation) :
    ∀ line ∈ second, line.statement.operation ≠ operation := by
  induction alike with
  | nil => exact none
  | cons same _ ih =>
    obtain ⟨noneHere, noneLater⟩ := List.forall_mem_cons.mp none
    refine List.forall_mem_cons.mpr ⟨?_, ih noneLater⟩
    rw [Statement.Alike.operation_eq same]
    exact noneHere

/-- A program whose first statement is `START` does not end there. -/
theorem throughEnd_of_start {opening : SourceLine} (rest : List SourceLine)
    (isStart : opening.statement.operation = .directive .start) :
    throughEnd (opening :: rest) = opening :: throughEnd rest := by
  simp [throughEnd, isEnd, isStart]

private theorem HaveSizes.of_alike {sizes : List Nat} (alike : List.Forall₂ Alike first second)
    (sized : HaveSizes first sizes) : HaveSizes second sizes := by
  induction alike generalizing sizes with
  | nil => exact sized
  | cons same _ ih =>
    obtain ⟨size, others, rfl, sizeOk, sizedRest⟩ := haveSizes_cons_iff.mp sized
    refine haveSizes_cons_iff.mpr ⟨size, others, rfl, ?_, ih sizedRest⟩
    rw [Statement.Alike.size_eq same, sizeOk]

end SourceLine

def SymbolTable.moved (distance : Nat) (table : SymbolTable) : SymbolTable where
  entries := table.entries.map fun entry => (entry.1, entry.2 + distance)
  nodup := by
    rw [List.map_map]
    exact table.nodup

theorem SymbolTable.get?_moved (distance : Nat) (table : SymbolTable) (name : String) :
    (table.moved distance).get? name = (table.get? name).map (· + distance) := by
  have moves (entries : List (String × Nat)) :
      (entries.map fun entry => (entry.1, entry.2 + distance)).lookup name =
        (entries.lookup name).map (· + distance) := by
    induction entries with
    | nil => rfl
    | cons entry rest ih =>
      rw [List.map_cons, List.lookup_cons, List.lookup_cons]
      cases name == entry.1 with
      | true => rfl
      | false => exact ih
  exact moves table.entries

/-- Labels of lines that are alike move with the first address. -/
theorem SourceLine.labels_moved {first second : List SourceLine}
    (alike : List.Forall₂ Alike first second) (sizes : List Nat) (address distance : Nat) :
    labels (address + distance) second sizes =
      (labels address first sizes).map fun entry => (entry.1, entry.2 + distance) := by
  induction alike generalizing sizes address with
  | nil => rfl
  | @cons left right rest others same _ ih =>
    cases sizes with
    | nil => rfl
    | cons size sizes =>
      have next : address + distance + size = address + size + distance := by omega
      rw [labels, labels, List.map_append, next, ih, Statement.Alike.label_eq same]
      cases left.statement.label <;> rfl

namespace Layout

def moved (distance : Nat) (layout : Layout) : Layout where
  name := layout.name
  start := layout.start + distance
  counter := layout.counter + distance
  symbols := layout.symbols.moved distance

/-- A run over lines is, moved, a run over lines that are alike. -/
theorem Run.moved {before after : Layout} {first second : List SourceLine} {sizes : List Nat}
    (run : Run before first sizes after) (alike : List.Forall₂ SourceLine.Alike first second)
    {distance : Nat} (below : after.counter + distance < Address.limit) :
    Run (before.moved distance) second sizes (after.moved distance) where
  sized := run.sized.of_alike alike
  name_eq := run.name_eq
  start_eq := by
    have start := run.start_eq
    simp only [Layout.moved]
    omega
  counter_eq := by
    have counter := run.counter_eq
    simp only [Layout.moved]
    omega
  bounded := below
  entries_eq := by
    simp only [Layout.moved, SymbolTable.moved]
    rw [run.entries_eq, List.map_append, List.map_reverse, SourceLine.labels_moved alike]

/-- A program starts at the address that its `START` names. -/
theorem start_eq_of_ofLines {opening : SourceLine} {rest : List SourceLine} {start : Nat}
    {layout : Layout} (isStart : opening.statement.operation = .directive .start)
    (read : opening.statement.startAddress = .ok start)
    (placed : ofLines (opening :: rest) = .ok layout) : layout.start = start := by
  obtain ⟨opened, sizes, opens, _, run⟩ := ofLines_eq_ok_iff.mp placed
  rw [SourceLine.throughEnd_of_start rest isStart] at opens
  have starts : applyStart true {} opening = .ok _ := applyStart_true_of_eq isStart read
  cases starts.symm.trans opens
  exact run.start_eq

/-- A program whose `START` names a higher address has the same layout there. -/
theorem ofLines_moved {opening other : SourceLine} {rest others : List SourceLine}
    {start distance : Nat} {layout : Layout}
    (alike : List.Forall₂ SourceLine.Alike (opening :: rest) (other :: others))
    (isStart : opening.statement.operation = .directive .start)
    (read : opening.statement.startAddress = .ok start)
    (readOther : other.statement.startAddress = .ok (start + distance))
    (placed : ofLines (opening :: rest) = .ok layout)
    (below : layout.counter + distance < Address.limit) :
    ofLines (other :: others) = .ok (layout.moved distance) := by
  obtain ⟨same, sameRest⟩ := List.forall₂_cons.mp alike
  have otherStart : other.statement.operation = .directive .start :=
    (Statement.Alike.operation_eq same).trans isStart
  have listed := SourceLine.forall₂_throughEnd sameRest
  obtain ⟨opened, sizes, opens, noStart, run⟩ := ofLines_eq_ok_iff.mp placed
  rw [SourceLine.throughEnd_of_start rest isStart] at opens noStart run
  have starts : applyStart true {} opening = .ok _ := applyStart_true_of_eq isStart read
  cases starts.symm.trans opens
  apply ofLines_eq_ok_iff.mpr
  rw [SourceLine.throughEnd_of_start others otherStart]
  refine ⟨_, sizes, ?_, SourceLine.forall_operation_of_alike listed noStart,
    run.moved (.cons same listed) below⟩
  rw [Opens, applyStart_true_of_eq otherStart readOther, Statement.Alike.label_eq same]
  rfl

end Layout

end SicAssembler
