/-! # Symbol tables

A symbol table maps labels to addresses. The first definition of a label stands: a second one is
refused and changes nothing. Tables are printed in the order of addresses, and labels at one
address in the order of their code points.
-/

namespace SicAssembler

/-- Labels with their addresses, the latest first. No label occurs twice. -/
structure SymbolTable where
  entries : List (String × Nat)
  nodup : (entries.map Prod.fst).Nodup
deriving DecidableEq, Repr

namespace SymbolTable

instance : EmptyCollection SymbolTable := ⟨⟨[], List.nodup_nil⟩⟩

instance : Inhabited SymbolTable := ⟨∅⟩

def get? (table : SymbolTable) (name : String) : Option Nat := table.entries.lookup name

def size (table : SymbolTable) : Nat := table.entries.length

private theorem not_mem_of_get?_eq_none {table : SymbolTable} {name : String}
    (absent : table.get? name = none) : name ∉ table.entries.map Prod.fst := by
  intro member
  obtain ⟨entry, inTable, rfl⟩ := List.mem_map.mp member
  have := List.lookup_eq_none_iff.mp absent entry inTable
  simp at this

/-- Define a label; the error is the address that it has already. -/
def insert (table : SymbolTable) (name : String) (address : Nat) : Except Nat SymbolTable :=
  match found : table.get? name with
  | some existing => .error existing
  | none =>
    .ok
      { entries := (name, address) :: table.entries
        nodup := by
          rw [List.map_cons, List.nodup_cons]
          exact ⟨not_mem_of_get?_eq_none found, table.nodup⟩ }

def precedes (left right : String × Nat) : Bool :=
  left.2 < right.2 || (left.2 == right.2 && left.1 ≤ right.1)

/-- The entries in the order in which they are printed. -/
def sorted (table : SymbolTable) : List (String × Nat) := table.entries.mergeSort precedes

@[simp] theorem get?_empty (name : String) : (∅ : SymbolTable).get? name = none := rfl

theorem insert_of_get?_eq_some {table : SymbolTable} {name : String} {existing : Nat}
    (present : table.get? name = some existing) (address : Nat) :
    table.insert name address = .error existing := by
  unfold insert
  split
  · next other found => rw [present] at found; cases found; rfl
  · next found => rw [present] at found; contradiction

theorem entries_of_insert_eq_ok {table next : SymbolTable} {name : String} {address : Nat}
    (inserted : table.insert name address = .ok next) :
    table.get? name = none ∧ next.entries = (name, address) :: table.entries := by
  unfold insert at inserted
  split at inserted
  · contradiction
  · next found => cases inserted; exact ⟨found, rfl⟩

theorem exists_insert_eq_ok {table : SymbolTable} {name : String}
    (absent : table.get? name = none) (address : Nat) :
    ∃ next, table.insert name address = .ok next := by
  cases result : table.insert name address with
  | ok next => exact ⟨next, rfl⟩
  | error existing =>
    unfold insert at result
    split at result
    · next found => rw [absent] at found; contradiction
    · contradiction

/-- A new label gets its address, and every other label keeps its own. -/
theorem get?_of_insert_eq_ok {table next : SymbolTable} {name : String} {address : Nat}
    (inserted : table.insert name address = .ok next) (query : String) :
    next.get? query = if query = name then some address else table.get? query := by
  rw [get?, (entries_of_insert_eq_ok inserted).2, List.lookup_cons]
  by_cases same : query = name
  · simp [same]
  · rw [if_neg same, beq_eq_false_iff_ne.mpr same]
    rfl

/-- Sorting loses no entry and adds none. -/
theorem sorted_perm (table : SymbolTable) : table.sorted.Perm table.entries :=
  List.mergeSort_perm table.entries precedes

theorem length_sorted (table : SymbolTable) : table.sorted.length = table.size :=
  table.sorted_perm.length_eq

end SymbolTable

end SicAssembler
