import Mathlib.Data.List.DropRight
import Mathlib.Data.List.Nodup
import SicAssembler.Proofs.Placement

/-! # First definitions stand

Whatever is asked of a symbol table, a label has the address of its first definition since the table
was last cleared. The printed order is strict and total on the entries of a table, so it depends
neither on the order of the definitions nor on the order in which the entries are visited before
they are sorted.
-/

namespace SicAssembler.SymbolTable

inductive Call where
  | insert (name : String) (address : Nat)
  | get (name : String)
  | clear
deriving DecidableEq, Repr

inductive Answer where
  | inserted
  /-- The label has an address already. -/
  | existing (address : Nat)
  | found (address : Option Nat)
  | cleared
deriving DecidableEq, Repr

def perform (table : SymbolTable) : Call → Answer × SymbolTable
  | .insert name address =>
    match table.insert name address with
    | .ok next => (.inserted, next)
    | .error existing => (.existing existing, table)
  | .get name => (.found (table.get? name), table)
  | .clear => (.cleared, ∅)

/-- The answers to calls made one after another, and the table after the last one. -/
def run : SymbolTable → List Call → List Answer × SymbolTable
  | table, [] => ([], table)
  | table, call :: rest =>
    let (answer, next) := table.perform call
    let (answers, last) := next.run rest
    (answer :: answers, last)

/-- The table after calls, the first of which finds it empty. -/
def afterCalls (calls : List Call) : SymbolTable := ((∅ : SymbolTable).run calls).2

/-- The address that a call proposes for a label. -/
def Call.definition? (name : String) : Call → Option Nat
  | .insert other address => if other = name then some address else none
  | .get _ => none
  | .clear => none

/-- The address in the first definition of a label behind the last `clear`. -/
def firstDefinition? (calls : List Call) (name : String) : Option Nat :=
  (calls.rtakeWhile (· ≠ .clear)).findSome? (Call.definition? name)

section Runs

variable {table : SymbolTable} {name : String} {address existing : Nat}

private theorem perform_insert_of_some (present : table.get? name = some existing) (address : Nat) :
    table.perform (.insert name address) = (.existing existing, table) := by
  rw [perform, insert_of_get?_eq_some present]

private theorem perform_insert_of_none (absent : table.get? name = none) (address : Nat) :
    ∃ next, table.insert name address = .ok next ∧
      table.perform (.insert name address) = (.inserted, next) := by
  obtain ⟨next, inserted⟩ := exists_insert_eq_ok absent address
  exact ⟨next, inserted, by rw [perform, inserted]⟩

/-- A label keeps the address that it has; if it has none, a definition gives it one. -/
theorem get?_perform (table : SymbolTable) (call : Call) (name : String) :
    (table.perform call).2.get? name =
      if call = .clear then none else (table.get? name).or (call.definition? name) := by
  cases call with
  | clear => rfl
  | get other => simp [perform, Call.definition?]
  | insert other address =>
    rw [if_neg (by simp), Call.definition?]
    cases known : table.get? other with
    | some existing =>
      rw [perform_insert_of_some known]
      by_cases same : other = name
      · subst same
        rw [known, Option.some_or]
      · rw [if_neg same, Option.or_none]
    | none =>
      obtain ⟨next, inserted, performed⟩ := perform_insert_of_none known address
      rw [performed, get?_of_insert_eq_ok inserted]
      by_cases same : other = name
      · subst same
        rw [if_pos rfl, if_pos rfl, known, Option.none_or]
      · rw [if_neg (Ne.symm same), if_neg same, Option.or_none]

private theorem run_append_singleton (table : SymbolTable) (calls : List Call) (call : Call) :
    (table.run (calls ++ [call])).2 = ((table.run calls).2.perform call).2 := by
  induction calls generalizing table with
  | nil => rfl
  | cons first rest ih => exact ih (table.perform first).2

private theorem firstDefinition?_append_singleton (calls : List Call) (call : Call)
    (name : String) :
    firstDefinition? (calls ++ [call]) name =
      if call = .clear then none
      else (firstDefinition? calls name).or (call.definition? name) := by
  unfold firstDefinition?
  rw [List.rtakeWhile_concat]
  by_cases cleared : call = .clear
  · simp [cleared]
  · simp [cleared, List.findSome?_append]

/-- After any calls, a table knows the first definitions. -/
theorem get?_afterCalls (calls : List Call) (name : String) :
    (afterCalls calls).get? name = firstDefinition? calls name := by
  induction calls using List.reverseRecOn with
  | nil => rfl
  | append_singleton calls call ih =>
    rw [afterCalls, run_append_singleton, get?_perform, firstDefinition?_append_singleton, ← ih]
    rfl

end Runs

section Order

def codePoints (name : String) : List Nat := name.toList.map Char.toNat

/-- The printed order: by address, and at one address by the code points of the labels. -/
def Before (left right : String × Nat) : Prop :=
  left.2 < right.2 ∨ left.2 = right.2 ∧ codePoints left.1 < codePoints right.1

private theorem map_toNat_lt_iff (left right : List Char) :
    left.map Char.toNat < right.map Char.toNat ↔ left < right := by
  induction left generalizing right with
  | nil => cases right <;> simp
  | cons c rest ih =>
    cases right with
    | nil => simp
    | cons d others =>
      rw [List.map_cons, List.map_cons, List.cons_lt_cons_iff, List.cons_lt_cons_iff, ih,
        Char.toNat_inj]
      rfl

private theorem codePoints_lt_iff {left right : String} :
    codePoints left < codePoints right ↔ left < right :=
  (map_toNat_lt_iff _ _).trans String.lt_iff.symm

variable {left right third : String × Nat}

private theorem precedes_iff :
    precedes left right = true ↔ left.2 < right.2 ∨ left.2 = right.2 ∧ left.1 ≤ right.1 := by
  simp [precedes]

private theorem precedes_trans (first : precedes left right = true)
    (second : precedes right third = true) :
    precedes left third = true := by
  rw [precedes_iff] at *
  rcases first with lower | ⟨level, ordered⟩
  · exact .inl (by omega)
  · rcases second with lower | ⟨levelToo, orderedToo⟩
    · exact .inl (by omega)
    · exact .inr ⟨level.trans levelToo, String.le_trans ordered orderedToo⟩

private theorem precedes_total (left right : String × Nat) :
    (precedes left right || precedes right left) = true := by
  rw [Bool.or_eq_true, precedes_iff, precedes_iff]
  rcases Nat.lt_trichotomy left.2 right.2 with lower | level | higher
  · exact .inl (.inl lower)
  · rcases String.le_total left.1 right.1 with names | names
    · exact .inl (.inr ⟨level, names⟩)
    · exact .inr (.inr ⟨level.symm, names⟩)
  · exact .inr (.inl higher)

private theorem eq_of_precedes (first : precedes left right = true)
    (second : precedes right left = true) :
    left = right := by
  rw [precedes_iff] at first second
  have level : left.2 = right.2 := by omega
  have names : left.1 = right.1 := by
    apply String.le_antisymm
    · exact (first.resolve_left (by omega)).2
    · exact (second.resolve_left (by omega)).2
  exact Prod.ext names level

private theorem before_of_precedes (ordered : precedes left right = true) (differs : left ≠ right) :
    Before left right := by
  rcases precedes_iff.mp ordered with lower | ⟨level, names⟩
  · exact .inl lower
  · refine .inr ⟨level, codePoints_lt_iff.mpr ?_⟩
    rw [← String.not_le]
    intro back
    exact differs (Prod.ext (String.le_antisymm names back) level)

private theorem pairwise_precedes (entries : List (String × Nat)) :
    (entries.mergeSort precedes).Pairwise fun left right => precedes left right = true :=
  List.pairwise_mergeSort (@precedes_trans) precedes_total entries

/-- Sorting forgets the order in which the entries came. -/
theorem mergeSort_eq_of_perm {listed others : List (String × Nat)} (same : listed.Perm others) :
    listed.mergeSort precedes = others.mergeSort precedes := by
  apply List.Perm.eq_of_pairwise (fun _ _ _ _ => eq_of_precedes) (pairwise_precedes listed)
    (pairwise_precedes others)
  exact (List.mergeSort_perm listed precedes).trans
    (same.trans (List.mergeSort_perm others precedes).symm)

end Order

section Listings

variable {table other : SymbolTable} {listed : List (String × Nat)}

/-- The entries of a table in any order, each of them once. -/
structure IsListing (table : SymbolTable) (listed : List (String × Nat)) : Prop where
  nodup : listed.Nodup
  mem_iff : ∀ name address, (name, address) ∈ listed ↔ table.get? name = some address

private theorem isListing_entries (table : SymbolTable) : IsListing table table.entries :=
  ⟨List.Nodup.of_map Prod.fst table.nodup, fun _ _ => get?_eq_some_iff.symm⟩

private theorem isListing_sorted (table : SymbolTable) : IsListing table table.sorted where
  nodup := table.sorted_perm.nodup_iff.mpr table.isListing_entries.nodup
  mem_iff name address :=
    table.sorted_perm.mem_iff.trans (table.isListing_entries.mem_iff name address)

/-- Tables that know the same labels have the same entries, in one order or another. -/
theorem IsListing.perm {others : List (String × Nat)} (left : IsListing table listed)
    (right : IsListing other others) (same : ∀ name, table.get? name = other.get? name) :
    listed.Perm others := by
  rw [List.perm_ext_iff_of_nodup left.nodup right.nodup]
  rintro ⟨name, address⟩
  rw [left.mem_iff, right.mem_iff, same]

/-- In whatever order the entries are visited, sorting gives the printed order. -/
theorem IsListing.mergeSort_eq (listing : IsListing table listed) :
    listed.mergeSort precedes = table.sorted :=
  mergeSort_eq_of_perm (listing.perm table.isListing_entries fun _ => rfl)

/-- The printed order is strict. -/
theorem pairwise_sorted (table : SymbolTable) : table.sorted.Pairwise Before := by
  exact (pairwise_precedes table.entries).imp₂ (fun _ _ => before_of_precedes)
    table.isListing_sorted.nodup

end Listings

def inserts (pairs : List (String × Nat)) : List Call :=
  pairs.map fun (name, address) => .insert name address

/-- Whether all labels could be defined, from the empty table on. -/
def AllInserted (pairs : List (String × Nat)) : Prop :=
  ∀ answer ∈ ((∅ : SymbolTable).run (inserts pairs)).1, answer = .inserted

instance (pairs : List (String × Nat)) : Decidable (AllInserted pairs) :=
  inferInstanceAs (Decidable (∀ answer ∈ _, answer = Answer.inserted))

/-- Definitions that all succeed are the entries, the latest first. -/
theorem entries_run_inserts {table : SymbolTable} {pairs : List (String × Nat)}
    (inserted : ∀ answer ∈ (table.run (inserts pairs)).1, answer = .inserted) :
    (table.run (inserts pairs)).2.entries = pairs.reverse ++ table.entries := by
  induction pairs generalizing table with
  | nil => rfl
  | cons pair rest ih =>
    obtain ⟨name, address⟩ := pair
    have first : (table.perform (.insert name address)).1 = .inserted :=
      inserted _ List.mem_cons_self
    cases known : table.get? name with
    | some existing =>
      rw [perform_insert_of_some known] at first
      contradiction
    | none =>
      obtain ⟨next, accepted, performed⟩ := perform_insert_of_none known address
      have unfolded : table.run (inserts ((name, address) :: rest)) =
          (.inserted :: (next.run (inserts rest)).1, (next.run (inserts rest)).2) := by
        simp only [inserts, List.map_cons, run, performed]
      rw [unfolded] at inserted ⊢
      rw [ih fun answer later => inserted answer (List.mem_cons_of_mem _ later),
        insert_eq_ok_iff.mp accepted]
      simp

private theorem get?_afterCalls_inserts {pairs : List (String × Nat)} (inserted : AllInserted pairs)
    {name : String} {address : Nat} :
    (afterCalls (inserts pairs)).get? name = some address ↔ (name, address) ∈ pairs := by
  have entries : (afterCalls (inserts pairs)).entries = pairs.reverse ++ [] :=
    entries_run_inserts inserted
  rw [get?_eq_some_iff, entries, List.append_nil, List.mem_reverse]

/-- A symbol table holds first definitions in a canonical order. After any calls on an empty table,
`get` answers the address in the first definition since the last `clear`. Defining a label that is
present answers that address and changes nothing, and any other definition succeeds. The printed
entries are as many as the table has, strictly ordered by address and code points, and exactly the
pairs that `get` knows. They are the same for every order in which the entries are visited before
sorting, and so are those of two tables in which the same pairs were defined in any order. -/
theorem first_definitions_stand (calls : List Call) :
    (∀ name, (afterCalls calls).perform (.get name) =
      (.found (firstDefinition? calls name), afterCalls calls)) ∧
    (∀ name address existing, firstDefinition? calls name = some existing →
      (afterCalls calls).perform (.insert name address) =
        (.existing existing, afterCalls calls)) ∧
    (∀ name address, firstDefinition? calls name = none →
      ((afterCalls calls).perform (.insert name address)).1 = .inserted) ∧
    (afterCalls calls).size = (afterCalls calls).sorted.length ∧
    (afterCalls calls).sorted.Pairwise Before ∧
    (∀ name address, (name, address) ∈ (afterCalls calls).sorted ↔
      firstDefinition? calls name = some address) ∧
    (∀ listed, IsListing (afterCalls calls) listed →
      listed.mergeSort precedes = (afterCalls calls).sorted) ∧
    ∀ left right, AllInserted left → AllInserted right → (∀ pair, pair ∈ left ↔ pair ∈ right) →
      ∀ leftListed rightListed, IsListing (afterCalls (inserts left)) leftListed →
        IsListing (afterCalls (inserts right)) rightListed →
        leftListed.mergeSort precedes = rightListed.mergeSort precedes := by
  refine ⟨?_, ?_, ?_, ?_, pairwise_sorted _, ?_, fun listed listing => listing.mergeSort_eq, ?_⟩
  · intro name
    rw [perform, get?_afterCalls]
  · intro name address existing defined
    rw [← get?_afterCalls] at defined
    exact perform_insert_of_some defined address
  · intro name address undefined
    rw [← get?_afterCalls] at undefined
    obtain ⟨next, _, performed⟩ := perform_insert_of_none undefined address
    rw [performed]
  · exact (length_sorted _).symm
  · intro name address
    rw [(isListing_sorted _).mem_iff, get?_afterCalls]
  · intro left right leftInserted rightInserted samePairs leftListed rightListed leftListing
      rightListing
    apply mergeSort_eq_of_perm
    apply leftListing.perm rightListing
    intro name
    apply Option.ext
    intro address
    rw [get?_afterCalls_inserts leftInserted, get?_afterCalls_inserts rightInserted, samePairs]

/-- A label that was cleared away may get another address, and labels at one address are printed in
one order only. -/
theorem first_definitions_stand_after_clear :
    (afterCalls [.insert "Z" 9, .clear, .insert "Z" 3, .get "A", .insert "A" 3]).perform
        (.insert "Z" 4) =
      (.existing 3, afterCalls [.insert "Z" 9, .clear, .insert "Z" 3, .get "A", .insert "A" 3]) ∧
    (afterCalls (inserts [("Z", 3), ("B", 6), ("A", 3)])).entries.mergeSort precedes =
      (afterCalls (inserts [("A", 3), ("Z", 3), ("B", 6)])).entries.mergeSort precedes := by
  obtain ⟨_, refused, _, _, _, _, _, canonical⟩ := first_definitions_stand
    [.insert "Z" 9, .clear, .insert "Z" 3, .get "A", .insert "A" 3]
  refine ⟨refused "Z" 4 3 (by decide), ?_⟩
  refine canonical [("Z", 3), ("B", 6), ("A", 3)] [("A", 3), ("Z", 3), ("B", 6)] (by decide)
    (by decide) ?_ _ _ (isListing_entries _) (isListing_entries _)
  intro pair
  simp only [List.mem_cons, List.not_mem_nil, or_false]
  tauto

end SicAssembler.SymbolTable
