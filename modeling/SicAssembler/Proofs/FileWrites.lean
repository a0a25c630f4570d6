import Mathlib.Data.List.Basic
import SicAssembler.Command.FileTree

/-! # What a write changes

A path leads to a directory or to a name in a directory. Writing to a name makes or replaces one
file, and makes no place a directory that was none: all directories on the way are there already. So
every other path leads where it led before, and what a second write does can be told from the tree
before the first one.
-/

namespace SicAssembler.FileTree

variable {tree : FileTree} {place other : List String} {path : String} {content : ByteArray}

section Directories

private theorem isDirectory_iff :
    tree.isDirectory place = true ↔
      place <+: tree.workingDirectory ∨ (∃ directory ∈ tree.directories, place <+: directory) ∨
        ∃ entry ∈ tree.files, place <+: entry.1 ∧ place ≠ entry.1 := by
  simp [isDirectory, or_assoc]

/-- What lies above a directory is a directory. -/
theorem isDirectory_of_isPrefix (directory : tree.isDirectory place = true)
    (above : other <+: place) : tree.isDirectory other = true := by
  rw [isDirectory_iff] at directory ⊢
  rcases directory with working | ⟨made, member, below⟩ | ⟨entry, member, below, differs⟩
  · exact .inl (above.trans working)
  · exact .inr (.inl ⟨made, member, above.trans below⟩)
  · refine .inr (.inr ⟨entry, member, above.trans below, ?_⟩)
    rintro rfl
    exact differs (below.eq_of_length_le above.length_le)

theorem isDirectory_origin (tree : FileTree) (path : String) :
    tree.isDirectory (tree.origin path) = true := by
  rw [isDirectory_iff, origin]
  split
  · exact .inl (List.nil_prefix)
  · exact .inl (List.prefix_refl _)

/-- A file in a directory makes no new directory. -/
theorem isDirectory_put {parent : List String} {name : String}
    (directory : tree.isDirectory parent = true) :
    (tree.put (parent ++ [name]) content).isDirectory other = tree.isDirectory other := by
  rw [Bool.eq_iff_iff]
  constructor
  · intro found
    rw [isDirectory_iff] at found
    rcases found with working | made | ⟨entry, member, below, differs⟩
    · exact isDirectory_iff.mpr (.inl working)
    · exact isDirectory_iff.mpr (.inr (.inl made))
    · rcases List.mem_cons.mp member with rfl | old
      · apply isDirectory_of_isPrefix directory
        exact (List.prefix_concat_iff.mp below).resolve_left differs
      · exact isDirectory_iff.mpr (.inr (.inr ⟨entry, (List.mem_filter.mp old).1, below, differs⟩))
  · intro found
    rw [isDirectory_iff] at found ⊢
    rcases found with working | made | ⟨entry, member, below, differs⟩
    · exact .inl working
    · exact .inr (.inl made)
    · refine .inr (.inr ?_)
      by_cases here : entry.1 = parent ++ [name]
      · exact ⟨(parent ++ [name], content), List.mem_cons_self, here ▸ below, here ▸ differs⟩
      · refine ⟨entry, List.mem_cons_of_mem _ (List.mem_filter.mpr ⟨member, ?_⟩), below, differs⟩
        simpa using here

end Directories

section Walks

variable {start parent : List String} {segment : String} {segments front rest : List String}

/-- A segment that names something in a directory. -/
structure IsName (segment : String) : Prop where
  moves : ¬(segment = "" ∨ segment = ".")
  descends : segment ≠ ".."

/-- The place to which a segment leads from a directory. -/
def enter (place : List String) (segment : String) : List String :=
  if segment = "" ∨ segment = "." then place
  else if segment = ".." then place.dropLast
  else place ++ [segment]

theorem enter_of_isName (isName : IsName segment) : enter place segment = place ++ [segment] := by
  rw [enter, if_neg isName.moves, if_neg isName.descends]

/-- Only a name leads out of the directories. -/
theorem isName_of_enter (directory : tree.isDirectory start = true)
    (file : tree.isDirectory (enter start segment) = false) : IsName segment := by
  by_contra unnamed
  have stays : enter start segment <+: start := by
    unfold enter
    split_ifs with idle up
    · exact List.prefix_refl start
    · exact start.dropLast_prefix
    · exact absurd ⟨idle, up⟩ unnamed
  rw [isDirectory_of_isPrefix directory stays] at file
  contradiction

theorem walk_cons_eq_ok_iff :
    tree.walk start (segment :: rest) = .ok place ↔
      tree.isDirectory start = true ∧ tree.walk (enter start segment) rest = .ok place := by
  rw [walk, enter]
  by_cases directory : tree.isDirectory start = true
  · rw [if_pos directory, and_iff_right directory]
    split_ifs <;> rfl
  · rw [if_neg directory]
    split_ifs <;> simp [directory]

theorem walk_append_eq_ok_iff (walked : tree.walk start front = .ok parent) :
    tree.walk start (front ++ rest) = .ok place ↔ tree.walk parent rest = .ok place := by
  induction front generalizing start with
  | nil =>
    cases walked
    rfl
  | cons segment others ih =>
    obtain ⟨directory, later⟩ := walk_cons_eq_ok_iff.mp walked
    rw [List.cons_append, walk_cons_eq_ok_iff, and_iff_right directory, ih later]

/-- A path that does not lead to a directory ends with a name in one. -/
theorem exists_name_of_walk (directory : tree.isDirectory start = true)
    (walked : tree.walk start segments = .ok place) (file : tree.isDirectory place = false) :
    ∃ front name parent, segments = front ++ [name] ∧ IsName name ∧
      tree.walk start front = .ok parent ∧ tree.isDirectory parent = true ∧
      place = parent ++ [name] := by
  induction segments generalizing start with
  | nil =>
    cases walked
    rw [directory] at file
    contradiction
  | cons segment rest ih =>
    obtain ⟨_, later⟩ := walk_cons_eq_ok_iff.mp walked
    cases below : tree.isDirectory (enter start segment) with
    | true =>
      obtain ⟨front, name, parent, rfl, isName, led, isParent, rfl⟩ := ih below later
      refine ⟨segment :: front, name, parent, rfl, isName, ?_, isParent, rfl⟩
      exact walk_cons_eq_ok_iff.mpr ⟨directory, led⟩
    | false =>
      -- Nothing can follow a name that is no directory.
      cases rest with
      | nil =>
        have isName := isName_of_enter directory below
        cases later
        exact ⟨[], segment, start, rfl, isName, rfl, directory, enter_of_isName isName⟩
      | cons next others =>
        rw [(walk_cons_eq_ok_iff.mp later).1] at below
        contradiction

/-- Directories alone decide where a path leads. -/
theorem walk_eq_ok_of_isDirectory_eq {changed : FileTree}
    (same : ∀ place, changed.isDirectory place = tree.isDirectory place)
    (walked : tree.walk start segments = .ok place) : changed.walk start segments = .ok place := by
  induction segments generalizing start with
  | nil => exact walked
  | cons segment rest ih =>
    obtain ⟨directory, later⟩ := walk_cons_eq_ok_iff.mp walked
    exact walk_cons_eq_ok_iff.mpr ⟨(same start).trans directory, ih later⟩

end Walks

section Targets

/-- The file that a write to a path makes or replaces, if the path can be written to. -/
def target? (tree : FileTree) (path : String) : Option (List String) :=
  match tree.locateNew path with
  | .ok place => if endsWithSlash path || tree.isDirectory place then none else some place
  | .error _ => none

theorem target?_eq_some_iff :
    tree.target? path = some place ↔
      tree.locateNew path = .ok place ∧ endsWithSlash path = false ∧
        tree.isDirectory place = false := by
  unfold target?
  cases tree.locateNew path with
  | error failure => simp
  | ok found =>
    by_cases blocked : (endsWithSlash path || tree.isDirectory found) = true
    · simp only [if_pos blocked, reduceCtorEq, Except.ok.injEq, false_iff]
      rintro ⟨rfl, plain, file⟩
      simp [plain, file] at blocked
    · simp only [if_neg blocked, Option.some.injEq, Except.ok.injEq]
      simp only [Bool.or_eq_true, not_or, Bool.not_eq_true] at blocked
      constructor
      · rintro rfl
        exact ⟨rfl, blocked⟩
      · exact And.left

theorem write_of_target (found : tree.target? path = some place) (content : ByteArray) :
    tree.write path content = .ok (tree.put place content) := by
  obtain ⟨located, plain, file⟩ := target?_eq_some_iff.mp found
  simp [write, located, plain, file, bind, Except.bind]

theorem write_of_no_target (absent : tree.target? path = none) (content : ByteArray) :
    ∃ failure, tree.write path content = .error failure := by
  unfold target? at absent
  unfold write
  cases located : tree.locateNew path with
  | error failure => exact ⟨failure, rfl⟩
  | ok place =>
    simp only [located] at absent
    by_cases blocked : (endsWithSlash path || tree.isDirectory place) = true
    · refine ⟨.isDirectory, ?_⟩
      simp only [bind, Except.bind, if_pos blocked]
    · rw [if_neg blocked] at absent
      contradiction

private theorem exists_parent_of_target (found : tree.target? path = some place) :
    ∃ parent name, place = parent ++ [name] ∧ tree.isDirectory parent = true := by
  obtain ⟨located, _, file⟩ := target?_eq_some_iff.mp found
  obtain ⟨_, name, parent, _, _, _, isParent, rfl⟩ :=
    exists_name_of_walk (isDirectory_origin tree path) located file
  exact ⟨parent, name, rfl, isParent⟩

/-- Writing one file does not change which file another path can be written to. -/
theorem target?_put (found : tree.target? path = some place) (content : ByteArray)
    (otherPath : String) : (tree.put place content).target? otherPath = tree.target? otherPath := by
  obtain ⟨parent, name, rfl, isParent⟩ := exists_parent_of_target found
  have same (query : List String) :
      (tree.put (parent ++ [name]) content).isDirectory query = tree.isDirectory query :=
    isDirectory_put isParent
  apply Option.ext
  intro query
  rw [target?_eq_some_iff, target?_eq_some_iff, same]
  have located : (tree.put (parent ++ [name]) content).locateNew otherPath = .ok query ↔
      tree.locateNew otherPath = .ok query :=
    ⟨walk_eq_ok_of_isDirectory_eq fun other => (same other).symm, walk_eq_ok_of_isDirectory_eq same⟩
  rw [located]

end Targets

end SicAssembler.FileTree
