import SicAssembler.Proofs.CommandEffects
import SicAssembler.Proofs.Extensions

/-! # When a run replaces its own input

Without an output option the object file stands beside the input: same directories, same stem, and
the extension `obj`. Two paths that differ in the file name only lead to two names in one directory,
so the object file is the input if and only if the names are equal, which is when the input already
has the extension `obj`. Such an input is replaced as soon as it assembles. Only the name `..obj` is
safe in spite of its extension: its object path is a directory.
-/

namespace SicAssembler

variable {tree : FileTree} {path : String} {place parent : List String}
  {front : List (List Char)} {name other : List Char}

namespace FileTree

/-- A path is cut into directories and a file name, and the directories lead to a place. -/
structure Leads (tree : FileTree) (path : String) (front : List (List Char)) (name : List Char)
    (parent : List String) : Prop where
  shape : path = String.ofList (Path.frontText front ++ name)
  frontWhole : ∀ segment ∈ front, '/' ∉ segment
  isName : Path.IsFileName name
  walked : tree.walk (tree.origin path) (front.map String.ofList) = .ok parent
  isParent : tree.isDirectory parent = true

private theorem isFileName_iff :
    Path.IsFileName name ↔ '/' ∉ name ∧ IsName (String.ofList name) := by
  have empty : String.ofList name = "" ↔ name = [] := String.ofList_inj
  have dot : String.ofList name = "." ↔ name = ['.'] := String.ofList_inj
  have dots : String.ofList name = ".." ↔ name = ['.', '.'] := String.ofList_inj
  constructor
  · rintro ⟨whole, moves, descends⟩
    refine ⟨whole, ?_, ?_⟩
    · rw [empty, dot]
      simpa [Path.isIdle] using moves
    · rwa [Ne, dots]
  · rintro ⟨whole, moves, descends⟩
    refine ⟨whole, ?_, ?_⟩
    · rw [empty, dot] at moves
      simpa [Path.isIdle] using moves
    · rwa [Ne, dots] at descends

private theorem exists_leads_of_locate (located : tree.locate path = .ok place)
    (file : tree.isDirectory place = false) :
    ∃ front name parent, tree.Leads path front name parent ∧
      place = parent ++ [String.ofList name] := by
  obtain ⟨fronts, last, parent, cut, isName, walked, isParent, rfl⟩ :=
    exists_name_of_walk (tree.isDirectory_origin path) located file
  obtain ⟨front, lasts, parts, rfl, lastEq⟩ := List.map_eq_append_iff.mp cut
  obtain ⟨name, rfl, rfl⟩ := List.map_eq_singleton_iff.mp lastEq
  have whole := Path.whole_of_mem_segments path.toList
  rw [parts] at whole
  refine ⟨front, name, parent, ⟨?_, ?_, ?_, walked, isParent⟩, rfl⟩
  · rw [← Path.eq_frontText_append parts, String.ofList_toList]
  · intro segment member
    exact whole segment (List.mem_append_left _ member)
  · exact isFileName_iff.mpr ⟨whole name (by simp), isName⟩

/-- The file name does not decide where a path starts. -/
theorem origin_frontText_append (whole : '/' ∉ name) (otherWhole : '/' ∉ other) :
    tree.origin (String.ofList (Path.frontText front ++ name)) =
      tree.origin (String.ofList (Path.frontText front ++ other)) := by
  cases front with
  | nil =>
    have noSlash : name.head? ≠ some '/' := fun first => whole (List.mem_of_head? first)
    have otherNoSlash : other.head? ≠ some '/' := fun first => otherWhole (List.mem_of_head? first)
    simp [origin, Path.frontText, noSlash, otherNoSlash]
  | cons segment rest => cases segment <;> simp [origin, Path.frontText]

/-- Another name behind the same directories is looked up in the same place. -/
theorem locateNew_beside (leads : tree.Leads path front name parent) (nonempty : other ≠ [])
    (whole : '/' ∉ other) :
    tree.locateNew (String.ofList (Path.frontText front ++ other)) =
      .ok (enter parent (String.ofList other)) := by
  have cut : (segments (String.ofList (Path.frontText front ++ other))).reverse =
      String.ofList other :: (front.map String.ofList).reverse := by
    rw [segments, String.toList_ofList, Path.segments_append leads.frontWhole whole]
    simp
  have start := leads.walked
  rw [leads.shape, origin_frontText_append leads.isName.whole whole] at start
  simp only [locateNew, cut]
  rw [List.dropWhile_cons_of_neg (by simpa using nonempty), List.reverse_cons, List.reverse_reverse]
  apply (walk_append_eq_ok_iff start).mpr
  exact walk_cons_eq_ok_iff.mpr ⟨leads.isParent, rfl⟩

/-- A name behind the same directories can only be written to at that name. -/
theorem eq_of_target?_beside (leads : tree.Leads path front name parent)
    (isName : Path.IsFileName other)
    (found : tree.target? (String.ofList (Path.frontText front ++ other)) =
      some (parent ++ [String.ofList name])) : other = name := by
  obtain ⟨located, _, _⟩ := target?_eq_some_iff.mp found
  rw [locateNew_beside leads isName.ne_nil isName.whole,
    enter_of_isName (isFileName_iff.mp isName).2] at located
  have same := List.append_cancel_left (Except.ok.inj located)
  exact String.ofList_injective (List.cons.inj same).1

private theorem target?_self (leads : tree.Leads path front name parent)
    (file : tree.isDirectory (parent ++ [String.ofList name]) = false) :
    tree.target? path = some (parent ++ [String.ofList name]) := by
  rw [target?_eq_some_iff]
  refine ⟨?_, ?_, file⟩
  · rw [leads.shape, locateNew_beside leads leads.isName.ne_nil leads.isName.whole,
      enter_of_isName (isFileName_iff.mp leads.isName).2]
  · rw [endsWithSlash, leads.shape, String.toList_ofList, beq_eq_false_iff_ne,
      List.getLast?_append_of_ne_nil _ leads.isName.ne_nil]
    intro last
    exact leads.isName.whole (List.mem_of_getLast? last)

end FileTree

namespace Path

def stemAndExtension? (path : List Char) : Option (List Char × List Char) :=
  (fileName? path).bind fun (_, name) => splitExtension? name

/-- The file name of a path has the extension `obj`, with more than a dot in front of it. -/
def IsObjectPath (path : String) : Prop :=
  ∃ split ∈ stemAndExtension? path.toList, split.1 ≠ ['.'] ∧ split.2 = ['o', 'b', 'j']

instance : Decidable (IsObjectPath path) :=
  inferInstanceAs (Decidable
    (∃ split ∈ stemAndExtension? path.toList, split.1 ≠ ['.'] ∧ split.2 = ['o', 'b', 'j']))

private theorem isObjectPath_iff (frontWhole : ∀ segment ∈ front, '/' ∉ segment)
    (isName : IsFileName name) :
    IsObjectPath (String.ofList (frontText front ++ name)) ↔
      ∃ stem, splitExtension? name = some (stem, ['o', 'b', 'j']) ∧ stem ≠ ['.'] := by
  rw [IsObjectPath, stemAndExtension?, String.toList_ofList, fileName?_append frontWhole isName]
  constructor
  · rintro ⟨⟨stem, _⟩, found, notDot, rfl⟩
    exact ⟨stem, found, notDot⟩
  · rintro ⟨stem, found, notDot⟩
    exact ⟨(stem, _), found, notDot, rfl⟩

/-- An object path is its own object file. -/
theorem objectFile_eq_self (frontWhole : ∀ segment ∈ front, '/' ∉ segment)
    (isName : IsFileName name)
    (isObject : IsObjectPath (String.ofList (frontText front ++ name))) :
    objectFile (String.ofList (frontText front ++ name)) =
      String.ofList (frontText front ++ name) := by
  obtain ⟨stem, found, notDot⟩ := (isObjectPath_iff frontWhole isName).mp isObject
  rw [objectFile, String.toList_ofList, withExtension_of_extension frontWhole isName found notDot,
    ← (splitExtension?_eq_some_iff.mp found).1]

end Path

namespace FileTree

/-- A file that is not named as an object file is not its own object file. -/
theorem target?_objectFile_ne (located : tree.locate path = .ok place)
    (unlike : ¬Path.IsObjectPath path) : tree.target? (Path.objectFile path) ≠ some place := by
  intro found
  obtain ⟨locatedNew, _, file⟩ := target?_eq_some_iff.mp found
  obtain ⟨front, name, parent, leads, rfl⟩ := exists_leads_of_locate located file
  have isName := leads.isName
  rw [leads.shape, Path.isObjectPath_iff leads.frontWhole isName] at unlike
  rw [leads.shape, Path.objectFile, String.toList_ofList] at found locatedNew
  cases split : Path.splitExtension? name with
  | none =>
    have newName := Path.isFileName_append isName.ne_nil isName.ne_dot isName.whole
      (by decide : '/' ∉ ['o', 'b', 'j'])
    rw [Path.withExtension_of_no_extension leads.frontWhole isName split] at found
    have same := eq_of_target?_beside leads newName found
    simpa using congrArg List.length same
  | some parts =>
    obtain ⟨stem, old⟩ := parts
    by_cases dots : stem = ['.']
    · -- The two dots that remain lead to a directory.
      subst dots
      rw [Path.withExtension_of_dots leads.frontWhole isName split,
        locateNew_beside leads (by decide) (by decide)] at locatedNew
      rw [← Except.ok.inj locatedNew] at file
      exact (isName_of_enter leads.isParent file).descends rfl
    · obtain ⟨shape, nonempty, _⟩ := Path.splitExtension?_eq_some_iff.mp split
      have newName := Path.isFileName_append nonempty dots (Path.not_mem_stem isName split)
        (by decide : '/' ∉ ['o', 'b', 'j'])
      rw [Path.withExtension_of_extension leads.frontWhole isName split dots] at found
      have same := (eq_of_target?_beside leads newName found).trans shape
      have sameExtension := (List.cons.inj (List.append_cancel_left same)).2
      exact unlike ⟨stem, by rw [split, sameExtension], dots⟩

/-- A file that is named as an object file is its own object file. -/
theorem target?_objectFile_of_isObjectPath (located : tree.locate path = .ok place)
    (file : tree.isDirectory place = false) (isObject : Path.IsObjectPath path) :
    tree.target? (Path.objectFile path) = some place := by
  obtain ⟨front, name, parent, leads, rfl⟩ := exists_leads_of_locate located file
  have self := isObject
  rw [leads.shape] at self
  have same := Path.objectFile_eq_self leads.frontWhole leads.isName self
  rw [← leads.shape] at same
  rw [same]
  exact target?_self leads file

end FileTree

namespace Command

/-- Without an output option, and with no listing in its place, the input is kept by a run if it is
not named as an object file or does not assemble. An input that is named as an object file and
assembles is replaced by its own records. -/
theorem source_survives_unless_named_as_object (tree : FileTree) {options : Options}
    {outcome : Outcome} {place : List String} (yields : options.Yields tree outcome)
    (unset : options.output = none) (located : tree.locate options.input = .ok place)
    (elsewhere : options.ListsElsewhere tree place) :
    (¬Path.IsObjectPath options.input → outcome.tree.file? place = tree.file? place) ∧
    ((∀ program after, ¬Assembles tree options program after) →
      outcome.tree.file? place = tree.file? place) ∧
    (Path.IsObjectPath options.input → tree.isDirectory place = false →
      ∀ program after, Assembles tree options program after →
        outcome.tree.file? place = some (Text.unlines program.records).toUTF8) := by
  have objectPath := (hasObject_objectPath options).beside unset
  have kept (fails : ∀ program after, ¬Assembles tree options program after) :
      (assembleFile tree options).tree.file? place = tree.file? place := by
    rw [(assembleFile_of_fails fails).1]
  rw [yields.eq_assembleFile]
  refine ⟨?_, kept, ?_⟩
  · intro unlike
    by_cases assembles : ∃ program after, Assembles tree options program after
    · obtain ⟨program, after, assembles⟩ := assembles
      apply file?_assembleFile assembles _ elsewhere
      rw [objectPath]
      exact FileTree.target?_objectFile_ne located unlike
    · apply kept
      intro program after found
      exact assembles ⟨program, after, found⟩
  · intro isObject file program after assembles
    apply file?_assembleFile_of_target assembles _ elsewhere
    rw [objectPath]
    exact FileTree.target?_objectFile_of_isObjectPath located file isObject

/-- One source under two names that both end with `.obj`; the first one has no extension. -/
def objectNamedTree : FileTree where
  files := [([".obj"], returnSource.toUTF8), (["x.obj"], returnSource.toUTF8)]

theorem source_survives_unless_named_as_object_in_sample :
    (¬Path.IsObjectPath ".obj" ∧
      (run objectNamedTree [".obj"]).tree.file? [".obj"] = objectNamedTree.file? [".obj"]) ∧
    Path.IsObjectPath "x.obj" ∧
    (run objectNamedTree ["x.obj"]).tree.file? ["x.obj"] =
      some (Text.unlines ["HP     000000000003", "T000000034F0000", "E000000"]).toUTF8 := by
  have hidden : Request.ofArguments [".obj"] = .assemble { input := ".obj" } := by decide
  have named : Request.ofArguments ["x.obj"] = .assemble { input := "x.obj" } := by decide
  refine ⟨⟨by decide, ?_⟩, by decide, ?_⟩
  · have survives :=
      source_survives_unless_named_as_object objectNamedTree (.running hidden) rfl rfl (by decide)
    exact survives.1 (by decide)
  · have survives :=
      source_survives_unless_named_as_object objectNamedTree (.running named) rfl rfl (by decide)
    have replaced := survives.2.2 (by decide) (by decide) _ _ (assembles_returnSource rfl rfl)
    exact replaced

/-- Leaving out the output option does not protect every input: one that is named as an object file
is replaced without a word. -/
theorem default_output_can_replace_the_source :
    ¬∀ (tree : FileTree) (arguments : List String) (options : Options) (place : List String),
      Request.ofArguments arguments = .assemble options → options.output = none →
      tree.locate options.input = .ok place → options.ListsElsewhere tree place →
      (run tree arguments).tree.file? place = tree.file? place := by
  intro protects
  have valid : Request.ofArguments ["x.obj"] = .assemble { input := "x.obj" } := by decide
  have assembles : Assembles objectNamedTree { input := "x.obj" } _ _ :=
    assembles_returnSource rfl rfl
  have kept := protects objectNamedTree ["x.obj"] { input := "x.obj" } ["x.obj"] valid rfl rfl
    (by decide)
  rw [(Options.Yields.running valid).eq_assembleFile,
    file?_assembleFile_of_target assembles (by decide) (by decide)] at kept
  have same := String.toByteArray_inj.mp (Option.some.inj kept)
  exact absurd same (by decide)

end Command

end SicAssembler
