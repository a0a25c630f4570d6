import SicAssembler.Command.Run
import SicAssembler.Proofs.Extensions
import SicAssembler.Proofs.FileWrites
import SicAssembler.Proofs.RecordLines

/-! # What a run of the command changes

A run either fails before it writes anything, or it has a program and writes the object file and
then the listing. Which files these two writes reach is settled before the first of them, so the
trees before and after a run differ at most in these two files. The object file has its content as
soon as it is written; only a listing at the same place can replace it. All this holds for every
choice of options; arguments do no more than choose them.
-/

namespace SicAssembler.Command

variable {tree : FileTree} {place : List String} {path text : String}
  {writes rest : List (String × String)} {options : Options} {program : ObjectProgram}
  {after : Assembler}

section Writing

private theorem writeAll_of_target (found : tree.target? path = some place) (text : String)
    (rest : List (String × String)) :
    writeAll tree ((path, text) :: rest) = writeAll (tree.put place text.toUTF8) rest := by
  rw [writeAll, FileTree.write_of_target found]

private theorem exists_writeAll_eq_of_no_target (absent : tree.target? path = none) (text : String)
    (rest : List (String × String)) :
    ∃ failure, writeAll tree ((path, text) :: rest) = (some failure, tree) := by
  obtain ⟨failure, failed⟩ := FileTree.write_of_no_target absent text.toUTF8
  exact ⟨failure, by rw [writeAll, failed]⟩

/-- Files at which no write aims keep their content, whether all writes succeed or not. -/
theorem file?_writeAll (missed : ∀ write ∈ writes, tree.target? write.1 ≠ some place) :
    (writeAll tree writes).2.file? place = tree.file? place := by
  induction writes generalizing tree with
  | nil => rfl
  | cons write rest ih =>
    obtain ⟨path, text⟩ := write
    obtain ⟨missedHere, missedLater⟩ := List.forall_mem_cons.mp missed
    cases found : tree.target? path with
    | none =>
      obtain ⟨failure, stopped⟩ := exists_writeAll_eq_of_no_target found text rest
      rw [stopped]
    | some written =>
      have differs : place ≠ written := by
        rintro rfl
        exact missedHere found
      rw [writeAll_of_target found, ih, FileTree.file?_put, if_neg differs]
      intro later member
      rw [FileTree.target?_put found]
      exact missedLater later member

/-- The first file keeps what was written to it if no later write aims at it. -/
theorem file?_writeAll_of_target (found : tree.target? path = some place)
    (missed : ∀ write ∈ rest, tree.target? write.1 ≠ some place) :
    (writeAll tree ((path, text) :: rest)).2.file? place = some text.toUTF8 := by
  rw [writeAll_of_target found, file?_writeAll, FileTree.file?_put, if_pos rfl]
  intro later member
  rw [FileTree.target?_put found]
  exact missed later member

/-- All writes succeed if and only if each of them could be made in the first tree. -/
theorem writeAll_fst_eq_none_iff :
    (writeAll tree writes).1 = none ↔ ∀ write ∈ writes, (tree.target? write.1).isSome = true := by
  induction writes generalizing tree with
  | nil => simp [writeAll]
  | cons write rest ih =>
    obtain ⟨path, text⟩ := write
    rw [List.forall_mem_cons]
    cases found : tree.target? path with
    | none =>
      obtain ⟨failure, stopped⟩ := exists_writeAll_eq_of_no_target found text rest
      simp [stopped]
    | some written =>
      rw [writeAll_of_target found, ih]
      simp [FileTree.target?_put found]

end Writing

section Assembling

private theorem fromUTF8?_toUTF8 (text : String) : String.fromUTF8? text.toUTF8 = some text := by
  simp only [String.fromUTF8?, String.toUTF8_eq_toByteArray, dif_pos text.isValidUTF8]
  rfl

/-- The input file holds a text that assembles to a program, and leaves an assembler behind. -/
def Assembles (tree : FileTree) (options : Options) (program : ObjectProgram) (after : Assembler) :
    Prop :=
  ∃ content text, tree.read options.input = .ok content ∧ String.fromUTF8? content = some text ∧
    ({ machine := options.machine } : Assembler).assembleText text = (.ok program, after)

def Products.ofProgram (program : ObjectProgram) (after : Assembler) : Products :=
  ⟨Text.unlines program.records, renderListing after.listing, renderSymbols after.symbols⟩

private theorem produce_eq_ok_iff {machine : Machine} {content : ByteArray} {products : Products} :
    produce machine content = .ok products ↔
      ∃ text program after, String.fromUTF8? content = some text ∧
        ({ machine := machine } : Assembler).assembleText text = (.ok program, after) ∧
        products = .ofProgram program after := by
  unfold produce
  cases decoded : String.fromUTF8? content with
  | none => simp
  | some text =>
    cases assembled : ({ machine := machine } : Assembler).assembleText text with
    | mk result after =>
      cases result with
      | error diagnostic => simp [assembled]
      | ok program => simp [assembled, Products.ofProgram, eq_comm]

/-- Without a program the run fails and leaves the tree alone. -/
theorem exists_assembleFile_eq_fail
    (fails : ∀ program after, ¬Assembles tree options program after) :
    ∃ diagnostic, assembleFile tree options = fail tree diagnostic := by
  unfold assembleFile
  cases input : tree.read options.input with
  | error failure => exact ⟨.file failure, rfl⟩
  | ok content =>
    cases produced : produce options.machine content with
    | error diagnostic => exact ⟨diagnostic, by simp only [produced]⟩
    | ok products =>
      obtain ⟨text, program, after, decoded, assembled, rfl⟩ := produce_eq_ok_iff.mp produced
      exact absurd ⟨content, text, input, decoded, assembled⟩ (fails program after)

private theorem assembleFile_of_written {next : FileTree}
    (assembles : Assembles tree options program after)
    (written : writeAll tree (options.writes (.ofProgram program after)) = (none, next)) :
    assembleFile tree options =
      { status := 0, output := options.prints (.ofProgram program after), tree := next } := by
  obtain ⟨content, text, input, decoded, assembled⟩ := assembles
  have produced := produce_eq_ok_iff.mpr ⟨text, program, after, decoded, assembled, rfl⟩
  simp only [assembleFile, input, produced, written]

private theorem assembleFile_of_write_failure {next : FileTree} {failure : FileFailure}
    (assembles : Assembles tree options program after)
    (stopped : writeAll tree (options.writes (.ofProgram program after)) = (some failure, next)) :
    assembleFile tree options = fail next (.file failure) := by
  obtain ⟨content, text, input, decoded, assembled⟩ := assembles
  have produced := produce_eq_ok_iff.mpr ⟨text, program, after, decoded, assembled, rfl⟩
  simp only [assembleFile, input, produced, stopped]

private theorem tree_assembleFile (assembles : Assembles tree options program after) :
    (assembleFile tree options).tree =
      (writeAll tree (options.writes (.ofProgram program after))).2 := by
  cases writes : writeAll tree (options.writes (.ofProgram program after)) with
  | mk result next =>
    cases result with
    | none => rw [assembleFile_of_written assembles writes]
    | some failure =>
      rw [assembleFile_of_write_failure assembles writes]
      rfl

end Assembling

section Effects

/-- The object file is where the output option says. Without that option it is the input with the
extension `obj`. -/
structure Options.HasObject (options : Options) (object : String) : Prop where
  named : ∀ path ∈ options.output, object = path
  beside : options.output = none → object = Path.objectFile options.input
  extended : options.output = none → ∀ front name, (∀ segment ∈ front, '/' ∉ segment) →
    Path.IsFileName name → options.input.toList = Path.frontText front ++ name →
    ∀ other, Path.Extended ['o', 'b', 'j'] options.input.toList other ↔ other = object.toList

theorem hasObject_objectPath (options : Options) : options.HasObject options.objectPath where
  named := by
    intro path given
    rw [Options.objectPath, Option.mem_def.mp given, Option.getD_some]
  beside := by
    intro unset
    rw [Options.objectPath, unset, Option.getD_none]
  extended := by
    intro unset front name frontWhole isName shape other
    rw [Options.objectPath, unset, Option.getD_none, Path.objectFile, String.toList_ofList, shape]
    exact Path.extended_iff frontWhole isName

/-- The object file and the listing, if one is wanted, can both be written. -/
def Options.Writable (options : Options) (tree : FileTree) (object : String) : Prop :=
  ∀ path ∈ object :: options.listing.toList, (tree.target? path).isSome = true

def Options.ListsElsewhere (options : Options) (tree : FileTree) (place : List String) : Prop :=
  ∀ path ∈ options.listing, tree.target? path ≠ some place

instance {object : String} : Decidable (options.Writable tree object) :=
  inferInstanceAs (Decidable (∀ path ∈ _, _ = _))

instance : Decidable (options.ListsElsewhere tree place) :=
  inferInstanceAs (Decidable (∀ path ∈ options.listing, tree.target? path ≠ some place))

/-- The outcome of assembling with options, and of a run with arguments that choose them. -/
inductive Options.Yields (options : Options) (tree : FileTree) : Outcome → Prop
  | assembling : options.Yields tree (assembleFile tree options)
  | running {arguments : List String} (valid : Request.ofArguments arguments = .assemble options) :
      options.Yields tree (run tree arguments)

theorem Options.Yields.eq_assembleFile {outcome : Outcome} (yields : options.Yields tree outcome) :
    outcome = assembleFile tree options := by
  cases yields with
  | assembling => rfl
  | running valid => simp only [run, valid]

/-- Files other than the object file and the listing keep their content. -/
theorem file?_assembleFile (assembles : Assembles tree options program after)
    (missed : tree.target? options.objectPath ≠ some place)
    (elsewhere : options.ListsElsewhere tree place) :
    (assembleFile tree options).tree.file? place = tree.file? place := by
  rw [tree_assembleFile assembles]
  apply file?_writeAll
  rw [Options.writes, List.forall_mem_cons]
  refine ⟨missed, ?_⟩
  simpa [Options.ListsElsewhere] using elsewhere

theorem file?_assembleFile_of_target (assembles : Assembles tree options program after)
    (found : tree.target? options.objectPath = some place)
    (elsewhere : options.ListsElsewhere tree place) :
    (assembleFile tree options).tree.file? place = some (Text.unlines program.records).toUTF8 := by
  rw [tree_assembleFile assembles, Options.writes]
  apply file?_writeAll_of_target found
  simpa [Options.ListsElsewhere] using elsewhere

private theorem writable_iff (products : Products) :
    options.Writable tree options.objectPath ↔
      (writeAll tree (options.writes products)).1 = none := by
  rw [writeAll_fst_eq_none_iff, Options.Writable, Options.writes, List.forall_mem_cons,
    List.forall_mem_cons]
  simp

/-- Without a program nothing is written or printed. -/
theorem assembleFile_of_fails (fails : ∀ program after, ¬Assembles tree options program after) :
    (assembleFile tree options).tree = tree ∧ (assembleFile tree options).output = "" ∧
      (assembleFile tree options).status = 1 := by
  obtain ⟨diagnostic, failed⟩ := exists_assembleFile_eq_fail fails
  rw [failed]
  exact ⟨rfl, rfl, rfl⟩

/-- The symbols are printed when all files are written. -/
theorem assembleFile_of_writable (assembles : Assembles tree options program after)
    (writable : options.Writable tree options.objectPath) :
    (assembleFile tree options).status = 0 ∧
      (assembleFile tree options).output =
        if options.symbols then renderSymbols after.symbols else "" := by
  cases writes : writeAll tree (options.writes (.ofProgram program after)) with
  | mk result next =>
    have succeeded := (writable_iff (.ofProgram program after)).mp writable
    rw [writes] at succeeded
    cases succeeded
    rw [assembleFile_of_written assembles writes]
    exact ⟨rfl, rfl⟩

private theorem assembleFile_of_not_writable (assembles : Assembles tree options program after)
    (blocked : ¬options.Writable tree options.objectPath) :
    (assembleFile tree options).status = 1 ∧ (assembleFile tree options).output = "" := by
  cases writes : writeAll tree (options.writes (.ofProgram program after)) with
  | mk result next =>
    rw [writable_iff (.ofProgram program after), writes] at blocked
    obtain ⟨failure, rfl⟩ := Option.ne_none_iff_exists'.mp blocked
    rw [assembleFile_of_write_failure assembles writes]
    exact ⟨rfl, rfl⟩

/-- The listing is the last file written, so nothing replaces it. -/
theorem file?_listing_assembleFile (assembles : Assembles tree options program after)
    (writable : options.Writable tree options.objectPath) (wanted : options.listing = some path)
    (found : tree.target? path = some place) :
    (assembleFile tree options).tree.file? place = some (renderListing after.listing).toUTF8 := by
  obtain ⟨object, foundObject⟩ := Option.isSome_iff_exists.mp (writable _ List.mem_cons_self)
  rw [tree_assembleFile assembles, Options.writes, writeAll_of_target foundObject, wanted]
  apply file?_writeAll_of_target
  · rw [FileTree.target?_put foundObject, found]
  · simp

/-- Options that differ at most in the listing and the symbols that they ask for. -/
structure Options.SameObject (options other : Options) : Prop where
  input : other.input = options.input
  output : other.output = options.output
  machine : other.machine = options.machine

namespace Options.SameObject

variable {other : Options} (same : options.SameObject other)

include same

theorem assembles (assembles : Assembles tree options program after) :
    Assembles tree other program after := by
  unfold Assembles
  rw [same.input, same.machine]
  exact assembles

private theorem objectPath_eq : other.objectPath = options.objectPath := by
  rw [objectPath, objectPath, same.input, same.output]

end Options.SameObject

/-- What an outcome changes when there is a program, with the object file at a path. -/
structure Options.Changes (options : Options) (tree : FileTree) (object : String)
    (program : ObjectProgram) (after : Assembler) (outcome : Outcome) : Prop where
  /-- Files other than the object file and the listing are as before. -/
  others : ∀ place, tree.target? object ≠ some place → options.ListsElsewhere tree place →
    outcome.tree.file? place = tree.file? place
  /-- The object file holds the records, whatever becomes of the listing. -/
  records : ∀ place, tree.target? object = some place → options.ListsElsewhere tree place →
    outcome.tree.file? place = some (Text.unlines program.records).toUTF8
  /-- What else is asked for does not change the object file. -/
  independent : ∀ place, tree.target? object = some place → options.ListsElsewhere tree place →
    ∀ other otherOutcome, options.SameObject other → other.ListsElsewhere tree place →
      other.Yields tree otherOutcome →
      otherOutcome.tree.file? place = outcome.tree.file? place
  /-- The symbols are printed when all files are written. -/
  succeeds : options.Writable tree object →
    outcome.status = 0 ∧
      outcome.output = if options.symbols then renderSymbols after.symbols else ""
  listing : options.Writable tree object → ∀ path ∈ options.listing, ∀ place,
    tree.target? path = some place →
    outcome.tree.file? place = some (renderListing after.listing).toUTF8
  stops : ¬options.Writable tree object → outcome.status = 1 ∧ outcome.output = ""

private theorem changes_assembleFile (assembles : Assembles tree options program after) :
    options.Changes tree options.objectPath program after (assembleFile tree options) where
  others := fun _ missed elsewhere => file?_assembleFile assembles missed elsewhere
  records := fun _ found elsewhere => file?_assembleFile_of_target assembles found elsewhere
  independent := by
    intro place found elsewhere other otherOutcome same otherElsewhere yields
    rw [yields.eq_assembleFile, file?_assembleFile_of_target assembles found elsewhere]
    apply file?_assembleFile_of_target (same.assembles assembles) _ otherElsewhere
    rw [same.objectPath_eq, found]
  succeeds := assembleFile_of_writable assembles
  listing := fun writable _ wanted _ found =>
    file?_listing_assembleFile assembles writable wanted found
  stops := assembleFile_of_not_writable assembles

/-- A run changes nothing that it was not asked to change. If there is no program, it changes
nothing at all and prints nothing. If there is one, only the object file and the listing can change;
the object file holds the records, one a line, whatever becomes of the listing and the symbols; and
the symbols are printed only if all files are written. -/
theorem run_changes_only_requested_files (tree : FileTree) (options : Options) {outcome : Outcome}
    (yields : options.Yields tree outcome) :
    ((∀ program after, ¬Assembles tree options program after) →
      outcome.tree = tree ∧ outcome.output = "" ∧ outcome.status = 1) ∧
    ∀ program after, Assembles tree options program after →
      (∃ object, options.HasObject object ∧
        options.Changes tree object program after outcome) ∧
      Text.lines (Text.unlines program.records) = program.records ∧
      (Text.splitParts '\n' (Text.unlines program.records).toList).1 ::
          (Text.splitParts '\n' (Text.unlines program.records).toList).2 =
        program.records.map String.toList ++ [[]] := by
  rw [yields.eq_assembleFile]
  refine ⟨assembleFile_of_fails, ?_⟩
  intro program after assembles
  have ⟨_, _, _, _, assembled⟩ := assembles
  refine ⟨⟨options.objectPath, ?_, ?_⟩, lines_unlines_records assembled⟩
  · exact hasObject_objectPath options
  · exact changes_assembleFile assembles

/-- A routine that returns at once. -/
def returnSource : String := "P START 0\nF RSUB\n END F\n"

theorem assembles_returnSource (input : tree.read options.input = .ok returnSource.toUTF8)
    (machine : options.machine = .xe) :
    Assembles tree options ⟨⟨"P", 0, 3⟩, [⟨0, [0x4F, 0, 0]⟩], [], 0⟩
      { machine := .xe, name := "P", start := 0, length := 3
        symbols := ⟨[("F", 0), ("P", 0)], by decide⟩
        listing :=
          [⟨1, 0, "P START 0", ""⟩, ⟨2, 0, "F RSUB", "4F0000"⟩, ⟨3, 3, "END F", ""⟩] } := by
  refine ⟨_, _, input, fromUTF8?_toUTF8 _, ?_⟩
  rw [machine]
  decide +kernel

/-- A tree with one source file and a directory that no listing can be written to. -/
def blockedTree : FileTree where
  directories := [["d"]]
  files := [(["a.asm"], returnSource.toUTF8)]

theorem run_changes_only_requested_files_blocked :
    (let outcome := run blockedTree ["-s", "-l", "a.lst", "-o", "b.o", "a.asm"]
    outcome.tree.file? ["b.o"] =
      some (Text.unlines ["HP     000000000003", "T000000034F0000", "E000000"]).toUTF8 ∧
    outcome.tree.file? ["a.obj"] = none ∧
    outcome.tree.file? ["a.asm"] = some returnSource.toUTF8 ∧
    outcome.status = 0 ∧ outcome.output = "F        000000\nP        000000\n") ∧
    let outcome := run blockedTree ["-s", "-l", "d", "a.asm"]
    outcome.tree.file? ["a.obj"] =
      some (Text.unlines ["HP     000000000003", "T000000034F0000", "E000000"]).toUTF8 ∧
    outcome.tree.file? ["a.asm"] = some returnSource.toUTF8 ∧
    outcome.status = 1 ∧ outcome.output = "" := by
  have named : Request.ofArguments ["-s", "-l", "a.lst", "-o", "b.o", "a.asm"] =
      .assemble ⟨"a.asm", some "b.o", .xe, some "a.lst", true⟩ := by decide
  have beside : Request.ofArguments ["-s", "-l", "d", "a.asm"] =
      .assemble ⟨"a.asm", none, .xe, some "d", true⟩ := by decide
  constructor
  · obtain ⟨⟨object, hasObject, changes⟩, _⟩ :=
      (run_changes_only_requested_files blockedTree _ (.running named)).2 _ _
        (assembles_returnSource rfl rfl)
    cases hasObject.named "b.o" rfl
    refine ⟨?_, ?_, ?_, ?_⟩
    · exact changes.records ["b.o"] (by decide) (by decide)
    · exact changes.others ["a.obj"] (by decide) (by decide)
    · exact changes.others ["a.asm"] (by decide) (by decide)
    · obtain ⟨status, output⟩ := changes.succeeds (by decide)
      have ordered : [("F", 0), ("P", 0)].mergeSort SymbolTable.precedes = [("F", 0), ("P", 0)] :=
        List.mergeSort_of_pairwise (by decide)
      rw [if_pos rfl, renderSymbols, SymbolTable.sorted, ordered] at output
      exact ⟨status, output.trans (by decide +kernel)⟩
  · obtain ⟨⟨object, hasObject, changes⟩, _⟩ :=
      (run_changes_only_requested_files blockedTree _ (.running beside)).2 _ _
        (assembles_returnSource rfl rfl)
    have isName : Path.IsFileName (['a'] ++ '.' :: ['a', 's', 'm']) :=
      ⟨by decide, by decide, by decide⟩
    have extended : Path.Extended ['o', 'b', 'j'] "a.asm".toList "a.obj".toList :=
      .replaced (List.forall_mem_nil _) isName (by decide) (by decide) (by decide)
    have sameText := (hasObject.extended rfl [] _ (List.forall_mem_nil _) isName rfl _).mp extended
    cases String.toList_injective sameText
    refine ⟨?_, ?_, ?_⟩
    · exact changes.records ["a.obj"] (by decide) (by decide)
    · exact changes.others ["a.asm"] (by decide) (by decide)
    · exact changes.stops (by decide)

end Effects

end SicAssembler.Command
