import Mathlib.Data.List.TakeWhile
import SicAssembler.Command.Path

/-! # Paths with another extension

A path that ends with a file name is the text of its directories followed by that name, and its
segments tell the two apart. Changing the extension changes the name only. There is one exception:
a name that is two dots and an extension loses its extension and becomes `..`, which is no name.
`Extended` says this of the texts alone, and `extended_iff` that `withExtension` does nothing else.
-/

namespace SicAssembler.Path

variable {path name stem old extension : List Char} {front : List (List Char)}

section FileNames

/-- The text is one segment, and the segment is a name. -/
structure IsFileName (name : List Char) : Prop where
  whole : '/' ∉ name
  moves : isIdle name = false
  descends : name ≠ ['.', '.']

theorem IsFileName.ne_nil (isName : IsFileName name) : name ≠ [] := by
  rintro rfl
  exact absurd isName.moves (by decide)

theorem IsFileName.ne_dot (isName : IsFileName name) : name ≠ ['.'] := by
  rintro rfl
  exact absurd isName.moves (by decide)

theorem isFileName_append (nonempty : stem ≠ []) (notDot : stem ≠ ['.']) (stemWhole : '/' ∉ stem)
    (whole : '/' ∉ extension) : IsFileName (stem ++ '.' :: extension) := by
  obtain ⟨first, rest, rfl⟩ := List.exists_cons_of_ne_nil nonempty
  refine ⟨?_, by simp [isIdle], ?_⟩
  · rw [List.mem_append, or_iff_right stemWhole, List.mem_cons, not_or]
    exact ⟨by decide, whole⟩
  · intro same
    cases rest with
    | nil => exact notDot (by rw [(List.cons.inj same).1])
    | cons next later => simpa using congrArg List.length same

theorem segments_append (frontWhole : ∀ segment ∈ front, '/' ∉ segment) (whole : '/' ∉ name) :
    segments (frontText front ++ name) = front ++ [name] :=
  Text.splitParts_flatMap_append frontWhole whole

theorem whole_of_mem_segments (path : List Char) : ∀ segment ∈ segments path, '/' ∉ segment := by
  rw [segments, List.forall_mem_cons]
  exact Text.not_mem_splitParts '/' path

private theorem joinParts_eq_frontText_append {first : List Char} {others : List (List Char)}
    (same : first :: others = front ++ [name]) :
    Text.joinParts '/' first others = frontText front ++ name := by
  induction front generalizing first others with
  | nil =>
    cases same
    rfl
  | cons segment rest ih =>
    obtain ⟨rfl, tail⟩ := List.cons.inj same
    cases others with
    | nil => simp at tail
    | cons next later =>
      rw [Text.joinParts, ih tail]
      simp [frontText]

theorem eq_frontText_append (cut : segments path = front ++ [name]) :
    path = frontText front ++ name := by
  rw [← Text.joinParts_splitParts '/' path]
  exact joinParts_eq_frontText_append cut

theorem fileName?_append (frontWhole : ∀ segment ∈ front, '/' ∉ segment)
    (isName : IsFileName name) :
    fileName? (frontText front ++ name) = some (frontText front, name) := by
  rw [fileName?, segments_append frontWhole isName.whole, List.reverse_append]
  simp [isName.moves, isName.descends]

end FileNames

section Splitting

private theorem splitExtension?_append (nonempty : stem ≠ []) (dotless : '.' ∉ extension) :
    splitExtension? (stem ++ '.' :: extension) = some (stem, extension) := by
  have turned : (stem ++ '.' :: extension).reverse =
      extension.reverse ++ '.' :: stem.reverse := by simp
  have passed : ∀ c ∈ extension.reverse, (c != '.') = true := by
    intro c member
    rw [bne_iff_ne]
    rintro rfl
    exact dotless (List.mem_reverse.mp member)
  simp only [splitExtension?, turned, List.takeWhile_append_of_pos passed,
    List.dropWhile_append_of_pos passed]
  simp [nonempty]

private theorem dot_not_mem_takeWhile (text : List Char) : '.' ∉ text.takeWhile (· != '.') := by
  intro member
  have passed := List.mem_takeWhile_imp member
  simp at passed

/-- An extension starts at the last dot of the name, which is not its first character. -/
theorem splitExtension?_eq_some_iff :
    splitExtension? name = some (stem, old) ↔
      name = stem ++ '.' :: old ∧ stem ≠ [] ∧ '.' ∉ old := by
  constructor
  · intro found
    unfold splitExtension? at found
    cases back : name.reverse.dropWhile (· != '.') with
    | nil => simp [back] at found
    | cons dot rest =>
      have isDot : dot = '.' := by
        have stops := List.head_dropWhile_not (· != '.') (l := name.reverse) (by simp [back])
        simpa [back] using stops
      simp only [back] at found
      by_cases empty : rest.isEmpty = true
      · simp [empty] at found
      · rw [if_neg empty] at found
        obtain ⟨rfl, rfl⟩ := Prod.mk.inj (Option.some.inj found)
        refine ⟨?_, by simpa using empty, ?_⟩
        · calc
            name = (name.reverse.takeWhile (· != '.') ++
                name.reverse.dropWhile (· != '.')).reverse := by
              rw [List.takeWhile_append_dropWhile, List.reverse_reverse]
            _ = rest.reverse ++ '.' :: (name.reverse.takeWhile (· != '.')).reverse := by
              rw [back, isDot, List.reverse_append, List.reverse_cons, List.append_assoc,
                List.singleton_append]
        · rw [List.mem_reverse]
          exact dot_not_mem_takeWhile name.reverse
  · rintro ⟨rfl, nonempty, dotless⟩
    exact splitExtension?_append nonempty dotless

/-- Only a dot behind the first character starts an extension. -/
theorem splitExtension?_eq_none_iff : splitExtension? name = none ↔ '.' ∉ name.tail := by
  constructor
  · intro whole
    have parts := List.takeWhile_append_dropWhile (p := (· != '.')) (l := name.reverse)
    have dotless := dot_not_mem_takeWhile name.reverse
    unfold splitExtension? at whole
    cases back : name.reverse.dropWhile (· != '.') with
    | nil =>
      rw [back, List.append_nil] at parts
      rw [parts, List.mem_reverse] at dotless
      exact fun member => dotless (List.mem_of_mem_tail member)
    | cons dot rest =>
      simp only [back] at whole
      split at whole
      · next empty =>
        rw [back, List.isEmpty_iff.mp empty] at parts
        rw [← List.reverse_reverse name, ← parts]
        simpa using dotless
      · cases whole
  · intro bare
    rw [Option.eq_none_iff_forall_ne_some]
    rintro ⟨stem, old⟩ found
    obtain ⟨rfl, nonempty, _⟩ := splitExtension?_eq_some_iff.mp found
    apply bare
    rw [List.tail_append_of_ne_nil nonempty]
    exact List.mem_append_right _ List.mem_cons_self

theorem not_mem_stem (isName : IsFileName name) (found : splitExtension? name = some (stem, old)) :
    '/' ∉ stem := by
  intro member
  apply isName.whole
  rw [(splitExtension?_eq_some_iff.mp found).1]
  exact List.mem_append_left _ member

end Splitting

section Replacing

theorem withExtension_of_no_extension (frontWhole : ∀ segment ∈ front, '/' ∉ segment)
    (isName : IsFileName name) (bare : splitExtension? name = none) :
    withExtension extension (frontText front ++ name) =
      frontText front ++ (name ++ '.' :: extension) := by
  have kept : dropExtension (frontText front ++ name) = frontText front ++ name := by
    simp [dropExtension, fileName?_append frontWhole isName, bare]
  simp [withExtension, kept, fileName?_append frontWhole isName, stem, bare]

private theorem dropExtension_of_extension (frontWhole : ∀ segment ∈ front, '/' ∉ segment)
    (isName : IsFileName name) (found : splitExtension? name = some (stem, old)) :
    dropExtension (frontText front ++ name) = frontText front ++ (stem ++ ['.']) := by
  have shape : frontText front ++ name = frontText front ++ (stem ++ ['.']) ++ old := by
    rw [(splitExtension?_eq_some_iff.mp found).1]
    simp
  simp only [dropExtension, fileName?_append frontWhole isName, Option.bind_some, found]
  rw [shape, List.length_append, Nat.add_sub_cancel, List.take_left]

theorem withExtension_of_extension (frontWhole : ∀ segment ∈ front, '/' ∉ segment)
    (isName : IsFileName name) (found : splitExtension? name = some (stem, old))
    (notDot : stem ≠ ['.']) :
    withExtension extension (frontText front ++ name) =
      frontText front ++ (stem ++ '.' :: extension) := by
  have nonempty := (splitExtension?_eq_some_iff.mp found).2.1
  have keptName : IsFileName (stem ++ ['.']) :=
    isFileName_append nonempty notDot (not_mem_stem isName found) List.not_mem_nil
  simp [withExtension, dropExtension_of_extension frontWhole isName found,
    fileName?_append frontWhole keptName, Path.stem,
    splitExtension?_append nonempty List.not_mem_nil]

/-- Of a name that is two dots and an extension, only the two dots remain. -/
theorem withExtension_of_dots (frontWhole : ∀ segment ∈ front, '/' ∉ segment)
    (isName : IsFileName name) (found : splitExtension? name = some (['.'], old)) :
    withExtension extension (frontText front ++ name) = frontText front ++ ['.', '.'] := by
  have nameless : fileName? (frontText front ++ ['.', '.']) = none := by
    rw [fileName?, segments_append frontWhole (by decide), List.reverse_append]
    simp [isIdle]
  have kept := dropExtension_of_extension frontWhole isName found
  simp only [List.cons_append, List.nil_append] at kept
  simp only [withExtension, kept, nameless]

/-- A path with another extension: its directories and the stem of its file name stay. -/
inductive Extended (extension : List Char) : List Char → List Char → Prop
  /-- A dot in front of the whole name starts no extension. -/
  | added {front : List (List Char)} {name : List Char}
      (frontWhole : ∀ segment ∈ front, '/' ∉ segment) (isName : IsFileName name)
      (bare : '.' ∉ name.tail) :
      Extended extension (frontText front ++ name) (frontText front ++ (name ++ '.' :: extension))
  | replaced {front : List (List Char)} {stem old : List Char}
      (frontWhole : ∀ segment ∈ front, '/' ∉ segment) (isName : IsFileName (stem ++ '.' :: old))
      (nonempty : stem ≠ []) (notDot : stem ≠ ['.']) (dotless : '.' ∉ old) :
      Extended extension (frontText front ++ (stem ++ '.' :: old))
        (frontText front ++ (stem ++ '.' :: extension))
  | dots {front : List (List Char)} {old : List Char}
      (frontWhole : ∀ segment ∈ front, '/' ∉ segment) (isName : IsFileName ('.' :: '.' :: old))
      (dotless : '.' ∉ old) :
      Extended extension (frontText front ++ '.' :: '.' :: old) (frontText front ++ ['.', '.'])

private theorem Extended.eq_withExtension {other : List Char}
    (extended : Extended extension path other) :
    other = withExtension extension path := by
  cases extended with
  | added frontWhole isName bare =>
    rw [withExtension_of_no_extension frontWhole isName (splitExtension?_eq_none_iff.mpr bare)]
  | replaced frontWhole isName nonempty notDot dotless =>
    have found := splitExtension?_append nonempty dotless
    rw [withExtension_of_extension frontWhole isName found notDot]
  | dots frontWhole isName dotless =>
    have found := splitExtension?_append (List.cons_ne_nil '.' []) dotless
    exact (withExtension_of_dots frontWhole isName found).symm

/-- A path that ends with a file name has one such path beside it. -/
theorem extended_iff (frontWhole : ∀ segment ∈ front, '/' ∉ segment) (isName : IsFileName name)
    {other : List Char} :
    Extended extension (frontText front ++ name) other ↔
      other = withExtension extension (frontText front ++ name) := by
  refine ⟨Extended.eq_withExtension, ?_⟩
  rintro rfl
  cases split : splitExtension? name with
  | none =>
    rw [withExtension_of_no_extension frontWhole isName split]
    exact .added frontWhole isName (splitExtension?_eq_none_iff.mp split)
  | some parts =>
    obtain ⟨stem, old⟩ := parts
    obtain ⟨shape, nonempty, dotless⟩ := splitExtension?_eq_some_iff.mp split
    by_cases dots : stem = ['.']
    · subst dots
      rw [withExtension_of_dots frontWhole isName split]
      subst shape
      exact .dots frontWhole isName dotless
    · rw [withExtension_of_extension frontWhole isName split dots]
      subst shape
      exact .replaced frontWhole isName nonempty dots dotless

end Replacing

end SicAssembler.Path
