/-! # Separated text

A separator character cuts a text into parts. There is one part more than there are separators, so
there is always a first part.
-/

namespace SicAssembler.Text

/-- Cut a text at a separator: the part in front of the first one, and the parts after it. -/
def splitParts (separator : Char) : List Char → List Char × List (List Char)
  | [] => ([], [])
  | c :: rest =>
    let (part, parts) := splitParts separator rest
    if c = separator then ([], part :: parts) else (c :: part, parts)

/-- Write parts with a separator between them. -/
def joinParts (separator : Char) : List Char → List (List Char) → List Char
  | part, [] => part
  | part, next :: rest => part ++ separator :: joinParts separator next rest

/-- Joining undoes splitting. -/
theorem joinParts_splitParts (separator : Char) (text : List Char) :
    joinParts separator (splitParts separator text).1 (splitParts separator text).2 = text := by
  induction text with
  | nil => rfl
  | cons c rest ih =>
    unfold splitParts
    by_cases same : c = separator
    · simp [same, joinParts, ih]
    · simp only [same, ↓reduceIte]
      cases parts : (splitParts separator rest).2 with
      | nil => rw [parts] at ih; simpa [joinParts] using ih
      | cons next others => rw [parts] at ih; simpa [joinParts] using ih

/-- No part holds the separator. -/
theorem not_mem_splitParts (separator : Char) (text : List Char) :
    separator ∉ (splitParts separator text).1 ∧
      ∀ part ∈ (splitParts separator text).2, separator ∉ part := by
  induction text with
  | nil => simp [splitParts]
  | cons c rest ih =>
    unfold splitParts
    by_cases same : c = separator
    · simpa [same] using ih
    · simp only [same, ↓reduceIte, List.mem_cons, not_or]
      exact ⟨⟨fun h => same h.symm, ih.1⟩, ih.2⟩

private theorem splitParts_of_not_mem {separator : Char} {text : List Char}
    (whole : separator ∉ text) :
    splitParts separator text = (text, []) := by
  induction text with
  | nil => rfl
  | cons c rest ih =>
    rw [List.mem_cons, not_or] at whole
    simp [splitParts, ih whole.2, Ne.symm whole.1]

private theorem splitParts_append_cons {separator : Char} {part : List Char}
    (whole : separator ∉ part) (rest : List Char) :
    splitParts separator (part ++ separator :: rest) =
      (part, (splitParts separator rest).1 :: (splitParts separator rest).2) := by
  induction part with
  | nil => simp [splitParts]
  | cons c tail ih =>
    rw [List.mem_cons, not_or] at whole
    simp [splitParts, ih whole.2, Ne.symm whole.1]

/-- Parts that are written with a separator behind each of them, and a last one behind these, are
told apart again. -/
theorem splitParts_flatMap_append {separator : Char} {parts : List (List Char)} {last : List Char}
    (whole : ∀ part ∈ parts, separator ∉ part) (lastWhole : separator ∉ last) :
    (splitParts separator ((parts.flatMap fun part => part ++ [separator]) ++ last)).1 ::
        (splitParts separator ((parts.flatMap fun part => part ++ [separator]) ++ last)).2 =
      parts ++ [last] := by
  induction parts with
  | nil => simp [splitParts_of_not_mem lastWhole]
  | cons part rest ih =>
    rw [List.flatMap_cons, List.append_assoc, List.append_assoc, List.singleton_append,
      splitParts_append_cons (whole part List.mem_cons_self),
      ih fun other member => whole other (List.mem_cons_of_mem part member), List.cons_append]

end SicAssembler.Text
