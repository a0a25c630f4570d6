/-! # Blank characters

A character is blank when it has the Unicode property `White_Space`. Trimming removes blank
characters from the ends of a text and nothing from its inside.
-/

namespace SicAssembler.Text

/-- Closed code point ranges of the Unicode property `White_Space`, in increasing order. -/
def blankRanges : List (Nat × Nat) :=
  [(0x09, 0x0D), (0x20, 0x20), (0x85, 0x85), (0xA0, 0xA0), (0x1680, 0x1680), (0x2000, 0x200A),
    (0x2028, 0x2029), (0x202F, 0x202F), (0x205F, 0x205F), (0x3000, 0x3000)]

/-- Whether a character has the property `White_Space`. -/
def isBlank (c : Char) : Bool :=
  blankRanges.any fun range => range.1 ≤ c.toNat && c.toNat ≤ range.2

/-- The property has twenty-five members. -/
example : (blankRanges.map fun range => range.2 + 1 - range.1).sum = 25 := by decide

/-- Of ASCII, only control characters and the space are blank. -/
theorem isBlank_eq_false {c : Char} (low : 0x20 < c.toNat) (high : c.toNat < 0x80) :
    isBlank c = false := by
  have outside : ∀ range ∈ blankRanges, range.2 ≤ 0x20 ∨ 0x80 ≤ range.1 := by decide
  rw [isBlank, List.any_eq_false]
  intro range member
  have apart := outside range member
  simp only [Bool.and_eq_true, decide_eq_true_eq]
  omega

def trimStart (text : List Char) : List Char := text.dropWhile isBlank

def trimEnd (text : List Char) : List Char := (text.reverse.dropWhile isBlank).reverse

def trim (text : List Char) : List Char := trimEnd (trimStart text)

theorem trimStart_cons_of_not_blank {c : Char} (visible : isBlank c = false) (rest : List Char) :
    trimStart (c :: rest) = c :: rest := by
  simp [trimStart, visible]

private theorem trimEnd_append_of_not_blank (front : List Char) {c : Char}
    (visible : isBlank c = false) :
    trimEnd (front ++ [c]) = front ++ [c] := by
  simp [trimEnd, visible]

/-- A text with no blank character at either end is left alone. -/
theorem trim_eq_self {text : List Char} (front : ∀ c ∈ text.head?, isBlank c = false)
    (back : ∀ c ∈ text.getLast?, isBlank c = false) : trim text = text := by
  cases text with
  | nil => rfl
  | cons c rest =>
    rw [trim, trimStart_cons_of_not_blank (front c (by simp))]
    have split := List.dropLast_concat_getLast (List.cons_ne_nil c rest)
    rw [← split]
    exact trimEnd_append_of_not_blank _ (back _ (by simp [List.getLast?_eq_some_getLast]))

theorem trim_of_visible {text : List Char} (visible : ∀ c ∈ text, isBlank c = false) :
    trim text = text :=
  trim_eq_self (fun c first => visible c (List.mem_of_head? first))
    fun c last => visible c (List.mem_of_getLast? last)

/-- A trimmed text starts with a visible character. -/
theorem head_trim_visible (text : List Char) : ∀ c ∈ (trim text).head?, isBlank c = false := by
  intro c first
  obtain ⟨back, whole⟩ : trimEnd (trimStart text) <+: trimStart text := by
    have cut :=
      List.reverse_prefix.mpr (List.dropWhile_suffix isBlank (l := (trimStart text).reverse))
    rwa [List.reverse_reverse] at cut
  have starts : (trimStart text).head? = some c := by
    rw [← whole, List.head?_append, ← trim, Option.mem_def.mp first, Option.some_or]
  have visible := List.head?_dropWhile_not isBlank text
  rw [← trimStart, starts] at visible
  simpa using visible

/-- A trimmed text ends with a visible character. -/
theorem last_trim_visible (text : List Char) :
    ∀ c ∈ (trim text).getLast?, isBlank c = false := by
  intro c final
  have visible := List.head?_dropWhile_not isBlank (trimStart text).reverse
  rw [trim, trimEnd, List.getLast?_reverse] at final
  rw [Option.mem_def.mp final] at visible
  simpa using visible

theorem trim_trim (text : List Char) : trim (trim text) = trim text :=
  trim_eq_self (head_trim_visible text) (last_trim_visible text)

end SicAssembler.Text
