import Mathlib.Data.List.TakeWhile
import SicAssembler.SourceLine

/-! # Spellings of a line

A line can be written in many ways: in upper or lower case, with blank characters at its ends, and
with longer or shorter gaps between its words. All spellings have the same words and are read as the
same statement. Only a line that holds no statement is shown in its error as it was written.
-/

namespace SicAssembler

namespace Text

/-- An upper-case letter comes from itself or from a lower-case letter; every other character
comes from itself alone. -/
theorem toUpper_cases (c : Char) :
    c.toUpper = c ∨ (97 ≤ c.toNat ∧ c.toNat ≤ 122 ∧ c.toUpper.toNat + 32 = c.toNat) := by
  unfold Char.toUpper
  split
  · next lower =>
    obtain ⟨low, high⟩ := lower
    rw [UInt32.le_iff_toNat_le] at low high
    have least : 97 ≤ c.val.toNat := low
    have greatest : c.val.toNat ≤ 122 := high
    have step : ('A'.val - 'a'.val).toNat = 2 ^ 32 - 32 := rfl
    refine .inr ⟨least, greatest, ?_⟩
    change (c.val + ('A'.val - 'a'.val)).toNat + 32 = c.val.toNat
    rw [UInt32.toNat_add]
    omega
  · exact .inl rfl

/-- A character that is no upper-case letter is the upper case of itself alone. -/
theorem toUpper_eq_iff {mark : Char} (other : mark.toNat < 65 ∨ 90 < mark.toNat)
    (small : mark.toUpper = mark) (c : Char) : c.toUpper = mark ↔ c = mark := by
  constructor
  · intro same
    rcases toUpper_cases c with unchanged | ⟨low, high, shift⟩
    · rw [← unchanged, same]
    · rw [same] at shift
      omega
  · rintro rfl
    exact small

theorem toUpper_toUpper (c : Char) : c.toUpper.toUpper = c.toUpper := by
  rcases toUpper_cases c with unchanged | ⟨low, high, shift⟩
  · rw [unchanged, unchanged]
  · rcases toUpper_cases c.toUpper with same | ⟨_, _, _⟩
    · exact same
    · omega

/-- Letters are not blank. -/
theorem isBlank_toUpper (c : Char) : isBlank c.toUpper = isBlank c := by
  rcases toUpper_cases c with unchanged | ⟨low, high, shift⟩
  · rw [unchanged]
  · have small : isBlank c = false := isBlank_eq_false (by omega) (by omega)
    have capital : isBlank c.toUpper = false := isBlank_eq_false (by omega) (by omega)
    rw [small, capital]

private theorem trim_map_toUpper (text : List Char) :
    trim (text.map Char.toUpper) = (trim text).map Char.toUpper := by
  have keeps : isBlank ∘ Char.toUpper = isBlank := funext isBlank_toUpper
  simp only [trim, trimEnd, trimStart, List.dropWhile_map, ← List.map_reverse, keeps]

def AllBlank (text : List Char) : Prop := ∀ c ∈ text, isBlank c = true

instance (text : List Char) : Decidable (AllBlank text) :=
  List.decidableBAll (fun c => isBlank c = true) text

theorem trimStart_append (text rest : List Char) :
    trimStart (text ++ rest) =
      if (trimStart text).isEmpty then trimStart rest else trimStart text ++ rest :=
  List.dropWhile_append

theorem trimEnd_append (text rest : List Char) :
    trimEnd (text ++ rest) =
      if (trimEnd rest).isEmpty then trimEnd text else text ++ trimEnd rest := by
  simp only [trimEnd, List.reverse_append, List.dropWhile_append, List.isEmpty_reverse]
  split <;> simp

theorem trimStart_of_allBlank {text : List Char} (blank : AllBlank text) : trimStart text = [] :=
  List.dropWhile_eq_nil_iff.mpr blank

private theorem trimEnd_of_allBlank {text : List Char} (blank : AllBlank text) :
    trimEnd text = [] := by
  rw [trimEnd, List.dropWhile_eq_nil_iff.mpr fun c member => blank c (List.mem_reverse.mp member)]
  rfl

/-- Blank characters at the ends do not survive trimming. -/
theorem trim_ends {front back : List Char} (blankFront : AllBlank front)
    (blankBack : AllBlank back) (text : List Char) : trim (front ++ text ++ back) = trim text := by
  rw [trim, List.append_assoc, trimStart_append, trimStart_of_allBlank blankFront,
    if_pos List.isEmpty_nil, trimStart_append]
  split
  · next empty =>
    rw [trimStart_of_allBlank blankBack, trim, List.isEmpty_iff.mp empty]
  · rw [trimEnd_append, trimEnd_of_allBlank blankBack, if_pos List.isEmpty_nil, trim]

/-- A blank run survives trimming only between characters that are not blank. -/
theorem trim_run {run : List Char} (blank : AllBlank run) (front back : List Char) :
    trim (front ++ run ++ back) =
      if (trimStart front).isEmpty then trim back
      else if (trimEnd back).isEmpty then trimEnd (trimStart front)
      else trimStart front ++ run ++ trimEnd back := by
  rw [trim, List.append_assoc, trimStart_append]
  by_cases opens : (trimStart front).isEmpty = true
  · rw [if_pos opens, if_pos opens, trimStart_append, trimStart_of_allBlank blank,
      if_pos List.isEmpty_nil, trim]
  · rw [if_neg opens, if_neg opens, ← List.append_assoc, trimEnd_append]
    by_cases ends : (trimEnd back).isEmpty = true
    · rw [if_pos ends, if_pos ends, trimEnd_append, trimEnd_of_allBlank blank,
        if_pos List.isEmpty_nil]
    · rw [if_neg ends, if_neg ends]

/-- A text that ends outside the spans between apostrophes. An apostrophe opens a span and the next
one closes it; a span that is not closed reaches to the end of the line. -/
def Unquoted (text : List Char) : Prop := text.count '\'' % 2 = 0

instance (text : List Char) : Decidable (Unquoted text) :=
  instDecidableEqNat (text.count '\'' % 2) 0

private theorem count_trimStart (text : List Char) :
    (trimStart text).count '\'' = text.count '\'' := by
  have none : (text.takeWhile isBlank).count '\'' = 0 := by
    apply List.count_eq_zero.mpr
    intro member
    exact absurd (List.mem_takeWhile_imp member) (by decide)
  have split := congrArg (List.count '\'') (@List.takeWhile_append_dropWhile _ isBlank text)
  rw [List.count_append, none, Nat.zero_add] at split
  exact split

/-- Two spellings of a line. They differ in the case of ASCII letters, in the blank characters at
the ends, and in the blank characters that make up a gap outside apostrophes, any number of
times. -/
inductive Respelled : List Char → List Char → Prop
  | recase {left right : List Char} : left.map Char.toUpper = right.map Char.toUpper →
      Respelled left right
  | ends (front text back newFront newBack : List Char) : AllBlank front →
      AllBlank back → AllBlank newFront → AllBlank newBack →
      Respelled (front ++ text ++ back) (newFront ++ text ++ newBack)
  | gap (front run back newRun : List Char) : Unquoted front →
      run ≠ [] → AllBlank run → newRun ≠ [] → AllBlank newRun →
      Respelled (front ++ run ++ back) (front ++ newRun ++ back)
  | trans {left middle right : List Char} : Respelled left middle → Respelled middle right →
      Respelled left right

end Text

namespace Words

open Text

private theorem scan_map_toUpper (quoted : Bool) (text : List Char) :
    scan quoted (text.map Char.toUpper) = scan quoted text := by
  induction text generalizing quoted with
  | nil => rfl
  | cons c rest ih =>
    have mark : c.toUpper = '\'' ↔ c = '\'' := toUpper_eq_iff (by decide) (by decide) c
    simp only [List.map_cons, scan, mark, isBlank_toUpper, toUpper_toUpper, ih]
    split
    · next isMark => rw [mark.mpr isMark, isMark]
    · rfl

/-- Whether an apostrophe is open behind a text, if it was open or not in front of it. -/
def quotedAfter (quoted : Bool) (text : List Char) : Bool :=
  quoted ^^ decide (text.count '\'' % 2 = 1)

theorem quotedAfter_cons (quoted : Bool) (c : Char) (rest : List Char) :
    quotedAfter quoted (c :: rest) =
      quotedAfter (if c = '\'' then !quoted else quoted) rest := by
  by_cases mark : c = '\''
  · have flips : ((rest.count '\'' + 1) % 2 = 1) ↔ ¬ rest.count '\'' % 2 = 1 := by omega
    rw [quotedAfter, quotedAfter, mark, List.count_cons_self, if_pos rfl]
    simp only [flips, decide_not, Bool.xor_not, Bool.not_xor]
  · rw [quotedAfter, quotedAfter, List.count_cons_of_ne mark, if_neg mark]

/-- Texts that are scanned alike where another text ends are scanned alike behind it. -/
theorem scan_append_congr {front rest other : List Char} {quoted : Bool}
    (same : scan (quotedAfter quoted front) rest = scan (quotedAfter quoted front) other) :
    scan quoted (front ++ rest) = scan quoted (front ++ other) := by
  induction front generalizing quoted with
  | nil => simpa [quotedAfter] using same
  | cons c tail ih =>
    rw [quotedAfter_cons] at same
    have later := ih same
    simp only [List.cons_append, scan]
    by_cases mark : c = '\''
    · rw [if_pos mark] at later
      rw [if_pos mark, if_pos mark, later]
    · rw [if_neg mark] at later
      rw [if_neg mark, if_neg mark, later]

/-- The length of a gap outside apostrophes does not count. -/
theorem scan_run {run : List Char} (present : run ≠ []) (blank : AllBlank run)
    (rest : List Char) :
    scan false (run ++ rest) = ([], consWord (scan false rest).1 (scan false rest).2) := by
  induction run with
  | nil => contradiction
  | cons c tail ih =>
    obtain ⟨blankHere, blankTail⟩ := List.forall_mem_cons.mp blank
    have notMark : c ≠ '\'' := by
      rintro rfl
      exact absurd blankHere (by decide)
    have step : scan false (c :: (tail ++ rest)) =
        ([], consWord (scan false (tail ++ rest)).1 (scan false (tail ++ rest)).2) := by
      simp [scan, notMark, blankHere]
    rw [List.cons_append, step]
    by_cases last : tail = []
    · rw [last, List.nil_append]
    · rw [ih last blankTail, consWord_nil]

private theorem split_run {front run newRun : List Char} (unquoted : Unquoted front)
    (present : run ≠ [])
    (blank : AllBlank run) (newPresent : newRun ≠ []) (newBlank : AllBlank newRun)
    (back : List Char) : split (front ++ run ++ back) = split (front ++ newRun ++ back) := by
  have closed : quotedAfter false front = false := by
    rw [Unquoted] at unquoted
    simp [quotedAfter, unquoted]
  have same : scan false (front ++ (run ++ back)) = scan false (front ++ (newRun ++ back)) := by
    apply scan_append_congr
    rw [closed, scan_run present blank, scan_run newPresent newBlank]
  rw [split, split, List.append_assoc, List.append_assoc, same]

end Words

namespace Statement

open Text

theorem isInert_map_toUpper (text : List Char) :
    isInert (text.map Char.toUpper) = isInert text := by
  cases text with
  | nil => rfl
  | cons c rest =>
    have dot : c.toUpper = '.' ↔ c = '.' := toUpper_eq_iff (by decide) (by decide) c
    simp [isInert, dot]

private theorem isInert_append {front : List Char} (present : front ≠ []) (rest : List Char) :
    isInert (front ++ rest) = isInert front := by
  cases front with
  | nil => contradiction
  | cons c tail => rfl

/-- All spellings of a line have the same words, and all of them are inert or none is. -/
theorem words_of_respelled {left right : List Char} (respelled : Respelled left right) :
    Words.split (trim left) = Words.split (trim right) ∧
      isInert (trim left) = isInert (trim right) := by
  induction respelled with
  | @recase left right same =>
    have words (text : List Char) : Words.split (trim (text.map Char.toUpper)) =
        Words.split (trim text) := by
      rw [trim_map_toUpper, Words.split, Words.split, Words.scan_map_toUpper]
    have inert (text : List Char) : isInert (trim (text.map Char.toUpper)) =
        isInert (trim text) := by
      rw [trim_map_toUpper, isInert_map_toUpper]
    rw [← words left, ← words right, ← inert left, ← inert right, same]
    exact ⟨rfl, rfl⟩
  | ends front text back newFront newBack blankFront blankBack newBlankFront newBlankBack =>
    rw [trim_ends blankFront blankBack, trim_ends newBlankFront newBlankBack]
    exact ⟨rfl, rfl⟩
  | gap front run back newRun unquoted present blank newPresent newBlank =>
    -- Trimming takes the gap away on both sides or keeps it on both.
    rw [trim_run blank, trim_run newBlank]
    split
    · exact ⟨rfl, rfl⟩
    · next opens =>
      split
      · exact ⟨rfl, rfl⟩
      · have trimmed : Unquoted (trimStart front) := by
          rw [Unquoted, count_trimStart]
          exact unquoted
        have visible : trimStart front ≠ [] := by simpa using opens
        rw [List.append_assoc, List.append_assoc, isInert_append visible, isInert_append visible,
          ← List.append_assoc, ← List.append_assoc]
        exact ⟨Words.split_run trimmed present blank newPresent newBlank _, rfl⟩
  | trans _ _ left right => exact ⟨left.1.trans right.1, left.2.trans right.2⟩

end Statement

end SicAssembler
