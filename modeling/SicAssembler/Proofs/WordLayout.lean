import SicAssembler.Proofs.Spelling

/-! # How words lie in a line

What a word is can be said without the scan that finds it: blank characters stand in it only behind
an odd number of apostrophes. Every text is a row of such words with blank characters around and
between them, in one way only, and the scan returns these words in upper case.
-/

namespace SicAssembler.Words

open Text

/-- A word is not empty, and every blank character in it stands behind an odd number of
apostrophes of the word. -/
def IsWord (word : List Char) : Prop :=
  word ≠ [] ∧ ∀ front c back, word = front ++ c :: back → isBlank c = true →
    front.count '\'' % 2 = 1

/-- A text made of words with gaps of blank characters between them. Only the last word may leave an
apostrophe open. -/
inductive Separated : List Char → List (List Char) → Prop
  | last {word : List Char} : IsWord word → Separated word [word]
  | cons {word gap rest : List Char} {words : List (List Char)} : IsWord word → Unquoted word →
      gap ≠ [] → AllBlank gap → Separated rest words →
      Separated (word ++ gap ++ rest) (word :: words)

/-- A text made of words with blank characters around and between them. Behind a word that leaves an
apostrophe open there are none. -/
inductive Spread : List Char → List (List Char) → Prop
  | blank {text : List Char} : AllBlank text → Spread text []
  | words {front body back : List Char} {words : List (List Char)} : AllBlank front →
      AllBlank back → (back = [] ∨ Unquoted body) → Separated body words →
      Spread (front ++ body ++ back) words

private theorem allBlank_nil : AllBlank [] := nofun

section Joined

/-- No blank character of a text ends a word, if an apostrophe is open in front of the text or
not. -/
def Joined (quoted : Bool) (text : List Char) : Prop :=
  ∀ front c back, text = front ++ c :: back → isBlank c = true → quotedAfter quoted front = true

private theorem joined_nil (quoted : Bool) : Joined quoted [] := by
  intro front c back same
  simp at same

theorem joined_cons {quoted : Bool} {c : Char} {rest : List Char} :
    Joined quoted (c :: rest) ↔
      (isBlank c = true → quoted = true) ∧ Joined (if c = '\'' then !quoted else quoted) rest := by
  constructor
  · intro joined
    refine ⟨fun blank => by simpa [quotedAfter] using joined [] c rest rfl blank, ?_⟩
    intro front other back same blank
    rw [← quotedAfter_cons]
    exact joined (c :: front) other back (by rw [same, List.cons_append]) blank
  · rintro ⟨here, later⟩ front other back same blank
    cases front with
    | nil =>
      cases same
      simpa [quotedAfter] using here blank
    | cons first tail =>
      obtain ⟨rfl, rfl⟩ := List.cons.inj same
      rw [quotedAfter_cons]
      exact later tail other back rfl blank

instance decidableJoined : (quoted : Bool) → (text : List Char) → Decidable (Joined quoted text)
  | quoted, [] => .isTrue (joined_nil quoted)
  | quoted, c :: rest =>
    have := decidableJoined (if c = '\'' then !quoted else quoted) rest
    decidable_of_iff _ joined_cons.symm

theorem isWord_iff {word : List Char} : IsWord word ↔ word ≠ [] ∧ Joined false word := by
  simp [IsWord, Joined, quotedAfter]

instance (word : List Char) : Decidable (IsWord word) := decidable_of_iff _ isWord_iff.symm

private theorem quotedAfter_false_iff {text : List Char} :
    quotedAfter false text = false ↔ Unquoted text := by
  simp [quotedAfter, Unquoted]

private theorem split_eq_consWord (text : List Char) :
    split text = consWord (scan false text).1 (scan false text).2 := rfl

/-- A text without a word's end is scanned as one piece in front of what follows. -/
theorem scan_joined {quoted : Bool} {text : List Char} (joined : Joined quoted text)
    (rest : List Char) :
    scan quoted (text ++ rest) =
      (text.map Char.toUpper ++ (scan (quotedAfter quoted text) rest).1,
        (scan (quotedAfter quoted text) rest).2) := by
  induction text generalizing quoted with
  | nil => simp [quotedAfter]
  | cons c tail ih =>
    obtain ⟨here, later⟩ := joined_cons.mp joined
    have tailScan := ih later
    rw [quotedAfter_cons]
    by_cases mark : c = '\''
    · rw [if_pos mark] at tailScan ⊢
      have kept : c.toUpper = c := by rw [mark]; decide
      simp only [List.cons_append, List.map_cons, scan, if_pos mark, tailScan, kept]
    · rw [if_neg mark] at tailScan ⊢
      have inside : ¬((isBlank c && !quoted) = true) := by simpa using here
      simp only [List.cons_append, List.map_cons, scan, if_neg mark, if_neg inside, tailScan]

end Joined

variable {text word : List Char} {words others : List (List Char)}

theorem IsWord.ne_nil (isWord : IsWord word) : word ≠ [] := isWord.1

theorem isWord_of_visible (present : word ≠ []) (visible : ∀ c ∈ word, isBlank c = false) :
    IsWord word := by
  refine ⟨present, ?_⟩
  rintro front c back rfl blank
  rw [visible c (by simp)] at blank
  contradiction

theorem IsWord.joined (isWord : IsWord word) : Joined false word := (isWord_iff.mp isWord).2

/-- A word starts with a visible character. -/
theorem IsWord.head_visible (isWord : IsWord word) : ∀ c ∈ word.head?, isBlank c = false := by
  intro c first
  obtain ⟨rest, rfl⟩ := List.head?_eq_some_iff.mp first
  apply Bool.eq_false_iff.mpr
  intro blank
  exact absurd (isWord.2 [] c rest rfl blank) (by decide)

private theorem count_map_toUpper (text : List Char) :
    (text.map Char.toUpper).count '\'' = text.count '\'' := by
  induction text with
  | nil => rfl
  | cons c rest ih =>
    have mark : c.toUpper = '\'' ↔ c = '\'' := toUpper_eq_iff (by decide) (by decide) c
    simp [List.count_cons, ih, mark]

theorem map_toUpper_map_toUpper (word : List Char) :
    (word.map Char.toUpper).map Char.toUpper = word.map Char.toUpper := by
  rw [List.map_map]
  exact List.map_congr_left fun c _ => toUpper_toUpper c

/-- A word stays one in upper case. -/
theorem IsWord.map_toUpper (isWord : IsWord word) : IsWord (word.map Char.toUpper) := by
  refine ⟨by simpa using isWord.ne_nil, ?_⟩
  intro front c back same blank
  obtain ⟨rawFront, rawRest, rfl, rfl, rawSame⟩ := List.map_eq_append_iff.mp same
  obtain ⟨raw, rawBack, rfl, rfl, _⟩ := List.map_eq_cons_iff.mp rawSame
  rw [count_map_toUpper]
  exact isWord.2 rawFront raw rawBack rfl (by rwa [isBlank_toUpper] at blank)

namespace Separated

private theorem words_ne_nil (separated : Separated text words) : words ≠ [] := by
  cases separated <;> exact List.cons_ne_nil _ _

/-- A text starts as its first word does. -/
theorem head?_eq (separated : Separated text words) :
    text.head? = words.head?.bind List.head? := by
  cases separated with
  | last isWord => rfl
  | cons isWord _ _ _ _ =>
    obtain ⟨c, rest, rfl⟩ := List.exists_cons_of_ne_nil isWord.ne_nil
    rfl

theorem ne_nil (separated : Separated text words) : text ≠ [] := by
  cases separated with
  | last isWord => exact isWord.ne_nil
  | cons isWord _ _ _ _ => simp [isWord.ne_nil]

/-- A text ends as its last word does. -/
theorem getLast?_eq (separated : Separated text words) :
    text.getLast? = words.getLast?.bind List.getLast? := by
  induction separated with
  | last isWord => rfl
  | cons isWord _ _ _ rest ih =>
    obtain ⟨second, others, rfl⟩ := List.exists_cons_of_ne_nil rest.words_ne_nil
    obtain ⟨c, ends⟩ := Option.ne_none_iff_exists'.mp (mt List.getLast?_eq_none_iff.mp rest.ne_nil)
    rw [List.getLast?_append, ends, List.getLast?_cons_cons, ← ih, ends]
    rfl

theorem head_visible (separated : Separated text words) :
    ∀ c ∈ text.head?, isBlank c = false := by
  cases separated with
  | last isWord => exact isWord.head_visible
  | cons isWord _ _ _ _ =>
    obtain ⟨c, rest, rfl⟩ := List.exists_cons_of_ne_nil isWord.ne_nil
    exact isWord.head_visible

/-- The scan finds the words and returns them in upper case. -/
theorem split_eq (separated : Separated text words) :
    split text = words.map (List.map Char.toUpper) := by
  induction separated with
  | @last word isWord =>
    have scanned := scan_joined isWord.joined []
    rw [List.append_nil] at scanned
    obtain ⟨c, rest, rfl⟩ := List.exists_cons_of_ne_nil isWord.ne_nil
    rw [split_eq_consWord, scanned]
    simp [scan]
  | @cons word gap rest words isWord unquoted present blank _ ih =>
    have scanned := scan_joined isWord.joined (gap ++ rest)
    rw [quotedAfter_false_iff.mpr unquoted, scan_run present blank] at scanned
    obtain ⟨c, tail, rfl⟩ := List.exists_cons_of_ne_nil isWord.ne_nil
    rw [split_eq_consWord, List.append_assoc, scanned, ← split_eq_consWord rest, ih]
    simp

/-- Behind a gap the next word starts where the blank characters end. -/
theorem dropWhile_gap {gap : List Char} (blank : AllBlank gap)
    (separated : Separated text words) : (gap ++ text).dropWhile isBlank = text := by
  obtain ⟨c, rest, rfl⟩ := List.exists_cons_of_ne_nil separated.ne_nil
  rw [List.dropWhile_append_of_pos blank, List.dropWhile_cons_of_neg]
  simp [separated.head_visible c rfl]

/-- A text is made of words in one way only. -/
theorem unique (left : Separated text words) (right : Separated text others) : words = others := by
  have same : words.map (List.map Char.toUpper) = others.map (List.map Char.toUpper) :=
    left.split_eq.symm.trans right.split_eq
  -- The words have the same lengths in order, so both sides cut the text at the same places.
  induction left generalizing others with
  | last isWord =>
    cases right with
    | last _ => rfl
    | cons _ _ _ _ rest =>
      have none := (List.map_eq_nil_iff.mp (List.cons.inj same).2.symm)
      exact absurd none rest.words_ne_nil
  | @cons word gap rest words isWord _ _ blank separated ih =>
    generalize whole : word ++ gap ++ rest = text at right
    cases right with
    | last _ =>
      have none := (List.map_eq_nil_iff.mp (List.cons.inj same).2)
      exact absurd none separated.words_ne_nil
    | @cons otherWord otherGap otherRest otherWords _ _ _ otherBlank otherSeparated =>
      obtain ⟨sameHead, sameTail⟩ := List.cons.inj same
      have lengths : word.length = otherWord.length := by
        simpa using congrArg List.length sameHead
      rw [List.append_assoc, List.append_assoc] at whole
      obtain ⟨rfl, behind⟩ := List.append_inj whole lengths
      have rests : rest = otherRest := by
        rw [← separated.dropWhile_gap blank, behind, otherSeparated.dropWhile_gap otherBlank]
      subst rests
      rw [ih otherSeparated sameTail]

theorem map_toUpper (separated : Separated text words) :
    Separated (text.map Char.toUpper) (words.map (List.map Char.toUpper)) := by
  induction separated with
  | last isWord => exact .last isWord.map_toUpper
  | cons isWord unquoted present blank _ ih =>
    rw [List.map_append, List.map_append, List.map_cons]
    refine .cons isWord.map_toUpper ?_ (by simpa using present) ?_ ih
    · rw [Unquoted, count_map_toUpper]
      exact unquoted
    · intro c member
      obtain ⟨raw, inGap, rfl⟩ := List.mem_map.mp member
      rw [isBlank_toUpper]
      exact blank raw inGap

/-- The words of a text can be written with single spaces between them. -/
theorem spaced (separated : Separated text words) :
    Separated ([' '].intercalate words) words := by
  induction separated with
  | last isWord => simpa [List.intercalate_singleton] using Separated.last isWord
  | cons isWord unquoted _ _ rest ih =>
    obtain ⟨second, others, rfl⟩ := List.exists_cons_of_ne_nil rest.words_ne_nil
    rw [List.intercalate_cons_cons]
    exact .cons isWord unquoted (by decide) (by decide) ih

end Separated

namespace Spread

/-- Blank characters in front do not count. -/
theorem cons_blank {c : Char} (blank : isBlank c = true) (spread : Spread text words) :
    Spread (c :: text) words := by
  cases spread with
  | blank allBlank => exact .blank (List.forall_mem_cons.mpr ⟨blank, allBlank⟩)
  | words front back ends separated =>
    have blankFront : AllBlank (c :: _) := List.forall_mem_cons.mpr ⟨blank, front⟩
    simpa using Spread.words blankFront back ends separated

/-- A word may stand in front of a text that starts with a blank character. -/
theorem cons_word (isWord : IsWord word)
    (ends : text = [] ∨ Unquoted word ∧ ∃ c ∈ text.head?, isBlank c = true)
    (spread : Spread text words) : Spread (word ++ text) (word :: words) := by
  cases spread with
  | blank allBlank =>
    have ends : text = [] ∨ Unquoted word := ends.imp_right And.left
    exact .words allBlank_nil allBlank ends (.last isWord)
  | @words front body back words blankFront blankBack closed separated =>
    rcases ends with none | ⟨unquoted, c, first, blank⟩
    · simp [separated.ne_nil] at none
    · have present : front ≠ [] := by
        rintro rfl
        obtain ⟨first', rest, rfl⟩ := List.exists_cons_of_ne_nil separated.ne_nil
        cases first
        exact absurd blank (by simp [separated.head_visible _ rfl])
      have whole := Separated.cons isWord unquoted present blankFront separated
      have closedWhole : back = [] ∨ Unquoted (word ++ front ++ body) := by
        refine closed.imp_right fun bodyClosed => ?_
        have noMark : front.count '\'' = 0 :=
          List.count_eq_zero.mpr fun member => absurd (blankFront _ member) (by decide)
        rw [Unquoted] at unquoted bodyClosed ⊢
        rw [List.count_append, List.count_append, noMark]
        omega
      simpa using Spread.words allBlank_nil blankBack closedWhole whole

theorem split_eq (spread : Spread text words) :
    split text = words.map (List.map Char.toUpper) := by
  cases spread with
  | blank allBlank =>
    by_cases present : text = []
    · rw [present]
      rfl
    · have scanned := scan_run present allBlank []
      rw [List.append_nil] at scanned
      rw [split, scanned]
      rfl
  | @words front body back words blankFront blankBack closed separated =>
    have opening : split (front ++ body ++ back) = split (body ++ back) := by
      by_cases present : front = []
      · rw [present, List.nil_append]
      · rw [List.append_assoc, split_eq_consWord, scan_run present blankFront]
        rfl
    have closing : split (body ++ back) = split body := by
      by_cases present : back = []
      · rw [present, List.append_nil]
      · have unquoted := closed.resolve_left present
        have same : scan false back = scan false [] := by
          have scanned := scan_run present blankBack []
          rwa [List.append_nil] at scanned
        have behind : scan false (body ++ back) = scan false (body ++ []) := by
          apply scan_append_congr
          rw [quotedAfter_false_iff.mpr unquoted, same]
        rw [split, behind, List.append_nil, split]
    rw [opening, closing, separated.split_eq]

end Spread

/-- A text goes on with the word that was open in front of it, and then with other words. -/
theorem exists_joined (quoted : Bool) (text : List Char) :
    ∃ word rest words, text = word ++ rest ∧ Joined quoted word ∧ Spread rest words ∧
      (rest = [] ∨ quotedAfter quoted word = false ∧ ∃ c ∈ rest.head?, isBlank c = true) := by
  induction text generalizing quoted with
  | nil => exact ⟨[], [], [], rfl, joined_nil quoted, .blank allBlank_nil, .inl rfl⟩
  | cons c tail ih =>
    by_cases ends : isBlank c = true ∧ quoted = false
    · obtain ⟨blank, rfl⟩ := ends
      obtain ⟨word, rest, words, rfl, joined, spread, gap⟩ := ih false
      have starts : ∃ first ∈ (c :: (word ++ rest)).head?, isBlank first = true := ⟨c, rfl, blank⟩
      by_cases present : word = []
      · subst present
        exact ⟨[], _, words, rfl, joined_nil false, spread.cons_blank blank, .inr ⟨rfl, starts⟩⟩
      · have isWord : IsWord word := isWord_iff.mpr ⟨present, joined⟩
        rw [quotedAfter_false_iff] at gap
        have behind := (Spread.cons_word isWord gap spread).cons_blank blank
        exact ⟨[], _, word :: words, rfl, joined_nil false, behind, .inr ⟨rfl, starts⟩⟩
    · obtain ⟨word, rest, words, rfl, joined, spread, gap⟩ :=
        ih (if c = '\'' then !quoted else quoted)
      rw [← quotedAfter_cons] at gap
      refine ⟨c :: word, rest, words, rfl, joined_cons.mpr ⟨?_, joined⟩, spread, gap⟩
      intro blank
      by_contra closed
      exact ends ⟨blank, Bool.eq_false_iff.mpr closed⟩

/-- Every text is a row of words with blank characters around and between them. -/
theorem exists_spread (text : List Char) : ∃ words, Spread text words := by
  obtain ⟨word, rest, words, rfl, joined, spread, gap⟩ := exists_joined false text
  by_cases present : word = []
  · subst present
    exact ⟨words, spread⟩
  · rw [quotedAfter_false_iff] at gap
    exact ⟨word :: words, Spread.cons_word (isWord_iff.mpr ⟨present, joined⟩) gap spread⟩

/-- A text with visible characters at both ends is made of words. -/
theorem exists_separated (present : text ≠ []) (front : ∀ c ∈ text.head?, isBlank c = false)
    (back : ∀ c ∈ text.getLast?, isBlank c = false) : ∃ words, Separated text words := by
  obtain ⟨words, spread⟩ := exists_spread text
  cases spread with
  | blank allBlank =>
    obtain ⟨c, rest, rfl⟩ := List.exists_cons_of_ne_nil present
    exact absurd (allBlank c List.mem_cons_self) (by simp [front c rfl])
  | @words before body behind words blankBefore blankBehind _ separated =>
    have noneBefore : before = [] := by
      by_contra some
      obtain ⟨c, rest, rfl⟩ := List.exists_cons_of_ne_nil some
      exact absurd (blankBefore c List.mem_cons_self) (by simp [front c rfl])
    have noneBehind : behind = [] := by
      by_contra some
      have ends := back (behind.getLast some)
        (by simp [List.getLast?_append, List.getLast?_eq_some_getLast some])
      exact absurd (blankBehind _ (List.getLast_mem some)) (by simp [ends])
    subst noneBefore noneBehind
    exact ⟨words, by simpa using separated⟩

end SicAssembler.Words
