import Mathlib.Data.List.TakeWhile
import StyleSkeleton.Proofs.Text.Searching
import StyleSkeleton.Text.Words

/-! # Words and blanks

A text is blank, or it is cut into the blanks in front of its first word, that word, and the rest,
which has the other words (`FirstWord.words_eq`).  What is said of all words goes by induction over
this (`firstWord_induction`).

The blanks of a text leave no trace in its words, so texts with the same words differ in their
blanks alone: a `WordRow` is one way to write words in a row.
-/

namespace StyleSkeleton.Text

/-! ## Cutting a text at a word -/

theorem words_of_blank {text : List Char} (blank : ∀ char ∈ text, isBlank char = true) : words text = [] :=
  words_eq_nil (List.dropWhile_eq_nil_iff.mpr blank)

section Cutting

variable {blanks word rest : List Char}

theorem words_append_of_blank (blank : ∀ char ∈ blanks, isBlank char = true) :
    words (blanks ++ rest) = words rest := by
  have same : (blanks ++ rest).dropWhile isBlank = rest.dropWhile isBlank :=
    List.dropWhile_append_of_pos blank
  cases visible : rest.dropWhile isBlank with
  | nil => rw [words_eq_nil (same.trans visible), words_eq_nil visible]
  | cons first others => rw [words_eq_cons (same.trans visible), words_eq_cons visible]

theorem words_append_of_visible (nonempty : word ≠ []) (visible : ∀ char ∈ word, isBlank char = false)
    (stops : ∀ char ∈ rest.head?, isBlank char = true) : words (word ++ rest) = word :: words rest := by
  obtain ⟨first, others, rfl⟩ := List.exists_cons_of_ne_nil nonempty
  have firstVisible := visible first List.mem_cons_self
  have begins : (first :: others ++ rest).dropWhile isBlank = first :: (others ++ rest) := by
    simp [visible first List.mem_cons_self]
  have accepted : ∀ char ∈ others, (!isBlank char) = true := fun char member => by
    rw [visible char (List.mem_cons_of_mem _ member), Bool.not_false]
  have ends : ∀ char ∈ rest.head?, (!isBlank char) = false := fun char isNext => by
    rw [stops char isNext, Bool.not_true]
  rw [words_eq_cons begins, takeWhile_run accepted ends, dropWhile_run accepted ends]

structure FirstWord (blanks word rest : List Char) : Prop where
  blank : ∀ char ∈ blanks, isBlank char = true
  nonempty : word ≠ []
  visible : ∀ char ∈ word, isBlank char = false
  stops : ∀ char ∈ rest.head?, isBlank char = true

theorem FirstWord.words_eq (parts : FirstWord blanks word rest) :
    words (blanks ++ (word ++ rest)) = word :: words rest := by
  rw [words_append_of_blank parts.blank, words_append_of_visible parts.nonempty parts.visible parts.stops]

end Cutting

theorem firstWord_of_dropWhile {text rest : List Char} {first : Char}
    (begins : text.dropWhile isBlank = first :: rest) :
    text = text.takeWhile isBlank ++
        (first :: rest.takeWhile (fun char => !isBlank char) ++ rest.dropWhile fun char => !isBlank char) ∧
      FirstWord (text.takeWhile isBlank) (first :: rest.takeWhile fun char => !isBlank char)
        (rest.dropWhile fun char => !isBlank char) := by
  have firstVisible := List.head?_dropWhile_not isBlank text
  rw [begins] at firstVisible
  refine ⟨?_, fun char => List.mem_takeWhile_imp, List.cons_ne_nil _ _,
    List.forall_mem_cons.mpr ⟨firstVisible, fun char inside => ?_⟩, fun char isNext => ?_⟩
  · rw [List.cons_append, List.takeWhile_append_dropWhile, ← begins, List.takeWhile_append_dropWhile]
  · simpa using List.mem_takeWhile_imp inside
  · have ends := List.head?_dropWhile_not (fun char => !isBlank char) rest
    rw [Option.mem_def.mp isNext] at ends
    simpa using ends

/-- What holds of blank texts, and of a text whenever it holds of what stands behind its first word, holds of
all texts. -/
@[elab_as_elim]
theorem firstWord_induction {holds : List Char → Prop} (text : List Char)
    (blank : ∀ text, (∀ char ∈ text, isBlank char = true) → holds text)
    (cut : ∀ blanks word rest, FirstWord blanks word rest → holds rest → holds (blanks ++ (word ++ rest))) :
    holds text := by
  induction text using words.induct with
  | case1 text nothing => exact blank text (List.dropWhile_eq_nil_iff.mp nothing)
  | case2 text first rest begins inductionHypothesis =>
    obtain ⟨split, parts⟩ := firstWord_of_dropWhile begins
    rw [split]
    exact cut _ _ _ parts inductionHypothesis

/-! ## What words are made of -/

theorem length_words_le (text : List Char) : (words text).length ≤ text.length := by
  induction text using firstWord_induction with
  | blank text blank =>
    rw [words_of_blank blank]
    exact Nat.zero_le _
  | cut blanks word rest parts inductionHypothesis =>
    have positive := List.length_pos_iff.mpr parts.nonempty
    rw [parts.words_eq, List.length_cons, List.length_append, List.length_append]
    omega

theorem length_wordsOf_le (text : String) : (wordsOf text).length ≤ byteLength text.toList := by
  rw [wordsOf, List.length_map]
  exact Nat.le_trans (length_words_le _) (length_le_byteLength _)

theorem nonempty_and_visible_of_mem_words {text word : List Char} (member : word ∈ words text) :
    word ≠ [] ∧ ∀ char ∈ word, isBlank char = false := by
  induction text using firstWord_induction with
  | blank text blank =>
    rw [words_of_blank blank] at member
    cases member
  | cut blanks first rest parts inductionHypothesis =>
    rw [parts.words_eq] at member
    cases member with
    | head => exact ⟨parts.nonempty, parts.visible⟩
    | tail _ inOthers => exact inductionHypothesis inOthers

theorem visible_of_mem_wordsOf {text word : String} (member : word ∈ wordsOf text) :
    ∀ char ∈ word.toList, isBlank char = false := by
  obtain ⟨chars, isWord, rfl⟩ := List.mem_map.mp member
  rw [String.toList_ofList]
  exact (nonempty_and_visible_of_mem_words isWord).2

theorem words_eq_nil_iff {text : List Char} : words text = [] ↔ ∀ char ∈ text, isBlank char = true := by
  refine ⟨fun nothing => ?_, words_of_blank⟩
  induction text using firstWord_induction with
  | blank text blank => exact blank
  | cut blanks word rest parts _ =>
    rw [parts.words_eq] at nothing
    cases nothing

theorem flatten_words (text : List Char) : (words text).flatten = text.filter fun char => !isBlank char := by
  induction text using firstWord_induction with
  | blank text blank =>
    have none : text.filter (fun char => !isBlank char) = [] :=
      List.filter_eq_nil_iff.mpr fun char member => by simp [blank char member]
    rw [words_of_blank blank, none, List.flatten_nil]
  | cut blanks word rest parts inductionHypothesis =>
    have none : blanks.filter (fun char => !isBlank char) = [] :=
      List.filter_eq_nil_iff.mpr fun char member => by simp [parts.blank char member]
    have all : word.filter (fun char => !isBlank char) = word :=
      List.filter_eq_self.mpr fun char member => by simp [parts.visible char member]
    rw [parts.words_eq, List.flatten_cons, inductionHypothesis, List.filter_append, List.filter_append, none, all,
      List.nil_append]

theorem words_append_gap {left gap right : List Char} (nonempty : gap ≠ [])
    (blank : ∀ char ∈ gap, isBlank char = true) : words (left ++ (gap ++ right)) = words left ++ words right := by
  induction left using firstWord_induction with
  | blank left leftBlank =>
    rw [words_of_blank leftBlank, words_append_of_blank leftBlank, words_append_of_blank blank, List.nil_append]
  | cut blanks word rest parts inductionHypothesis =>
    have stops : ∀ char ∈ (rest ++ (gap ++ right)).head?, isBlank char = true := by
      intro char isNext
      cases rest with
      | nil =>
        rw [List.nil_append, List.head?_append_of_ne_nil _ nonempty] at isNext
        exact blank char (List.mem_of_mem_head? isNext)
      | cons next others => exact parts.stops char isNext
    have longer : FirstWord blanks word (rest ++ (gap ++ right)) := { parts with stops }
    rw [List.append_assoc, List.append_assoc, longer.words_eq, parts.words_eq, inductionHypothesis, List.cons_append]

/-! ## Where words stand -/

theorem exists_cut_of_getElem?_words {text word : List Char} {number : Nat} (isWord : (words text)[number]? = some word) :
    ∃ front rest, text = front ++ (word ++ rest) ∧ (words front).length = number ∧
      (∀ char ∈ front.getLast?, isBlank char = true) ∧ ∀ char ∈ rest.head?, isBlank char = true := by
  induction text using firstWord_induction generalizing number with
  | blank text blank =>
    rw [words_of_blank blank] at isWord
    cases isWord
  | cut blanks first rest parts inductionHypothesis =>
    rw [parts.words_eq] at isWord
    cases number with
    | zero =>
      obtain rfl : first = word := by simpa using isWord
      exact ⟨blanks, rest, rfl, congrArg List.length (words_of_blank parts.blank),
        fun char last => parts.blank char (List.mem_of_getLast? last), parts.stops⟩
    | succ number =>
      rw [List.getElem?_cons_succ] at isWord
      obtain ⟨front, behind, cut, count, frontEnds, behindBegins⟩ := inductionHypothesis isWord
      -- A word does not follow directly on another.
      have apart : front ≠ [] := by
        rintro rfl
        have inRest : word ∈ words rest := List.mem_of_getElem? isWord
        obtain ⟨wordNonempty, wordVisible⟩ := nonempty_and_visible_of_mem_words inRest
        obtain ⟨head, tail, rfl⟩ := List.exists_cons_of_ne_nil wordNonempty
        have headBlank : isBlank head = true := parts.stops head (by rw [cut]; rfl)
        rw [wordVisible head List.mem_cons_self] at headBlank
        cases headBlank
      have frontBegins : ∀ char ∈ front.head?, isBlank char = true := by
        have stops := parts.stops
        rwa [cut, List.head?_append_of_ne_nil _ apart] at stops
      have shorter : FirstWord blanks first front := { parts with stops := frontBegins }
      refine ⟨blanks ++ (first ++ front), behind, ?_, ?_, ?_, behindBegins⟩
      · rw [List.append_assoc, List.append_assoc, ← cut]
      · rw [shorter.words_eq, List.length_cons, count]
      · rw [List.getLast?_append_of_ne_nil _ (List.append_ne_nil_of_right_ne_nil _ apart),
          List.getLast?_append_of_ne_nil _ apart]
        exact frontEnds

/-! ## Words in a row -/

/-- Words as they are written in a row: each of them behind a gap, and blanks at the end. -/
structure WordRow where
  items : List (List Char × List Char)
  trailing : List Char

namespace WordRow

def text (row : WordRow) : List Char :=
  row.items.flatMap (fun (gap, word) => gap ++ word) ++ row.trailing

def wordList (row : WordRow) : List (List Char) :=
  row.items.map Prod.snd

/-- Gaps are blank, and the first word alone can do without one. -/
structure Separated (row : WordRow) : Prop where
  gaps : ∀ item ∈ row.items, ∀ char ∈ item.1, isBlank char = true
  apart : ∀ item ∈ row.items.tail, item.1 ≠ []
  nonempty : ∀ item ∈ row.items, item.2 ≠ []
  visible : ∀ item ∈ row.items, ∀ char ∈ item.2, isBlank char = false
  trailing : ∀ char ∈ row.trailing, isBlank char = true

theorem text_cons (gap word : List Char) (items : List (List Char × List Char)) (trailing : List Char) :
    text ⟨(gap, word) :: items, trailing⟩ = gap ++ (word ++ text ⟨items, trailing⟩) := by
  simp [text]

theorem head?_text {row : WordRow} (separated : row.Separated) (apart : ∀ item ∈ row.items, item.1 ≠ []) :
    ∀ char ∈ row.text.head?, isBlank char = true := by
  obtain ⟨items, trailing⟩ := row
  intro char isFirst
  cases items with
  | nil => exact separated.trailing char (List.mem_of_mem_head? isFirst)
  | cons item items =>
    rw [text_cons, List.head?_append_of_ne_nil _ (apart item List.mem_cons_self)] at isFirst
    exact separated.gaps item List.mem_cons_self char (List.mem_of_mem_head? isFirst)

theorem words_text {row : WordRow} (separated : row.Separated) : words row.text = row.wordList := by
  obtain ⟨items, trailing⟩ := row
  induction items with
  | nil => exact words_of_blank separated.trailing
  | cons item items inductionHypothesis =>
    obtain ⟨gaps, apart, nonempty, visible, blank⟩ := separated
    have others : Separated ⟨items, trailing⟩ :=
      ⟨fun other member => gaps other (List.mem_cons_of_mem _ member),
        fun other member => apart other (List.mem_of_mem_tail member),
        fun other member => nonempty other (List.mem_cons_of_mem _ member),
        fun other member => visible other (List.mem_cons_of_mem _ member), blank⟩
    -- All words behind the first have a gap, so the first ends where it is written to end.
    have parts : FirstWord item.1 item.2 (text ⟨items, trailing⟩) :=
      ⟨gaps item List.mem_cons_self, nonempty item List.mem_cons_self, visible item List.mem_cons_self,
        head?_text others apart⟩
    rw [text_cons, parts.words_eq, inductionHypothesis others]
    rfl

theorem exists_row (text : List Char) : ∃ row : WordRow, row.Separated ∧ row.text = text ∧ row.wordList = words text := by
  induction text using firstWord_induction with
  | blank text blank =>
    refine ⟨⟨[], text⟩, ⟨?_, ?_, ?_, ?_, blank⟩, rfl, (words_of_blank blank).symm⟩ <;>
      exact fun item member => absurd member List.not_mem_nil
  | cut blanks word rest parts inductionHypothesis =>
    obtain ⟨⟨items, trailing⟩, ⟨gaps, apart, nonempty, visible, blank⟩, rfl, same⟩ := inductionHypothesis
    have itemsApart : ∀ item ∈ items, item.1 ≠ [] := by
      intro item member empty
      cases items with
      | nil => cases member
      | cons first others =>
        cases member with
        | tail _ later => exact apart item later empty
        | head =>
          -- A first word without a gap would go on with the word in front of it.
          obtain ⟨head, tail, shape⟩ := List.exists_cons_of_ne_nil (nonempty item List.mem_cons_self)
          have headBlank := parts.stops head (by rw [text_cons, empty, shape]; rfl)
          rw [visible item List.mem_cons_self head (shape ▸ List.mem_cons_self)] at headBlank
          cases headBlank
    refine ⟨⟨(blanks, word) :: items, trailing⟩, ⟨?_, itemsApart, ?_, ?_, blank⟩, text_cons _ _ _ _, ?_⟩
    · exact List.forall_mem_cons.mpr ⟨parts.blank, gaps⟩
    · exact List.forall_mem_cons.mpr ⟨parts.nonempty, nonempty⟩
    · exact List.forall_mem_cons.mpr ⟨parts.visible, visible⟩
    · rw [parts.words_eq, ← same]
      rfl

end WordRow

end StyleSkeleton.Text
