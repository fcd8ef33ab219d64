import StyleSkeleton.Proofs.Markup.AttributeSearch
import StyleSkeleton.Proofs.Text.MaximalRuns

/-! # Splitting the value of a class attribute

The names in a value are its maximal runs without blanks (`value_splitting_exact`).  The characters
that separate names are the ones that may stand in front of the word of an attribute and around its
sign (`findAll_text_iff`).

The non-trivial ingredient is `visibleCount_opening`.  Whatever stands at the places of the blanks,
an attribute has seven more visible characters in front of its value.  If it can be read at all, with
blanks at these places, it has no others, so there was nothing visible at these places either.
-/

namespace StyleSkeleton.Markup

open StyleSkeleton.Text

/-! ## The places of blanks -/

def visibleCount (text : List Char) : Nat :=
  text.countP fun char => !isBlank char

theorem visibleCount_eq_zero_iff {text : List Char} : visibleCount text = 0 ↔ AllBlank text := by
  simp [visibleCount, AllBlank, List.countP_eq_zero]

theorem visibleCount_append (left right : List Char) :
    visibleCount (left ++ right) = visibleCount left + visibleCount right :=
  List.countP_append

theorem visibleCount_of_visible {text : List Char} (visible : ∀ char ∈ text, isBlank char = false) :
    visibleCount text = text.length :=
  List.countP_eq_length.mpr fun char member => by rw [visible char member, Bool.not_false]

namespace Spelling

/-- All that an attribute asks for, except for what stands at the places of its blanks. -/
structure Framed (spelling : Spelling) : Prop where
  word : SpellsClass spelling.word
  quote : spelling.quote = '"' ∨ spelling.quote = '\''
  value : spelling.quote ∉ spelling.value

/-- What stands at the places of the blanks: before the word, before the sign and behind it. -/
def gaps (spelling : Spelling) : List (List Char) :=
  [spelling.blanks, spelling.beforeSign, spelling.behindSign]

def alone (spelling : Spelling) : ClassAttribute :=
  ⟨0, byteLength spelling.text, String.ofList spelling.value⟩

variable {spelling : Spelling}

theorem Grammatical.framed (grammatical : spelling.Grammatical) : spelling.Framed :=
  ⟨grammatical.word, grammatical.quote, grammatical.value⟩

theorem Framed.grammatical_iff (framed : spelling.Framed) :
    spelling.Grammatical ↔ spelling.blanks ≠ [] ∧ ∀ gap ∈ spelling.gaps, AllBlank gap := by
  simp only [gaps, List.forall_mem_cons, List.not_mem_nil, false_implies, implies_true, and_true]
  constructor
  · rintro ⟨nonempty, blanks, _, beforeSign, behindSign, _, _⟩
    exact ⟨nonempty, blanks, beforeSign, behindSign⟩
  · rintro ⟨nonempty, blanks, beforeSign, behindSign⟩
    exact ⟨nonempty, blanks, framed.word, beforeSign, behindSign, framed.quote, framed.value⟩

theorem visibleCount_gaps_eq_zero_iff (spelling : Spelling) :
    visibleCount spelling.gaps.flatten = 0 ↔ ∀ gap ∈ spelling.gaps, AllBlank gap := by
  rw [visibleCount_eq_zero_iff, AllBlank, List.forall_mem_flatten]
  rfl

/-- The word, the sign and the quote are seven visible characters. -/
theorem Framed.visibleCount_opening (framed : spelling.Framed) :
    visibleCount spelling.opening = visibleCount spelling.gaps.flatten + 7 := by
  have word : visibleCount spelling.word = 5 :=
    framed.word.length_eq ▸ visibleCount_of_visible fun char member => (framed.word.letter char member).1
  have sign : visibleCount ['='] = 1 := by decide
  have quote : visibleCount [spelling.quote] = 1 :=
    visibleCount_of_visible (List.forall_mem_singleton.mpr (visible_of_quote framed.quote))
  have parts : spelling.opening = spelling.blanks ++ (spelling.word ++ (spelling.beforeSign ++
      (['='] ++ (spelling.behindSign ++ [spelling.quote])))) := by simp [opening]
  simp only [parts, gaps, List.flatten_cons, List.flatten_nil, List.append_nil, visibleCount_append, word, sign, quote]
  omega

theorem Framed.grammatical_of_text_eq (framed : spelling.Framed) {other : Spelling} (grammatical : other.Grammatical)
    (text : other.text = spelling.text) (value : other.value = spelling.value) : spelling.Grammatical := by
  refine framed.grammatical_iff.mpr ⟨?_, ?_⟩
  · intro nothing
    obtain ⟨first, rest, shape, visible⟩ := framed.word.exists_cons
    have begins : first ∈ (other.text ++ []).head? := by
      rw [text]
      simp [Spelling.text, nothing, shape]
    rw [grammatical.head begins] at visible
    cases visible
  · rw [text_eq_opening, text_eq_opening, value] at text
    obtain ⟨opening, _⟩ := List.append_inj' text (by simp)
    have noneInOther : visibleCount other.gaps.flatten = 0 :=
      other.visibleCount_gaps_eq_zero_iff.mpr (grammatical.framed.grammatical_iff.mp grammatical).2
    have counts := framed.visibleCount_opening
    rw [← opening, grammatical.framed.visibleCount_opening, noneInOther] at counts
    exact spelling.visibleCount_gaps_eq_zero_iff.mp (by omega)

end Spelling

/-! ## Separators -/

theorem wordsOf_ofList_eq_nil_iff {gap : List Char} : wordsOf (String.ofList gap) = [] ↔ AllBlank gap := by
  rw [wordsOf, String.toList_ofList, List.map_eq_nil_iff, words_eq_nil_iff, AllBlank]

/-- What is framed as an attribute is found to be one if splitting leaves nothing of what stands at the places of
its blanks. -/
theorem findAll_text_iff {spelling : Spelling} (framed : spelling.Framed) :
    ClassAttribute.findAll spelling.text = [spelling.alone] ↔
      spelling.blanks ≠ [] ∧ ∀ gap ∈ spelling.gaps, wordsOf (String.ofList gap) = [] := by
  simp only [wordsOf_ofList_eq_nil_iff, ← framed.grammatical_iff]
  constructor
  · intro found
    have member : spelling.alone ∈ ClassAttribute.findAll spelling.text := found ▸ List.mem_singleton_self _
    obtain ⟨before, other, behind, grammatical, split, start, stop, value⟩ :=
      ClassAttribute.exists_spelling_of_mem member
    obtain rfl : before = [] := byteLength_eq_zero start
    obtain rfl : behind = [] := by
      simp only [Spelling.alone, split, byteLength_append, byteLength_nil] at stop
      exact byteLength_eq_zero (by omega)
    rw [List.nil_append, List.append_nil] at split
    exact framed.grammatical_of_text_eq grammatical split.symm (by simpa [Spelling.alone] using value)
  · intro grammatical
    have reached : (Place.start spelling.text).Reaches spelling.text ⟨byteLength spelling.text, []⟩ := by
      simp [Place.Reaches, Place.start]
    have read := ClassAttribute.read?_eq_some_iff.mpr ⟨spelling, grammatical, reached, rfl⟩
    rw [ClassAttribute.findAll, ClassAttribute.findFrom_eq_search,
      ClassAttribute.reader.findFrom_of_read read, ClassAttribute.reader.findFrom_end]
    rfl

/-! ## Exactness -/

/-- The names in a value are its maximal runs without blanks, from left to right.  So no name is empty or has a
blank, and together they are the value without its blanks; a gap keeps the names on its two sides apart; values are
the rows of their names; and what counts as blank is the same as around the word and the sign of an attribute. -/
theorem value_splitting_exact :
    (∀ value : String, ∃ runs : List (Nat × Nat), runs.Pairwise (fun first second => first.2 < second.1) ∧
      (∀ start stop, (start, stop) ∈ runs ↔ IsMaximalRun value.toList start stop) ∧
      wordsOf value = runs.map fun (start, stop) => String.ofList (value.toList.extract start stop)) ∧
    (∀ value, ∀ name ∈ wordsOf value, name ≠ "" ∧ ∀ char ∈ name.toList, isBlank char = false) ∧
    (∀ value, String.join (wordsOf value) = String.ofList (value.toList.filter fun char => !isBlank char)) ∧
    (∀ left gap right : String, gap ≠ "" → (∀ char ∈ gap.toList, isBlank char = true) →
      wordsOf (left ++ gap ++ right) = wordsOf left ++ wordsOf right) ∧
    (∀ row : WordRow, row.Separated → wordsOf (String.ofList row.text) = row.wordList.map String.ofList) ∧
    (∀ value, ∃ row : WordRow, row.Separated ∧ String.ofList row.text = value ∧
      row.wordList.map String.ofList = wordsOf value) ∧
    ∀ spelling : Spelling, spelling.Framed →
      (ClassAttribute.findAll spelling.text = [spelling.alone] ↔
        spelling.blanks ≠ [] ∧ ∀ gap ∈ spelling.gaps, wordsOf (String.ofList gap) = []) := by
  refine ⟨?_, ?_, ?_, ?_, ?_, ?_, fun spelling => findAll_text_iff⟩
  · intro value
    obtain ⟨runs, ordered, exactly, same⟩ := exists_maximalRuns value.toList
    refine ⟨runs, ordered, exactly, ?_⟩
    rw [wordsOf, same, List.map_map]
    rfl
  · intro value name member
    refine ⟨?_, visible_of_mem_wordsOf member⟩
    obtain ⟨word, isWord, rfl⟩ := List.mem_map.mp member
    simpa using (nonempty_and_visible_of_mem_words isWord).1
  · intro value
    rw [← String.toList_inj, String.toList_join, String.toList_ofList, ← flatten_words, wordsOf, List.flatMap_map]
    simp only [String.toList_ofList, List.flatMap_id']
  · intro left gap right nonempty blank
    have apart : gap.toList ≠ [] := by simpa using nonempty
    rw [wordsOf, String.toList_append, String.toList_append, List.append_assoc, words_append_gap apart blank,
      List.map_append, wordsOf, wordsOf]
  · intro row separated
    rw [wordsOf, String.toList_ofList, row.words_text separated]
  · intro value
    obtain ⟨row, separated, text, wordList⟩ := WordRow.exists_row value.toList
    exact ⟨row, separated, by rw [text, String.ofList_toList], by rw [wordList, wordsOf]⟩

section Example

/-- Two names with blanks of one, two and three bytes around them. -/
def mixedRow : WordRow :=
  ⟨[(['\u3000'], ['w', '-', '1']), ([' ', '\u00a0'], ['ſ', '<', 'b'])], ['\u2028', '\t']⟩

/-- An attribute with such blanks, the word in mixed case and an apostrophe for a quote. -/
def mixedSpelling : Spelling :=
  ⟨['\u3000'], ['c', 'L', 'a', 'ſ', 'S'], ['\u00a0'], ['\u2028', '\t'], '\'', ['a', ' ', '"']⟩

theorem value_splitting_mixed :
    mixedRow.Separated ∧ wordsOf (String.ofList mixedRow.text) = ["w-1", "ſ<b"] ∧
    mixedSpelling.Framed ∧ (mixedSpelling.blanks ≠ [] ∧ ∀ gap ∈ mixedSpelling.gaps, wordsOf (String.ofList gap) = []) ∧
    ClassAttribute.findAll mixedSpelling.text = [mixedSpelling.alone] := by
  obtain ⟨_, _, _, _, rows, _, attributes⟩ := value_splitting_exact
  have separated : mixedRow.Separated := by
    constructor <;>
      simp only [mixedRow, List.tail_cons, List.forall_mem_cons, List.not_mem_nil, false_implies, implies_true] <;>
      decide
  have framed : mixedSpelling.Framed := ⟨by decide, by decide, by decide⟩
  have allBlank : ∀ gap ∈ mixedSpelling.gaps, AllBlank gap := by decide
  have splitAway : mixedSpelling.blanks ≠ [] ∧ ∀ gap ∈ mixedSpelling.gaps, wordsOf (String.ofList gap) = [] :=
    ⟨by decide, fun gap member => wordsOf_ofList_eq_nil_iff.mpr (allBlank gap member)⟩
  exact ⟨separated, rows mixedRow separated, framed, splitAway, (attributes mixedSpelling framed).mpr splitAway⟩

end Example

end StyleSkeleton.Markup
