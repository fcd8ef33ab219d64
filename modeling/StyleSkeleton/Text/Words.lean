/-! # Words

The words of a text are its maximal runs of characters that are not blank, from left to right.
Blank characters separate words and belong to none, so leading, trailing and repeated blanks
leave no trace.

A character is blank when it has Unicode's `White_Space` property. Nothing else in the library
decides what counts as blank, so the separators inside a class attribute and the separators
between class names are the same set.
-/

namespace StyleSkeleton.Text

/-! ## Blank characters -/

/-- The code points with the property `White_Space`, as ranges with both ends included, in
    increasing order. -/
def blankRanges : List (Nat × Nat) :=
  [(0x0009, 0x000D), (0x0020, 0x0020), (0x0085, 0x0085), (0x00A0, 0x00A0), (0x1680, 0x1680),
   (0x2000, 0x200A), (0x2028, 0x2029), (0x202F, 0x202F), (0x205F, 0x205F), (0x3000, 0x3000)]

def isBlank (char : Char) : Bool :=
  blankRanges.any fun (first, last) => first ≤ char.toNat && char.toNat ≤ last

/-- The set holds twenty-five characters. -/
example : (blankRanges.map fun (first, last) => last - first + 1).sum = 25 := by decide

/-! ## Runs

Cutting a text at the first character that fails a test never makes it longer. -/

theorem length_dropWhile_le (test : Char → Bool) (text : List Char) :
    (text.dropWhile test).length ≤ text.length :=
  (List.dropWhile_suffix test).length_le

theorem length_after_word_lt {text rest : List Char} {first : Char}
    (begins : text.dropWhile isBlank = first :: rest) :
    (rest.dropWhile fun char => !isBlank char).length < text.length := by
  have behind := length_dropWhile_le (fun char => !isBlank char) rest
  have whole := length_dropWhile_le isBlank text
  rw [begins, List.length_cons] at whole
  omega

/-! ## Splitting -/

def words (text : List Char) : List (List Char) :=
  match _begins : text.dropWhile isBlank with
  | [] => []
  | first :: rest =>
    (first :: rest.takeWhile fun char => !isBlank char) ::
      words (rest.dropWhile fun char => !isBlank char)
termination_by text.length
decreasing_by exact length_after_word_lt ‹_›

theorem words_eq_nil {text : List Char} (blank : text.dropWhile isBlank = []) :
    words text = [] := by
  rw [words]
  split
  · rfl
  · simp_all

theorem words_eq_cons {text rest : List Char} {first : Char}
    (begins : text.dropWhile isBlank = first :: rest) :
    words text =
      (first :: rest.takeWhile fun char => !isBlank char) ::
        words (rest.dropWhile fun char => !isBlank char) := by
  rw [words]
  split
  · simp_all
  · rename_i found foundRest foundBegins
    rw [begins] at foundBegins
    obtain ⟨rfl, rfl⟩ := List.cons.inj foundBegins
    rfl

def wordsOf (text : String) : List String :=
  (words text.toList).map String.ofList

end StyleSkeleton.Text
