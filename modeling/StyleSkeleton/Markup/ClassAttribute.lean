import StyleSkeleton.Text.Place
import StyleSkeleton.Text.Words

/-! # Class attributes

A class attribute is a run of blanks, the word `class` in any case, an equals sign with optional
blanks around it, and a value between two quotes of one kind that the value does not contain.
Case is ignored by Unicode simple case folding, under which the long s is an s.

Attributes are looked for from left to right and do not overlap: the search goes on after the
closing quote of an attribute it found, and right after a run of blanks that starts none. An
attribute inside the unfinished value of another is therefore still found.
-/

namespace StyleSkeleton.Markup

open StyleSkeleton.Text

/-- A class attribute: where its run of blanks starts, where it stops behind the closing quote,
    and the text between the quotes. -/
structure ClassAttribute where
  start : Nat
  stop : Nat
  value : String
deriving DecidableEq, Repr

namespace ClassAttribute

/-! ## The word and the quotes -/

/-- The letters of the attribute's name, each with all the characters that count as it. -/
def nameLetters : List (List Char) :=
  [['c', 'C'], ['l', 'L'], ['a', 'A'], ['s', 'S', 'ſ'], ['s', 'S', 'ſ']]

def isQuote (char : Char) : Bool :=
  char == '"' || char == '\''

/-! ## Reading one attribute -/

def readValue? (place : Place) : Option (List Char × Place) :=
  match place.next? with
  | none => none
  | some (quote, opened) =>
    if isQuote quote then
      ((opened.passWhile (· != quote)).pass? (· == quote)).map fun after =>
        (opened.rest.takeWhile (· != quote), after)
    else none

def read? (start : Place) : Option (ClassAttribute × Place) :=
  match start.pass? isBlank with
  | none => none
  | some blank =>
    match (blank.passWhile isBlank).passAll? (nameLetters.map fun letters => letters.contains) with
    | none => none
    | some named =>
      match (named.passWhile isBlank).pass? (· == '=') with
      | none => none
      | some equated =>
        (readValue? (equated.passWhile isBlank)).map fun (value, after) =>
          (⟨start.offset, after.offset, String.ofList value⟩, after)

/-! ## What reading passes -/

theorem readValue?_reaches {place after : Place} {value : List Char}
    (read : readValue? place = some (value, after)) :
    ∃ quote, isQuote quote = true ∧ quote ∉ value ∧
      place.Reaches (quote :: value ++ [quote]) after := by
  unfold readValue? at read
  split at read
  · cases read
  · rename_i quote opened next
    split at read
    · rename_i quotes
      simp only [Option.map_eq_some_iff, Prod.mk.injEq] at read
      obtain ⟨stop, last, rfl, rfl⟩ := read
      obtain ⟨closing, closes, reached⟩ := Place.pass?_reaches last
      obtain rfl : closing = quote := by simpa using closes
      refine ⟨closing, quotes, ?_, ?_⟩
      · intro member
        simpa using List.all_eq_true.mp List.all_takeWhile closing member
      · have passed := (Place.next?_reaches next).trans
          ((Place.passWhile_reaches (· != closing) opened).trans reached)
        simpa using passed
    · cases read

theorem read?_reaches {start after : Place} {found : ClassAttribute}
    (read : read? start = some (found, after)) :
    found.start = start.offset ∧ found.stop = after.offset ∧
      ∃ passed, passed ≠ [] ∧ start.Reaches passed after := by
  unfold read? at read
  split at read
  · cases read
  · rename_i blank firstBlank
    split at read
    · cases read
    · rename_i named letters
      split at read
      · cases read
      · rename_i equated equals
        simp only [Option.map_eq_some_iff, Prod.exists] at read
        obtain ⟨value, stop, readsValue, same⟩ := read
        obtain ⟨rfl, rfl⟩ := Prod.mk.inj same
        obtain ⟨char, _, passedBlank⟩ := Place.pass?_reaches firstBlank
        obtain ⟨name, _, passedName⟩ := Place.passAll?_reaches letters
        obtain ⟨sign, _, passedSign⟩ := Place.pass?_reaches equals
        obtain ⟨quote, _, _, passedValue⟩ := readValue?_reaches readsValue
        refine ⟨rfl, rfl, _, ?_, passedBlank.trans ((Place.passWhile_reaches _ _).trans
          (passedName.trans ((Place.passWhile_reaches _ _).trans (passedSign.trans
            ((Place.passWhile_reaches _ _).trans passedValue)))))⟩
        simp

theorem read?_length_lt {start after : Place} {found : ClassAttribute}
    (read : read? start = some (found, after)) : after.rest.length < start.rest.length := by
  obtain ⟨_, _, passed, nonempty, reached⟩ := read?_reaches read
  have length := reached.length_eq
  have positive := List.length_pos_iff.mpr nonempty
  omega

/-! ## The search -/

def nextBlank (place : Place) : Place :=
  place.passWhile fun char => !isBlank char

theorem length_nextBlank_le (place : Place) :
    (nextBlank place).rest.length ≤ place.rest.length :=
  (List.dropWhile_suffix _).length_le

theorem length_passWhile_nextBlank_lt {place : Place} (more : (nextBlank place).rest ≠ []) :
    ((nextBlank place).passWhile isBlank).rest.length < place.rest.length := by
  have bound := length_nextBlank_le place
  have head := List.head_dropWhile_not (fun char => !isBlank char) more
  match begins : (nextBlank place).rest, more with
  | first :: rest, _ =>
    have blank : isBlank first = true := by
      have dropped : place.rest.dropWhile (fun char => !isBlank char) = first :: rest := begins
      simpa [dropped] using head
    have shorter := (List.dropWhile_suffix isBlank (l := rest)).length_le
    rw [begins, List.length_cons] at bound
    simp only [Place.passWhile, begins, List.dropWhile_cons, blank, ↓reduceIte]
    omega

/-- The class attributes from a place on. This is the leftmost-first, non-overlapping iteration
    of a pattern that begins with a run of blanks: a finding is the leftmost there is, the next
    one is looked for behind it, and a run of blanks at which nothing is read is passed as a
    whole, since what follows it is the same from any of its blanks. -/
def findFrom (place : Place) : List ClassAttribute :=
  if _ended : (nextBlank place).rest = [] then []
  else
    match _read : read? (nextBlank place) with
    | some (found, after) => found :: findFrom after
    | none => findFrom ((nextBlank place).passWhile isBlank)
termination_by place.rest.length
decreasing_by
  · exact Nat.lt_of_lt_of_le (read?_length_lt _read) (length_nextBlank_le place)
  · exact length_passWhile_nextBlank_lt _ended

def findAll (text : List Char) : List ClassAttribute :=
  findFrom (Place.start text)

end ClassAttribute

end StyleSkeleton.Markup
