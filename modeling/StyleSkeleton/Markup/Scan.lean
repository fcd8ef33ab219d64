import StyleSkeleton.Log
import StyleSkeleton.Markup.ClassAttribute
import StyleSkeleton.Markup.Event
import StyleSkeleton.Text.Search

/-! # Scanning markup

A scan lists the events of a markup text in the order of their positions. No tree is built and
nothing is assumed of the text: a tag opens where `<` is read before a tag name, a tag closes
where `</` is read, inside quotes as well as outside.

The names of a class attribute get the position of the attribute plus their number, so they stay
in the order they were written in. Events of one position keep the order openings, closings,
class names.
-/

namespace StyleSkeleton.Markup

open StyleSkeleton.Text

/-! ## The three kinds of event -/

def readOpening? (place : Place) : Option (Event × Place) :=
  match place.pass? (· == '<') with
  | none => none
  | some named =>
    if named.rest.takeWhile isNameChar = [] then none
    else some (⟨place.offset, .opening (String.ofList (named.rest.takeWhile isNameChar))⟩,
      named.passWhile isNameChar)

def readClosing? (place : Place) : Option (Event × Place) :=
  (place.passAll? [(· == '<'), (· == '/')]).map fun after => (⟨place.offset, .closing⟩, after)

theorem readOpening?_reaches {place after : Place} {event : Event}
    (read : readOpening? place = some (event, after)) :
    ∃ passed, passed ≠ [] ∧ place.Reaches passed after := by
  unfold readOpening? at read
  split at read
  · cases read
  · rename_i named sign
    obtain ⟨char, _, passedSign⟩ := Place.pass?_reaches sign
    split at read
    · cases read
    · obtain ⟨rfl, rfl⟩ := Prod.mk.inj (Option.some.inj read)
      have passedName := Place.passWhile_reaches isNameChar named
      exact ⟨_, List.cons_ne_nil _ _, passedSign.trans passedName⟩

theorem readClosing?_reaches {place after : Place} {event : Event}
    (read : readClosing? place = some (event, after)) :
    ∃ passed, passed ≠ [] ∧ place.Reaches passed after := by
  simp only [readClosing?, Option.map_eq_some_iff, Prod.mk.injEq] at read
  obtain ⟨_, signs, _, rfl⟩ := read
  obtain ⟨passed, length, reached⟩ := Place.passAll?_reaches signs
  refine ⟨passed, ?_, reached⟩
  rintro rfl
  cases length

def openingReader : Reader Event := ⟨readOpening?, readOpening?_reaches⟩

def closingReader : Reader Event := ⟨readClosing?, readClosing?_reaches⟩

/-- The class names of an attribute, each with the attribute's start plus its number as its
    position. -/
def ClassAttribute.events (source : ClassAttribute) : List Event :=
  ((wordsOf source.value).zipIdx source.start).map fun (name, position) =>
    ⟨position, .className name⟩

def openings (text : List Char) : List Event :=
  openingReader.findFrom (Place.start text)

def closings (text : List Char) : List Event :=
  closingReader.findFrom (Place.start text)

def classNames (text : List Char) : List Event :=
  (ClassAttribute.findAll text).flatMap ClassAttribute.events

/-! ## The scan -/

def scan (markup : String) : List Event :=
  let text := markup.toList
  (openings text ++ closings text ++ classNames text).mergeSort Event.notAfter

theorem scan_pairwise (markup : String) :
    (scan markup).Pairwise fun first second => first.position ≤ second.position :=
  (List.pairwise_mergeSort Event.notAfter_trans Event.notAfter_total _).imp Event.notAfter_iff.mp

/-! ## What a scan reports -/

def scanLog (markup : String) : List LogRecord :=
  let text := markup.toList
  (ClassAttribute.findAll text).map (fun found => .foundAttribute found.start found.value) ++
    [.scanned (scan markup).length (openings text).length (classNames text).length]

end StyleSkeleton.Markup
