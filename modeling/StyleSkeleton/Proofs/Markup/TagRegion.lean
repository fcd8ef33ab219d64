import StyleSkeleton.Proofs.Markup.Passing

/-! # The region of a tag

The attributes of a tag stand between its name and the next `>` that is not inside of a quoted value.  A scan
does not look for that sign, so that an attribute it finds may stand behind it.

`Spot` is what a reader has to know on the way to decide whether a `>` ends the tag.  An attribute that begins
outside of quotes brings the reader back there and does not end the tag (`Spot.read?_attribute`).  Whether it
is in the region therefore depends on the text in front of it alone.
-/

namespace StyleSkeleton.Markup

open StyleSkeleton.Text

/-! ## Reading towards the end of a tag -/

inductive Spot where
  /-- Outside of quotes. -/
  | free
  /-- Behind an equals sign, where a quote begins a value. -/
  | valueNext
  | quoted (quote : Char)
deriving DecidableEq

namespace Spot

def isQuoted : Spot → Bool
  | quoted _ => true
  | _ => false

def next? (char : Char) : Spot → Option Spot
  | free => if char = '>' then none else if char = '=' then some valueNext else some free
  | valueNext =>
    if char = '>' then none
    else if ClassAttribute.isQuote char then some (quoted char)
    else if isBlank char then some valueNext
    else some free
  | quoted quote => if char = quote then some free else some (quoted quote)

def read? (spot : Spot) (text : List Char) : Option Spot :=
  text.foldlM (fun spot char => spot.next? char) spot

@[simp] theorem read?_nil (spot : Spot) : spot.read? [] = some spot := rfl

@[simp] theorem read?_cons (spot : Spot) (char : Char) (text : List Char) :
    spot.read? (char :: text) = (spot.next? char).bind (·.read? text) := rfl

@[simp] theorem read?_append (spot : Spot) (first second : List Char) :
    spot.read? (first ++ second) = (spot.read? first).bind (·.read? second) :=
  List.foldlM_append

variable {text : List Char}

theorem read?_free (plain : ∀ char ∈ text, char ≠ '>' ∧ char ≠ '=') : free.read? text = some free := by
  induction text with
  | nil => rfl
  | cons char text inductionHypothesis =>
    obtain ⟨⟨notEnd, notSign⟩, plain⟩ := List.forall_mem_cons.mp plain
    simp [next?, notEnd, notSign, inductionHypothesis plain]

theorem read?_quoted {quote : Char} (absent : quote ∉ text) : (quoted quote).read? text = some (quoted quote) := by
  induction text with
  | nil => rfl
  | cons char text inductionHypothesis =>
    rw [List.mem_cons, not_or] at absent
    simp [next?, Ne.symm absent.1, inductionHypothesis absent.2]

theorem ne_of_isBlank {char visible : Char} (blank : isBlank char = true) (notBlank : isBlank visible = false) :
    char ≠ visible := fun same => by
  cases (same ▸ blank).symm.trans notBlank

theorem read?_valueNext (allBlank : AllBlank text) : valueNext.read? text = some valueNext := by
  induction text with
  | nil => rfl
  | cons char text inductionHypothesis =>
    obtain ⟨blank, allBlank⟩ := List.forall_mem_cons.mp allBlank
    have notEnd : char ≠ '>' := ne_of_isBlank blank (by decide)
    have double : char ≠ '"' := ne_of_isBlank blank (by decide)
    have single : char ≠ '\'' := ne_of_isBlank blank (by decide)
    simp [next?, notEnd, double, single, blank, ClassAttribute.isQuote, inductionHypothesis allBlank]

theorem read?_blanks (allBlank : AllBlank text) {spot : Spot} (unquoted : spot.isQuoted = false) :
    spot.read? text = some spot := by
  cases spot with
  | free =>
    exact read?_free fun char member =>
      ⟨ne_of_isBlank (allBlank char member) (by decide), ne_of_isBlank (allBlank char member) (by decide)⟩
  | valueNext => exact read?_valueNext allBlank
  | quoted quote => cases unquoted

theorem read?_word {word : List Char} (spells : SpellsClass word) {spot : Spot} (unquoted : spot.isQuoted = false) :
    spot.read? word = some free := by
  have accepted : ∀ letters ∈ ClassAttribute.nameLetters, ∀ char ∈ letters,
      ClassAttribute.isQuote char = false ∧ char ≠ '=' := by
    simp only [ClassAttribute.nameLetters, List.forall_mem_cons, List.not_mem_nil, false_implies, implies_true]
    decide
  have apart := spells.forall_of_accepted accepted
  obtain ⟨first, rest, rfl, _⟩ := spells.exists_cons
  obtain ⟨⟨visible, _, notEnd⟩, letters⟩ := List.forall_mem_cons.mp spells.letter
  obtain ⟨⟨noQuote, notSign⟩, apartRest⟩ := List.forall_mem_cons.mp apart
  have others : free.read? rest = some free :=
    read?_free fun char member => ⟨(letters char member).2.2, (apartRest char member).2⟩
  cases spot with
  | free => simp [next?, notEnd, notSign, others]
  | valueNext => simp [next?, notEnd, noQuote, visible, others]
  | quoted quote => cases unquoted

theorem read?_attribute {spelling : Spelling} (grammatical : spelling.Grammatical) {spot : Spot}
    (unquoted : spot.isQuoted = false) : spot.read? spelling.text = some free := by
  have isQuote : ClassAttribute.isQuote spelling.quote = true := ClassAttribute.isQuote_iff.mpr grammatical.quote
  have notEnd : spelling.quote ≠ '>' := by
    cases grammatical.quote with
    | inl double => simp [double]
    | inr single => simp [single]
  have value : (quoted spelling.quote).read? (spelling.value ++ [spelling.quote]) = some free := by
    simp [read?_quoted grammatical.value, next?]
  have opened : valueNext.read? (spelling.quote :: (spelling.value ++ [spelling.quote])) = some free := by
    rw [read?_cons, next?, if_neg notEnd, if_pos isQuote]
    exact value
  have sign : free.next? '=' = some valueNext := rfl
  simp only [Spelling.text, Spelling.behindWord, read?_append, read?_cons, read?_blanks grammatical.blanks unquoted,
    read?_word grammatical.word unquoted, read?_blanks grammatical.beforeSign (show free.isQuoted = false from rfl),
    sign, read?_blanks grammatical.behindSign (show valueNext.isQuoted = false from rfl), Option.bind_some] at opened ⊢
  exact opened

end Spot

/-! ## Attributes behind a tag -/

def StandsBehind (markup : String) (opening : Event) (between inside : List Char) (found : ClassAttribute) : Prop :=
  ∃ before name behind, opening = ⟨byteLength before, .opening (String.ofList name)⟩ ∧
    markup.toList = before ++ '<' :: name ++ between ++ inside ++ behind ∧
    found.start = byteLength (before ++ '<' :: name ++ between) ∧ found.stop = found.start + byteLength inside

/-- An attribute lies in the region of a tag: no `>` outside of quoted values comes between the name of the tag
and the end of the attribute. -/
def InRegion (markup : String) (opening : Event) (found : ClassAttribute) : Prop :=
  ∃ between inside, StandsBehind markup opening between inside found ∧
    (Spot.free.read? (between ++ inside)).isSome = true

section Behind

variable {markup : String} {opening : Event} {found : ClassAttribute} {between inside between' inside' : List Char}

theorem StandsBehind.unique (first : StandsBehind markup opening between inside found)
    (second : StandsBehind markup opening between' inside' found) : between = between' ∧ inside = inside' := by
  obtain ⟨before, name, behind, isOpening, split, start, stop⟩ := first
  obtain ⟨before', name', behind', isOpening', split', start', stop'⟩ := second
  obtain ⟨position, kind⟩ := Event.mk.inj (isOpening.symm.trans isOpening')
  obtain rfl : name = name' := String.ofList_injective (EventKind.opening.inj kind)
  have fronts : before ++ '<' :: name ++ between ++ (inside ++ behind) =
      before' ++ '<' :: name ++ between' ++ (inside' ++ behind') := by
    rw [← List.append_assoc, ← split, split', List.append_assoc]
  obtain ⟨front, rest⟩ := append_inj_of_byteLength fronts (start.symm.trans start')
  rw [List.append_assoc, List.append_assoc] at front
  refine ⟨List.append_cancel_left (append_inj_of_byteLength front position).2, ?_⟩
  exact (append_inj_of_byteLength rest (by omega)).1

theorem exists_between_of_blank {name behind passed rest : List Char} (accepted : ∀ char ∈ name, isNameChar char = true)
    (blank : ∀ char ∈ rest.head?, isBlank char = true)
    (same : name ++ behind = passed ++ rest) : ∃ between, passed = name ++ between := by
  obtain ⟨between, split, _⟩ | ⟨more, rfl, within⟩ := List.append_eq_append_iff.mp same
  · exact ⟨between, split⟩
  · cases more with
    | nil => exact ⟨[], by simp⟩
    | cons first more =>
      have visible := visible_of_isNameChar (accepted first (by simp))
      cases visible.symm.trans (blank first (by simp [within]))

theorem exists_standsBehind {tag : String} (isEvent : opening ∈ scan markup) (isOpening : opening.kind = .opening tag)
    (member : found ∈ ClassAttribute.findAll markup.toList) (inFront : opening.position < found.start) :
    ∃ between inside, StandsBehind markup opening between inside found := by
  obtain ⟨front, spelling, rest, grammatical, splitAttribute, start, stop, _⟩ :=
    ClassAttribute.exists_spelling_of_mem member
  obtain ⟨position, kind⟩ := opening
  obtain rfl : kind = .opening tag := isOpening
  obtain ⟨before, name, behind, split, rfl, _, accepted, _, rfl⟩ := mem_scan_iff.mp isEvent
  rw [splitAttribute, List.append_assoc] at split
  -- The bracket is a character in front of the attribute, and by its blank so is the whole name.
  obtain ⟨passed, rfl, _⟩ | ⟨passed, rfl, within⟩ := List.append_eq_append_iff.mp split
  · simp only [byteLength_append] at inFront start
    omega
  · cases passed with
    | nil =>
      rw [List.append_nil] at start
      exact absurd start (Nat.ne_of_lt inFront)
    | cons sign passed =>
      obtain ⟨rfl, behindBracket⟩ := List.cons.inj within
      obtain ⟨between, rfl⟩ := exists_between_of_blank accepted (fun _ => grammatical.head) behindBracket
      refine ⟨between, spelling.text, before, name, rest, rfl, ?_, ?_, stop⟩
      · simpa using splitAttribute
      · simpa using start.symm

theorem StandsBehind.exists_spelling (stands : StandsBehind markup opening between inside found)
    (member : found ∈ ClassAttribute.findAll markup.toList) :
    ∃ spelling : Spelling, spelling.Grammatical ∧ spelling.text = inside := by
  obtain ⟨before, name, behind, _, split, start, stop⟩ := stands
  obtain ⟨front, spelling, rest, grammatical, splitAttribute, start', stop', _⟩ :=
    ClassAttribute.exists_spelling_of_mem member
  rw [splitAttribute, List.append_assoc, List.append_assoc (before ++ '<' :: name ++ between)] at split
  obtain ⟨_, rests⟩ := append_inj_of_byteLength split (start'.trans start)
  exact ⟨spelling, grammatical, (append_inj_of_byteLength rests (by omega)).1⟩

theorem inRegion_of_unquoted (member : found ∈ ClassAttribute.findAll markup.toList)
    (stands : StandsBehind markup opening between inside found) {spot : Spot}
    (reads : Spot.free.read? between = some spot) (unquoted : spot.isQuoted = false) :
    InRegion markup opening found := by
  obtain ⟨spelling, grammatical, rfl⟩ := stands.exists_spelling member
  refine ⟨between, spelling.text, stands, ?_⟩
  rw [Spot.read?_append, reads, Option.bind_some, Spot.read?_attribute grammatical unquoted]
  rfl

theorem not_inRegion_of_ended (stands : StandsBehind markup opening between inside found)
    (ended : Spot.free.read? between = none) : ¬ InRegion markup opening found := by
  rintro ⟨between', inside', stands', notEnded⟩
  obtain ⟨rfl, rfl⟩ := stands.unique stands'
  rw [Spot.read?_append, ended] at notEnded
  cases notEnded

end Behind

end StyleSkeleton.Markup
