import Mathlib.Data.String.Basic
import StyleSkeleton.Proofs.Markup.Scanning

/-! # The positions of class names

The position of a class name is made up: it is the start of its attribute plus its number, and not
the byte where the name is written.  It lies in front of that byte, because an attribute has eight
bytes at least in front of its value and each name further in front takes a byte at least.

So no position leaves its attribute.  Attributes do not overlap, hence a scan has their names one
attribute after the other, between the tags in front of the attribute and those behind it
(`name_positions_inside`).
-/

namespace StyleSkeleton

namespace Text

theorem byteLength_toList (text : String) : byteLength text.toList = text.utf8ByteSize := by
  have counts (chars : List Char) : byteLength chars = String.utf8Len chars := by
    induction chars with
    | nil => rfl
    | cons char rest inductionHypothesis =>
      rw [byteLength_cons, inductionHypothesis, String.utf8Len_cons, Nat.add_comm]
  rw [counts, String.utf8Len_toList]

end Text

namespace Markup

open StyleSkeleton.Text

/-! ## Where names are written -/

namespace ClassAttribute

/-- Where a text has the name with the given number of an attribute.  The attribute is written between
`before` and `behind`, and its value is cut at blanks in front of the name and behind it. -/
structure Occurrence (text : List Char) (found : ClassAttribute) (number : Nat) (name : String) where
  before : List Char
  spelling : Spelling
  behind : List Char
  front : List Char
  rest : List Char
  grammatical : spelling.Grammatical
  split : text = before ++ spelling.text ++ behind
  start : byteLength before = found.start
  stop : found.stop = found.start + byteLength spelling.text
  value : spelling.value = found.value.toList
  cut : found.value.toList = front ++ (name.toList ++ rest)
  count : (words front).length = number
  frontEnds : ∀ char ∈ front.getLast?, isBlank char = true
  restBegins : ∀ char ∈ rest.head?, isBlank char = true

def Occurrence.offset {text : List Char} {found : ClassAttribute} {number : Nat} {name : String}
    (written : found.Occurrence text number name) : Nat :=
  byteLength (written.before ++ written.spelling.opening ++ written.front)

variable {text : List Char} {found : ClassAttribute} {number : Nat} {name : String}

theorem nonempty_occurrence (member : found ∈ findAll text) (isName : (wordsOf found.value)[number]? = some name) :
    Nonempty (found.Occurrence text number name) := by
  rw [wordsOf, List.getElem?_map, Option.map_eq_some_iff] at isName
  obtain ⟨word, isWord, rfl⟩ := isName
  obtain ⟨before, spelling, behind, grammatical, split, start, stop, value⟩ := exists_spelling_of_mem member
  obtain ⟨front, rest, cut, count, frontEnds, restBegins⟩ := exists_cut_of_getElem?_words isWord
  rw [← String.toList_ofList (l := word)] at cut
  exact ⟨⟨before, spelling, behind, front, rest, grammatical, split, start, stop, value, cut, count, frontEnds,
    restBegins⟩⟩

/-- What the attribute has in front of its value and the names in front of this one take more bytes than the
number says. -/
theorem Occurrence.position_lt (written : found.Occurrence text number name) :
    found.start + number < written.offset ∧ written.offset < found.stop := by
  have eight := written.grammatical.eight_le_opening
  have names := Nat.le_trans (length_words_le written.front) (length_le_byteLength written.front)
  have quote := written.spelling.quote.utf8Size_pos
  have start := written.start
  have stop := written.stop
  have count := written.count
  rw [Spelling.text_eq_opening, written.value, written.cut] at stop
  simp only [offset, byteLength_append, byteLength_cons, byteLength_nil] at stop ⊢
  omega

theorem stop_le_byteLength (member : found ∈ findAll text) : found.stop ≤ byteLength text := by
  obtain ⟨before, spelling, behind, _, split, start, stop, _⟩ := exists_spelling_of_mem member
  rw [split, byteLength_append, byteLength_append, start, stop]
  exact Nat.le_add_right _ _

structure HasPosition (markup : String) (found : ClassAttribute) (number : Nat) (name : String) : Prop where
  isEvent : ⟨found.start + number, .className name⟩ ∈ scan markup
  written : Nonempty (found.Occurrence markup.toList number name)
  inFront : ∀ written : found.Occurrence markup.toList number name,
    found.start + number < written.offset ∧ written.offset < found.stop
  inside : found.start + number < found.stop ∧ found.stop ≤ markup.utf8ByteSize
  /-- Numbers that have room for the size of the text have room for the position. -/
  fits : ∀ width, markup.utf8ByteSize ≤ 2 ^ width →
    (BitVec.ofNat width found.start + BitVec.ofNat width number).toNat = found.start + number

theorem hasPosition {markup : String} (member : found ∈ findAll markup.toList)
    (isName : (wordsOf found.value)[number]? = some name) : found.HasPosition markup number name := by
  obtain ⟨written⟩ := nonempty_occurrence member isName
  obtain ⟨inFront, offsetInside⟩ := written.position_lt
  have stop : found.stop ≤ markup.utf8ByteSize := byteLength_toList markup ▸ stop_le_byteLength member
  refine ⟨mem_scan_iff.mpr ⟨found, member, number, isName, rfl⟩, ⟨written⟩, Occurrence.position_lt, ⟨by omega, stop⟩,
    fun width room => ?_⟩
  have below : found.start + number < 2 ^ width := by omega
  rw [BitVec.toNat_add, BitVec.toNat_ofNat, BitVec.toNat_ofNat, ← Nat.add_mod, Nat.mod_eq_of_lt below]

end ClassAttribute

/-! ## The order of names -/

def Event.name? (event : Event) : Option String :=
  match event.kind with
  | .className name => some name
  | _ => none

theorem ClassAttribute.filterMap_name?_events (found : ClassAttribute) :
    found.events.filterMap Event.name? = wordsOf found.value := by
  have names : Event.name? ∘ (fun named : String × Nat => ⟨named.2, .className named.1⟩) = some ∘ Prod.fst := rfl
  rw [ClassAttribute.events, List.filterMap_map, names, List.filterMap_eq_map, List.zipIdx_map_fst]

theorem filter_isClassName_scan (markup : String) :
    (scan markup).filter Event.isClassName =
      (ClassAttribute.findAll markup.toList).flatMap ClassAttribute.events := by
  -- Both are strictly ordered, so it is enough that they have the same members.
  apply eq_of_precedes_of_mem_iff ((scan_precedes markup).filter _) ((classNames_ordered _).imp Or.inl)
  intro event
  show event ∈ (scan markup).filter Event.isClassName ↔ event ∈ namesFrom (Place.start markup.toList)
  rw [List.mem_filter, scan_eq_eventsFrom, eventsFrom, List.mem_mergeSort, List.mem_append]
  constructor
  · rintro ⟨isTag | isName, named⟩
    · rw [isClassName_of_mem_tagsFrom isTag] at named
      cases named
    · exact isName
  · exact fun isName => ⟨.inr isName, isClassName_of_mem_namesFrom isName⟩

theorem filterMap_name?_scan (markup : String) :
    (scan markup).filterMap Event.name? =
      (ClassAttribute.findAll markup.toList).flatMap fun found => wordsOf found.value := by
  have named (event : Event) : (if event.isClassName then event.name? else none) = event.name? := by
    cases kind : event.kind <;> simp [Event.isClassName, Event.name?, kind]
  have onlyNames : (scan markup).filterMap Event.name? =
      ((scan markup).filter Event.isClassName).filterMap Event.name? := by
    rw [List.filterMap_filter]
    simp only [named]
  rw [onlyNames, filter_isClassName_scan, List.filterMap_flatMap]
  simp only [ClassAttribute.filterMap_name?_events]

variable {markup : String} {first second : Event} {place later : Nat}

theorem place_lt_of_position_lt (isFirst : (scan markup)[place]? = some first)
    (isSecond : (scan markup)[later]? = some second) (ordered : first.position < second.position) :
    place < later := by
  obtain ⟨placeBound, rfl⟩ := List.getElem?_eq_some_iff.mp isFirst
  obtain ⟨laterBound, rfl⟩ := List.getElem?_eq_some_iff.mp isSecond
  by_contra notEarlier
  rcases Nat.eq_or_lt_of_le (Nat.le_of_not_lt notEarlier) with rfl | reversed
  · exact Nat.lt_irrefl _ ordered
  · have sorted := List.pairwise_iff_getElem.mp (scan_pairwise markup) later place laterBound placeBound reversed
    omega

/-- The position of a class name lies strictly in front of the byte where the name is written, so inside of its
attribute and of the text.  A scan has the names of all attributes in the order of the text, and those of one
attribute come behind whatever lies in front of it and before whatever lies behind it. -/
theorem name_positions_inside (markup : String) :
    (∀ found ∈ ClassAttribute.findAll markup.toList, ∀ number name, (wordsOf found.value)[number]? = some name →
      found.HasPosition markup number name) ∧
    (ClassAttribute.findAll markup.toList).Pairwise (fun first second => first.stop ≤ second.start) ∧
    (scan markup).filter Event.isClassName =
      (ClassAttribute.findAll markup.toList).flatMap ClassAttribute.events ∧
    (scan markup).filterMap Event.name? =
      (ClassAttribute.findAll markup.toList).flatMap (fun found => wordsOf found.value) ∧
    ∀ found ∈ ClassAttribute.findAll markup.toList, ∀ (place namePlace : Nat) event name,
      (scan markup)[place]? = some event → (scan markup)[namePlace]? = some name → name ∈ found.events →
        (event.position < found.start → place < namePlace) ∧ (found.stop ≤ event.position → namePlace < place) := by
  refine ⟨fun found member number name => ClassAttribute.hasPosition member, ClassAttribute.findFrom_pairwise _,
    filter_isClassName_scan markup, filterMap_name?_scan markup, ?_⟩
  intro found member place namePlace event name isEvent isName ofAttribute
  obtain ⟨start, stop⟩ := ClassAttribute.event_position member ofAttribute
  constructor
  · intro inFront
    exact place_lt_of_position_lt isEvent isName (by omega)
  · intro behind
    exact place_lt_of_position_lt isName isEvent (by omega)

end Markup

end StyleSkeleton
