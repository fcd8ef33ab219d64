import StyleSkeleton.Proofs.Markup.EventOrder
import StyleSkeleton.Proofs.Text.WordRuns

/-! # Scanning is exact

Each of the three passes over a text lists exactly the events of its kind.  Searches do not
overlap and still overlook nothing, since no tag has a second `<` in it.
-/

namespace StyleSkeleton.Markup

open StyleSkeleton.Text

/-! ## Reading tags -/

theorem readOpening?_eq_some_iff {place after : Place} {event : Event} :
    readOpening? place = some (event, after) ↔
      ∃ name, name ≠ [] ∧ (∀ char ∈ name, isNameChar char = true) ∧
        (∀ char ∈ after.rest.head?, isNameChar char = false) ∧ place.Reaches ('<' :: name) after ∧
          event = ⟨place.offset, .opening (String.ofList name)⟩ := by
  constructor
  · intro read
    unfold readOpening? at read
    split at read
    · cases read
    · rename_i named sign
      obtain ⟨char, isSign, passedSign⟩ := Place.pass?_reaches sign
      obtain rfl : char = '<' := by simpa using isSign
      split at read
      · cases read
      · rename_i nonempty
        obtain ⟨rfl, rfl⟩ := Prod.mk.inj (Option.some.inj read)
        refine ⟨_, nonempty, fun char => List.mem_takeWhile_imp, ?_,
          passedSign.trans (Place.passWhile_reaches isNameChar named), rfl⟩
        intro char isNext
        have stops := List.head?_dropWhile_not isNameChar named.rest
        rw [Place.passWhile] at isNext
        rw [isNext] at stops
        simpa using stops
  · rintro ⟨name, nonempty, accepted, stops, reached, rfl⟩
    obtain ⟨named, reachedNamed, reachedAfter⟩ := reached.split_cons
    have sign : place.pass? (· == '<') = some named :=
      Place.pass?_eq_some_iff.mpr ⟨'<', rfl, reachedNamed⟩
    have run := Place.takeWhile_eq reachedAfter accepted stops
    have passed := Place.passWhile_eq reachedAfter accepted stops
    simp [readOpening?, sign, run, passed, nonempty]

theorem readClosing?_eq_some_iff {place after : Place} {event : Event} :
    readClosing? place = some (event, after) ↔
      place.Reaches ['<', '/'] after ∧ event = ⟨place.offset, .closing⟩ := by
  have signs : place.passAll? [(· == '<'), (· == '/')] = some after ↔ place.Reaches ['<', '/'] after := by
    rw [Place.passAll?_eq_some_iff]
    constructor
    · rintro ⟨passed, matching, reached⟩
      simp only [List.forall₂_cons_left_iff, List.forall₂_nil_left_iff, beq_iff_eq] at matching
      obtain ⟨_, _, rfl, ⟨_, _, rfl, rfl, rfl⟩, rfl⟩ := matching
      exact reached
    · intro reached
      exact ⟨_, .cons rfl (.cons rfl .nil), reached⟩
  simp only [readClosing?, Option.map_eq_some_iff, Prod.mk.injEq]
  constructor
  · rintro ⟨_, passes, rfl, rfl⟩
    exact ⟨signs.mp passes, rfl⟩
  · rintro ⟨reached, rfl⟩
    exact ⟨after, signs.mpr reached, rfl, rfl⟩

/-! ## Tags -/

/-- What a reader of tags reads begins with the only bracket in it, which gives the event its
position. -/
def ReadsTag (reader : Reader Event) : Prop :=
  ∀ place after event, reader.read? place = some (event, after) →
    event.position = place.offset ∧ ∃ inside, '<' ∉ inside ∧ place.Reaches ('<' :: inside) after

theorem openingReader_readsTag : ReadsTag openingReader := by
  intro place after event read
  obtain ⟨name, _, accepted, _, reached, rfl⟩ := readOpening?_eq_some_iff.mp read
  refine ⟨rfl, name, ?_, reached⟩
  intro member
  have notAccepted : isNameChar '<' = false := by decide
  rw [accepted '<' member] at notAccepted
  cases notAccepted

theorem closingReader_readsTag : ReadsTag closingReader := by
  intro place after event read
  obtain ⟨reached, rfl⟩ := readClosing?_eq_some_iff.mp read
  exact ⟨rfl, ['/'], by decide, reached⟩

namespace ReadsTag

variable {reader : Reader Event} {place : Place} {event : Event}

theorem mem_findFrom_iff (readsTag : ReadsTag reader) :
    event ∈ reader.findFrom place ↔
      ∃ before spot after, place.Reaches before spot ∧ reader.read? spot = some (event, after) := by
  apply reader.mem_findFrom_iff
  intro start stop spot after outer inner inside outside read reachedSpot reachedStop nonempty readable
  obtain ⟨_, name, single, reached⟩ := readsTag _ _ _ read
  obtain ⟨_, _, _, reachedInner⟩ := readsTag _ _ _ readable
  have cut := List.append_cancel_right ((reachedSpot.trans reachedStop).1.symm.trans reached.1)
  cases inside with
  | nil => rfl
  | cons sign inside =>
    -- A second tag inside of the first would bring a second bracket.
    obtain ⟨first, others, rfl⟩ := List.exists_cons_of_ne_nil nonempty
    obtain rfl : first = '<' := (List.cons.inj (reachedStop.1.symm.trans reachedInner.1)).1
    have second : '<' ∈ name := by
      rw [← (List.cons.inj cut).2]
      exact List.mem_append_right _ List.mem_cons_self
    exact absurd second single

theorem findFrom_ordered (readsTag : ReadsTag reader) (place : Place) :
    (reader.findFrom place).Pairwise fun first second => first.position < second.position := by
  apply reader.findFrom_pairwise
  intro start stop laterStart laterStop passed first second read reached laterRead
  obtain ⟨position, _, _, reachedStop⟩ := readsTag _ _ _ read
  obtain ⟨laterPosition, _⟩ := readsTag _ _ _ laterRead
  rw [position, laterPosition]
  exact Nat.lt_of_lt_of_le (reachedStop.offset_lt (List.cons_ne_nil _ _)) reached.offset_le

theorem offset_le (readsTag : ReadsTag reader) (member : event ∈ reader.findFrom place) :
    place.offset ≤ event.position := by
  obtain ⟨_, _, _, reached, read⟩ := reader.exists_read_of_mem member
  rw [(readsTag _ _ _ read).1]
  exact reached.offset_le

end ReadsTag

/-- A tag does not open where one closes, because a name does not begin with a slash. -/
theorem opening_apart_closing {place : Place} {opening closing : Event}
    (isOpening : opening ∈ openingReader.findFrom place) (isClosing : closing ∈ closingReader.findFrom place) :
    opening.Apart closing := by
  obtain ⟨_, spot, _, reached, read⟩ := openingReader.exists_read_of_mem isOpening
  obtain ⟨_, other, _, reachedOther, readOther⟩ := closingReader.exists_read_of_mem isClosing
  obtain ⟨name, nonempty, accepted, _, split, rfl⟩ := readOpening?_eq_some_iff.mp read
  obtain ⟨splitOther, rfl⟩ := readClosing?_eq_some_iff.mp readOther
  intro same
  obtain rfl := reached.eq_of_offset_eq reachedOther same
  -- The same place would have a slash and a character of a name behind its bracket.
  obtain ⟨first, others, rfl⟩ := List.exists_cons_of_ne_nil nonempty
  have agree := (List.cons.inj (split.1.symm.trans splitOther.1)).2
  obtain rfl : first = '/' := (List.cons.inj agree).1
  have notAccepted : isNameChar '/' = false := by decide
  rw [accepted '/' List.mem_cons_self] at notAccepted
  cases notAccepted

/-! ## Class names -/

theorem ClassAttribute.mem_events_iff {found : ClassAttribute} {event : Event} :
    event ∈ found.events ↔ ∃ number name,
      (wordsOf found.value)[number]? = some name ∧ event = ⟨found.start + number, .className name⟩ := by
  simp only [ClassAttribute.events, List.mem_map, Prod.exists, List.mem_zipIdx_iff_le_and_getElem?_sub]
  constructor
  · rintro ⟨name, position, ⟨low, isName⟩, rfl⟩
    exact ⟨position - found.start, name, isName, by rw [Nat.add_sub_cancel' low]⟩
  · rintro ⟨number, name, isName, rfl⟩
    exact ⟨name, found.start + number, ⟨Nat.le_add_right _ _, by rwa [Nat.add_sub_cancel_left]⟩, rfl⟩

theorem ClassAttribute.events_ordered (found : ClassAttribute) :
    found.events.Pairwise fun first second => first.position < second.position := by
  rw [ClassAttribute.events, List.pairwise_map]
  have positions : ((wordsOf found.value).zipIdx found.start).map Prod.snd = _ := List.zipIdx_map_snd _ _
  have increasing := List.pairwise_lt_range' (s := found.start) (n := (wordsOf found.value).length)
  rw [← positions, List.pairwise_map] at increasing
  exact increasing

theorem ClassAttribute.start_add_length_lt_stop {place : Place} {found : ClassAttribute}
    (member : found ∈ ClassAttribute.findFrom place) : found.start + (wordsOf found.value).length < found.stop := by
  have words := length_wordsOf_le found.value
  have value := ClassAttribute.start_add_value_lt_stop member
  omega

theorem ClassAttribute.event_position {place : Place} {found : ClassAttribute} {event : Event}
    (member : found ∈ ClassAttribute.findFrom place) (isEvent : event ∈ found.events) :
    found.start ≤ event.position ∧ event.position < found.stop := by
  obtain ⟨number, name, isName, rfl⟩ := ClassAttribute.mem_events_iff.mp isEvent
  obtain ⟨bound, _⟩ := List.getElem?_eq_some_iff.mp isName
  have stops := ClassAttribute.start_add_length_lt_stop member
  constructor
  · exact Nat.le_add_right _ _
  · show found.start + number < found.stop
    omega

theorem classNames_ordered (place : Place) :
    ((ClassAttribute.findFrom place).flatMap ClassAttribute.events).Pairwise
      fun first second => first.position < second.position := by
  refine List.pairwise_flatMap.mpr ⟨fun found _ => found.events_ordered, ?_⟩
  -- The names of an attribute stay inside of it, and attributes do not overlap.
  refine (ClassAttribute.findFrom_pairwise place).imp_of_mem ?_
  intro first second isFirst isSecond apart event isEvent later isLater
  have before := (ClassAttribute.event_position isFirst isEvent).2
  have behind := (ClassAttribute.event_position isSecond isLater).1
  omega

/-! ## The scan from a place on -/

def tagsFrom (place : Place) : List Event :=
  openingReader.findFrom place ++ closingReader.findFrom place

def namesFrom (place : Place) : List Event :=
  (ClassAttribute.findFrom place).flatMap ClassAttribute.events

def eventsFrom (place : Place) : List Event :=
  (tagsFrom place ++ namesFrom place).mergeSort Event.notAfter

theorem scan_eq_eventsFrom (markup : String) : scan markup = eventsFrom (Place.start markup.toList) :=
  rfl

theorem isClassName_of_mem_tagsFrom {place : Place} {event : Event} (member : event ∈ tagsFrom place) :
    event.isClassName = false := by
  cases List.mem_append.mp member with
  | inl isOpening =>
    obtain ⟨_, _, _, _, read⟩ := openingReader.exists_read_of_mem isOpening
    obtain ⟨_, _, _, _, _, rfl⟩ := readOpening?_eq_some_iff.mp read
    rfl
  | inr isClosing =>
    obtain ⟨_, _, _, _, read⟩ := closingReader.exists_read_of_mem isClosing
    obtain ⟨_, rfl⟩ := readClosing?_eq_some_iff.mp read
    rfl

theorem isClassName_of_mem_namesFrom {place : Place} {event : Event} (member : event ∈ namesFrom place) :
    event.isClassName = true := by
  obtain ⟨found, _, isEvent⟩ := List.mem_flatMap.mp member
  obtain ⟨_, _, _, rfl⟩ := ClassAttribute.mem_events_iff.mp isEvent
  rfl

theorem eventsFrom_precedes (place : Place) : (eventsFrom place).Pairwise Event.Precedes := by
  apply mergeSort_precedes
  · refine List.pairwise_append.mpr ⟨?_, ?_, fun _ isOpening _ => opening_apart_closing isOpening⟩
    · exact (openingReader_readsTag.findFrom_ordered place).imp Nat.ne_of_lt
    · exact (closingReader_readsTag.findFrom_ordered place).imp Nat.ne_of_lt
  · exact (classNames_ordered place).imp Nat.ne_of_lt
  · exact fun event => isClassName_of_mem_tagsFrom
  · exact fun event => isClassName_of_mem_namesFrom

theorem scan_precedes (markup : String) : (scan markup).Pairwise Event.Precedes :=
  eventsFrom_precedes _

theorem mem_eventsFrom_iff {place : Place} {event : Event} :
    event ∈ eventsFrom place ↔ event ∈ openingReader.findFrom place ∨
      event ∈ closingReader.findFrom place ∨ event ∈ namesFrom place := by
  rw [eventsFrom, List.mem_mergeSort, tagsFrom, List.mem_append, List.mem_append, or_assoc]

/-! ## Exactness -/

theorem mem_openings_iff_isEvent {text : List Char} {event : Event} :
    event ∈ openingReader.findFrom (Place.start text) ↔
      (∃ tag, event.kind = .opening tag) ∧ IsEvent text event := by
  rw [openingReader_readsTag.mem_findFrom_iff]
  constructor
  · rintro ⟨before, spot, after, reached, read⟩
    obtain ⟨name, nonempty, accepted, stops, reachedAfter, rfl⟩ := readOpening?_eq_some_iff.mp read
    refine ⟨⟨_, rfl⟩, before, name, after.rest, ?_, ?_, nonempty, accepted, stops, rfl⟩
    · rw [← List.cons_append, ← reachedAfter.1]
      exact reached.1
    · exact (reached.2.trans (Nat.zero_add _)).symm
  · obtain ⟨position, kind⟩ := event
    rintro ⟨⟨tag, rfl⟩, before, name, behind, split, rfl, nonempty, accepted, stops, rfl⟩
    have reached : (Place.start text).Reaches before ⟨byteLength before, '<' :: (name ++ behind)⟩ :=
      ⟨split, (Nat.zero_add _).symm⟩
    exact ⟨before, _, _, reached, readOpening?_eq_some_iff.mpr ⟨name, nonempty, accepted, stops,
      Place.Reaches.of_append _ ('<' :: name) behind, rfl⟩⟩

theorem mem_closings_iff_isEvent {text : List Char} {event : Event} :
    event ∈ closingReader.findFrom (Place.start text) ↔ event.kind = .closing ∧ IsEvent text event := by
  rw [closingReader_readsTag.mem_findFrom_iff]
  constructor
  · rintro ⟨before, spot, after, reached, read⟩
    obtain ⟨reachedAfter, rfl⟩ := readClosing?_eq_some_iff.mp read
    refine ⟨rfl, before, after.rest, ?_, (reached.2.trans (Nat.zero_add _)).symm⟩
    exact reached.1.trans (congrArg _ reachedAfter.1)
  · obtain ⟨position, kind⟩ := event
    rintro ⟨rfl, before, behind, split, rfl⟩
    have reached : (Place.start text).Reaches before ⟨byteLength before, '<' :: '/' :: behind⟩ :=
      ⟨split, (Nat.zero_add _).symm⟩
    exact ⟨before, _, _, reached, readClosing?_eq_some_iff.mpr
      ⟨Place.Reaches.of_append _ ['<', '/'] behind, rfl⟩⟩

theorem mem_namesFrom_iff_isEvent {text : List Char} {event : Event} :
    event ∈ namesFrom (Place.start text) ↔ (∃ name, event.kind = .className name) ∧ IsEvent text event := by
  rw [namesFrom, List.mem_flatMap]
  constructor
  · rintro ⟨found, member, isEvent⟩
    obtain ⟨number, name, isName, rfl⟩ := ClassAttribute.mem_events_iff.mp isEvent
    exact ⟨⟨name, rfl⟩, found, member, number, isName, rfl⟩
  · obtain ⟨position, kind⟩ := event
    rintro ⟨⟨name, rfl⟩, found, member, number, isName, rfl⟩
    exact ⟨found, member, ClassAttribute.mem_events_iff.mpr ⟨number, name, isName, rfl⟩⟩

theorem mem_scan_iff {markup : String} {event : Event} :
    event ∈ scan markup ↔ IsEvent markup.toList event := by
  rw [scan_eq_eventsFrom, mem_eventsFrom_iff, mem_openings_iff_isEvent, mem_closings_iff_isEvent,
    mem_namesFrom_iff_isEvent]
  cases kind : event.kind <;> simp

/-- A scan has exactly the events of the text as its members, each of them once.  It is ordered by
position with tags in front of class names, and this order leaves no choice. -/
theorem scan_exact (markup : String) :
    (∀ event, event ∈ scan markup ↔ IsEvent markup.toList event) ∧
    (scan markup).Nodup ∧
    (scan markup).Pairwise Event.Precedes ∧
    ∀ events : List Event, (∀ event, event ∈ events ↔ IsEvent markup.toList event) →
      events.Pairwise Event.Precedes → events = scan markup := by
  have ordered : (scan markup).Pairwise Event.Precedes := eventsFrom_precedes _
  refine ⟨fun _ => mem_scan_iff, nodup_of_precedes ordered, ordered, ?_⟩
  intro events members eventsOrdered
  apply eq_of_precedes_of_mem_iff eventsOrdered ordered
  intro event
  rw [members, mem_scan_iff]

end StyleSkeleton.Markup
