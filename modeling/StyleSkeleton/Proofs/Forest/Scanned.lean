import StyleSkeleton.Proofs.Forest.Basic
import StyleSkeleton.Proofs.Markup.Passing

/-! # Scanning a forest

A scan of a forest's markup finds its tags and class names in the order in which the tree lists
them (`Forest.scan_markup`).  Each piece of the markup is passed on its own, with an arbitrary
rest behind it; only a stretch of plain text needs to know how the rest begins, because the
blanks at its end may belong to a class attribute there.
-/

namespace StyleSkeleton

open StyleSkeleton.Markup StyleSkeleton.Text

/-! ## Events of a forest -/

def Head.kinds (head : Head) : List EventKind :=
  .opening (String.ofList head.tag) :: head.names.map .className

def Forest.kinds : Forest → List EventKind
  | done => []
  | text _ rest => rest.kinds
  | void head rest => head.kinds ++ rest.kinds
  | element head children _ rest => head.kinds ++ (children.kinds ++ .closing :: rest.kinds)

/-! ## Class lists -/

namespace ClassList

variable {classes : ClassList}

theorem not_mem_of_allBlank {text : List Char} {char : Char} (allBlank : AllBlank text)
    (visible : isBlank char = false) : char ∉ text := by
  intro member
  rw [allBlank char member] at visible
  cases visible

theorem WellFormed.not_mem_value (wellFormed : classes.WellFormed) {char : Char}
    (visible : isBlank char = false) (absent : ∀ spaced ∈ classes.names, char ∉ spaced.name) :
    char ∉ classes.value := by
  obtain ⟨_, _, _, _, _, _, names, _, trailing⟩ := wellFormed
  intro member
  cases List.mem_append.mp member with
  | inl inNames =>
    obtain ⟨spaced, isName, inSpaced⟩ := List.mem_flatMap.mp inNames
    cases List.mem_append.mp inSpaced with
    | inl inGap => exact not_mem_of_allBlank (names spaced isName).1 visible inGap
    | inr inName => exact absent spaced isName inName
  | inr inTrailing => exact not_mem_of_allBlank trailing visible inTrailing

theorem WellFormed.grammatical (wellFormed : classes.WellFormed) : classes.spelling.Grammatical := by
  obtain ⟨nonempty, blanks, word, beforeSign, behindSign, quote, names, _, _⟩ := id wellFormed
  refine ⟨nonempty, blanks, word, beforeSign, behindSign, quote, ?_⟩
  apply wellFormed.not_mem_value (visible_of_quote quote)
  exact fun spaced isName inName => ((names spaced isName).2.2 _ inName).2.2 rfl

theorem WellFormed.bracket_not_mem (wellFormed : classes.WellFormed) : '<' ∉ classes.spelling.text := by
  obtain ⟨_, blanks, word, beforeSign, behindSign, quote, names, _, _⟩ := id wellFormed
  have visible : isBlank '<' = false := by decide
  have notQuote : '<' ≠ classes.quote := by
    intro same
    rw [← same] at quote
    exact absurd quote (by decide)
  have notInWord : '<' ∉ classes.word := fun member => (word.letter '<' member).2.1 rfl
  have notInValue : '<' ∉ classes.value := wellFormed.not_mem_value visible fun spaced isName inName =>
    ((names spaced isName).2.2 '<' inName).2.1 rfl
  simp only [Spelling.text, Spelling.behindWord, spelling, List.mem_append, List.mem_cons, List.not_mem_nil]
  simp [not_mem_of_allBlank blanks visible, not_mem_of_allBlank beforeSign visible,
    not_mem_of_allBlank behindSign visible, notQuote, notInWord, notInValue]

def row (classes : ClassList) : WordRow :=
  ⟨classes.names.map fun spaced => (spaced.gap, spaced.name), classes.trailing⟩

theorem text_row (classes : ClassList) : classes.row.text = classes.value := by
  simp [WordRow.text, row, value, List.flatMap_map]

theorem WellFormed.separated (wellFormed : classes.WellFormed) : classes.row.Separated := by
  obtain ⟨_, _, _, _, _, _, names, gaps, trailing⟩ := wellFormed
  refine ⟨?_, ?_, ?_, ?_, trailing⟩ <;> simp only [row, ← List.map_tail, List.forall_mem_map]
  · exact fun spaced isName => (names spaced isName).1
  · exact gaps
  · exact fun spaced isName => (names spaced isName).2.1
  · exact fun spaced isName char inName => ((names spaced isName).2.2 char inName).1

theorem WellFormed.words_value (wellFormed : classes.WellFormed) :
    words classes.value = classes.names.map SpacedName.name := by
  rw [← text_row, WordRow.words_text wellFormed.separated, WordRow.wordList, row, List.map_map]
  rfl

end ClassList

/-! ## Opening tags -/

theorem EndsName.append {left right : List Char} (leftEnds : EndsName left) (rightEnds : EndsName right) :
    EndsName (left ++ right) := by
  intro char isFirst
  cases left with
  | nil => exact rightEnds char isFirst
  | cons first others => exact leftEnds char isFirst

namespace Head

variable {head : Head} {offset : Nat} {rest : List Char}

def filler (head : Head) : List Char :=
  head.before ++ (head.classText ++ (head.behind ++ ['>']))

theorem markup_append (head : Head) (rest : List Char) :
    head.markup ++ rest = '<' :: head.tag ++ (head.filler ++ rest) := by
  simp [markup, filler]

theorem byteLength_markup (head : Head) :
    byteLength head.markup = byteLength ('<' :: head.tag) + byteLength head.filler := by
  simp only [markup, filler, byteLength_append, byteLength_cons]
  omega

theorem WellFormed.bracket_not_mem (wellFormed : head.WellFormed) : '<' ∉ head.filler := by
  obtain ⟨_, before, _, classes, behind⟩ := wellFormed
  have notInClasses : '<' ∉ head.classText := by
    unfold classText
    cases isClasses : head.classes with
    | none => exact List.not_mem_nil
    | some list => exact (classes list isClasses).bracket_not_mem
  simp [filler, before.1, notInClasses, behind.1]

theorem WellFormed.endsName (wellFormed : head.WellFormed) (unbroken : head.Unbroken) :
    EndsName (head.filler ++ rest) := by
  obtain ⟨_, _, before, classes, _⟩ := wellFormed
  cases isClasses : head.classes with
  | none =>
    have bracket : EndsName ('>' :: rest) := by
      intro char isFirst
      obtain rfl : '>' = char := by simpa using isFirst
      decide
    -- The two fillers meet, so that the second may be what follows the tag.
    have ends := (unbroken isClasses).2.append bracket
    simpa [filler, classText, isClasses] using ends
  | some list =>
    have blank : EndsName (list.spelling.text ++ (head.behind ++ '>' :: rest)) := by
      intro char isFirst
      have blank := (classes list isClasses).grammatical.head isFirst
      by_contra accepted
      rw [visible_of_isNameChar (by simpa using accepted)] at blank
      cases blank
    have ends := EndsName.append before blank
    simpa [filler, classText, isClasses] using ends

theorem openings_markup (wellFormed : head.WellFormed) (unbroken : head.Unbroken) :
    openingReader.findFrom ⟨offset, head.markup ++ rest⟩ =
      ⟨offset, .opening (String.ofList head.tag)⟩ ::
        openingReader.findFrom ⟨offset + byteLength head.markup, rest⟩ := by
  obtain ⟨⟨nonempty, accepted⟩, _⟩ := id wellFormed
  rw [markup_append, openings_of_name nonempty accepted (wellFormed.endsName unbroken),
    openingReader_readsTag.findFrom_pass wellFormed.bracket_not_mem, byteLength_markup, Nat.add_assoc]

theorem closings_markup (wellFormed : head.WellFormed) :
    closingReader.findFrom ⟨offset, head.markup ++ rest⟩ =
      closingReader.findFrom ⟨offset + byteLength head.markup, rest⟩ := by
  obtain ⟨⟨nonempty, accepted⟩, _⟩ := id wellFormed
  rw [markup_append, closings_of_name nonempty accepted,
    closingReader_readsTag.findFrom_pass wellFormed.bracket_not_mem, byteLength_markup, Nat.add_assoc]

theorem search_tag (wellFormed : head.WellFormed) :
    ClassAttribute.reader.findFrom ⟨offset, head.markup ++ rest⟩ =
      ClassAttribute.reader.findFrom ⟨offset + byteLength ('<' :: head.tag), head.filler ++ rest⟩ := by
  have bracket : isBlank '<' = false := by decide
  have visible : ∀ char ∈ '<' :: head.tag, isBlank char = false :=
    List.forall_mem_cons.mpr ⟨bracket, fun char member => visible_of_isNameChar (wellFormed.1.2 char member)⟩
  rw [markup_append, ClassAttribute.search_visible visible]

theorem search_end {stretch : List Char} (plain : Plain stretch) :
    ClassAttribute.reader.findFrom ⟨offset, stretch ++ '>' :: rest⟩ =
      ClassAttribute.reader.findFrom ⟨offset + byteLength (stretch ++ ['>']), rest⟩ := by
  have visible : ∀ char ∈ ['>'], isBlank char = false := List.forall_mem_singleton.mpr (by decide)
  have stops : ∀ char ∈ ('>' :: rest).head?, char = '<' ∨ char = '>' := by simp
  rw [ClassAttribute.search_pass plain.2 stops, byteLength_append, ← Nat.add_assoc]
  exact ClassAttribute.search_visible visible

theorem search_markup_of_none (wellFormed : head.WellFormed) (unbroken : head.Unbroken)
    (absent : head.classes = none) :
    ClassAttribute.reader.findFrom ⟨offset, head.markup ++ rest⟩ =
      ClassAttribute.reader.findFrom ⟨offset + byteLength head.markup, rest⟩ := by
  have shape : head.filler = head.before ++ head.behind ++ ['>'] := by
    simp [filler, classText, absent]
  rw [search_tag wellFormed, byteLength_markup, shape, List.append_assoc, List.singleton_append,
    search_end (unbroken absent).1, Nat.add_assoc]

theorem search_markup_of_some (wellFormed : head.WellFormed) {classes : ClassList}
    (given : head.classes = some classes) :
    ∃ found : ClassAttribute,
      ClassAttribute.reader.findFrom ⟨offset, head.markup ++ rest⟩ =
        found :: ClassAttribute.reader.findFrom ⟨offset + byteLength head.markup, rest⟩ ∧
      offset < found.start ∧ found.stop ≤ offset + byteLength head.markup ∧
      wordsOf found.value = head.names := by
  obtain ⟨_, before, _, lists, behind⟩ := id wellFormed
  have listWellFormed := lists classes given
  have shape : head.filler ++ rest = head.before ++ (classes.spelling.text ++ (head.behind ++ '>' :: rest)) := by
    simp [filler, classText, given]
  have length : byteLength head.filler =
      byteLength (head.before ++ classes.spelling.text) + byteLength (head.behind ++ ['>']) := by
    simp only [filler, classText, given, byteLength_append, Nat.add_assoc]
  have whole := head.byteLength_markup
  have finish : offset + byteLength ('<' :: head.tag) + byteLength (head.before ++ classes.spelling.text) +
      byteLength (head.behind ++ ['>']) = offset + byteLength head.markup := by
    omega
  obtain ⟨start, low, found⟩ := ClassAttribute.search_find (offset + byteLength ('<' :: head.tag))
    (head.behind ++ '>' :: rest) listWellFormed.grammatical before.2
  have search : ClassAttribute.reader.findFrom ⟨offset, head.markup ++ rest⟩ = _ := search_tag wellFormed
  rw [shape, found, search_end behind, finish] at search
  refine ⟨_, search, ?_, ?_, ?_⟩
  · have positive := '<'.utf8Size_pos
    rw [byteLength_cons] at low
    show offset < start
    omega
  · show _ + byteLength (head.before ++ classes.spelling.text) ≤ _
    omega
  · show wordsOf (String.ofList classes.value) = _
    rw [wordsOf, String.toList_ofList, listWellFormed.words_value]
    simp [names, given]

theorem names_markup (wellFormed : head.WellFormed) (unbroken : head.Unbroken) :
    ∃ names, namesFrom ⟨offset, head.markup ++ rest⟩ =
        names ++ namesFrom ⟨offset + byteLength head.markup, rest⟩ ∧
      names.Pairwise (fun first second => first.position < second.position) ∧
      (∀ event ∈ names, offset < event.position ∧ event.position < offset + byteLength head.markup) ∧
      names.map Event.kind = head.names.map .className := by
  cases isClasses : head.classes with
  | none =>
    refine ⟨[], ?_, List.Pairwise.nil, by simp, by simp [names, isClasses]⟩
    rw [namesFrom, namesFrom, ClassAttribute.findFrom_eq_search, ClassAttribute.findFrom_eq_search,
      search_markup_of_none wellFormed unbroken isClasses, List.nil_append]
  | some classes =>
    obtain ⟨found, search, start, stop, words⟩ := search_markup_of_some wellFormed isClasses
    rw [← ClassAttribute.findFrom_eq_search, ← ClassAttribute.findFrom_eq_search] at search
    refine ⟨found.events, ?_, found.events_ordered, ?_, ?_⟩
    · rw [namesFrom, search, List.flatMap_cons, namesFrom]
    · intro event isEvent
      have member : found ∈ ClassAttribute.findFrom ⟨offset, head.markup ++ rest⟩ := by
        rw [search]
        exact List.mem_cons_self
      obtain ⟨low, high⟩ := ClassAttribute.event_position member isEvent
      omega
    · rw [found.map_kind_events, words]

theorem eventsFrom_markup (wellFormed : head.WellFormed) (unbroken : head.Unbroken) :
    ∃ events, eventsFrom ⟨offset, head.markup ++ rest⟩ =
        events ++ eventsFrom ⟨offset + byteLength head.markup, rest⟩ ∧
      events.map Event.kind = head.kinds := by
  obtain ⟨names, namesCut, ordered, inside, kinds⟩ := names_markup wellFormed unbroken
  let opening : Event := ⟨offset, .opening (String.ofList head.tag)⟩
  have length : 0 < byteLength head.markup := by
    rw [head.byteLength_markup, byteLength_cons]
    have positive := '<'.utf8Size_pos
    omega
  refine ⟨[opening] ++ [] ++ names, ?_, ?_⟩
  · apply eventsFrom_append (openings_markup wellFormed unbroken) (closings_markup wellFormed) namesCut
    · refine List.pairwise_cons.mpr ⟨?_, ordered.imp Or.inl⟩
      exact fun event isName => Or.inl (inside event isName).1
    · refine List.forall_mem_cons.mpr ⟨?_, fun event isName => (inside event isName).2⟩
      exact Nat.lt_add_of_pos_right length
  · show _ :: names.map Event.kind = _
    rw [kinds]
    rfl

end Head

/-! ## Texts and closing tags -/

section Stretches

variable {offset : Nat} {stretch more rest : List Char}

theorem eventsFrom_text (plain : Plain (stretch ++ more)) (stops : ∀ char ∈ rest.head?, char = '<') :
    eventsFrom ⟨offset, stretch ++ (more ++ rest)⟩ =
      eventsFrom ⟨offset + byteLength stretch, more ++ rest⟩ := by
  have absent : '<' ∉ stretch := fun member => plain.1 (List.mem_append_left _ member)
  have ends : ∀ char ∈ rest.head?, char = '<' ∨ char = '>' := fun char isFirst => Or.inl (stops char isFirst)
  rw [eventsFrom, eventsFrom, tagsFrom, tagsFrom, namesFrom, namesFrom,
    openingReader_readsTag.findFrom_pass absent, closingReader_readsTag.findFrom_pass absent,
    ClassAttribute.findFrom_eq_search, ClassAttribute.findFrom_eq_search,
    ClassAttribute.search_pass_part plain.2 ends]

theorem eventsFrom_closing (plain : Plain stretch) :
    eventsFrom ⟨offset, ['<', '/'] ++ (stretch ++ '>' :: rest)⟩ =
      ⟨offset, .closing⟩ ::
        eventsFrom ⟨offset + byteLength (['<', '/'] ++ (stretch ++ ['>'])), rest⟩ := by
  have absent : '<' ∉ stretch ++ ['>'] := by simp [plain.1]
  have visible : ∀ char ∈ ['<', '/'], isBlank char = false :=
    List.forall_mem_cons.mpr ⟨by decide, List.forall_mem_singleton.mpr (by decide)⟩
  have cut : stretch ++ '>' :: rest = stretch ++ ['>'] ++ rest := List.append_cons _ _ _
  have openingsCut : openingReader.findFrom ⟨offset, ['<', '/'] ++ (stretch ++ '>' :: rest)⟩ =
      openingReader.findFrom ⟨offset + byteLength (['<', '/'] ++ (stretch ++ ['>'])), rest⟩ := by
    rw [List.cons_append, List.singleton_append, openings_of_slash, cut,
      openingReader_readsTag.findFrom_pass absent, byteLength_append ['<', '/'], Nat.add_assoc]
  have closingsCut : closingReader.findFrom ⟨offset, ['<', '/'] ++ (stretch ++ '>' :: rest)⟩ =
      ⟨offset, .closing⟩ ::
        closingReader.findFrom ⟨offset + byteLength (['<', '/'] ++ (stretch ++ ['>'])), rest⟩ := by
    rw [List.cons_append, List.singleton_append, closings_of_slash, cut,
      closingReader_readsTag.findFrom_pass absent, byteLength_append ['<', '/'], Nat.add_assoc]
  have namesCut : namesFrom ⟨offset, ['<', '/'] ++ (stretch ++ '>' :: rest)⟩ =
      namesFrom ⟨offset + byteLength (['<', '/'] ++ (stretch ++ ['>'])), rest⟩ := by
    rw [namesFrom, namesFrom, ClassAttribute.findFrom_eq_search, ClassAttribute.findFrom_eq_search,
      ClassAttribute.search_visible visible, Head.search_end plain, byteLength_append ['<', '/'], Nat.add_assoc]
  have length : 0 < byteLength (['<', '/'] ++ (stretch ++ ['>'])) := Nat.add_pos_left '<'.utf8Size_pos _
  refine @eventsFrom_append _ _ [] [⟨offset, .closing⟩] [] openingsCut closingsCut namesCut
    (List.pairwise_singleton _ _) ?_
  exact List.forall_mem_singleton.mpr (Nat.lt_add_of_pos_right length)

end Stretches

/-! ## Forests -/

namespace Forest

variable {offset : Nat} {rest : List Char}

theorem exists_leadingText (forest : Forest) (stops : ∀ char ∈ rest.head?, char = '<') :
    ∃ tail, forest.markup ++ rest = forest.leadingText ++ tail ∧ ∀ char ∈ tail.head?, char = '<' := by
  induction forest with
  | done => exact ⟨rest, rfl, stops⟩
  | text content others inductionHypothesis =>
    obtain ⟨tail, split, bracket⟩ := inductionHypothesis
    exact ⟨tail, by rw [markup, leadingText, List.append_assoc, split, List.append_assoc], bracket⟩
  | void head others _ => exact ⟨(void head others).markup ++ rest, rfl, by simp [markup, Head.markup]⟩
  | element head children closing others _ _ =>
    exact ⟨(element head children closing others).markup ++ rest, rfl, by simp [markup, Head.markup]⟩

theorem eventsFrom_markup (forest : Forest) (wellFormed : forest.WellFormed) (unbroken : forest.Unbroken)
    (stops : ∀ char ∈ rest.head?, char = '<') :
    ∃ events, eventsFrom ⟨offset, forest.markup ++ rest⟩ =
        events ++ eventsFrom ⟨offset + byteLength forest.markup, rest⟩ ∧
      events.map Event.kind = forest.kinds := by
  induction forest generalizing offset rest with
  | done => exact ⟨[], rfl, rfl⟩
  | text content others inductionHypothesis =>
    obtain ⟨_, othersWellFormed⟩ := wellFormed
    obtain ⟨plain, othersUnbroken⟩ := unbroken
    -- The search may look on into the text that follows, but that is plain together with this one.
    obtain ⟨tail, split, bracket⟩ := others.exists_leadingText stops
    obtain ⟨events, cut, kinds⟩ := @inductionHypothesis (offset + byteLength content) rest othersWellFormed
      othersUnbroken stops
    refine ⟨events, ?_, kinds⟩
    rw [markup, List.append_assoc, split, eventsFrom_text plain bracket, ← split, cut, byteLength_append,
      Nat.add_assoc]
  | void head others inductionHypothesis =>
    obtain ⟨_, headWellFormed, othersWellFormed⟩ := wellFormed
    obtain ⟨headUnbroken, othersUnbroken⟩ := unbroken
    obtain ⟨first, firstCut, firstKinds⟩ := @Head.eventsFrom_markup head offset (others.markup ++ rest)
      headWellFormed headUnbroken
    obtain ⟨later, laterCut, laterKinds⟩ := @inductionHypothesis (offset + byteLength head.markup) rest
      othersWellFormed othersUnbroken stops
    refine ⟨first ++ later, ?_, ?_⟩
    · rw [markup, List.append_assoc, firstCut, laterCut, byteLength_append, Nat.add_assoc, List.append_assoc]
    · rw [List.map_append, firstKinds, laterKinds, kinds]
  | element head children closing others childrenHypothesis othersHypothesis =>
    obtain ⟨_, headWellFormed, childrenWellFormed, closingPlain, othersWellFormed⟩ := wellFormed
    obtain ⟨headUnbroken, childrenUnbroken, othersUnbroken⟩ := unbroken
    -- For the children the rest begins with the closing tag.
    let closed := ['<', '/'] ++ (closing ++ ['>'])
    let behind := ['<', '/'] ++ (closing ++ '>' :: (others.markup ++ rest))
    have bracket : ∀ char ∈ behind.head?, char = '<' := by simp [behind]
    have shape : (element head children closing others).markup ++ rest =
        head.markup ++ (children.markup ++ behind) := by
      simp [markup, behind]
    have length : byteLength (element head children closing others).markup =
        byteLength head.markup + byteLength children.markup + byteLength closed + byteLength others.markup := by
      simp only [markup, closed, byteLength_append, byteLength_cons, byteLength_nil]
      omega
    obtain ⟨first, firstCut, firstKinds⟩ := @Head.eventsFrom_markup head offset (children.markup ++ behind)
      headWellFormed headUnbroken
    obtain ⟨inner, innerCut, innerKinds⟩ := @childrenHypothesis (offset + byteLength head.markup) behind
      childrenWellFormed childrenUnbroken bracket
    obtain ⟨later, laterCut, laterKinds⟩ := @othersHypothesis
      (offset + byteLength head.markup + byteLength children.markup + byteLength closed) rest
      othersWellFormed othersUnbroken stops
    let close : Event := ⟨offset + byteLength head.markup + byteLength children.markup, .closing⟩
    refine ⟨first ++ (inner ++ close :: later), ?_, ?_⟩
    · rw [shape, firstCut, innerCut, eventsFrom_closing closingPlain, laterCut, length]
      simp only [Nat.add_assoc, List.append_assoc, List.cons_append, close]
    · rw [List.map_append, List.map_append, List.map_cons, firstKinds, innerKinds, laterKinds, kinds]

theorem scan_markup (forest : Forest) (wellFormed : forest.WellFormed) (unbroken : forest.Unbroken) :
    (scan (String.ofList forest.markup)).map Event.kind = forest.kinds := by
  have ends : ∀ char ∈ ([] : List Char).head?, char = '<' := by simp
  obtain ⟨events, cut, kinds⟩ := @eventsFrom_markup 0 [] forest wellFormed unbroken ends
  rw [List.append_nil, eventsFrom_end, List.append_nil] at cut
  rw [scan_eq_eventsFrom, String.toList_ofList, Place.start, cut, kinds]

end Forest

end StyleSkeleton
