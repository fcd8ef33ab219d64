import StyleSkeleton.Proofs.Markup.Scanning

/-! # Searches over stretches of text

What the three searches do with a stretch of text in front of a rest: what they find in it and
from where they go on.  The rest stays arbitrary as far as it can, so that the lemmas chain.
-/

namespace StyleSkeleton.Markup

open StyleSkeleton.Text

/-! ## Tags -/

section Tags

variable {offset : Nat} {stretch rest name : List Char}

theorem ReadsTag.findFrom_pass {reader : Reader Event} (readsTag : ReadsTag reader) (absent : '<' ∉ stretch) :
    reader.findFrom ⟨offset, stretch ++ rest⟩ = reader.findFrom ⟨offset + byteLength stretch, rest⟩ := by
  apply reader.findFrom_append
  rintro before char behind rfl
  by_contra readable
  obtain ⟨⟨event, after⟩, read⟩ := Option.ne_none_iff_exists'.mp readable
  obtain ⟨_, inside, _, reached⟩ := readsTag _ _ _ read
  obtain rfl : char = '<' := (List.cons.inj reached.1).1
  exact absent (List.mem_append_right _ List.mem_cons_self)

theorem openings_of_name (nonempty : name ≠ [])
    (accepted : ∀ char ∈ name, isNameChar char = true)
    (stops : ∀ char ∈ rest.head?, isNameChar char = false) :
    openingReader.findFrom ⟨offset, '<' :: name ++ rest⟩ =
      ⟨offset, .opening (String.ofList name)⟩ ::
        openingReader.findFrom ⟨offset + byteLength ('<' :: name), rest⟩ := by
  apply openingReader.findFrom_of_read
  exact readOpening?_eq_some_iff.mpr ⟨name, nonempty, accepted, stops, Place.Reaches.of_append _ _ _, rfl⟩

theorem closings_of_name (nonempty : name ≠ []) (accepted : ∀ char ∈ name, isNameChar char = true) :
    closingReader.findFrom ⟨offset, '<' :: name ++ rest⟩ =
      closingReader.findFrom ⟨offset + byteLength ('<' :: name), rest⟩ := by
  obtain ⟨first, others, rfl⟩ := List.exists_cons_of_ne_nil nonempty
  have bracket : isNameChar '<' = false := by decide
  have slash : isNameChar '/' = false := by decide
  have nothing : closingReader.read? ⟨offset, '<' :: (first :: others ++ rest)⟩ = none := by
    have other : first ≠ '/' := by
      rintro rfl
      rw [accepted '/' List.mem_cons_self] at slash
      cases slash
    simp [closingReader, readClosing?, Place.passAll?, Place.pass?, Place.next?, other]
  have absent : '<' ∉ first :: others := fun member => by
    rw [accepted '<' member] at bracket
    cases bracket
  rw [List.cons_append, closingReader.findFrom_of_pass nothing, closingReader_readsTag.findFrom_pass absent,
    byteLength_cons '<', Nat.add_assoc]

theorem openings_of_slash :
    openingReader.findFrom ⟨offset, '<' :: '/' :: rest⟩ =
      openingReader.findFrom ⟨offset + byteLength ['<', '/'], rest⟩ := by
  have nothing : openingReader.read? ⟨offset, '<' :: '/' :: rest⟩ = none := by
    have slash : isNameChar '/' = false := by decide
    simp [openingReader, readOpening?, Place.pass?, Place.next?, slash]
  have absent : '<' ∉ ['/'] := by decide
  exact (openingReader.findFrom_of_pass nothing).trans (openingReader_readsTag.findFrom_pass absent)

theorem closings_of_slash :
    closingReader.findFrom ⟨offset, '<' :: '/' :: rest⟩ =
      ⟨offset, .closing⟩ :: closingReader.findFrom ⟨offset + byteLength ['<', '/'], rest⟩ := by
  apply closingReader.findFrom_of_read
  exact readClosing?_eq_some_iff.mpr ⟨Place.Reaches.of_append _ ['<', '/'] rest, rfl⟩

end Tags

/-! ## Class attributes -/

theorem visible_of_isNameChar {char : Char} (accepted : isNameChar char = true) : isBlank char = false := by
  have range : 45 ≤ char.toNat ∧ char.toNat ≤ 122 := by
    have kinds : (char.isUpper = true ∨ char.isLower = true) ∨ char.isDigit = true ∨
        char = '-' ∨ char = '_' := by
      have alternatives :
          ((((char.isUpper || char.isLower) || char.isDigit) || char == '-') || char == '_') = true := accepted
      simpa [or_assoc] using alternatives
    rcases kinds with (capital | small) | digit | rfl | rfl
    · have bounds : 65 ≤ char.toNat ∧ char.toNat ≤ 90 := of_decide_eq_true capital
      omega
    · have bounds : 97 ≤ char.toNat ∧ char.toNat ≤ 122 := by
        obtain ⟨low, high⟩ := Bool.and_eq_true_iff.mp small
        exact ⟨of_decide_eq_true low, of_decide_eq_true high⟩
      omega
    · have bounds : 48 ≤ char.toNat ∧ char.toNat ≤ 57 := Char.isDigit_iff_toNat.mp digit
      omega
    · decide
    · decide
  have apart : ∀ limits ∈ blankRanges, limits.2 < 45 ∨ 122 < limits.1 := by decide
  rw [isBlank, List.any_eq_false]
  intro limits member
  have outside := apart limits member
  simp only [Bool.and_eq_true, decide_eq_true_eq]
  omega

namespace ClassAttribute

section Attributes

variable {offset : Nat} {stretch more rest : List Char}

/-- Blanks and the word that begin in a stretch without the word go on behind it: the first
character there is a letter of the word, or else a blank and the stretch is blank too. -/
theorem spelled_beyond {blanks word more : List Char} (spells : SpellsClass word) (allBlank : AllBlank blanks)
    (wordless : Wordless stretch)
    (split : stretch ++ rest = blanks ++ (word ++ more)) :
    ∃ first ∈ rest.head?, first ∈ word ∨ AllBlank stretch ∧ isBlank first = true := by
  obtain ⟨letter, letters, shape, _⟩ := spells.exists_cons
  -- Either the blanks reach the end of the stretch, or the word begins inside of it.
  cases List.append_eq_append_iff.mp split with
  | inl blanksLonger =>
    obtain ⟨extra, rfl, restSplit⟩ := blanksLonger
    obtain ⟨stretchBlank, extraBlank⟩ := List.forall_mem_append.mp allBlank
    cases extra with
    | nil => exact ⟨letter, by rw [restSplit, shape]; rfl, Or.inl (shape ▸ List.mem_cons_self)⟩
    | cons first extra =>
      exact ⟨first, by rw [restSplit]; rfl, Or.inr ⟨stretchBlank, extraBlank first List.mem_cons_self⟩⟩
  | inr stretchLonger =>
    obtain ⟨inside, rfl, wordSplit⟩ := stretchLonger
    cases List.append_eq_append_iff.mp wordSplit with
    | inl wordInside =>
      obtain ⟨extra, rfl, _⟩ := wordInside
      exact absurd spells (wordless word ⟨blanks, extra, List.append_assoc _ _ _⟩)
    | inr wordLonger =>
      obtain ⟨beyond, rfl, restSplit⟩ := wordLonger
      cases beyond with
      | nil =>
        rw [List.append_nil] at spells
        exact absurd spells (wordless inside (List.suffix_append blanks inside).isInfix)
      | cons first beyond =>
        exact ⟨first, by rw [restSplit]; rfl, Or.inl (List.mem_append_right _ List.mem_cons_self)⟩

theorem beyond_of_readable (readable : read? ⟨offset, stretch ++ rest⟩ ≠ none) (wordless : Wordless stretch) :
    ∃ first ∈ rest.head?, (isBlank first = false ∧ first ≠ '<' ∧ first ≠ '>') ∨
      AllBlank stretch ∧ isBlank first = true := by
  obtain ⟨⟨found, after⟩, read⟩ := Option.ne_none_iff_exists'.mp readable
  obtain ⟨spelling, grammatical, reached, _⟩ := read?_eq_some_iff.mp read
  have split : stretch ++ rest =
      spelling.blanks ++ (spelling.word ++ (spelling.behindWord ++ after.rest)) := by
    simpa [Spelling.text] using reached.1
  obtain ⟨first, isFirst, letter | blank⟩ :=
    spelled_beyond grammatical.word grammatical.blanks wordless split
  · exact ⟨first, isFirst, Or.inl (grammatical.word.letter first letter)⟩
  · exact ⟨first, isFirst, Or.inr blank⟩

theorem search_pass (wordless : Wordless stretch)
    (stops : ∀ char ∈ rest.head?, char = '<' ∨ char = '>') :
    reader.findFrom ⟨offset, stretch ++ rest⟩ = reader.findFrom ⟨offset + byteLength stretch, rest⟩ := by
  apply reader.findFrom_append
  rintro before char behind rfl
  have nothing : read? ⟨offset + byteLength before, char :: behind ++ rest⟩ = none := by
    by_contra readable
    have wordlessBehind := wordless.of_suffix (List.suffix_append before (char :: behind))
    obtain ⟨first, isFirst, visible | ⟨_, blank⟩⟩ := beyond_of_readable readable wordlessBehind
    · exact (stops first isFirst).elim visible.2.1 visible.2.2
    · rcases stops first isFirst with rfl | rfl <;> exact absurd blank (by decide)
  exact nothing

theorem search_pass_part (wordless : Wordless (stretch ++ more))
    (stops : ∀ char ∈ rest.head?, char = '<' ∨ char = '>') :
    reader.findFrom ⟨offset, stretch ++ (more ++ rest)⟩ =
      reader.findFrom ⟨offset + byteLength stretch, more ++ rest⟩ := by
  have wordlessBehind := wordless.of_suffix (List.suffix_append stretch more)
  have whole : reader.findFrom ⟨offset, (stretch ++ more) ++ rest⟩ = _ := search_pass wordless stops
  have part : reader.findFrom ⟨offset + byteLength stretch, more ++ rest⟩ = _ :=
    search_pass wordlessBehind stops
  rw [part, ← List.append_assoc, whole, byteLength_append, Nat.add_assoc]

variable (offset rest) in
theorem search_find {spelling : Spelling} (grammatical : spelling.Grammatical)
    (wordless : Wordless stretch) :
    ∃ start, offset ≤ start ∧
      reader.findFrom ⟨offset, stretch ++ (spelling.text ++ rest)⟩ =
        ⟨start, offset + byteLength (stretch ++ spelling.text), String.ofList spelling.value⟩ ::
          reader.findFrom ⟨offset + byteLength (stretch ++ spelling.text), rest⟩ := by
  induction stretch generalizing offset with
  | nil =>
    have reached := Place.Reaches.of_append offset spelling.text rest
    have read := read?_eq_some_iff.mpr ⟨spelling, grammatical, reached, rfl⟩
    exact ⟨offset, Nat.le_refl _, reader.findFrom_of_read read⟩
  | cons char stretch inductionHypothesis =>
    by_cases allBlank : AllBlank (char :: stretch)
    -- The whole stretch is read as a part of the attribute.
    · have longerGrammatical := grammatical.lengthened allBlank
      have reached := Place.Reaches.of_append offset (char :: stretch ++ spelling.text) rest
      rw [← spelling.text_lengthened] at reached
      have read := read?_eq_some_iff.mpr ⟨_, longerGrammatical, reached, rfl⟩
      rw [spelling.text_lengthened, List.append_assoc] at read
      exact ⟨offset, Nat.le_refl _, reader.findFrom_of_read read⟩
    -- An attribute that began here would have a letter of its word where the blanks begin.
    · have nothing : read? ⟨offset, char :: (stretch ++ (spelling.text ++ rest))⟩ = none := by
        by_contra readable
        obtain ⟨first, isFirst, visible | ⟨stretchBlank, _⟩⟩ := beyond_of_readable readable wordless
        · exact absurd (grammatical.head isFirst) (by rw [visible.1]; exact Bool.false_ne_true)
        · exact allBlank stretchBlank
      have wordlessBehind := wordless.of_suffix (List.suffix_cons char stretch)
      obtain ⟨start, low, found⟩ := @inductionHypothesis (offset + char.utf8Size) wordlessBehind
      refine ⟨start, by omega, ?_⟩
      rw [List.cons_append, reader.findFrom_of_pass nothing, found]
      simp only [List.cons_append, byteLength_cons, Nat.add_assoc]

theorem search_visible (visible : ∀ char ∈ stretch, isBlank char = false) :
    reader.findFrom ⟨offset, stretch ++ rest⟩ = reader.findFrom ⟨offset + byteLength stretch, rest⟩ := by
  apply reader.findFrom_append
  rintro before char behind rfl
  apply read?_eq_none_of_visible
  exact visible char (List.mem_append_right _ List.mem_cons_self)

end Attributes

theorem map_kind_events (found : ClassAttribute) :
    found.events.map Event.kind = (wordsOf found.value).map EventKind.className := by
  have names : ((wordsOf found.value).zipIdx found.start).map Prod.fst = wordsOf found.value :=
    List.zipIdx_map_fst _ _
  rw [← names, events, List.map_map, List.map_map]
  rfl

end ClassAttribute

/-! ## Cutting a scan -/

theorem eventsFrom_end (offset : Nat) : eventsFrom ⟨offset, []⟩ = [] := by
  rw [eventsFrom, tagsFrom, namesFrom, ClassAttribute.findFrom_eq_search, Reader.findFrom_end, Reader.findFrom_end,
    Reader.findFrom_end]
  exact List.mergeSort_nil

theorem offset_le_of_mem_eventsFrom {place : Place} {event : Event} (member : event ∈ eventsFrom place) :
    place.offset ≤ event.position := by
  rcases mem_eventsFrom_iff.mp member with isOpening | isClosing | isName
  · exact openingReader_readsTag.offset_le isOpening
  · exact closingReader_readsTag.offset_le isClosing
  · obtain ⟨found, isFound, isEvent⟩ := List.mem_flatMap.mp isName
    obtain ⟨_, _, _, _, _, start, _⟩ := ClassAttribute.exists_spelling_of_mem_findFrom isFound
    have inside := (ClassAttribute.event_position isFound isEvent).1
    omega

theorem eventsFrom_append {place after : Place} {openings closings names : List Event}
    (openingsCut : openingReader.findFrom place = openings ++ openingReader.findFrom after)
    (closingsCut : closingReader.findFrom place = closings ++ closingReader.findFrom after)
    (namesCut : namesFrom place = names ++ namesFrom after)
    (ordered : (openings ++ closings ++ names).Pairwise Event.Precedes)
    (early : ∀ event ∈ openings ++ closings ++ names, event.position < after.offset) :
    eventsFrom place = openings ++ closings ++ names ++ eventsFrom after := by
  -- Both sides are strictly ordered, so it is enough to compare their members.
  apply eq_of_precedes_of_mem_iff (eventsFrom_precedes place)
  · refine List.pairwise_append.mpr ⟨ordered, eventsFrom_precedes after, ?_⟩
    intro event isEarly later isLater
    exact Or.inl (Nat.lt_of_lt_of_le (early event isEarly) (offset_le_of_mem_eventsFrom isLater))
  · intro event
    rw [mem_eventsFrom_iff, openingsCut, closingsCut, namesCut]
    simp only [List.mem_append, mem_eventsFrom_iff]
    tauto

end StyleSkeleton.Markup
