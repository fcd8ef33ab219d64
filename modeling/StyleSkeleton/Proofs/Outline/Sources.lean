import StyleSkeleton.Proofs.Markup.TagRegion
import StyleSkeleton.Proofs.Outline.Attributes
import StyleSkeleton.Proofs.Outline.Growing
import StyleSkeleton.Proofs.Outline.Reading

/-! # The attributes behind an outline

Every entry of an outline goes back to a name of a class attribute in the text.  The tag of the entry is the one
that was opened last in front of the name, provided nothing was closed since, and the first such name counts
(`exists_level_iff_isFirst`).

An attribute goes with that tag whether it stands in the region of the tag or behind its end, as a scan pays no
attention to where tags end.
-/

namespace StyleSkeleton

open StyleSkeleton.Markup StyleSkeleton.Text

namespace Outline

/-! ## Events that attach a name -/

def Attaches (ignored : NameSet) (before : List Event) (event : Event) (tag name : String) : Prop :=
  event.kind = .className name ∧ name ∉ ignored ∧ ∃ position, lastTag? before = some ⟨position, .opening tag⟩

theorem lastTag?_concat (events : List Event) (event : Event) :
    lastTag? (events ++ [event]) = if event.isClassName then lastTag? events else some event := by
  cases isName : event.isClassName <;> simp [lastTag?, isName]

section Attaches

variable {ignored : NameSet} {events : List Event} {event : Event} {tag name : String}

theorem exists_owner_iff :
    (∃ owner, owner? events events.length = some (owner, tag)) ↔
      ∃ position, lastTag? events = some ⟨position, .opening tag⟩ := by
  induction events using List.reverseRecOn with
  | nil => simp [owner?, lastTag?]
  | append_singleton events event inductionHypothesis =>
    rw [List.length_append, List.length_singleton, owner?, kindAt?_concat_length, lastTag?_concat]
    obtain ⟨position, kind⟩ := event
    cases kind with
    | opening other => simp [Event.isClassName]
    | closing => simp [Event.isClassName]
    | className name =>
      rw [owner?_append _ (Nat.le_refl _)]
      exact inductionHypothesis

theorem exists_attachment_iff :
    (∃ owner, attachment? (events ++ [event]) ignored events.length = some ⟨owner, tag, name⟩) ↔
      Attaches ignored events event tag name := by
  rw [attachment?, kindAt?_concat_length, owner?_append _ (Nat.le_refl _), Attaches, ← exists_owner_iff]
  obtain ⟨position, kind⟩ := event
  cases kind with
  | opening other => simp
  | closing => simp
  | className other =>
    cases owned : owner? events events.length with
    | none => simp
    | some found =>
      obtain ⟨owner, top⟩ := found
      by_cases same : other = name
      · by_cases isIgnored : name ∈ ignored <;> simp [same, isIgnored]
      · by_cases isIgnored : other ∈ ignored <;> simp [same, isIgnored]

theorem exists_level_concat_iff :
    (∃ level, ⟨tag, name, level⟩ ∈ ofEvents ignored (events ++ [event])) ↔
      (∃ level, ⟨tag, name, level⟩ ∈ ofEvents ignored events) ∨
        Attaches ignored events event tag name ∧ name ∉ (ofEvents ignored events).map Entry.name := by
  have outlined (events : List Event) : ofEvents ignored events = firstsByName (located events ignored) :=
    (Agrees.run ignored events).entries
  rw [← exists_attachment_iff, outlined, outlined, located_concat, firstsByName_append, mem_names_firstsByName]
  simp only [List.mem_append, exists_or]
  cases attached : attachment? (events ++ [event]) ignored events.length with
  | none => simp [firstsByName]
  | some attachment =>
    obtain ⟨owner, other, otherName⟩ := attachment
    refine or_congr Iff.rfl ?_
    simp [firstsByName, eq_comm]

theorem exists_level_iff :
    (∃ level, ⟨tag, name, level⟩ ∈ ofEvents ignored events) ↔
      ∃ before event behind, events = before ++ event :: behind ∧ Attaches ignored before event tag name ∧
        name ∉ (ofEvents ignored before).map Entry.name := by
  induction events using List.reverseRecOn with
  | nil => simp [ofEvents, replayed, Replay.settle, Replay.start]
  | append_singleton events event inductionHypothesis =>
    rw [exists_level_concat_iff, inductionHypothesis]
    constructor
    · rintro (⟨before, first, behind, rfl, attaches⟩ | attaches)
      · exact ⟨before, first, behind ++ [event], by simp, attaches⟩
      · exact ⟨events, event, [], rfl, attaches⟩
    · rintro ⟨before, first, behind, split, attaches⟩
      -- The event that attaches the name is the one that was added, or else it was there before.
      induction behind using List.reverseRecOn with
      | nil =>
        obtain ⟨rfl, same⟩ := List.append_inj' split rfl
        obtain rfl := (List.cons.inj same).1
        exact .inr attaches
      | append_singleton behind last _ =>
        rw [← List.cons_append, ← List.append_assoc] at split
        obtain ⟨rfl, _⟩ := List.append_inj' split rfl
        exact .inl ⟨before, first, behind, rfl, attaches⟩

theorem mem_names_append (member : name ∈ (ofEvents ignored events).map Entry.name) (more : List Event) :
    name ∈ (ofEvents ignored (events ++ more)).map Entry.name := by
  obtain ⟨added, grown, _⟩ := exists_ofEvents_append ignored events more
  rw [grown, List.map_append]
  exact List.mem_append_left _ member

theorem mem_names_of_attaches (attaches : Attaches ignored events event tag name) (behind : List Event) :
    name ∈ (ofEvents ignored (events ++ event :: behind)).map Entry.name := by
  by_cases known : name ∈ (ofEvents ignored events).map Entry.name
  · exact mem_names_append known _
  · obtain ⟨level, isEntry⟩ := exists_level_concat_iff.mpr (.inr ⟨attaches, known⟩)
    have stays := mem_names_append (List.mem_map_of_mem isEntry) behind
    rwa [List.append_assoc, List.singleton_append] at stays

theorem exists_level_of_mem_names (member : name ∈ (ofEvents ignored events).map Entry.name) :
    ∃ tag level, ⟨tag, name, level⟩ ∈ ofEvents ignored events := by
  obtain ⟨⟨tag, _, level⟩, isEntry, rfl⟩ := List.mem_map.mp member
  exact ⟨tag, level, isEntry⟩

end Attaches

/-! ## Names in attributes -/

/-- The name with the given number in an attribute counts, and it comes behind an opening. -/
structure IsSource (ignored : NameSet) (markup : String) (found : ClassAttribute) (number : Nat) (opening : Event)
    (tag name : String) : Prop where
  isFound : found ∈ ClassAttribute.findAll markup.toList
  isName : (wordsOf found.value)[number]? = some name
  counts : name ∉ ignored
  isOpening : opening.kind = .opening tag
  isLast : lastTag? ((scan markup).filter (·.position ≤ found.start + number)) = some opening

def IsFirst (ignored : NameSet) (markup : String) (found : ClassAttribute) (number : Nat) (name : String) : Prop :=
  ∀ found' number' opening tag, IsSource ignored markup found' number' opening tag name →
    found.start + number ≤ found'.start + number'

section Sources

variable {ignored : NameSet} {markup tag name : String}

theorem exists_isSource_of_attaches {before behind : List Event} {event : Event}
    (split : scan markup = before ++ event :: behind) (attaches : Attaches ignored before event tag name) :
    ∃ found number opening, IsSource ignored markup found number opening tag name ∧
      event.position = found.start + number := by
  obtain ⟨position, kind⟩ := event
  obtain ⟨rfl, counts, opened, isLast⟩ := attaches
  have isEvent : ⟨position, .className name⟩ ∈ scan markup := by simp [split]
  obtain ⟨found, isFound, number, isName, rfl⟩ := mem_scan_iff.mp isEvent
  rw [lastTag?_in_front rfl split] at isLast
  exact ⟨found, number, _, ⟨isFound, isName, counts, rfl, isLast⟩, rfl⟩

theorem IsSource.exists_attaches {found : ClassAttribute} {number : Nat} {opening : Event}
    (source : IsSource ignored markup found number opening tag name) :
    ∃ before behind, scan markup = before ++ ⟨found.start + number, .className name⟩ :: behind ∧
      Attaches ignored before ⟨found.start + number, .className name⟩ tag name := by
  have isEvent : ⟨found.start + number, .className name⟩ ∈ scan markup :=
    mem_scan_of_mem_events source.isFound (ClassAttribute.mem_events_iff.mpr ⟨number, name, source.isName, rfl⟩)
  obtain ⟨before, behind, split⟩ := List.append_of_mem isEvent
  refine ⟨before, behind, split, rfl, source.counts, opening.position, ?_⟩
  rw [lastTag?_in_front rfl split, ← source.isOpening]
  exact source.isLast

theorem position_lt_of_split {before between behind : List Event} {first second : Event}
    (split : scan markup = before ++ first :: (between ++ second :: behind)) (firstNamed : first.isClassName = true) :
    first.position < second.position := by
  have ordered := scan_precedes markup
  rw [split] at ordered
  have precedes := (List.pairwise_cons.mp (List.pairwise_append.mp ordered).2.1).1 second (by simp)
  cases precedes with
  | inl earlier => exact earlier
  | inr tied => cases firstNamed.symm.trans tied.2.1

theorem place_cases {events before behind before' behind' : List Event} {event event' : Event}
    (split : events = before ++ event :: behind) (split' : events = before' ++ event' :: behind') :
    event = event' ∨ (∃ between, before' = before ++ event :: between) ∨
      ∃ between, before = before' ++ event' :: between := by
  rw [split] at split'
  obtain ⟨between, rfl, rest⟩ | ⟨between, rfl, rest⟩ := List.append_eq_append_iff.mp split'
  · cases between with
    | nil => exact .inl (List.cons.inj rest).1
    | cons first between =>
      obtain rfl := (List.cons.inj rest).1
      exact .inr (.inl ⟨between, rfl⟩)
  · cases between with
    | nil => exact .inl (List.cons.inj rest).1.symm
    | cons first between =>
      obtain rfl := (List.cons.inj rest).1
      exact .inr (.inr ⟨between, rfl⟩)

theorem exists_level_iff_isFirst :
    (∃ level, ⟨tag, name, level⟩ ∈ ofMarkup ignored markup) ↔
      ∃ found number opening, IsSource ignored markup found number opening tag name ∧
        IsFirst ignored markup found number name := by
  rw [ofMarkup, exists_level_iff]
  constructor
  · rintro ⟨before, event, behind, split, attaches, new⟩
    obtain ⟨found, number, opening, source, position⟩ := exists_isSource_of_attaches split attaches
    refine ⟨found, number, opening, source, fun found' number' opening' tag' source' => ?_⟩
    obtain ⟨before', behind', split', attaches'⟩ := source'.exists_attaches
    rw [← position]
    -- If the other name came earlier, it would have an entry already and this one would not be new.
    obtain rfl | ⟨between, rfl⟩ | ⟨between, rfl⟩ := place_cases split split'
    · exact Nat.le_refl _
    · rw [List.append_assoc, List.cons_append] at split'
      exact Nat.le_of_lt (position_lt_of_split split' (by rw [Event.isClassName, attaches.1]))
    · exact absurd (mem_names_of_attaches attaches' between) new
  · rintro ⟨found, number, opening, source, isFirst⟩
    obtain ⟨before, behind, split, attaches⟩ := source.exists_attaches
    refine ⟨before, _, behind, split, attaches, fun known => ?_⟩
    -- A name that is known by then has a source of its own further in front.
    obtain ⟨tag', level', isEntry⟩ := exists_level_of_mem_names known
    obtain ⟨before', event', between, rfl, attaches', _⟩ := exists_level_iff.mp ⟨level', isEntry⟩
    rw [List.append_assoc, List.cons_append] at split
    obtain ⟨found', number', opening', source', position⟩ := exists_isSource_of_attaches split attaches'
    have earlier := position_lt_of_split split (by rw [Event.isClassName, attaches'.1])
    have first := isFirst found' number' opening' tag' source'
    rw [position] at earlier
    exact absurd first (Nat.not_le_of_lt earlier)

/-! ## Names in the region of a tag -/

theorem IsSource.opening_mem {found : ClassAttribute} {number : Nat} {opening : Event}
    (source : IsSource ignored markup found number opening tag name) : opening ∈ scan markup :=
  (List.mem_filter.mp (mem_of_lastTag? source.isLast)).1

/-- An attribute stands behind a tag and begins outside of quotes before the tag has ended. -/
def Takes (markup : String) (opening : Event) (found : ClassAttribute) : Prop :=
  ∃ between inside spot, StandsBehind markup opening between inside found ∧
    Spot.free.read? between = some spot ∧ spot.isQuoted = false

end Sources

/-- The entries go back to names of attributes, each to the first one of its name, and the tag is the one that was
opened last in front of it.  Whether that tag has ended by then makes no difference.  If no tag had, and no value
was open, all entries go back to attributes in the region of their tag. -/
theorem ofMarkup_sources (ignored : NameSet) (markup : String) :
    (∀ tag name, (∃ level, ⟨tag, name, level⟩ ∈ ofMarkup ignored markup) ↔
      ∃ found number opening, IsSource ignored markup found number opening tag name ∧
        IsFirst ignored markup found number name) ∧
    (∀ found number opening tag name, IsSource ignored markup found number opening tag name →
      opening.position < found.start → ∃ between inside, StandsBehind markup opening between inside found ∧
        (Spot.free.read? between = none → ¬ InRegion markup opening found) ∧
        ∀ spot, Spot.free.read? between = some spot → spot.isQuoted = false → InRegion markup opening found) ∧
    ((∀ found number opening tag name, IsSource ignored markup found number opening tag name →
        IsFirst ignored markup found number name → Takes markup opening found) →
      ∀ entry ∈ ofMarkup ignored markup, ∃ found number opening,
        IsSource ignored markup found number opening entry.tag entry.name ∧
          IsFirst ignored markup found number entry.name ∧ InRegion markup opening found) := by
  refine ⟨fun tag name => exists_level_iff_isFirst, ?_, ?_⟩
  · intro found number opening tag name source inFront
    obtain ⟨between, inside, stands⟩ :=
      exists_standsBehind source.opening_mem source.isOpening source.isFound inFront
    exact ⟨between, inside, stands, not_inRegion_of_ended stands,
      fun spot => inRegion_of_unquoted source.isFound stands⟩
  · intro takes entry member
    obtain ⟨found, number, opening, source, isFirst⟩ := exists_level_iff_isFirst.mp ⟨entry.level, member⟩
    obtain ⟨between, inside, spot, stands, reads, unquoted⟩ := takes found number opening _ _ source isFirst
    exact ⟨found, number, opening, source, isFirst, inRegion_of_unquoted source.isFound stands reads unquoted⟩

/-- A bracket inside of a value does not end a tag. -/
theorem ofMarkup_sources_quoted_bracket :
    let markup := "<p id='a>b' class='x'>"
    ofMarkup ∅ markup = [⟨"p", "x", 0⟩] ∧
      ∀ entry ∈ ofMarkup ∅ markup, ∃ found number opening,
        IsSource ∅ markup found number opening entry.tag entry.name ∧
          IsFirst ∅ markup found number entry.name ∧ InRegion markup opening found := by
  intro markup
  have attributes : ClassAttribute.findAll markup.toList = [⟨11, 21, "x"⟩] := by cbv
  have scanned : scan markup = [⟨0, .opening "p"⟩, ⟨11, .className "x"⟩] := by cbv
  refine ⟨by rw [ofMarkup, scanned]; decide, (ofMarkup_sources ∅ markup).2.2 ?_⟩
  intro found number opening tag name source _
  have isFound := source.isFound
  have isEvent := source.opening_mem
  have isOpening := source.isOpening
  rw [attributes, List.mem_singleton] at isFound
  rw [scanned, List.mem_pair] at isEvent
  cases isEvent with
  | inl isTag =>
    rw [isFound, isTag]
    exact ⟨" id='a>b'".toList, " class='x'".toList, .free,
      ⟨[], "p".toList, ">".toList, by decide, by decide, by decide, by decide⟩, by decide, rfl⟩
  | inr isName =>
    rw [isName] at isOpening
    cases isOpening

/-- A tag that is written as text becomes a part of the tag around it. -/
theorem ofMarkup_escaped_tag :
    let markup := "<code>&lt;p class='x'&gt;</code>"
    ofMarkup ∅ markup = [⟨"code", "x", 0⟩] ∧
      ∀ opening ∈ scan markup, ∀ found ∈ ClassAttribute.findAll markup.toList, ¬ InRegion markup opening found := by
  intro markup
  have attributes : ClassAttribute.findAll markup.toList = [⟨11, 21, "x"⟩] := by cbv
  have scanned : scan markup = [⟨0, .opening "code"⟩, ⟨11, .className "x"⟩, ⟨25, .closing⟩] := by cbv
  refine ⟨by rw [ofMarkup, scanned]; decide, fun opening isEvent found isFound => ?_⟩
  rw [attributes, List.mem_singleton] at isFound
  rw [scanned, List.mem_cons, List.mem_pair] at isEvent
  obtain isTag | isName | isClosing := isEvent
  · rw [isFound, isTag]
    have stands : StandsBehind markup ⟨0, .opening "code"⟩ ">&lt;p".toList " class='x'".toList ⟨11, 21, "x"⟩ :=
      ⟨[], "code".toList, "&gt;</code>".toList, by decide, by decide, by decide, by decide⟩
    exact not_inRegion_of_ended stands (by decide)
  · rintro ⟨_, _, ⟨_, _, _, isOpening, _⟩, _⟩
    simp [isName] at isOpening
  · rintro ⟨_, _, ⟨_, _, _, isOpening, _⟩, _⟩
    simp [isClosing] at isOpening

end Outline

end StyleSkeleton
