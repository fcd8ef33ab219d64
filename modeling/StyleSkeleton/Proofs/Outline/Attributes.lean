import Mathlib
import StyleSkeleton.Proofs.Forest.Outlined
import StyleSkeleton.Proofs.Outline.Invariant

/-! # The names of one attribute

The names of an attribute count upwards from its start, while tags have the byte offsets where they
stand.  A bracket inside of the value is taken for a tag, and if the names are many enough to count
past it, the later ones come behind that tag and no longer behind the tag that has the attribute
(`names_split`).  Otherwise they belong together (`belongTogether_iff`).  Eight names at most always
do, since so many bytes of an attribute lie in front of its value.
-/

namespace StyleSkeleton

open StyleSkeleton.Markup StyleSkeleton.Text

namespace Markup

/-! ## Brackets of a text -/

theorem exists_bracket_of_mem_scan {markup : String} {event : Event} (member : event ∈ scan markup)
    (isTag : event.isClassName = false) :
    ∃ before rest, markup.toList = before ++ '<' :: rest ∧ byteLength before = event.position := by
  have isEvent := mem_scan_iff.mp member
  obtain ⟨position, kind⟩ := event
  cases kind with
  | opening tag =>
    obtain ⟨before, name, behind, split, start, _⟩ := isEvent
    exact ⟨before, name ++ behind, split, start⟩
  | closing =>
    obtain ⟨before, behind, split, start⟩ := isEvent
    exact ⟨before, '/' :: behind, split, start⟩
  | className name => cases isTag

theorem bracket_outside {before rest front stretch behind : List Char} (absent : '<' ∉ stretch)
    (same : before ++ '<' :: rest = front ++ (stretch ++ behind)) :
    byteLength before < byteLength front ∨ byteLength front + byteLength stretch ≤ byteLength before := by
  have bracket := Char.utf8Size_pos '<'
  -- Where the bracket lies neither in front nor behind, it is a character of the stretch.
  rcases List.append_eq_append_iff.mp same with ⟨passed, rfl, beyond⟩ | ⟨passed, rfl, within⟩
  · cases passed with
    | cons first passed =>
      have positive := first.utf8Size_pos
      left
      rw [byteLength_append, byteLength_cons]
      omega
    | nil =>
      cases stretch with
      | nil => simp
      | cons first stretch =>
        obtain rfl : '<' = first := (List.cons.inj beyond).1
        exact absurd List.mem_cons_self absent
  · right
    rcases List.append_eq_append_iff.mp within with ⟨more, rfl, _⟩ | ⟨more, rfl, beyond⟩
    · simp only [byteLength_append]
      omega
    · cases more with
      | nil => simp
      | cons first more =>
        obtain rfl : '<' = first := (List.cons.inj beyond).1
        exact absurd (List.mem_append_right _ List.mem_cons_self) absent

/-! ## Brackets of an attribute -/

namespace Spelling

variable {spelling : Spelling}

theorem Grammatical.bracket_ne_quote (grammatical : spelling.Grammatical) : '<' ≠ spelling.quote := by
  rcases grammatical.quote with quote | quote <;> rw [quote] <;> decide

theorem Grammatical.bracket_not_mem_opening (grammatical : spelling.Grammatical) : '<' ∉ spelling.opening := by
  have visible : isBlank '<' = false := by decide
  have notBlank {blanks : List Char} (allBlank : AllBlank blanks) : '<' ∉ blanks := fun member => by
    cases visible.symm.trans (allBlank '<' member)
  have notLetter : '<' ∉ spelling.word := fun member => (grammatical.word.letter '<' member).2.1 rfl
  simp [opening, notBlank grammatical.blanks, notBlank grammatical.beforeSign, notBlank grammatical.behindSign,
    notLetter, grammatical.bracket_ne_quote]

end Spelling

namespace ClassAttribute

variable {markup : String} {found : ClassAttribute} {event : Event}

theorem bracket_in_value (member : found ∈ findAll markup.toList) (isEvent : event ∈ scan markup)
    (isTag : event.isClassName = false) (behind : found.start ≤ event.position)
    (inside : event.position < found.stop) : found.start + 8 ≤ event.position ∧ '<' ∈ found.value.toList := by
  -- What the attribute has in front of its value is eight bytes long and has no bracket.
  obtain ⟨front, spelling, rest, grammatical, split, start, stop, value⟩ := exists_spelling_of_mem member
  obtain ⟨before, more, splitBracket, position⟩ := exists_bracket_of_mem_scan isEvent isTag
  rw [splitBracket, List.append_assoc] at split
  constructor
  · have openingSplit := split
    rw [spelling.text_eq_opening, List.append_assoc] at openingSplit
    have eight := grammatical.eight_le_opening
    have outside := bracket_outside grammatical.bracket_not_mem_opening openingSplit
    omega
  · by_contra absent
    have nowhere : '<' ∉ spelling.text := by
      rw [spelling.text_eq_opening, value]
      simp [grammatical.bracket_not_mem_opening, absent, grammatical.bracket_ne_quote]
    have outside := bracket_outside nowhere split
    omega

end ClassAttribute

/-! ## Behind which tag a name comes -/

def lastTag? (events : List Event) : Option Event :=
  (events.filter fun event => !event.isClassName).getLast?

theorem mem_of_lastTag? {events : List Event} {last : Event} (isLast : lastTag? events = some last) :
    last ∈ events :=
  List.mem_of_mem_filter (List.mem_of_getLast? isLast)

theorem exists_lastTag {events : List Event} {tag : Event}
    (ordered : events.Pairwise fun first second => first.position ≤ second.position) (member : tag ∈ events)
    (isTag : tag.isClassName = false) : ∃ last, lastTag? events = some last ∧ tag.position ≤ last.position := by
  have isThere : tag ∈ events.filter fun event => !event.isClassName := by simp [member, isTag]
  cases isLast : lastTag? events with
  | none =>
    rw [lastTag?, List.getLast?_eq_none_iff] at isLast
    rw [isLast] at isThere
    cases isThere
  | some last =>
    obtain ⟨others, split⟩ := List.getLast?_eq_some_iff.mp isLast
    have tagsOrdered := ordered.filter fun event => !event.isClassName
    rw [split] at isThere tagsOrdered
    refine ⟨last, rfl, ?_⟩
    rcases List.mem_append.mp isThere with other | same
    · exact (List.pairwise_append.mp tagsOrdered).2.2 tag other last List.mem_cons_self
    · rw [List.mem_singleton.mp same]

def BelongTogether (markup : String) (found : ClassAttribute) : Prop :=
  ∀ before name behind, name ∈ found.events → scan markup = before ++ name :: behind →
    lastTag? before = lastTag? ((scan markup).filter (·.position < found.start))

def Undisturbed (markup : String) (found : ClassAttribute) : Prop :=
  ∀ event ∈ scan markup, event.isClassName = false →
    event.position < found.start ∨ found.start + (wordsOf found.value).length ≤ event.position

variable {markup : String} {found : ClassAttribute}

theorem position_of_mem_events {event : Event} (isEvent : event ∈ found.events) :
    found.start ≤ event.position ∧ event.position < found.start + (wordsOf found.value).length := by
  obtain ⟨number, name, isName, rfl⟩ := ClassAttribute.mem_events_iff.mp isEvent
  obtain ⟨bound, _⟩ := List.getElem?_eq_some_iff.mp isName
  exact ⟨Nat.le_add_right _ _, Nat.add_lt_add_left bound _⟩

theorem exists_name_at {position : Nat} (behind : found.start ≤ position)
    (inside : position < found.start + (wordsOf found.value).length) :
    ∃ name ∈ found.events, name.position = position := by
  have bound : position - found.start < (wordsOf found.value).length := by omega
  refine ⟨⟨found.start + (position - found.start), _⟩,
    ClassAttribute.mem_events_iff.mpr ⟨_, _, List.getElem?_eq_getElem bound, rfl⟩, ?_⟩
  exact Nat.add_sub_cancel' behind

theorem isClassName_of_mem_events {event : Event} (isName : event ∈ found.events) : event.isClassName = true := by
  obtain ⟨_, _, _, rfl⟩ := ClassAttribute.mem_events_iff.mp isName
  rfl

theorem mem_scan_of_mem_events (member : found ∈ ClassAttribute.findAll markup.toList) {event : Event}
    (isName : event ∈ found.events) : event ∈ scan markup := by
  obtain ⟨number, name, named, rfl⟩ := ClassAttribute.mem_events_iff.mp isName
  exact mem_scan_iff.mpr ⟨found, member, number, named, rfl⟩

theorem lastTag?_in_front {before behind : List Event} {name : Event} (named : name.isClassName = true)
    (split : scan markup = before ++ name :: behind) :
    lastTag? before = lastTag? ((scan markup).filter (·.position ≤ name.position)) := by
  have ordered := scan_precedes markup
  rw [split, List.pairwise_append, List.pairwise_cons] at ordered
  obtain ⟨_, ⟨nameFirst, _⟩, beforeFirst⟩ := ordered
  have allBefore : before.filter (·.position ≤ name.position) = before := by
    rw [List.filter_eq_self]
    intro event member
    rcases beforeFirst event member name List.mem_cons_self with earlier | tied
    · simpa using Nat.le_of_lt earlier
    · simpa using Nat.le_of_eq tied.1
  -- At its position nothing comes behind a class name.
  have noneBehind : behind.filter (·.position ≤ name.position) = [] := by
    rw [List.filter_eq_nil_iff]
    intro event member
    rcases nameFirst event member with later | tied
    · simpa using later
    · cases named.symm.trans tied.2.1
  rw [split, List.filter_append, allBefore, List.filter_cons_of_pos (by simp), noneBehind, lastTag?, lastTag?,
    List.filter_append, List.filter_singleton, named]
  simp

theorem belongTogether_of_undisturbed (undisturbed : Undisturbed markup found) : BelongTogether markup found := by
  intro before name behind isName split
  obtain ⟨low, high⟩ := position_of_mem_events isName
  rw [lastTag?_in_front (isClassName_of_mem_events isName) split, lastTag?, lastTag?, List.filter_filter,
    List.filter_filter]
  congr 1
  refine List.filter_congr fun event isEvent => ?_
  cases isTag : event.isClassName with
  | true => rfl
  | false =>
    have apart := undisturbed event isEvent isTag
    have same : event.position ≤ name.position ↔ event.position < found.start := by omega
    simp [same]

theorem undisturbed_of_belongTogether (member : found ∈ ClassAttribute.findAll markup.toList)
    (together : BelongTogether markup found) : Undisturbed markup found := by
  intro tag isEvent isTag
  by_contra! disturbs
  obtain ⟨name, isName, samePosition⟩ := exists_name_at disturbs.1 disturbs.2
  obtain ⟨before, behind, split⟩ := List.append_of_mem (mem_scan_of_mem_events member isName)
  have behindTag := together before name behind isName split
  rw [lastTag?_in_front (isClassName_of_mem_events isName) split] at behindTag
  -- The tag is among those in front of the name, so the last of them is no tag in front of the attribute.
  have inFrontOfName : tag ∈ (scan markup).filter (·.position ≤ name.position) := by simp [isEvent, samePosition]
  obtain ⟨last, isLast, tagNotAfter⟩ := exists_lastTag ((scan_pairwise markup).filter _) inFrontOfName isTag
  rw [behindTag] at isLast
  have inFront : last.position < found.start := by simpa using (List.mem_filter.mp (mem_of_lastTag? isLast)).2
  omega

theorem undisturbed_of_few_or_plain (member : found ∈ ClassAttribute.findAll markup.toList)
    (fewOrPlain : (wordsOf found.value).length ≤ 8 ∨ '<' ∉ found.value.toList) : Undisturbed markup found := by
  intro tag isEvent isTag
  by_contra! disturbs
  have stops := ClassAttribute.start_add_length_lt_stop member
  obtain ⟨far, bracket⟩ := ClassAttribute.bracket_in_value member isEvent isTag disturbs.1 (by omega)
  rcases fewOrPlain with few | plain
  · omega
  · exact plain bracket

/-! ## Names side by side -/

theorem outside_or_mem_events (member : found ∈ ClassAttribute.findAll markup.toList)
    (undisturbed : Undisturbed markup found) {event : Event} (isEvent : event ∈ scan markup) :
    event.position < found.start ∨ event ∈ found.events ∨
      found.start + (wordsOf found.value).length ≤ event.position := by
  cases isTag : event.isClassName with
  | false =>
    rcases undisturbed event isEvent isTag with inFront | beyond
    · exact .inl inFront
    · exact .inr (.inr beyond)
  | true =>
    have described := mem_scan_iff.mp isEvent
    obtain ⟨position, kind⟩ := event
    cases kind with
    | opening tag => cases isTag
    | closing => cases isTag
    | className name =>
      obtain ⟨other, otherMember, number, named, rfl⟩ := described
      have isName : ⟨other.start + number, .className name⟩ ∈ other.events :=
        ClassAttribute.mem_events_iff.mpr ⟨number, name, named, rfl⟩
      have bounds := ClassAttribute.event_position otherMember isName
      have stops := ClassAttribute.start_add_length_lt_stop member
      -- A name of another attribute stays inside of that one, which lies in front of this one or behind it.
      rcases ClassAttribute.eq_or_apart otherMember member with rfl | before | behind
      · exact .inr (.inl isName)
      · exact .inl (by omega)
      · exact .inr (.inr (by omega))

theorem scan_eq_of_undisturbed (member : found ∈ ClassAttribute.findAll markup.toList)
    (undisturbed : Undisturbed markup found) :
    scan markup = (scan markup).filter (·.position < found.start) ++ (found.events ++
      (scan markup).filter (found.start + (wordsOf found.value).length ≤ ·.position)) := by
  have ordered := scan_precedes markup
  have stops := ClassAttribute.start_add_length_lt_stop member
  apply eq_of_precedes_of_mem_iff ordered
  · refine List.pairwise_append.mpr ⟨ordered.filter _, List.pairwise_append.mpr ⟨?_, ordered.filter _, ?_⟩, ?_⟩
    · exact found.events_ordered.imp Or.inl
    · intro name isName event later
      have bounds := position_of_mem_events isName
      have beyond : found.start + (wordsOf found.value).length ≤ event.position := by
        simpa using (List.mem_filter.mp later).2
      exact .inl (by omega)
    · intro event earlier other rest
      have inFront : event.position < found.start := by simpa using (List.mem_filter.mp earlier).2
      rcases List.mem_append.mp rest with isName | later
      · have bounds := position_of_mem_events isName
        exact .inl (by omega)
      · have beyond : found.start + (wordsOf found.value).length ≤ other.position := by
          simpa using (List.mem_filter.mp later).2
        exact .inl (by omega)
  · intro event
    simp only [List.mem_append, List.mem_filter, decide_eq_true_eq]
    constructor
    · intro isEvent
      rcases outside_or_mem_events member undisturbed isEvent with inFront | isName | beyond
      · exact .inl ⟨isEvent, inFront⟩
      · exact .inr (.inl isName)
      · exact .inr (.inr ⟨isEvent, beyond⟩)
    · rintro (⟨isEvent, _⟩ | isName | ⟨isEvent, _⟩)
      · exact isEvent
      · exact mem_scan_of_mem_events member isName
      · exact isEvent

end Markup

/-! ## Replaying the names -/

namespace Outline

namespace Replay

/-- A replay takes all names that are not ignored to the tag that is collecting, or counts all of them as
strays. -/
def TakesTogether (ignored : NameSet) (replay : Replay) (names : List String) (after : Replay) : Prop :=
  (∃ tag classes below, replay.collecting = true ∧ replay.stack = ⟨tag, classes, none⟩ :: below ∧
    after = { replay with stack := ⟨tag, classes ++ names.filter (· ∉ ignored), none⟩ :: below }) ∨
  (replay.collecting = false ∧
    after = { replay with strays := replay.strays + (names.filter (· ∉ ignored)).length })

theorem feed_strays {ignored : NameSet} {replay : Replay} (settled : replay.collecting = false)
    (names : List String) : replay.feed ignored (names.map .className) =
      { replay with strays := replay.strays + (names.filter (· ∉ ignored)).length } := by
  induction names generalizing replay with
  | nil => rfl
  | cons name names inductionHypothesis =>
    show (replay.step ignored ⟨0, .className name⟩).feed ignored (names.map .className) = _
    by_cases isIgnored : name ∈ ignored
    · have same : replay.step ignored ⟨0, .className name⟩ = replay := if_pos isIgnored
      rw [same, inductionHypothesis settled]
      simp [isIgnored]
    · let counted : Replay := { replay with strays := replay.strays + 1 }
      have counts : replay.step ignored ⟨0, .className name⟩ = counted :=
        (if_neg isIgnored).trans (named_of_not_collecting settled name)
      rw [counts, @inductionHypothesis counted settled]
      simp [isIgnored, counted, Nat.add_assoc, Nat.add_comm]

theorem Sound.takesTogether {ignored : NameSet} {replay : Replay} (sound : Sound ignored replay)
    (found : ClassAttribute) :
    replay.TakesTogether ignored (wordsOf found.value) (replay.run ignored found.events) := by
  rw [run_eq_feed, found.map_kind_events]
  rcases Bool.eq_false_or_eq_true replay.collecting with collecting | settled
  · obtain ⟨tag, classes, below, stack, _⟩ := sound.collecting_top collecting
    exact .inl ⟨tag, classes, below, collecting, stack, feed_names collecting stack _⟩
  · exact .inr ⟨settled, feed_strays settled _⟩

end Replay

/-- Each name of an attribute comes behind the last tag that does not stand behind its position.  The names belong
together exactly if no tag stands at a position that one of them has, and so if they are eight at most or the value
has no bracket.  A replay then takes all of them in the same way. -/
theorem belongTogether_iff (markup : String) (found : ClassAttribute)
    (member : found ∈ ClassAttribute.findAll markup.toList) :
    (∀ before name behind, name ∈ found.events → scan markup = before ++ name :: behind →
      lastTag? before = lastTag? ((scan markup).filter (·.position ≤ name.position))) ∧
    (BelongTogether markup found ↔ Undisturbed markup found) ∧
    ((wordsOf found.value).length ≤ 8 ∨ '<' ∉ found.value.toList → BelongTogether markup found) ∧
    (BelongTogether markup found → ∃ before behind, scan markup = before ++ (found.events ++ behind) ∧
      lastTag? before = lastTag? ((scan markup).filter (·.position < found.start)) ∧
      ∀ ignored, (Replay.start.run ignored before).TakesTogether ignored (wordsOf found.value)
        ((Replay.start.run ignored before).run ignored found.events)) := by
  refine ⟨fun before name behind isName => lastTag?_in_front (isClassName_of_mem_events isName),
    ⟨undisturbed_of_belongTogether member, belongTogether_of_undisturbed⟩, fun fewOrPlain => ?_, fun together => ?_⟩
  · exact belongTogether_of_undisturbed (undisturbed_of_few_or_plain member fewOrPlain)
  · have undisturbed := undisturbed_of_belongTogether member together
    exact ⟨_, _, scan_eq_of_undisturbed member undisturbed, rfl, fun ignored =>
      (Replay.Sound.start.run _).takesTogether found⟩

/-- Three names do not reach the bracket that one of them begins with. -/
theorem three_belong_together :
    let found : ClassAttribute := ⟨2, 17, "a <b c"⟩
    found ∈ ClassAttribute.findAll "<p class='a <b c'>".toList ∧ BelongTogether "<p class='a <b c'>" found := by
  intro found
  have all : ClassAttribute.findAll "<p class='a <b c'>".toList = [found] := by cbv
  have member : found ∈ ClassAttribute.findAll "<p class='a <b c'>".toList := by
    rw [all]
    exact List.mem_cons_self
  have count : (wordsOf found.value).length = 3 := by cbv
  exact ⟨member, (belongTogether_iff _ found member).2.2.1 (.inl (by omega))⟩

/-- Of nine names the last one counts as far as the bracket of the first, and goes to the tag that is read there. -/
theorem names_split :
    let markup := "<p class='<x b c d e f g h i'>"
    ∃ found ∈ ClassAttribute.findAll markup.toList, ¬ BelongTogether markup found ∧
      ofMarkup ∅ markup = [⟨"p", "<x", 0⟩, ⟨"p", "b", 0⟩, ⟨"p", "c", 0⟩, ⟨"p", "d", 0⟩, ⟨"p", "e", 0⟩,
        ⟨"p", "f", 0⟩, ⟨"p", "g", 0⟩, ⟨"p", "h", 0⟩, ⟨"x", "i", 1⟩] := by
  intro markup
  have found : (⟨2, 29, "<x b c d e f g h i"⟩ : ClassAttribute) ∈ ClassAttribute.findAll markup.toList := by
    have all : ClassAttribute.findAll markup.toList = [⟨2, 29, "<x b c d e f g h i"⟩] := by cbv
    rw [all]
    exact List.mem_cons_self
  refine ⟨_, found, fun together => ?_, by cbv⟩
  have scanned : scan markup = [⟨0, .opening "p"⟩, ⟨2, .className "<x"⟩, ⟨3, .className "b"⟩, ⟨4, .className "c"⟩,
      ⟨5, .className "d"⟩, ⟨6, .className "e"⟩, ⟨7, .className "f"⟩, ⟨8, .className "g"⟩, ⟨9, .className "h"⟩] ++
      ⟨10, .opening "x"⟩ :: [⟨10, .className "i"⟩] := by cbv
  have opened : ⟨10, .opening "x"⟩ ∈ scan markup := by
    rw [scanned]
    exact List.mem_append_right _ List.mem_cons_self
  have count : (wordsOf "<x b c d e f g h i").length = 9 := by cbv
  rcases undisturbed_of_belongTogether found together _ opened rfl with inFront | beyond
  · exact absurd inFront (by decide)
  · rw [count] at beyond
    exact absurd beyond (by decide)

end Outline

end StyleSkeleton
