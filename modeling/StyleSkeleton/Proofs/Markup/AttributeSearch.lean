import Mathlib.Data.List.Pairwise
import StyleSkeleton.Markup.Scan
import StyleSkeleton.Proofs.Markup.AttributeGrammar

/-! # The class attributes of a text

The search for class attributes leaps from one run of blanks to the next.  It finds the same as a
search that tries every place (`findFrom_eq_search`): a run of blanks that starts no attribute
has no place in it where one starts.  With that the attributes found are exactly those of the
grammar, leftmost and without overlaps (`found_attributes_exact`).
-/

namespace StyleSkeleton.Markup

open StyleSkeleton.Text

namespace ClassAttribute

def reader : Reader ClassAttribute :=
  ⟨read?, fun read => (read?_reaches read).2.2⟩

/-! ## Leaping over blanks -/

theorem read?_eq_none_of_visible {offset : Nat} {char : Char} {rest : List Char}
    (visible : isBlank char = false) : read? ⟨offset, char :: rest⟩ = none := by
  simp [read?, Place.pass?, Place.next?, visible]

theorem search_nextBlank (place : Place) :
    reader.findFrom place = reader.findFrom (nextBlank place) := by
  match place with
  | ⟨offset, text⟩ =>
    have split : text = text.takeWhile (fun char => !isBlank char) ++ text.dropWhile fun char => !isBlank char :=
      List.takeWhile_append_dropWhile.symm
    rw [nextBlank, Place.passWhile]
    conv_lhs => rw [split]
    apply reader.findFrom_append
    intro before char behind passed
    apply read?_eq_none_of_visible
    have member : char ∈ text.takeWhile fun char => !isBlank char := by simp [passed]
    simpa using List.mem_takeWhile_imp member

/-- More blanks in front of an attribute belong to it. -/
theorem read?_ne_none_of_blanks {offset : Nat} {blanks rest : List Char} (allBlank : AllBlank blanks)
    (readable : read? ⟨offset + byteLength blanks, rest⟩ ≠ none) :
    read? ⟨offset, blanks ++ rest⟩ ≠ none := by
  obtain ⟨⟨found, after⟩, read⟩ := Option.ne_none_iff_exists'.mp readable
  obtain ⟨spelling, grammatical, reached, _⟩ := read?_eq_some_iff.mp read
  have longer := (Place.Reaches.of_append offset blanks rest).trans reached
  rw [← spelling.text_lengthened] at longer
  rw [read?_eq_some_iff.mpr ⟨_, grammatical.lengthened allBlank, longer, rfl⟩]
  exact Option.some_ne_none _

theorem search_passWhile_blank {place : Place} (nothing : read? place = none) :
    reader.findFrom place = reader.findFrom (place.passWhile isBlank) := by
  match place with
  | ⟨offset, text⟩ =>
    have split : text = text.takeWhile isBlank ++ text.dropWhile isBlank :=
      List.takeWhile_append_dropWhile.symm
    rw [Place.passWhile]
    conv_lhs => rw [split]
    apply reader.findFrom_append
    intro before char behind passed
    -- An attribute that began within the run would begin at its first blank as well.
    by_contra readable
    have allBlank : AllBlank before := fun char member =>
      List.mem_takeWhile_imp (l := text) (by rw [passed]; exact List.mem_append_left _ member)
    apply read?_ne_none_of_blanks allBlank readable
    rw [← List.cons_append, ← List.append_assoc, ← passed, ← split]
    exact nothing

theorem findFrom_eq_search (place : Place) : findFrom place = reader.findFrom place := by
  induction place using findFrom.induct with
  | case1 place ends =>
    rw [findFrom, dif_pos ends, search_nextBlank]
    match next : nextBlank place, ends with
    | ⟨_, []⟩, _ => rw [reader.findFrom_end]
  | case2 place going found after read inductionHypothesis =>
    rw [findFrom, dif_neg going, search_nextBlank, reader.findFrom_of_read read]
    split
    · rename_i other otherAfter otherRead
      rw [read] at otherRead
      cases otherRead
      rw [inductionHypothesis]
    · rename_i nothing
      rw [read] at nothing
      cases nothing
  | case3 place going nothing inductionHypothesis =>
    rw [findFrom, dif_neg going, search_nextBlank, search_passWhile_blank nothing]
    split
    · rename_i found after read
      rw [nothing] at read
      cases read
    · exact inductionHypothesis

/-! ## What is found -/

theorem exists_spelling_of_mem_findFrom {place : Place} {found : ClassAttribute}
    (member : found ∈ findFrom place) :
    ∃ (before : List Char) (spelling : Spelling) (behind : List Char),
      spelling.Grammatical ∧ place.rest = before ++ spelling.text ++ behind ∧
        found.start = place.offset + byteLength before ∧
        found.stop = found.start + byteLength spelling.text ∧ spelling.value = found.value.toList := by
  rw [findFrom_eq_search] at member
  obtain ⟨before, start, after, reachedStart, read⟩ := reader.exists_read_of_mem member
  obtain ⟨spelling, grammatical, reached, rfl⟩ := read?_eq_some_iff.mp read
  refine ⟨before, spelling, after.rest, grammatical, ?_, reachedStart.2, reached.2, by simp⟩
  rw [List.append_assoc, ← reached.1]
  exact reachedStart.1

theorem findFrom_pairwise (place : Place) :
    (findFrom place).Pairwise fun first second => first.stop ≤ second.start := by
  rw [findFrom_eq_search]
  apply reader.findFrom_pairwise
  intro start stop laterStart laterStop passed first second read reached laterRead
  obtain ⟨_, _, _, rfl⟩ := read?_eq_some_iff.mp read
  obtain ⟨_, _, _, rfl⟩ := read?_eq_some_iff.mp laterRead
  exact reached.offset_le

theorem start_add_value_lt_stop {place : Place} {found : ClassAttribute} (member : found ∈ findFrom place) :
    found.start + byteLength found.value.toList < found.stop := by
  obtain ⟨before, spelling, behind, grammatical, _, _, stop, value⟩ := exists_spelling_of_mem_findFrom member
  have longer := spelling.byteLength_value_lt
  rw [value] at longer
  omega

variable {text : List Char} {found : ClassAttribute}

theorem exists_spelling_of_mem (member : found ∈ findAll text) :
    ∃ (before : List Char) (spelling : Spelling) (behind : List Char),
      spelling.Grammatical ∧ text = before ++ spelling.text ++ behind ∧ byteLength before = found.start ∧
        found.stop = found.start + byteLength spelling.text ∧ spelling.value = found.value.toList := by
  obtain ⟨before, spelling, behind, grammatical, split, start, stop, value⟩ :=
    exists_spelling_of_mem_findFrom member
  rw [Place.start, Nat.zero_add] at start
  exact ⟨before, spelling, behind, grammatical, split, start.symm, stop, value⟩

theorem start_lt_stop (member : found ∈ findAll text) : found.start < found.stop := by
  have longer := start_add_value_lt_stop member
  omega

theorem eq_or_apart {first second : ClassAttribute} (firstMember : first ∈ findAll text)
    (secondMember : second ∈ findAll text) :
    first = second ∨ first.stop ≤ second.start ∨ second.stop ≤ first.start := by
  let related : ClassAttribute → ClassAttribute → Prop := fun first second =>
    first = second ∨ first.stop ≤ second.start ∨ second.stop ≤ first.start
  have symmetric : Std.Symm related := ⟨fun first second apart => by
    rcases apart with same | before | behind
    · exact Or.inl same.symm
    · exact Or.inr (Or.inr before)
    · exact Or.inr (Or.inl behind)⟩
  have pairwise : (findAll text).Pairwise related :=
    (findFrom_pairwise (Place.start text)).imp fun before => Or.inr (Or.inl before)
  exact List.Pairwise.forall_of_forall (R := related) (fun _ _ => Or.inl rfl) pairwise firstMember secondMember

/-- A spelling that stands in the text begins inside of an attribute that was found: that one is
cut into what lies before the spelling and what lies behind its start. -/
theorem exists_found_around {before behind : List Char} {spelling : Spelling}
    (grammatical : spelling.Grammatical) (split : text = before ++ spelling.text ++ behind) :
    ∃ found ∈ findAll text, ∃ around : Spelling, around.Grammatical ∧ ∃ inside outside rest,
      around.text = inside ++ outside ∧ outside ≠ [] ∧ spelling.text ++ behind = outside ++ rest ∧
        found.start + byteLength inside = byteLength before ∧
        found.stop = byteLength before + byteLength outside := by
  have reached : (Place.start text).Reaches before ⟨byteLength before, spelling.text ++ behind⟩ :=
    ⟨by rw [← List.append_assoc, ← split]; rfl, (Nat.zero_add _).symm⟩
  have readable : read? ⟨byteLength before, spelling.text ++ behind⟩ = some (_, _) :=
    read?_eq_some_iff.mpr ⟨spelling, grammatical, Place.Reaches.of_append _ _ _, rfl⟩
  obtain ⟨found, member, start, stop, inside, outside, read, reachedSpot, reachedStop, nonempty⟩ :=
    reader.exists_found_around reached readable
  rw [← findFrom_eq_search] at member
  obtain ⟨around, aroundGrammatical, reachedAround, rfl⟩ := read?_eq_some_iff.mp read
  refine ⟨_, member, around, aroundGrammatical, inside, outside, stop.rest, ?_, nonempty, reachedStop.1,
    reachedSpot.2.symm, reachedStop.2⟩
  have same := reachedAround.1.symm.trans (reachedSpot.trans reachedStop).1
  exact List.append_cancel_right same

/-- In front of an attribute found there is no further blank.  It would start an attribute too,
one inside of another that was found, which then ends with that blank and not with a quote. -/
theorem not_blank_before {before behind : List Char} {char : Char} (member : found ∈ findAll text)
    (split : text = before ++ char :: behind) (adjacent : byteLength before + char.utf8Size = found.start) :
    isBlank char = false := by
  by_contra notVisible
  have blank : isBlank char = true := by simpa using notVisible
  obtain ⟨start, spelling, rest, grammatical, splitFound, startLength, _, _⟩ := exists_spelling_of_mem member
  obtain ⟨rfl, _⟩ : before ++ [char] = start ∧ behind = spelling.text ++ rest := by
    apply append_inj_of_byteLength
    · rw [List.append_assoc, List.singleton_append, ← split, splitFound, List.append_assoc]
    · rw [startLength, byteLength_append, byteLength_cons, byteLength_nil, Nat.add_zero, adjacent]
  have longerGrammatical := grammatical.lengthened (List.forall_mem_singleton.mpr blank)
  have splitLonger : text = before ++ (spelling.lengthened [char]).text ++ rest := by
    rw [splitFound, spelling.text_lengthened, ← List.append_assoc]
  obtain ⟨other, otherMember, around, aroundGrammatical, inside, outside, others, cut, nonempty, same, begins,
    ends⟩ := exists_found_around longerGrammatical splitLonger
  have positive := char.utf8Size_pos
  have later := start_lt_stop member
  rcases eq_or_apart otherMember member with rfl | earlier | earlier
  · omega
  -- The attribute around the longer spelling ends in front of the one found, so it ends with the blank.
  · obtain ⟨last, more, rfl⟩ := List.exists_cons_of_ne_nil nonempty
    obtain rfl : char = last := (List.cons.inj same).1
    rw [byteLength_cons] at ends
    obtain rfl : more = [] := byteLength_eq_zero (by omega)
    obtain ⟨_, visible⟩ := aroundGrammatical.getLast cut
    rw [blank] at visible
    cases visible
  · omega

end ClassAttribute

/-! ## Exactness -/

theorem traced_attributes (markup : String) :
    (scanLog markup).filter (fun record => record.level = .trace) =
      (ClassAttribute.findAll markup.toList).map fun found => .foundAttribute found.start found.value := by
  have totals : (LogRecord.scanned (scan markup).length (openings markup.toList).length
      (classNames markup.toList).length).level = .debug := rfl
  have traces : ∀ record ∈ (ClassAttribute.findAll markup.toList).map fun found =>
      LogRecord.foundAttribute found.start found.value, record.level = .trace := by
    intro record member
    obtain ⟨found, _, rfl⟩ := List.mem_map.mp member
    rfl
  rw [scanLog, List.filter_append, List.filter_eq_self.mpr (by simpa using traces)]
  simp [totals]

/-- The attributes found are attributes of the grammar, in order and without overlaps; wherever
one of the grammar starts there is one that was found; and each starts with a whole run of
blanks.  The scan traces each of them with its start and its value, also an empty one. -/
theorem found_attributes_exact (markup : String) :
    (∀ found ∈ ClassAttribute.findAll markup.toList,
      IsAttribute markup.toList found.start found.stop found.value.toList) ∧
    (∀ found ∈ ClassAttribute.findAll markup.toList, found.start < found.stop) ∧
    (ClassAttribute.findAll markup.toList).Pairwise (fun first second => first.stop ≤ second.start) ∧
    (∀ start stop value, IsAttribute markup.toList start stop value →
      ∃ found ∈ ClassAttribute.findAll markup.toList, found.start ≤ start ∧ start < found.stop) ∧
    (∀ found ∈ ClassAttribute.findAll markup.toList, ∀ before char behind,
      markup.toList = before ++ char :: behind → byteLength before + char.utf8Size = found.start →
        isBlank char = false) ∧
    (scanLog markup).filter (fun record => record.level = .trace) =
      (ClassAttribute.findAll markup.toList).map fun found => .foundAttribute found.start found.value := by
  refine ⟨?_, fun _ => ClassAttribute.start_lt_stop, ClassAttribute.findFrom_pairwise _, ?_, ?_, ?_⟩
  · intro found member
    exact ClassAttribute.exists_spelling_of_mem member
  · rintro start stop value ⟨before, spelling, behind, grammatical, split, rfl, _, _⟩
    obtain ⟨found, member, _, _, inside, outside, _, _, nonempty, _, begins, ends⟩ :=
      ClassAttribute.exists_found_around grammatical split
    have positive : byteLength outside ≠ 0 := fun zero => nonempty (byteLength_eq_zero zero)
    exact ⟨found, member, by omega, by omega⟩
  · intro found member before char behind split adjacent
    exact ClassAttribute.not_blank_before member split adjacent
  · exact traced_attributes markup

end StyleSkeleton.Markup
