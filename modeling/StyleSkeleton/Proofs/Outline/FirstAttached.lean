import StyleSkeleton.Proofs.Outline.Reading

/-! # Where a name comes first

An entry of an outline goes back to the first class name event with its name that is attached to a tag.  The
names of an outline are those that are first attached among the events, and more events do not change where
that is.  So the outline of a part of the events tells which entries go back to that part.
-/

namespace StyleSkeleton.Outline

open StyleSkeleton.Markup

section Attached

variable (events : List Event) (ignored : NameSet)

def attachesAt (name : String) (index : Nat) : Bool :=
  (attachment? events ignored index).any (·.name == name)

def firstAttached? (name : String) : Option Nat :=
  (List.range events.length).find? (attachesAt events ignored name)

/-- Whether a name is attached for the first time by one of the events from an index to another. -/
def attachedWithin (low high : Nat) (name : String) : Bool :=
  (firstAttached? events ignored name).any fun index => low ≤ index && index < high

end Attached

variable {events : List Event} {ignored : NameSet} {name : String} {low high : Nat}

theorem attachedWithin_iff :
    attachedWithin events ignored low high name = true ↔
      ∃ index, firstAttached? events ignored name = some index ∧ low ≤ index ∧ index < high := by
  simp [attachedWithin, Option.any_eq_true]

theorem attachedWithin_eq_false_of_apart {otherLow otherHigh : Nat}
    (within : attachedWithin events ignored low high name = true) (apart : high ≤ otherLow ∨ otherHigh ≤ low) :
    attachedWithin events ignored otherLow otherHigh name = false := by
  obtain ⟨index, isFirst, above, below⟩ := attachedWithin_iff.mp within
  by_contra other
  rw [Bool.not_eq_false, attachedWithin_iff] at other
  obtain ⟨otherIndex, isOther, otherAbove, otherBelow⟩ := other
  obtain rfl : index = otherIndex := Option.some.inj (isFirst.symm.trans isOther)
  omega

theorem mem_names_ofEvents_iff :
    name ∈ (ofEvents ignored events).map Entry.name ↔
      ∃ index < events.length, attachesAt events ignored name index = true := by
  have outlined : ofEvents ignored events = firstsByName (located events ignored) :=
    (Agrees.run ignored events).entries
  rw [outlined, mem_names_firstsByName]
  simp only [located, attachments, List.map_map, List.mem_map, List.mem_filterMap, List.mem_range, attachesAt,
    Option.any_eq_true, beq_iff_eq, Function.comp_apply]
  constructor
  · rintro ⟨attachment, ⟨index, inside, attached⟩, same⟩
    exact ⟨index, inside, attachment, attached, same⟩
  · rintro ⟨index, inside, attachment, attached, same⟩
    exact ⟨attachment, ⟨index, inside, attached⟩, same⟩

theorem mem_names_ofEvents_iff_attachedWithin (events more : List Event) :
    name ∈ (ofEvents ignored events).map Entry.name ↔
      attachedWithin (events ++ more) ignored 0 events.length name = true := by
  have same {index : Nat} (inside : index < events.length) :
      attachesAt (events ++ more) ignored name index = attachesAt events ignored name index := by
    rw [attachesAt, attachesAt, attachment?_append more inside]
  rw [mem_names_ofEvents_iff, attachedWithin_iff]
  constructor
  · rintro ⟨index, inside, attaches⟩
    rw [← same inside] at attaches
    have within : index ∈ List.range (events ++ more).length := by simp; omega
    cases isFirst : firstAttached? (events ++ more) ignored name with
    | none => exact absurd attaches (List.find?_eq_none.mp isFirst index within)
    | some first =>
      refine ⟨first, rfl, Nat.zero_le _, ?_⟩
      by_contra behind
      have earlier := (List.find?_range_eq_some.mp isFirst).2.2 index (by omega)
      simp [attaches] at earlier
  · rintro ⟨index, isFirst, _, inside⟩
    rw [firstAttached?, List.find?_range_eq_some] at isFirst
    exact ⟨index, inside, same inside ▸ isFirst.1⟩

section Parts

variable {first second third : List Event} {inner behind : List Entry} {entry : Entry}

theorem attachedWithin_of_mem (more : List Event) (member : entry ∈ ofEvents ignored first) :
    attachedWithin (first ++ more) ignored 0 first.length entry.name = true :=
  (mem_names_ofEvents_iff_attachedWithin first more).mp (List.mem_map_of_mem member)

theorem attachedWithin_of_added (grown : ofEvents ignored (first ++ second) = ofEvents ignored first ++ inner)
    (third : List Event) (member : entry ∈ inner) :
    attachedWithin (first ++ second ++ third) ignored first.length (first ++ second).length entry.name = true := by
  have distinct : ((ofEvents ignored (first ++ second)).map Entry.name).Nodup := by
    rw [ofEvents, replayed, (Agrees.run ignored _).entries]
    exact nodup_names_firstsByName _
  have isNew : entry.name ∉ (ofEvents ignored first).map Entry.name := by
    intro isOld
    rw [grown, List.map_append, List.nodup_append] at distinct
    exact distinct.2.2 _ isOld _ (List.mem_map_of_mem member) rfl
  have isThere := attachedWithin_of_mem third (grown ▸ List.mem_append_right _ member)
  rw [mem_names_ofEvents_iff_attachedWithin _ (second ++ third), ← List.append_assoc] at isNew
  obtain ⟨index, isFirst, _, inside⟩ := attachedWithin_iff.mp isThere
  refine attachedWithin_iff.mpr ⟨index, isFirst, ?_, inside⟩
  by_contra earlier
  exact isNew (attachedWithin_iff.mpr ⟨index, isFirst, Nat.zero_le _, Nat.lt_of_not_le earlier⟩)

theorem attachedWithin_of_added_last (grown : ofEvents ignored (first ++ second) = ofEvents ignored first ++ inner)
    (member : entry ∈ inner) :
    attachedWithin (first ++ second) ignored first.length (first ++ second).length entry.name = true := by
  have within := attachedWithin_of_added grown [] member
  rwa [List.append_nil] at within

/-- Of the entries that three parts of the events bring out one after the other, those of the second part are
first attached there and the others are not. -/
theorem attachedWithin_second
    (grown : ofEvents ignored (first ++ second) = ofEvents ignored first ++ inner)
    (whole : ofEvents ignored (first ++ second ++ third) = ofEvents ignored (first ++ second) ++ behind) :
    let within := attachedWithin (first ++ second ++ third) ignored first.length (first ++ second).length
    (∀ entry ∈ ofEvents ignored first, within entry.name = false) ∧ (∀ entry ∈ inner, within entry.name = true) ∧
      ∀ entry ∈ behind, within entry.name = false := by
  refine ⟨fun entry member => ?_, fun entry => attachedWithin_of_added grown third, fun entry member => ?_⟩
  · have earlier := attachedWithin_of_mem (second ++ third) member
    rw [← List.append_assoc] at earlier
    exact attachedWithin_eq_false_of_apart earlier (.inl (Nat.le_refl _))
  · exact attachedWithin_eq_false_of_apart (attachedWithin_of_added_last whole member) (.inr (Nat.le_refl _))

end Parts

end StyleSkeleton.Outline
