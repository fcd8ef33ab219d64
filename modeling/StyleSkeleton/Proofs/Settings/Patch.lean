import Mathlib.Data.List.DropRight
import Mathlib.Data.List.Induction
import StyleSkeleton.Settings.Basic

/-! # Patches

A patch holds what changes write: for each field the value written last, and the changes of the
ignored names in their order.  Changes made one after the other amount to one patch (`joined`),
and a setter is made out to be a change with its patch or is refused (`toChange_of_accepted`,
`toChange_of_refused`).

The ignored names are the only field to which changes add.  What they come to is given by the
changes since the last clearing (`foldl_applyTo`).
-/

namespace StyleSkeleton

/-! ## Changes of the ignored names -/

namespace IgnoreChange

def names : IgnoreChange → List String
  | one name => [name]
  | many names => names
  | clear => []

theorem mem_applyTo {change : IgnoreChange} {ignored : NameSet} {name : String} :
    name ∈ change.applyTo ignored ↔ name ∈ change.names ∨ (change ≠ .clear ∧ name ∈ ignored) := by
  cases change <;> simp [applyTo, names]

/-- Of a list of changes, those since the last clearing add their names, to nothing if there was a clearing. -/
theorem foldl_applyTo (changes : List IgnoreChange) (ignored : NameSet) :
    changes.foldl applyTo ignored =
      (if .clear ∈ changes then ∅ else ignored).insertAll ((changes.rtakeWhile (· ≠ .clear)).flatMap names) := by
  apply NameSet.ext
  intro name
  rw [NameSet.mem_insertAll]
  induction changes using List.reverseRecOn with
  | nil => simp
  | append_singleton changes change inductionHypothesis =>
    rw [List.foldl_concat, mem_applyTo, inductionHypothesis, List.rtakeWhile_concat]
    -- The run of changes that count begins behind the last clearing, or goes on with this change.
    by_cases clears : change = .clear
    · simp [clears, names]
    · simp only [clears, ne_eq, not_false_eq_true, decide_true, ↓reduceIte, true_and, List.flatMap_append,
        List.mem_append, List.flatMap_singleton, List.mem_singleton, Ne.symm clears, or_false]
      tauto

theorem applyTo_applyTo (change : IgnoreChange) (ignored : NameSet) :
    change.applyTo (change.applyTo ignored) = change.applyTo ignored := by
  apply NameSet.ext
  intro name
  rw [mem_applyTo, mem_applyTo]
  tauto

theorem foldl_applyTo_of_mem_iff {changes : List IgnoreChange} {given : Option IgnoreChange}
    (same : ∀ change, change ∈ changes ↔ given = some change) (ignored : NameSet) :
    changes.foldl applyTo ignored = given.toList.foldl applyTo ignored := by
  cases given with
  | none =>
    have empty : changes = [] := List.eq_nil_iff_forall_not_mem.mpr fun change => by simp [same]
    rw [empty, Option.toList_none]
  | some only =>
    have nonempty : changes ≠ [] := List.ne_nil_of_mem ((same only).mpr rfl)
    have all : ∀ change ∈ changes, change = only := fun change member =>
      (Option.some.inj ((same change).mp member)).symm
    clear same
    induction changes generalizing ignored with
    | nil => exact absurd rfl nonempty
    | cons change changes inductionHypothesis =>
      obtain ⟨rfl, others⟩ := List.forall_mem_cons.mp all
      by_cases last : changes = []
      · rw [last, Option.toList_some]
      · rw [List.foldl_cons, inductionHypothesis _ last others]
        exact applyTo_applyTo change ignored

end IgnoreChange

namespace Settings

/-! ## Patches -/

structure Patch where
  indent : Option String := none
  flat : Option Bool := none
  inner : Option Bool := none
  tags : Option TagPolicy := none
  brace : Option BraceStyle := none
  separatorLines : Option Nat := none
  ignore : List IgnoreChange := []

def patched (settings : Settings) (patch : Patch) : Settings where
  indent := patch.indent.getD settings.indent
  flat := patch.flat.getD settings.flat
  inner := patch.inner.getD settings.inner
  tags := patch.tags.getD settings.tags
  brace := patch.brace.getD settings.brace
  separatorLines := patch.separatorLines.getD settings.separatorLines
  ignored := patch.ignore.foldl IgnoreChange.applyTo settings.ignored

namespace Patch

/-- One patch and then another.  Where both have a value, the second is written last. -/
def followedBy (first second : Patch) : Patch where
  indent := second.indent.or first.indent
  flat := second.flat.or first.flat
  inner := second.inner.or first.inner
  tags := second.tags.or first.tags
  brace := second.brace.or first.brace
  separatorLines := second.separatorLines.or first.separatorLines
  ignore := first.ignore ++ second.ignore

def joined (patches : List Patch) : Patch :=
  patches.foldr followedBy {}

theorem empty_followedBy (patch : Patch) : followedBy {} patch = patch := by
  simp [followedBy]

theorem followedBy_assoc (first second third : Patch) :
    (first.followedBy second).followedBy third = first.followedBy (second.followedBy third) := by
  simp [followedBy, Option.or_assoc]

@[simp] theorem joined_nil : joined [] = {} := rfl

@[simp] theorem joined_cons (patch : Patch) (patches : List Patch) :
    joined (patch :: patches) = patch.followedBy (joined patches) := rfl

theorem joined_append (first second : List Patch) :
    joined (first ++ second) = (joined first).followedBy (joined second) := by
  induction first with
  | nil => rw [List.nil_append, joined_nil, empty_followedBy]
  | cons patch first inductionHypothesis =>
    rw [List.cons_append, joined_cons, joined_cons, inductionHypothesis, followedBy_assoc]

theorem joined_field {α : Type} (field : Patch → Option α) (unwritten : field {} = none)
    (lastWins : ∀ first second, field (followedBy first second) = (field second).or (field first))
    (patches : List Patch) : field (joined patches) = (patches.filterMap field).getLast? := by
  induction patches with
  | nil => exact unwritten
  | cons patch patches inductionHypothesis =>
    rw [joined_cons, lastWins, inductionHypothesis, List.filterMap_cons]
    cases written : field patch with
    | none => exact Option.or_none
    | some value => rw [List.getLast?_cons, Option.or_some]

/-- Where all that is written to a field is the same, neither the order of the patches matters nor how often
each of them is there. -/
theorem joined_field_of_mem_iff {α : Type} (field : Patch → Option α) (unwritten : field {} = none)
    (lastWins : ∀ first second, field (followedBy first second) = (field second).or (field first))
    {patches : List Patch} {given : Option α}
    (same : ∀ value, (∃ patch ∈ patches, field patch = some value) ↔ given = some value) :
    field (joined patches) = given := by
  have members (value : α) : value ∈ patches.filterMap field ↔ given = some value :=
    List.mem_filterMap.trans (same value)
  rw [joined_field field unwritten lastWins]
  cases last : (patches.filterMap field).getLast? with
  | some value => exact ((members value).mp (List.mem_of_getLast? last)).symm
  | none =>
    rw [List.getLast?_eq_none_iff] at last
    exact (Option.eq_none_iff_forall_ne_some.mpr fun value => by simp [← members, last]).symm

theorem joined_ignore (patches : List Patch) : (joined patches).ignore = patches.flatMap ignore := by
  induction patches with
  | nil => rfl
  | cons patch patches inductionHypothesis =>
    rw [joined_cons, List.flatMap_cons, ← inductionHypothesis]
    rfl

end Patch

theorem patched_followedBy (settings : Settings) (first second : Patch) :
    settings.patched (first.followedBy second) = (settings.patched first).patched second := by
  simp [patched, Patch.followedBy, Option.getD_or]

/-! ## Changes as patches -/

def Change.patch : Change → Patch
  | .indent style width => { indent := some (style.unit width) }
  | .flat value => { flat := some value }
  | .inner value => { inner := some value }
  | .tags policy => { tags := some policy }
  | .brace style => { brace := some style }
  | .separatorLines count => { separatorLines := some count }
  | .ignore change => { ignore := [change] }

theorem change_eq_patched (settings : Settings) (change : Change) :
    settings.change change = settings.patched change.patch := by
  cases change <;> rfl

/-! ## Setters as patches -/

/-- The style that a word names, and some style if it names none. -/
def namedIndent (word : String) : IndentStyle :=
  if word = "tabs" then .tabs else .spaces

def namedBrace (word : String) : BraceStyle :=
  if word = "newline" then .ownLine else .sameLine

namespace Setter

def patch : Setter → Patch
  | plain change => change.patch
  | indentWord word width => { indent := some ((namedIndent word).unit width) }
  | braceWord word => { brace := some (namedBrace word) }
  | lines enabled count => { separatorLines := some (if enabled then max count 1 else 0) }

def refusal? : Setter → Option SettingError
  | indentWord word _ => if word = "tabs" ∨ word = "spaces" then none else some (.unknownIndent word)
  | braceWord word => if word = "default" ∨ word = "newline" then none else some (.unknownBrace word)
  | plain _ | lines _ _ => none

variable {setter : Setter} {error : SettingError}

theorem toChange_of_refused (refused : setter.refusal? = some error) : setter.toChange = .error error := by
  cases setter with
  | plain change => cases refused
  | lines enabled count => cases refused
  | indentWord word width =>
    simp only [refusal?, Option.ite_none_left_eq_some, not_or] at refused
    obtain ⟨⟨notTabs, notSpaces⟩, isError⟩ := refused
    simp [toChange, IndentStyle.ofWord, notTabs, notSpaces, Except.map, ← Option.some.inj isError]
  | braceWord word =>
    simp only [refusal?, Option.ite_none_left_eq_some, not_or] at refused
    obtain ⟨⟨notDefault, notNewline⟩, isError⟩ := refused
    simp [toChange, BraceStyle.ofWord, notDefault, notNewline, Except.map, ← Option.some.inj isError]

theorem toChange_of_accepted (accepted : setter.refusal? = none) :
    ∃ change, setter.toChange = .ok change ∧ change.patch = setter.patch := by
  cases setter with
  | plain change => exact ⟨change, rfl, rfl⟩
  | lines enabled count => exact ⟨_, rfl, rfl⟩
  | indentWord word width =>
    simp only [refusal?, ite_eq_left_iff, reduceCtorEq, imp_false, not_not] at accepted
    obtain rfl | rfl := accepted <;> exact ⟨_, rfl, rfl⟩
  | braceWord word =>
    simp only [refusal?, ite_eq_left_iff, reduceCtorEq, imp_false, not_not] at accepted
    obtain rfl | rfl := accepted <;> exact ⟨_, rfl, rfl⟩

end Setter

end Settings

end StyleSkeleton
