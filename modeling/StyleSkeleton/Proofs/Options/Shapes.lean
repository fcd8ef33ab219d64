import Mathlib.Data.Set.List
import StyleSkeleton.Proofs.Options.RoundTrip

/-! # The shapes that options are read from

A record is read as options exactly if each of eight fields is missing, or null, or of the type that
its option has.  Nothing else that the record has plays a part, and neither does the order of its
fields (`read_exactly_by_shape`).
-/

namespace StyleSkeleton

namespace Loose

/-! ## Shapes -/

def IsText (value : Loose) : Prop :=
  ∃ content, value = .text content

def IsFlag (value : Loose) : Prop :=
  ∃ content, value = .flag content

def IsCount (value : Loose) : Prop :=
  ∃ number, number < UInt64.size ∧ value = .integer (.ofNat number)

def IsTexts (value : Loose) : Prop :=
  ∃ items, value = .list items ∧ ∀ item ∈ items, item.IsText

def IsChoice (value : Loose) : Prop :=
  value.IsFlag ∨ value.IsText ∨ value.IsTexts

theorem isCount_iff {value : Loose} : value.IsCount ↔ ∃ count, value = ofCount count := by
  constructor
  · rintro ⟨number, room, rfl⟩
    exact ⟨UInt64.ofNat number, by rw [ofCount, UInt64.toNat_ofNat_of_lt' room]⟩
  · rintro ⟨count, rfl⟩
    exact ⟨count.toNat, count.toNat_lt_size, rfl⟩

theorem isTexts_iff {value : Loose} : value.IsTexts ↔ ∃ texts, value = ofTexts texts := by
  have allTexts (items : List Loose) : (∀ item ∈ items, item.IsText) ↔ ∃ texts : List String, items = texts.map text := by
    have range := Set.ext_iff.mp (Set.range_list_map text) items
    simpa [IsText, eq_comm] using range.symm
  simp only [IsTexts, allTexts, ofTexts]
  constructor
  · rintro ⟨_, rfl, texts, rfl⟩
    exact ⟨texts, rfl⟩
  · rintro ⟨texts, rfl⟩
    exact ⟨_, rfl, texts, rfl⟩

theorem isChoice_iff_tagChoice {value : Loose} : value.IsChoice ↔ ∃ choice : TagChoice, value = choice.toLoose := by
  rw [IsChoice, isTexts_iff]
  constructor
  · rintro (⟨all, rfl⟩ | ⟨tag, rfl⟩ | ⟨tags, rfl⟩)
    · exact ⟨.every all, rfl⟩
    · exact ⟨.one tag, rfl⟩
    · exact ⟨.many tags, rfl⟩
  · rintro ⟨choice, rfl⟩
    cases choice with
    | every all => exact .inl ⟨all, rfl⟩
    | one tag => exact .inr (.inl ⟨tag, rfl⟩)
    | many tags => exact .inr (.inr ⟨tags, rfl⟩)

theorem isChoice_iff_ignoreChoice {value : Loose} :
    value.IsChoice ↔ ∃ choice : IgnoreChoice, value = choice.toLoose := by
  rw [IsChoice, isTexts_iff]
  constructor
  · rintro (⟨flag, rfl⟩ | ⟨name, rfl⟩ | ⟨names, rfl⟩)
    · exact ⟨.clear flag, rfl⟩
    · exact ⟨.one name, rfl⟩
    · exact ⟨.many names, rfl⟩
  · rintro ⟨choice, rfl⟩
    cases choice with
    | one name => exact .inr (.inl ⟨name, rfl⟩)
    | many names => exact .inr (.inr ⟨names, rfl⟩)
    | clear flag => exact .inl ⟨flag, rfl⟩

/-! ## Fields -/

def Distinct (fields : List (String × Loose)) : Prop :=
  (fields.map Prod.fst).Nodup

/-- The field of a name is missing, or null, or of a shape. -/
def Fits (fields : List (String × Loose)) (name : String) (shape : Loose → Prop) : Prop :=
  ∀ value, (name, value) ∈ fields → value = .null ∨ shape value

section Fields

variable {fields others : List (String × Loose)} {name : String} {value : Loose}

theorem lookup_eq_some_iff_mem (distinct : Distinct fields) :
    fields.lookup name = some value ↔ (name, value) ∈ fields := by
  induction fields with
  | nil => simp
  | cons first rest inductionHypothesis =>
    obtain ⟨key, content⟩ := first
    obtain ⟨fresh, distinct⟩ := List.nodup_cons.mp distinct
    by_cases same : name = key
    · subst same
      have notBehind : (name, value) ∉ rest := fun member =>
        fresh (List.mem_map.mpr ⟨_, member, rfl⟩)
      simp [notBehind, eq_comm]
    · simp [List.lookup_cons, same, beq_false_of_ne same, inductionHypothesis distinct]

theorem field_eq_iff_mem (distinct : Distinct fields) (there : value ≠ null) :
    field fields name = value ↔ (name, value) ∈ fields := by
  rw [← lookup_eq_some_iff_mem distinct, field]
  cases fields.lookup name with
  | none => simpa using there.symm
  | some found => simp

theorem fits_iff_field {shape : Loose → Prop} (distinct : Distinct fields) :
    Fits fields name shape ↔ field fields name = null ∨ shape (field fields name) := by
  constructor
  · intro fits
    by_cases missing : field fields name = null
    · exact .inl missing
    · exact fits _ ((field_eq_iff_mem distinct missing).mp rfl)
  · intro holds value member
    by_cases missing : value = null
    · exact .inl missing
    · rwa [(field_eq_iff_mem distinct missing).mpr member] at holds

theorem fits_iff_written {α : Type} {write : α → Loose} {shape : Loose → Prop} (distinct : Distinct fields)
    (writes : ∀ value, shape value ↔ ∃ content, value = write content) :
    Fits fields name shape ↔ ∃ given, field fields name = ofOptional write given := by
  rw [fits_iff_field distinct, writes]
  constructor
  · rintro (missing | ⟨content, isContent⟩)
    · exact ⟨none, missing⟩
    · exact ⟨some content, isContent⟩
  · rintro ⟨given, isGiven⟩
    cases given with
    | none => exact .inl isGiven
    | some content => exact .inr ⟨content, isGiven⟩

end Fields

end Loose

namespace Options

open Loose

/-! ## Records of options -/

def names : List String :=
  ["indent", "indentCount", "flat", "inner", "tag", "brace", "line", "ignore"]

structure Readable (fields : List (String × Loose)) : Prop where
  indent : Fits fields "indent" IsText
  indentCount : Fits fields "indentCount" IsCount
  flat : Fits fields "flat" IsFlag
  inner : Fits fields "inner" IsFlag
  tag : Fits fields "tag" IsChoice
  brace : Fits fields "brace" IsText
  line : Fits fields "line" IsCount
  ignore : Fits fields "ignore" IsChoice

/-- Two records have the same values under the names of options.  A field that is null counts as missing. -/
def Agree (fields others : List (String × Loose)) : Prop :=
  ∀ name ∈ names, ∀ value, value ≠ .null → ((name, value) ∈ fields ↔ (name, value) ∈ others)

theorem readable_iff {fields : List (String × Loose)} (distinct : Distinct fields) :
    Readable fields ↔ ∃ options, ofLoose? (.record fields) = some options := by
  simp only [ofLoose?_record_eq_some_iff]
  constructor
  · rintro ⟨indent, indentCount, flat, inner, tag, brace, line, ignore⟩
    obtain ⟨_, isIndent⟩ := (fits_iff_written distinct fun _ => Iff.rfl).mp indent
    obtain ⟨_, isIndentCount⟩ := (fits_iff_written distinct fun _ => isCount_iff).mp indentCount
    obtain ⟨_, isFlat⟩ := (fits_iff_written distinct fun _ => Iff.rfl).mp flat
    obtain ⟨_, isInner⟩ := (fits_iff_written distinct fun _ => Iff.rfl).mp inner
    obtain ⟨_, isTag⟩ := (fits_iff_written distinct fun _ => isChoice_iff_tagChoice).mp tag
    obtain ⟨_, isBrace⟩ := (fits_iff_written distinct fun _ => Iff.rfl).mp brace
    obtain ⟨_, isLine⟩ := (fits_iff_written distinct fun _ => isCount_iff).mp line
    obtain ⟨_, isIgnore⟩ := (fits_iff_written distinct fun _ => isChoice_iff_ignoreChoice).mp ignore
    exact ⟨⟨_, _, _, _, _, _, _, _⟩, isIndent, isIndentCount, isFlat, isInner, isTag, isBrace, isLine, isIgnore⟩
  · rintro ⟨options, written⟩
    exact {
      indent := (fits_iff_written distinct fun _ => Iff.rfl).mpr ⟨_, written.indent⟩
      indentCount := (fits_iff_written distinct fun _ => isCount_iff).mpr ⟨_, written.indentCount⟩
      flat := (fits_iff_written distinct fun _ => Iff.rfl).mpr ⟨_, written.flat⟩
      inner := (fits_iff_written distinct fun _ => Iff.rfl).mpr ⟨_, written.inner⟩
      tag := (fits_iff_written distinct fun _ => isChoice_iff_tagChoice).mpr ⟨_, written.tag⟩
      brace := (fits_iff_written distinct fun _ => Iff.rfl).mpr ⟨_, written.brace⟩
      line := (fits_iff_written distinct fun _ => isCount_iff).mpr ⟨_, written.line⟩
      ignore := (fits_iff_written distinct fun _ => isChoice_iff_ignoreChoice).mpr ⟨_, written.ignore⟩ }

theorem agree_iff {fields others : List (String × Loose)} (distinct : Distinct fields)
    (othersDistinct : Distinct others) :
    Agree fields others ↔ ∀ name ∈ names, field fields name = field others name := by
  constructor
  · intro agree name isName
    have same (value : Loose) (there : value ≠ .null) : field fields name = value ↔ field others name = value := by
      rw [field_eq_iff_mem distinct there, field_eq_iff_mem othersDistinct there]
      exact agree name isName value there
    by_cases missing : field fields name = null
    · by_contra differ
      rw [missing] at differ
      exact differ (missing.symm.trans ((same _ (Ne.symm differ)).mpr rfl))
    · exact ((same _ missing).mp rfl).symm
  · intro same name isName value there
    rw [← field_eq_iff_mem distinct there, ← field_eq_iff_mem othersDistinct there, same name isName]

theorem ofLoose?_of_agree {fields others : List (String × Loose)} (distinct : Distinct fields)
    (othersDistinct : Distinct others) (agree : Agree fields others) :
    ofLoose? (.record fields) = ofLoose? (.record others) := by
  have same := (agree_iff distinct othersDistinct).mp agree
  simp only [names, List.forall_mem_cons] at same
  obtain ⟨indent, indentCount, flat, inner, tag, brace, line, ignore, _⟩ := same
  rw [ofLoose?, ofLoose?, indent, indentCount, flat, inner, tag, brace, line, ignore]

theorem ofLoose?_eq_some_iff_agree {fields written : List (String × Loose)} {options : Options}
    (distinct : Distinct fields) (isWritten : options.toLoose = .record written) :
    ofLoose? (.record fields) = some options ↔ Agree fields written := by
  have writtenDistinct : Distinct written := by
    have sameNames : written.map Prod.fst = names := by
      cases isWritten
      rfl
    rw [Distinct, sameNames]
    decide
  constructor
  · intro isRead
    obtain ⟨indent, indentCount, flat, inner, tag, brace, line, ignore⟩ := ofLoose?_record_eq_some_iff.mp isRead
    rw [agree_iff distinct writtenDistinct]
    cases isWritten
    simp only [names, List.forall_mem_cons, indent, indentCount, flat, inner, tag, brace, line, ignore]
    refine ⟨rfl, rfl, rfl, rfl, rfl, rfl, rfl, rfl, fun _ member => ?_⟩
    cases member
  · intro agree
    rw [ofLoose?_of_agree distinct writtenDistinct agree, ← isWritten, ofLoose?_toLoose]

/-- A value other than a list is read as options exactly if it is a record with fields of the right types.  Which
options they are is decided by these fields alone, and options that are written are read again as they were.  What
is read as a choice is what is written for it, so no form of a choice is taken for another one. -/
theorem read_exactly_by_shape :
    (∀ value, (∀ items, value ≠ .list items) → (∀ fields, value = .record fields → Distinct fields) →
      ((ofLoose? value).isSome ↔ ∃ fields, value = .record fields ∧ Readable fields)) ∧
    (∀ fields others, Distinct fields → Distinct others → Agree fields others →
      ofLoose? (.record fields) = ofLoose? (.record others)) ∧
    (∀ options : Options, ∃ written, options.toLoose = .record written ∧ written.map Prod.fst = names ∧
      ofLoose? (.record written) = some options ∧
      ∀ fields, Distinct fields → (ofLoose? (.record fields) = some options ↔ Agree fields written)) ∧
    (∀ value choice, TagChoice.ofLoose? value = some choice ↔ value = choice.toLoose) ∧
    (∀ value choice, IgnoreChoice.ofLoose? value = some choice ↔ value = choice.toLoose) := by
  refine ⟨fun value _ distinct => ?_, fun _ _ => ofLoose?_of_agree, fun options => ?_,
    fun _ _ => TagChoice.ofLoose?_eq_some_iff, fun _ _ => IgnoreChoice.ofLoose?_eq_some_iff⟩
  · rw [Option.isSome_iff_exists]
    constructor
    · rintro ⟨options, isRead⟩
      cases value with
      | record fields => exact ⟨fields, rfl, (readable_iff (distinct fields rfl)).mpr ⟨options, isRead⟩⟩
      | _ => cases isRead
    · rintro ⟨fields, rfl, readable⟩
      exact (readable_iff (distinct fields rfl)).mp readable
  · exact ⟨_, rfl, rfl, options.ofLoose?_toLoose, fun fields distinct => ofLoose?_eq_some_iff_agree distinct rfl⟩

/-- The greatest count there is, a field that is null, and one of another name. -/
example :
    ofLoose? (.record [("line", .integer 18446744073709551615), ("Line", .flag true), ("flat", .null)]) =
      some { line := some 18446744073709551615 } := by
  decide

end Options

end StyleSkeleton
