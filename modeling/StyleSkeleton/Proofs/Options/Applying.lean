import StyleSkeleton.Generator.Session
import StyleSkeleton.Proofs.Generator.Setting
import StyleSkeleton.Proofs.Options.RoundTrip

/-! # Applying options

Options are applied as a whole or not at all (`apply_exact`).  The word for the indentation is
looked at before the word for the brace.  A refusal comes after other setters have been made out
on the copy, but leaves the generator as it was, also in a session.  If both words are known, each
field takes the value that the options have for it, and applying the same options again changes
nothing.
-/

namespace StyleSkeleton

open Text (repeated)
open Settings (Patch Setter namedIndent namedBrace)

namespace Options

/-! ## Words that are known -/

def KnowsIndent (options : Options) : Prop :=
  ∀ word, options.indent = some word → word = "tabs" ∨ word = "spaces"

def KnowsBrace (options : Options) : Prop :=
  ∀ word, options.brace = some word → word = "default" ∨ word = "newline"

theorem findSome?_toList_map {α : Type} (given : Option α) (setter : α → Setter) :
    (given.map setter).toList.findSome? Setter.refusal? = given.bind fun value => (setter value).refusal? := by
  cases given with
  | none => rfl
  | some value => exact List.findSome?_singleton

theorem findSome?_refusal (options : Options) :
    options.setters.findSome? Setter.refusal? =
      (options.indent.bind fun word => (Setter.indentWord word options.indentWidth).refusal?).or
        (options.brace.bind fun word => (Setter.braceWord word).refusal?) := by
  simp only [setters, List.findSome?_append, findSome?_toList_map, Setter.refusal?, Option.bind_fun_none,
    Option.or_none]

theorem bind_indent_refusal (options : Options) (known : options.KnowsIndent) :
    (options.indent.bind fun word => (Setter.indentWord word options.indentWidth).refusal?) = none := by
  cases given : options.indent with
  | none => rfl
  | some word => exact if_pos (known word given)

theorem bind_brace_refusal (options : Options) (known : options.KnowsBrace) :
    (options.brace.bind fun word => (Setter.braceWord word).refusal?) = none := by
  cases given : options.brace with
  | none => rfl
  | some word => exact if_pos (known word given)

variable {options : Options} {word : String}

theorem findSome?_refusal_of_unknown_indent (given : options.indent = some word) (notTabs : word ≠ "tabs")
    (notSpaces : word ≠ "spaces") : options.setters.findSome? Setter.refusal? = some (.unknownIndent word) := by
  rw [findSome?_refusal, given]
  simp [Setter.refusal?, notTabs, notSpaces]

theorem findSome?_refusal_of_unknown_brace (known : options.KnowsIndent) (given : options.brace = some word)
    (notDefault : word ≠ "default") (notNewline : word ≠ "newline") :
    options.setters.findSome? Setter.refusal? = some (.unknownBrace word) := by
  rw [findSome?_refusal, bind_indent_refusal options known, given]
  simp [Setter.refusal?, notDefault, notNewline]

theorem refusal?_eq_none_of_known (knownIndent : options.KnowsIndent) (knownBrace : options.KnowsBrace) :
    ∀ setter ∈ options.setters, setter.refusal? = none := by
  rw [← List.findSome?_eq_none_iff, findSome?_refusal, bind_indent_refusal options knownIndent,
    bind_brace_refusal options knownBrace]
  rfl

/-! ## Options as a patch -/

theorem indentWidth_eq (options : Options) :
    options.indentWidth = (options.indentCount.map UInt64.toNat).getD 1 := by
  rw [indentWidth]
  cases options.indentCount <;> rfl

def patch (options : Options) : Patch where
  indent := options.indent.map fun word => (namedIndent word).unit options.indentWidth
  flat := options.flat
  inner := options.inner
  tags := options.tag.map TagChoice.toPolicy
  brace := options.brace.map namedBrace
  separatorLines := options.line.map UInt64.toNat
  ignore := (options.ignore.map IgnoreChoice.toChange).toList

/-- What the options write one by one, with a change of the ignored names that may be another one. -/
def pieces (options : Options) (change : Option IgnoreChange) : List Patch :=
  (options.indent.map fun word => { indent := some ((namedIndent word).unit options.indentWidth) }).toList ++
  (options.flat.map fun flat => { flat := some flat }).toList ++
  (options.inner.map fun inner => { inner := some inner }).toList ++
  (options.tag.map fun choice => { tags := some choice.toPolicy }).toList ++
  (options.brace.map fun word => { brace := some (namedBrace word) }).toList ++
  (options.line.map fun count => { separatorLines := some count.toNat }).toList ++
  (change.map fun change => { ignore := [change] }).toList

/-- A count of zero switches the lines off, and then they count as zero. -/
theorem lines_patch (count : UInt64) :
    (Setter.lines (decide (0 < count)) count.toNat).patch = { separatorLines := some count.toNat } := by
  have positive : 0 < count ↔ 0 < count.toNat := UInt64.lt_iff_toNat_lt
  have lines : (if 0 < count.toNat then max count.toNat 1 else 0) = count.toNat := by
    split <;> omega
  simp only [Setter.patch, positive, decide_eq_true_eq, lines]

theorem map_patch_setters (options : Options) :
    options.setters.map Setter.patch = options.pieces (options.ignore.map IgnoreChoice.toChange) := by
  simp only [setters, pieces, List.map_append, Option.toList_map, List.map_map, Function.comp_def, lines_patch]
  rfl

/-- No two pieces write to the same field, so their order does not matter. -/
theorem patched_joined_of_mem_iff {options : Options} {change : Option IgnoreChange} {patches : List Patch}
    (same : ∀ patch, patch ∈ patches ↔ patch ∈ options.pieces change) (settings : Settings) :
    settings.patched (Patch.joined patches) = settings.patched { options.patch with ignore := change.toList } := by
  have ignored : (Patch.joined patches).ignore.foldl IgnoreChange.applyTo settings.ignored =
      change.toList.foldl IgnoreChange.applyTo settings.ignored := by
    rw [Patch.joined_ignore]
    exact IgnoreChange.foldl_applyTo_of_mem_iff (by simp [same, pieces, or_and_right, exists_or]) _
  have indent : (Patch.joined patches).indent = options.patch.indent :=
    Patch.joined_field_of_mem_iff Patch.indent rfl (fun _ _ => rfl)
      (by simp [same, pieces, patch, or_and_right, exists_or])
  have flat : (Patch.joined patches).flat = options.patch.flat :=
    Patch.joined_field_of_mem_iff Patch.flat rfl (fun _ _ => rfl)
      (by simp [same, pieces, patch, or_and_right, exists_or])
  have inner : (Patch.joined patches).inner = options.patch.inner :=
    Patch.joined_field_of_mem_iff Patch.inner rfl (fun _ _ => rfl)
      (by simp [same, pieces, patch, or_and_right, exists_or])
  have tags : (Patch.joined patches).tags = options.patch.tags :=
    Patch.joined_field_of_mem_iff Patch.tags rfl (fun _ _ => rfl)
      (by simp [same, pieces, patch, or_and_right, exists_or])
  have brace : (Patch.joined patches).brace = options.patch.brace :=
    Patch.joined_field_of_mem_iff Patch.brace rfl (fun _ _ => rfl)
      (by simp [same, pieces, patch, or_and_right, exists_or])
  have separatorLines : (Patch.joined patches).separatorLines = options.patch.separatorLines :=
    Patch.joined_field_of_mem_iff Patch.separatorLines rfl (fun _ _ => rfl)
      (by simp [same, pieces, patch, or_and_right, exists_or])
  rw [Settings.patched, Settings.patched, ignored, indent, flat, inner, tags, brace, separatorLines]

theorem patched_joined_setters {options : Options} {setters : List Setter}
    (same : ∀ setter, setter ∈ setters ↔ setter ∈ options.setters) (settings : Settings) :
    settings.patched (Patch.joined (setters.map Setter.patch)) = settings.patched options.patch := by
  apply patched_joined_of_mem_iff
  intro patch
  rw [← map_patch_setters]
  simp only [List.mem_map, same]

theorem patched_patched (options : Options) (settings : Settings) :
    (settings.patched options.patch).patched options.patch = settings.patched options.patch := by
  have once (settings : Settings) :
      settings.patched (Patch.joined (options.setters.map Setter.patch)) = settings.patched options.patch :=
    patched_joined_setters (fun _ => Iff.rfl) settings
  have twice (setter : Setter) : setter ∈ options.setters ++ options.setters ↔ setter ∈ options.setters := by simp
  calc (settings.patched options.patch).patched options.patch
    _ = settings.patched (Patch.joined ((options.setters ++ options.setters).map Setter.patch)) := by
      rw [List.map_append, Patch.joined_append, Settings.patched_followedBy, once, once]
    _ = settings.patched options.patch := patched_joined_setters twice settings

/-! ## Fields -/

structure Applied (options : Options) (before after : Settings) : Prop where
  /-- The width without a word says nothing, and a width of zero counts as one. -/
  indent : after.indent = match options.indent with
    | some word =>
      repeated (if word = "tabs" then "\t" else " ") (max 1 ((options.indentCount.map UInt64.toNat).getD 1))
    | none => before.indent
  flat : after.flat = options.flat.getD before.flat
  inner : after.inner = options.inner.getD before.inner
  tags : after.tags = match options.tag with
    | some (.every true) => .always
    | some (.every false) => .never
    | some (.one tag) => .only (NameSet.ofList [tag])
    | some (.many tags) => .only (NameSet.ofList tags)
    | none => before.tags
  brace : after.brace = match options.brace with
    | some word => if word = "newline" then .ownLine else .sameLine
    | none => before.brace
  separatorLines : after.separatorLines = (options.line.map UInt64.toNat).getD before.separatorLines
  ignored : ∀ name, name ∈ after.ignored ↔ match options.ignore with
    | some (.one added) => name = added ∨ name ∈ before.ignored
    | some (.many added) => name ∈ added ∨ name ∈ before.ignored
    | some (.clear _) => False
    | none => name ∈ before.ignored

theorem applied_patched (options : Options) (settings : Settings) :
    options.Applied settings (settings.patched options.patch) where
  indent := by
    cases given : options.indent with
    | none => simp [Settings.patched, patch, given]
    | some word =>
      by_cases tabs : word = "tabs" <;>
        simp [Settings.patched, patch, given, namedIndent, tabs, IndentStyle.unit, IndentStyle.char,
          indentWidth_eq, Nat.max_comm]
  flat := rfl
  inner := rfl
  tags := by
    cases given : options.tag with
    | none => simp [Settings.patched, patch, given]
    | some choice =>
      cases choice with
      | every all => cases all <;> simp [Settings.patched, patch, given, TagChoice.toPolicy, TagPolicy.ofBool]
      | one tag => simp [Settings.patched, patch, given, TagChoice.toPolicy]
      | many tags => simp [Settings.patched, patch, given, TagChoice.toPolicy]
  brace := by
    cases given : options.brace <;> simp [Settings.patched, patch, given, namedBrace]
  separatorLines := rfl
  ignored name := by
    cases given : options.ignore with
    | none => simp [Settings.patched, patch, given]
    | some choice =>
      cases choice <;> simp [Settings.patched, patch, given, IgnoreChoice.toChange, IgnoreChange.applyTo]

end Options

/-! ## Generators -/

namespace Generator

theorem apply_of_refused {options : Options} {error : SettingError}
    (refused : options.setters.findSome? Setter.refusal? = some error) (generator : Generator) :
    generator.apply options = (.error error, generator) := by
  obtain ⟨front, setter, behind, split, isRefused, accepted⟩ := List.findSome?_eq_some_iff.mp refused
  rw [apply, split, setAll_of_refused accepted isRefused]

theorem apply_of_accepted {options : Options} (accepted : ∀ setter ∈ options.setters, setter.refusal? = none)
    (generator : Generator) : generator.apply options = (.ok (), generator.patched options.patch) := by
  rw [apply, setAll_of_accepted accepted, patched, Options.patched_joined_setters fun _ => Iff.rfl]
  rfl

theorem apply_cases (options : Options) :
    (∃ setter ∈ options.setters, ∃ error, setter.refusal? = some error ∧
      ∀ generator : Generator, generator.apply options = (.error error, generator)) ∨
    ((∀ setter ∈ options.setters, setter.refusal? = none) ∧
      ∀ generator : Generator, generator.apply options = (.ok (), generator.patched options.patch)) := by
  cases refusal : options.setters.findSome? Setter.refusal? with
  | some error =>
    obtain ⟨setter, member, refused⟩ := List.exists_of_findSome?_eq_some refusal
    exact .inl ⟨setter, member, error, refused, apply_of_refused refusal⟩
  | none =>
    rw [List.findSome?_eq_none_iff] at refusal
    exact .inr ⟨refusal, apply_of_accepted refusal⟩

/-- The options are refused and the generator stays as it was, also for a session in which they are. -/
def Refuses (generator : Generator) (options : Options) (error : SettingError) : Prop :=
  generator.apply options = (.error error, generator) ∧
    Session.respond generator (.apply options.toLoose) = (.refused generator.settings error, generator)

def Accepts (generator : Generator) (options : Options) (changed : Generator) : Prop :=
  generator.apply options = (.ok (), changed) ∧
    Session.respond generator (.apply options.toLoose) = (.settings changed.settings, changed)

theorem respond_toLoose (generator : Generator) (options : Options) :
    Session.respond generator (.apply options.toLoose) = Session.conclude (generator.apply options) := by
  rw [Session.respond, Options.ofLoose?_toLoose]

theorem refuses_of_apply {generator : Generator} {options : Options} {error : SettingError}
    (refused : generator.apply options = (.error error, generator)) : generator.Refuses options error := by
  refine ⟨refused, ?_⟩
  rw [respond_toLoose, refused, Session.conclude]

theorem accepts_of_apply {generator changed : Generator} {options : Options}
    (accepted : generator.apply options = (.ok (), changed)) : generator.Accepts options changed := by
  refine ⟨accepted, ?_⟩
  rw [respond_toLoose, accepted, Session.conclude]

/-- Options are refused for an unknown word, first for the indentation and then for the brace, and nothing has
changed then; otherwise all of them take effect, and applying them again has none. -/
theorem apply_exact (generator : Generator) (options : Options) :
    (∀ word, options.indent = some word → word ≠ "tabs" → word ≠ "spaces" →
      generator.Refuses options (.unknownIndent word)) ∧
    (options.KnowsIndent → ∀ word, options.brace = some word → word ≠ "default" → word ≠ "newline" →
      generator.Refuses options (.unknownBrace word)) ∧
    (options.KnowsIndent → options.KnowsBrace → ∃ changed, generator.Accepts options changed ∧
      changed.markup = generator.markup ∧ options.Applied generator.settings changed.settings ∧
      changed.Accepts options changed) := by
  refine ⟨fun word given notTabs notSpaces => ?_, fun knownIndent word given notDefault notNewline => ?_,
    fun knownIndent knownBrace => ?_⟩
  · have refusal := Options.findSome?_refusal_of_unknown_indent given notTabs notSpaces
    exact refuses_of_apply (apply_of_refused refusal generator)
  · have refusal := Options.findSome?_refusal_of_unknown_brace knownIndent given notDefault notNewline
    exact refuses_of_apply (apply_of_refused refusal generator)
  · have accepted := Options.refusal?_eq_none_of_known knownIndent knownBrace
    let changed := generator.patched options.patch
    have settled : changed.apply options = (.ok (), changed) := by
      rw [apply_of_accepted accepted, patched]
      simp only [changed, patched, options.patched_patched]
    exact ⟨changed, accepts_of_apply (apply_of_accepted accepted generator), rfl,
      options.applied_patched generator.settings, accepts_of_apply settled⟩

end Generator

end StyleSkeleton
