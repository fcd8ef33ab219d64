import StyleSkeleton.Options.Basic

/-! # Options written and read again

Each reader of loosely typed values is exact for a writer: something is read from a value only if
the value is what is written for it.  A field that is left out is written as no value, and no value
is read as a field that is left out.  So options are read from a record exactly if the record has
what is written for them, and options that are written are read again as they were.
-/

namespace StyleSkeleton

namespace Loose

theorem text?_eq_some_iff {value : Loose} {found : String} : value.text? = some found ↔ value = text found := by
  cases value <;> simp [text?]

theorem flag?_eq_some_iff {value : Loose} {found : Bool} : value.flag? = some found ↔ value = flag found := by
  cases value <;> simp [flag?]

theorem count?_eq_some_iff {value : Loose} {found : UInt64} : value.count? = some found ↔ value = ofCount found := by
  constructor
  · intro isRead
    unfold count? at isRead
    split at isRead
    · rename_i number
      split at isRead
      · rename_i room
        obtain rfl := Option.some.inj isRead
        rw [ofCount, UInt64.toNat_ofNat_of_lt' room]
      · cases isRead
    · cases isRead
  · rintro rfl
    exact count?_ofCount found

theorem optional?_eq_some_iff {α : Type} {read : Loose → Option α} {write : α → Loose}
    (exactly : ∀ value found, read value = some found ↔ value = write found) (missing : read null = none)
    (value : Loose) (given : Option α) : value.optional? read = some given ↔ value = ofOptional write given := by
  unfold optional?
  split
  · cases given with
    | none => exact ⟨fun _ => rfl, fun _ => rfl⟩
    | some found =>
      have unwritten : null ≠ write found := fun same => by
        have isRead := (exactly null found).mpr same
        rw [missing] at isRead
        cases isRead
      simpa [ofOptional] using unwritten
  · rename_i there
    cases given with
    | none => simpa [ofOptional] using there
    | some found => simp [ofOptional, exactly]

end Loose

theorem TagChoice.ofLoose?_eq_some_iff {value : Loose} {choice : TagChoice} :
    ofLoose? value = some choice ↔ value = choice.toLoose := by
  cases value <;> cases choice <;>
    simp [ofLoose?, toLoose, Loose.flag?, Loose.text?, Loose.texts?, Loose.ofTexts, Loose.allTexts?_eq_some_iff]

theorem IgnoreChoice.ofLoose?_eq_some_iff {value : Loose} {choice : IgnoreChoice} :
    ofLoose? value = some choice ↔ value = choice.toLoose := by
  cases value <;> cases choice <;>
    simp [ofLoose?, toLoose, Loose.flag?, Loose.text?, Loose.texts?, Loose.ofTexts, Loose.allTexts?_eq_some_iff]

namespace Options

structure WrittenIn (options : Options) (fields : List (String × Loose)) : Prop where
  indent : Loose.field fields "indent" = .ofOptional .text options.indent
  indentCount : Loose.field fields "indentCount" = .ofOptional .ofCount options.indentCount
  flat : Loose.field fields "flat" = .ofOptional .flag options.flat
  inner : Loose.field fields "inner" = .ofOptional .flag options.inner
  tag : Loose.field fields "tag" = .ofOptional TagChoice.toLoose options.tag
  brace : Loose.field fields "brace" = .ofOptional .text options.brace
  line : Loose.field fields "line" = .ofOptional .ofCount options.line
  ignore : Loose.field fields "ignore" = .ofOptional IgnoreChoice.toLoose options.ignore

theorem ofLoose?_record_eq_some_iff {fields : List (String × Loose)} {options : Options} :
    ofLoose? (.record fields) = some options ↔ options.WrittenIn fields := by
  have text := @Loose.optional?_eq_some_iff _ Loose.text? Loose.text (fun _ _ => Loose.text?_eq_some_iff) rfl
  have flag := @Loose.optional?_eq_some_iff _ Loose.flag? Loose.flag (fun _ _ => Loose.flag?_eq_some_iff) rfl
  have count := @Loose.optional?_eq_some_iff _ Loose.count? Loose.ofCount (fun _ _ => Loose.count?_eq_some_iff) rfl
  have tag := Loose.optional?_eq_some_iff (fun _ _ => TagChoice.ofLoose?_eq_some_iff) rfl
  have ignore := Loose.optional?_eq_some_iff (fun _ _ => IgnoreChoice.ofLoose?_eq_some_iff) rfl
  simp only [ofLoose?, Option.bind_eq_bind, Option.bind_eq_some_iff, text, flag, count, tag, ignore, Option.pure_def,
    Option.some.injEq]
  constructor
  · rintro ⟨_, isIndent, _, isIndentCount, _, isFlat, _, isInner, _, isTag, _, isBrace, _, isLine, _, isIgnore, rfl⟩
    exact ⟨isIndent, isIndentCount, isFlat, isInner, isTag, isBrace, isLine, isIgnore⟩
  · rintro ⟨isIndent, isIndentCount, isFlat, isInner, isTag, isBrace, isLine, isIgnore⟩
    exact ⟨_, isIndent, _, isIndentCount, _, isFlat, _, isInner, _, isTag, _, isBrace, _, isLine, _, isIgnore, rfl⟩

theorem ofLoose?_toLoose (options : Options) : ofLoose? options.toLoose = some options := by
  apply ofLoose?_record_eq_some_iff.mpr
  constructor <;> rfl

end Options

end StyleSkeleton
