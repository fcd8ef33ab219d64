import StyleSkeleton.Proofs.Generator.Sessions
import StyleSkeleton.Settings.Builder

/-! # Ways to the same generator

What options say can also be said setter by setter in a session, or to a builder of settings before
a generator is made.  Either way takes the steps in any order, and what comes out is the same
(`front_ends_agree`): no two steps write different values to one field, so none can undo another.
-/

namespace StyleSkeleton

/-! ## Builders -/

namespace Settings.Builder

def Call.change : Call → Change
  | .indent style width => .indent style width
  | .flat value => .flat value
  | .inner value => .inner value
  | .tags policy => .tags policy
  | .brace style => .brace style
  | .separatorLines count => .separatorLines count
  | .ignore names => .ignore (.many names)

theorem perform_eq_changed (builder : Builder) (call : Call) : builder.perform call = builder.changed call.change := by
  cases call <;> rfl

theorem build_performAll (builder : Builder) (calls : List Call) :
    (builder.performAll calls).build =
      builder.settings.patched (Patch.joined (calls.map fun call => call.change.patch)) := by
  induction calls generalizing builder with
  | nil => rfl
  | cons call calls inductionHypothesis =>
    show ((builder.perform call).performAll calls).build = _
    rw [inductionHypothesis, perform_eq_changed, List.map_cons, Patch.joined_cons, patched_followedBy,
      ← change_eq_patched]
    rfl

end Settings.Builder

open Settings (Builder Patch Setter namedIndent namedBrace)

namespace Options

variable {options : Options}

/-! ## Setter by setter -/

/-- The setters that say what options say, one for each option that is given. -/
inductive Asks (options : Options) : Setter → Prop
  | indent {word : String} (given : options.indent = some word) :
      Asks options (.indentWord word ((options.indentCount.map UInt64.toNat).getD 1))
  | flat {flat : Bool} (given : options.flat = some flat) : Asks options (.plain (.flat flat))
  | inner {inner : Bool} (given : options.inner = some inner) : Asks options (.plain (.inner inner))
  | tag {choice : TagChoice} (given : options.tag = some choice) : Asks options (.plain (.tags choice.toPolicy))
  | brace {word : String} (given : options.brace = some word) : Asks options (.braceWord word)
  | line {count : UInt64} (given : options.line = some count) :
      Asks options (.lines (decide (0 < count)) count.toNat)
  | ignore {choice : IgnoreChoice} (given : options.ignore = some choice) :
      Asks options (.plain (.ignore choice.toChange))

theorem asks_iff_mem_setters {setter : Setter} : options.Asks setter ↔ setter ∈ options.setters := by
  simp only [setters, List.mem_append, Option.mem_toList, Option.map_eq_some_iff, indentWidth_eq]
  constructor
  · intro asked
    cases asked <;> simp [*]
  · rintro ((((((⟨word, given, rfl⟩ | ⟨flat, given, rfl⟩) | ⟨inner, given, rfl⟩) | ⟨choice, given, rfl⟩) |
      ⟨word, given, rfl⟩) | ⟨count, given, rfl⟩) | ⟨choice, given, rfl⟩)
    · exact .indent given
    · exact .flat given
    · exact .inner given
    · exact .tag given
    · exact .brace given
    · exact .line given
    · exact .ignore given

/-! ## Member by member -/

/-- The calls that build the same settings, provided that the words are known.  A flag for the ignored names says
nothing here, as there are none yet. -/
inductive Builds (options : Options) : Builder.Call → Prop
  | indent {word : String} {style : IndentStyle} (given : options.indent = some word)
      (known : IndentStyle.ofWord word = .ok style) :
      Builds options (.indent style ((options.indentCount.map UInt64.toNat).getD 1))
  | flat {flat : Bool} (given : options.flat = some flat) : Builds options (.flat flat)
  | inner {inner : Bool} (given : options.inner = some inner) : Builds options (.inner inner)
  | tag {choice : TagChoice} (given : options.tag = some choice) : Builds options (.tags choice.toPolicy)
  | brace {word : String} {style : BraceStyle} (given : options.brace = some word)
      (known : BraceStyle.ofWord word = .ok style) : Builds options (.brace style)
  | line {count : UInt64} (given : options.line = some count) : Builds options (.separatorLines count.toNat)
  | ignoreOne {name : String} (given : options.ignore = some (.one name)) : Builds options (.ignore [name])
  | ignoreMany {names : List String} (given : options.ignore = some (.many names)) : Builds options (.ignore names)

def builtIgnore (options : Options) : Option IgnoreChange :=
  match options.ignore with
  | some (.one name) => some (.many [name])
  | some (.many names) => some (.many names)
  | some (.clear _) | none => none

theorem foldl_builtIgnore (options : Options) :
    options.builtIgnore.toList.foldl IgnoreChange.applyTo ∅ = options.patch.ignore.foldl IgnoreChange.applyTo ∅ := by
  cases given : options.ignore with
  | none => simp [builtIgnore, patch, given]
  | some choice => cases choice <;> simp [builtIgnore, patch, given] <;> rfl

theorem ofWord_of_knownIndent {word : String} (known : options.KnowsIndent) (given : options.indent = some word) :
    IndentStyle.ofWord word = .ok (namedIndent word) := by
  obtain rfl | rfl := known word given <;> rfl

theorem ofWord_of_knownBrace {word : String} (known : options.KnowsBrace) (given : options.brace = some word) :
    BraceStyle.ofWord word = .ok (namedBrace word) := by
  obtain rfl | rfl := known word given <;> rfl

theorem exists_builds_iff (knownIndent : options.KnowsIndent) (knownBrace : options.KnowsBrace) (patch : Patch) :
    (∃ call, options.Builds call ∧ call.change.patch = patch) ↔ patch ∈ options.pieces options.builtIgnore := by
  simp only [pieces, List.mem_append, Option.mem_toList, Option.map_eq_some_iff, indentWidth_eq]
  constructor
  · rintro ⟨call, builds, rfl⟩
    cases builds with
    | indent given known =>
      rw [ofWord_of_knownIndent knownIndent given] at known
      cases known
      simp [given, Builder.Call.change, Settings.Change.patch]
    | brace given known =>
      rw [ofWord_of_knownBrace knownBrace given] at known
      cases known
      simp [given, Builder.Call.change, Settings.Change.patch]
    | flat given => simp [given, Builder.Call.change, Settings.Change.patch]
    | inner given => simp [given, Builder.Call.change, Settings.Change.patch]
    | tag given => simp [given, Builder.Call.change, Settings.Change.patch]
    | line given => simp [given, Builder.Call.change, Settings.Change.patch]
    | ignoreOne given => simp [given, Builder.Call.change, Settings.Change.patch, builtIgnore]
    | ignoreMany given => simp [given, Builder.Call.change, Settings.Change.patch, builtIgnore]
  · rintro ((((((⟨word, given, rfl⟩ | ⟨flat, given, rfl⟩) | ⟨inner, given, rfl⟩) | ⟨choice, given, rfl⟩) |
      ⟨word, given, rfl⟩) | ⟨count, given, rfl⟩) | ⟨change, given, rfl⟩)
    · exact ⟨_, .indent given (ofWord_of_knownIndent knownIndent given), rfl⟩
    · exact ⟨_, .flat given, rfl⟩
    · exact ⟨_, .inner given, rfl⟩
    · exact ⟨_, .tag given, rfl⟩
    · exact ⟨_, .brace given (ofWord_of_knownBrace knownBrace given), rfl⟩
    · exact ⟨_, .line given, rfl⟩
    · rw [builtIgnore] at given
      split at given
      · next name ignore => exact ⟨_, .ignoreOne ignore, congrArg _ (congrArg _ (Option.some.inj given))⟩
      · next names ignore =>
        cases given
        exact ⟨_, .ignoreMany ignore, rfl⟩
      · cases given
      · cases given

theorem build_of_built (knownIndent : options.KnowsIndent) (knownBrace : options.KnowsBrace)
    {calls : List Builder.Call} (built : ∀ call, call ∈ calls ↔ options.Builds call) :
    (({} : Builder).performAll calls).build = ({} : Settings).patched options.patch := by
  have same (patch : Patch) :
      patch ∈ calls.map (fun call => call.change.patch) ↔ patch ∈ options.pieces options.builtIgnore := by
    rw [List.mem_map, ← exists_builds_iff knownIndent knownBrace]
    simp only [built]
  rw [Builder.build_performAll, patched_joined_of_mem_iff same, Settings.patched, Settings.patched,
    options.foldl_builtIgnore]

end Options

/-! ## Sessions of setters -/

namespace Session

theorem exists_fails_iff (generator : Generator) (setters : List Setter) :
    (∃ answer ∈ answers generator (setters.map .set), answer.fails = true) ↔
      ∃ setter ∈ setters, setter.refusal? ≠ none := by
  induction setters generalizing generator with
  | nil => simp [answers]
  | cons setter setters inductionHypothesis =>
    simp [answers, fails_set, inductionHypothesis, Option.isSome_iff_ne_none]

theorem final_of_accepted (generator : Generator) {setters : List Setter}
    (accepted : ∀ setter ∈ setters, setter.refusal? = none) :
    final generator (setters.map .set) = generator.patched (Patch.joined (setters.map Setter.patch)) := by
  induction setters generalizing generator with
  | nil => rfl
  | cons setter setters inductionHypothesis =>
    obtain ⟨first, others⟩ := List.forall_mem_cons.mp accepted
    rw [List.map_cons, final, respond_set_of_accepted first, inductionHypothesis _ others, List.map_cons,
      Patch.joined_cons, Generator.patched_followedBy]
    rfl

end Session

/-! ## All ways -/

namespace Generator

theorem ofOptions_of_accepted {options : Options} (accepted : ∀ setter ∈ options.setters, setter.refusal? = none)
    (markup : String) : ofOptions markup options = .ok (patched { markup } options.patch) := by
  rw [ofOptions, apply_of_accepted accepted, Outcome.handedOn]

theorem ofOptions_fails_iff (markup : String) (options : Options) :
    (∃ error, ofOptions markup options = .error error) ↔ ∃ setter ∈ options.setters, setter.refusal? ≠ none := by
  obtain ⟨setter, member, error, refusal, refused⟩ | ⟨noRefusal, _⟩ := apply_cases options
  · have fails : ofOptions markup options = .error error := by rw [ofOptions, refused, Outcome.handedOn]
    exact iff_of_true ⟨error, fails⟩ ⟨setter, member, by simp [refusal]⟩
  · rw [ofOptions_of_accepted noRefusal]
    exact iff_of_false (by simp) (by simpa using noRefusal)

/-- Options as one record, as setters in any order, or as calls to a builder in any order: they fail alike, or else
the stylesheets are the same.  It makes no difference either if a setter or a call is made more than once. -/
theorem front_ends_agree (markup : String) (options : Options) (setters : List Setter) (calls : List Builder.Call)
    (asked : ∀ setter, setter ∈ setters ↔ options.Asks setter)
    (built : ∀ call, call ∈ calls ↔ options.Builds call) :
    ((∃ error, ofOptions markup options = .error error) ↔
      ∃ answer ∈ Session.answers { markup } (setters.map .set), answer.fails = true) ∧
    (∀ generator, ofOptions markup options = .ok generator →
      (Session.final { markup } (setters.map .set)).css = generator.css) ∧
    (options.KnowsIndent → options.KnowsBrace → ∃ generator, ofOptions markup options = .ok generator ∧
      Stylesheet.ofMarkup (({} : Builder).performAll calls).build markup = generator.css) := by
  have same (setter : Setter) : setter ∈ setters ↔ setter ∈ options.setters :=
    (asked setter).trans Options.asks_iff_mem_setters
  refine ⟨?_, fun generator made => ?_, fun knownIndent knownBrace => ?_⟩
  · rw [ofOptions_fails_iff, Session.exists_fails_iff]
    simp only [same]
  · -- No setter is refused, or else the options would have been refused as well.
    have accepted : ∀ setter ∈ options.setters, setter.refusal? = none := by
      by_contra! refused
      obtain ⟨error, fails⟩ := (ofOptions_fails_iff markup options).mpr refused
      rw [made] at fails
      cases fails
    rw [ofOptions_of_accepted accepted] at made
    cases made
    rw [Session.final_of_accepted _ fun setter member => accepted setter ((same setter).mp member), patched,
      Options.patched_joined_setters same, patched]
  · refine ⟨_, ofOptions_of_accepted (Options.refusal?_eq_none_of_known knownIndent knownBrace) markup, ?_⟩
    rw [Options.build_of_built knownIndent knownBrace built]
    rfl

/-- Backwards, with a count of zero and a flag for which the last way has no call. -/
theorem front_ends_agree_backwards :
    let options : Options := { indent := some "tabs", line := some 0, ignore := some (.clear true) }
    let calls : List Builder.Call := [.separatorLines 0, .indent .tabs 1]
    (∀ setter, setter ∈ options.setters.reverse ↔ options.Asks setter) ∧
    (∀ call, call ∈ calls ↔ options.Builds call) ∧ options.KnowsIndent ∧ options.KnowsBrace ∧
    ∃ generator, ofOptions "<p class='a'>" options = .ok generator ∧
      (Session.final { markup := "<p class='a'>" } (options.setters.reverse.map .set)).css = generator.css ∧
      Stylesheet.ofMarkup (({} : Builder).performAll calls).build "<p class='a'>" = generator.css := by
  intro options calls
  have asked (setter : Setter) : setter ∈ options.setters.reverse ↔ options.Asks setter :=
    List.mem_reverse.trans Options.asks_iff_mem_setters.symm
  have line : options.Builds (.separatorLines (UInt64.toNat 0)) := .line rfl
  have indent : options.Builds (.indent .tabs 1) := .indent rfl rfl
  have built (call : Builder.Call) : call ∈ calls ↔ options.Builds call := by
    constructor
    · intro member
      obtain rfl | rfl : call = .separatorLines 0 ∨ call = .indent .tabs 1 := by simpa [calls] using member
      · exact line
      · exact indent
    · intro isBuilt
      cases isBuilt with
      | indent given known => cases given; cases known; simp [calls, options]
      | line given => cases given; simp [calls]
      | flat given | inner given | tag given | brace given | ignoreOne given | ignoreMany given => cases given
  have knownIndent : options.KnowsIndent := by simp [options, Options.KnowsIndent]
  have knownBrace : options.KnowsBrace := by simp [options, Options.KnowsBrace]
  obtain ⟨_, sessions, builders⟩ := front_ends_agree "<p class='a'>" options options.setters.reverse calls asked built
  obtain ⟨generator, made, same⟩ := builders knownIndent knownBrace
  exact ⟨asked, built, knownIndent, knownBrace, generator, made, sessions generator made, same⟩

end Generator

end StyleSkeleton
