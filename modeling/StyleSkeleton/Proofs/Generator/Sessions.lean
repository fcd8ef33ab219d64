import StyleSkeleton.Proofs.Options.Applying

/-! # What sessions come to

A call reads, or fails, or takes effect (`respond_cases`), and only some can fail at all
(`canFail_of_fails`).  The calls that take effect are the only ones with an influence on where a
session ends and on the answers of the others: each field has the value that was written last, and
the ignored names are those added since the last clearing (`final_exact`).
-/

namespace StyleSkeleton

open Settings (Patch)

namespace Session

/-! ## Calls -/

def Call.reads : Call → Bool
  | css | outline | markup => true
  | setMarkup _ | set _ | apply _ => false

/-- Whether the answer to a call can be that it has failed: it goes by a word, or by options. -/
def Call.canFail : Call → Bool
  | set (.indentWord _ _) | set (.braceWord _) | apply _ => true
  | set (.plain _) | set (.lines _ _) | setMarkup _ | css | outline | markup => false

def Answer.fails : Answer → Bool
  | refused _ _ | unreadable => true
  | css _ | outline _ | markup _ | settings _ => false

def idle (call : Call) (answer : Answer) : Bool :=
  call.reads || answer.fails

def Call.newMarkup? : Call → Option String
  | setMarkup text => some text
  | _ => none

def Call.patch : Call → Patch
  | set setter => setter.patch
  | apply value => ((Options.ofLoose? value).map Options.patch).getD {}
  | _ => {}

def written (generator : Generator) (call : Call) : Generator where
  markup := call.newMarkup?.getD generator.markup
  settings := generator.settings.patched call.patch

/-! ## One call -/

section Setters

variable {setter : Settings.Setter} {error : SettingError}

theorem respond_set_of_refused (refused : setter.refusal? = some error) (generator : Generator) :
    respond generator (.set setter) = (.refused generator.settings error, generator) := by
  rw [respond, Generator.set_of_refused refused, conclude]

theorem respond_set_of_accepted (accepted : setter.refusal? = none) (generator : Generator) :
    respond generator (.set setter) =
      (.settings (generator.settings.patched setter.patch), written generator (.set setter)) := by
  rw [respond, Generator.set_of_accepted accepted]
  rfl

end Setters

theorem respond_cases (generator : Generator) (call : Call) :
    (idle call (respond generator call).1 = true ∧ (respond generator call).2 = generator) ∨
      (idle call (respond generator call).1 = false ∧
        (respond generator call).2 = written generator call) := by
  cases call with
  | css => exact .inl ⟨rfl, rfl⟩
  | outline => exact .inl ⟨rfl, rfl⟩
  | markup => exact .inl ⟨rfl, rfl⟩
  | setMarkup markup => exact .inr ⟨rfl, rfl⟩
  | set setter =>
    cases refusal : setter.refusal? with
    | some error =>
      rw [respond_set_of_refused refusal]
      exact .inl ⟨rfl, rfl⟩
    | none =>
      rw [respond_set_of_accepted refusal]
      exact .inr ⟨rfl, rfl⟩
  | apply value =>
    cases read : Options.ofLoose? value with
    | none =>
      have unread : respond generator (.apply value) = (.unreadable, generator) := by rw [respond, read]
      rw [unread]
      exact .inl ⟨rfl, rfl⟩
    | some options =>
      have reply : respond generator (.apply value) = conclude (generator.apply options) := by rw [respond, read]
      have writes : (Call.apply value).patch = options.patch := by
        rw [Call.patch, read, Option.map_some, Option.getD_some]
      rw [reply, written, writes]
      obtain ⟨_, _, error, _, refused⟩ | ⟨_, accepted⟩ := Generator.apply_cases options
      · rw [refused]
        exact .inl ⟨rfl, rfl⟩
      · rw [accepted]
        exact .inr ⟨rfl, rfl⟩

theorem fails_set (generator : Generator) (setter : Settings.Setter) :
    (respond generator (.set setter)).1.fails = setter.refusal?.isSome := by
  cases refusal : setter.refusal? with
  | some error =>
    rw [respond_set_of_refused refusal]
    rfl
  | none =>
    rw [respond_set_of_accepted refusal]
    rfl

theorem canFail_of_fails {generator : Generator} {call : Call} (fails : (respond generator call).1.fails = true) :
    call.canFail = true := by
  cases call with
  | apply value => rfl
  | set setter =>
    rw [fails_set] at fails
    cases setter with
    | indentWord word width => rfl
    | braceWord word => rfl
    | plain change => cases fails
    | lines enabled count => cases fails
  | setMarkup markup => cases fails
  | css => cases fails
  | outline => cases fails
  | markup => cases fails

/-! ## The calls that take effect -/

def effective (generator : Generator) (calls : List Call) : List Call :=
  ((calls.zip (answers generator calls)).filter fun exchange => !idle exchange.1 exchange.2).map Prod.fst

variable {generator : Generator} {call : Call} {calls : List Call}

theorem effective_cons_of_idle (isIdle : idle call (respond generator call).1 = true) :
    effective generator (call :: calls) = effective (respond generator call).2 calls := by
  simp [effective, answers, isIdle]

theorem effective_cons_of_not_idle (isIdle : idle call (respond generator call).1 = false) :
    effective generator (call :: calls) = call :: effective (respond generator call).2 calls := by
  simp [effective, answers, isIdle]

theorem newMarkup?_of_idle (isIdle : idle call (respond generator call).1 = true) : call.newMarkup? = none := by
  cases call with
  | setMarkup markup => cases @canFail_of_fails generator (.setMarkup markup) isIdle
  | set setter => rfl
  | apply value => rfl
  | css => rfl
  | outline => rfl
  | markup => rfl

theorem filterMap_newMarkup?_effective (generator : Generator) (calls : List Call) :
    (effective generator calls).filterMap Call.newMarkup? = calls.filterMap Call.newMarkup? := by
  induction calls generalizing generator with
  | nil => rfl
  | cons call calls inductionHypothesis =>
    cases isIdle : idle call (respond generator call).1 with
    | true => rw [effective_cons_of_idle isIdle, inductionHypothesis, List.filterMap_cons, newMarkup?_of_idle isIdle]
    | false => rw [effective_cons_of_not_idle isIdle, List.filterMap_cons, List.filterMap_cons, inductionHypothesis]

theorem final_eq_foldl (generator : Generator) (calls : List Call) :
    final generator calls = (effective generator calls).foldl written generator := by
  induction calls generalizing generator with
  | nil => rfl
  | cons call calls inductionHypothesis =>
    rw [final, inductionHypothesis]
    obtain ⟨isIdle, same⟩ | ⟨notIdle, changed⟩ := respond_cases generator call
    · rw [effective_cons_of_idle isIdle, same]
    · rw [effective_cons_of_not_idle notIdle, List.foldl_cons, changed]

theorem foldl_written (generator : Generator) (calls : List Call) :
    calls.foldl written generator =
      { markup := (calls.filterMap Call.newMarkup?).getLast?.getD generator.markup
        settings := generator.settings.patched (Patch.joined (calls.map Call.patch)) } := by
  induction calls generalizing generator with
  | nil => rfl
  | cons call calls inductionHypothesis =>
    rw [List.foldl_cons, inductionHypothesis, List.map_cons, Patch.joined_cons, Settings.patched_followedBy,
      List.filterMap_cons, written]
    cases call.newMarkup? with
    | none => rfl
    | some markup => rw [List.getLast?_cons, Option.getD_some, Option.getD_some]

/-! ## Fields -/

def lastWritten {α : Type} (calls : List Call) (field : Patch → Option α) : Option α :=
  (calls.filterMap fun call => field call.patch).getLast?

theorem joined_map_patch {α : Type} (calls : List Call) (field : Patch → Option α) (unwritten : field {} = none)
    (lastWins : ∀ first second, field (Patch.followedBy first second) = (field second).or (field first)) :
    field (Patch.joined (calls.map Call.patch)) = lastWritten calls field := by
  rw [Patch.joined_field field unwritten lastWins, List.filterMap_map]
  rfl

def ignoreChanges (calls : List Call) : List IgnoreChange :=
  calls.flatMap fun call => call.patch.ignore

/-- What a session makes of a generator, by all of its calls and by those of them that take effect. -/
structure Written (before : Generator) (calls taken : List Call) (after : Generator) : Prop where
  /-- The markup of the last call that sets it, none of which can fail. -/
  markup : after.markup = (calls.filterMap Call.newMarkup?).getLast?.getD before.markup
  indent : after.settings.indent = (lastWritten taken Patch.indent).getD before.settings.indent
  flat : after.settings.flat = (lastWritten taken Patch.flat).getD before.settings.flat
  inner : after.settings.inner = (lastWritten taken Patch.inner).getD before.settings.inner
  tags : after.settings.tags = (lastWritten taken Patch.tags).getD before.settings.tags
  brace : after.settings.brace = (lastWritten taken Patch.brace).getD before.settings.brace
  separatorLines : after.settings.separatorLines =
    (lastWritten taken Patch.separatorLines).getD before.settings.separatorLines
  /-- The names added since the last clearing, and the old ones if nothing was cleared. -/
  ignored : ∀ name, name ∈ after.settings.ignored ↔
    (∃ change ∈ (ignoreChanges taken).rtakeWhile (· ≠ .clear), name ∈ change.names) ∨
      (.clear ∉ ignoreChanges taken ∧ name ∈ before.settings.ignored)

theorem written_final (generator : Generator) (calls : List Call) :
    Written generator calls (effective generator calls) (final generator calls) := by
  rw [final_eq_foldl, foldl_written, filterMap_newMarkup?_effective]
  generalize effective generator calls = taken
  exact {
    markup := rfl
    indent := by rw [Settings.patched, joined_map_patch taken Patch.indent rfl fun _ _ => rfl]
    flat := by rw [Settings.patched, joined_map_patch taken Patch.flat rfl fun _ _ => rfl]
    inner := by rw [Settings.patched, joined_map_patch taken Patch.inner rfl fun _ _ => rfl]
    tags := by rw [Settings.patched, joined_map_patch taken Patch.tags rfl fun _ _ => rfl]
    brace := by rw [Settings.patched, joined_map_patch taken Patch.brace rfl fun _ _ => rfl]
    separatorLines := by rw [Settings.patched, joined_map_patch taken Patch.separatorLines rfl fun _ _ => rfl]
    ignored := fun name => by
      have changes : (Patch.joined (taken.map Call.patch)).ignore = ignoreChanges taken := by
        rw [Patch.joined_ignore, List.flatMap_map, ignoreChanges]
      rw [Settings.patched, changes, IgnoreChange.foldl_applyTo, NameSet.mem_insertAll, List.mem_flatMap]
      by_cases clears : .clear ∈ ignoreChanges taken <;> simp [clears] }

/-! ## Leaving calls out -/

/-- The items of a list that are not marked.  Items for which there is no mark are kept. -/
def unmarked {α : Type} : List Bool → List α → List α
  | [], items => items
  | _, [] => []
  | true :: marks, _ :: items => unmarked marks items
  | false :: marks, item :: items => item :: unmarked marks items

def MarksIdle (generator : Generator) (calls : List Call) (marks : List Bool) : Prop :=
  ∀ (place : Nat) call answer, marks[place]? = some true → calls[place]? = some call →
    (answers generator calls)[place]? = some answer → idle call answer = true

theorem MarksIdle.head {marks : List Bool} (marksIdle : MarksIdle generator (call :: calls) (true :: marks)) :
    idle call (respond generator call).1 = true :=
  marksIdle 0 call _ rfl rfl rfl

theorem MarksIdle.tail {mark : Bool} {marks : List Bool}
    (marksIdle : MarksIdle generator (call :: calls) (mark :: marks)) :
    MarksIdle (respond generator call).2 calls marks :=
  fun place => marksIdle (place + 1)

theorem respond_of_idle (isIdle : idle call (respond generator call).1 = true) :
    (respond generator call).2 = generator := by
  obtain ⟨_, same⟩ | ⟨notIdle, _⟩ := respond_cases generator call
  · exact same
  · rw [isIdle] at notIdle
    cases notIdle

theorem run_unmarked {marks : List Bool} (marksIdle : MarksIdle generator calls marks) :
    final generator (unmarked marks calls) = final generator calls ∧
      answers generator (unmarked marks calls) = unmarked marks (answers generator calls) := by
  induction calls generalizing generator marks with
  | nil => cases marks <;> exact ⟨rfl, rfl⟩
  | cons call calls inductionHypothesis =>
    cases marks with
    | nil => exact ⟨rfl, rfl⟩
    | cons mark marks =>
      obtain ⟨sameFinal, sameAnswers⟩ := inductionHypothesis marksIdle.tail
      cases mark with
      | false => exact ⟨sameFinal, congrArg _ sameAnswers⟩
      | true =>
        -- The call that is left out has not changed the generator, so the others start from the same one.
        rw [respond_of_idle marksIdle.head] at sameFinal sameAnswers
        rw [unmarked, final, answers, unmarked, respond_of_idle marksIdle.head]
        exact ⟨sameFinal, sameAnswers⟩

/-- A session ends with what its effective calls have written, and any of the other calls can be left out: the
session then ends in the same way, and the calls that stay are answered as before. -/
theorem final_exact (generator : Generator) (calls : List Call) :
    Written generator calls (effective generator calls) (final generator calls) ∧
    ∀ marks, MarksIdle generator calls marks →
      final generator (unmarked marks calls) = final generator calls ∧
      answers generator (unmarked marks calls) = unmarked marks (answers generator calls) :=
  ⟨written_final generator calls, fun _ => run_unmarked⟩

/-- A word that is not known and options that cannot be read leave no trace. -/
example :
    final {} [.set (.braceWord "newline"), .css, .set (.braceWord "own"), .apply .null] =
      final {} [.set (.braceWord "newline")] := by
  decide

end Session

end StyleSkeleton
