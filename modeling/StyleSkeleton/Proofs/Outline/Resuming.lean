import StyleSkeleton.Proofs.Markup.EventOrder
import StyleSkeleton.Proofs.Outline.Ignoring

/-! # Going on from a state

What a replay has recorded does not influence how it goes on.  It goes on as if nothing had been recorded
before, and of the entries that come out that way it adds those with new names (`entries_settle_run`).

Nor does it matter whether the state was settled before the next events, unless they begin with a class name.
-/

namespace StyleSkeleton.Outline

open StyleSkeleton.Markup

theorem fresh_union (first second : NameSet) (candidates : List Entry) :
    fresh (first ∪ second) candidates = (fresh second candidates).filter fun entry => entry.name ∉ first := by
  simp only [fresh, List.filter_filter, NameSet.mem_union, not_or, Bool.decide_and]

namespace Replay

/-! ## Records -/

def onTopOf (replay base : Replay) : Replay :=
  { replay with
    seen := base.seen ∪ replay.seen
    entries := base.entries ++ replay.entries.filter fun entry => entry.name ∉ base.seen }

def unrecorded (replay : Replay) : Replay :=
  { replay with seen := ∅, entries := [] }

theorem unrecorded_onTopOf (replay : Replay) : replay.unrecorded.onTopOf replay = replay := by
  have same : replay.seen ∪ ∅ = replay.seen := NameSet.ext fun name => by simp
  simp [onTopOf, unrecorded, same]

variable {ignored : NameSet} (replay base : Replay)

theorem emitted_onTopOf :
    (replay.onTopOf base).emitted = replay.emitted.filter fun entry => entry.name ∉ base.seen := by
  obtain ⟨stack, collecting, seen, entries, unmatched, strays⟩ := replay
  cases collecting with
  | false => rfl
  | true =>
    cases stack with
    | nil => rfl
    | cons top below => simp only [emitted, onTopOf, unseen_eq_fresh, fresh_union]

theorem settle_onTopOf : (replay.onTopOf base).settle = replay.settle.onTopOf base := by
  have emits := emitted_onTopOf replay base
  obtain ⟨stack, collecting, seen, entries, unmatched, strays⟩ := replay
  cases collecting with
  | false => rfl
  | true =>
    cases stack with
    | nil => rfl
    | cons top below =>
      have names : (base.seen ∪ seen).insertAll top.classes = base.seen ∪ seen.insertAll top.classes :=
        NameSet.ext fun name => by simp [or_left_comm]
      simp only [settle, emits]
      simp only [onTopOf, names, List.filter_append, List.append_assoc]

theorem step_onTopOf (event : Event) :
    (replay.onTopOf base).step ignored event = (replay.step ignored event).onTopOf base := by
  obtain ⟨position, kind⟩ := event
  cases kind with
  | opening tag =>
    simp only [step, settle_onTopOf]
    rfl
  | closing =>
    simp only [step, settle_onTopOf]
    cases stack : replay.settle.stack <;> simp [closed, onTopOf, stack]
  | className name =>
    by_cases isIgnored : name ∈ ignored
    · simp [step, isIgnored]
    · cases collecting : replay.collecting <;> cases stack : replay.stack <;>
        simp [step, isIgnored, named, onTopOf, collecting, stack]

theorem run_onTopOf (events : List Event) :
    (replay.onTopOf base).run ignored events = (replay.run ignored events).onTopOf base := by
  induction events generalizing replay with
  | nil => rfl
  | cons event events inductionHypothesis => rw [run_cons, step_onTopOf, inductionHypothesis, run_cons]

/-- A replay adds to its records what it would bring out without them. -/
theorem entries_settle_run (replay : Replay) (events : List Event) :
    (replay.run ignored events).settle.entries = replay.entries ++
      (replay.unrecorded.run ignored events).settle.entries.filter fun entry => entry.name ∉ replay.seen := by
  have resumed : replay.run ignored events = (replay.unrecorded.run ignored events).onTopOf replay := by
    rw [← run_onTopOf, unrecorded_onTopOf]
  rw [resumed, settle_onTopOf]
  rfl

theorem entries_settle_run_absorb (replay : Replay) (candidates : List Entry) (events : List Event) :
    ((replay.absorb candidates).run ignored events).settle.entries =
      replay.entries ++ (fresh replay.seen candidates ++
        (replay.unrecorded.run ignored events).settle.entries.filter fun entry =>
          entry.name ∉ replay.seen.insertAll (candidates.map Entry.name)) := by
  rw [entries_settle_run, ← List.append_assoc]
  rfl

/-! ## Settling early -/

theorem settle_settle : replay.settle.settle = replay.settle :=
  settle_of_not_collecting replay.settle_collecting

theorem settle_run_settle {events : List Event} (startsAnew : ∀ event ∈ events.head?, event.isClassName = false) :
    (replay.settle.run ignored events).settle = (replay.run ignored events).settle := by
  cases events with
  | nil => exact settle_settle replay
  | cons event events =>
    have same : replay.settle.step ignored event = replay.step ignored event := by
      have noName := startsAnew event rfl
      obtain ⟨position, kind⟩ := event
      cases kind with
      | opening tag => simp only [step, settle_settle]
      | closing => simp only [step, settle_settle]
      | className name => cases noName
    rw [run_cons, run_cons, same]

end Replay

end StyleSkeleton.Outline
