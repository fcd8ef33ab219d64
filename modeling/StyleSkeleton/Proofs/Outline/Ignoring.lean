import StyleSkeleton.Outline
import StyleSkeleton.Proofs.Outline.Invariant

/-! # Ignored names

A replay that ignores names runs through the same states as one that never meets them.  Taking the
names out of the outline afterwards would not do, since an ignored name must not deepen what is
inside of its tag.
-/

namespace StyleSkeleton

/-! ## Joined sets -/

instance : Union NameSet := ⟨fun first second => first.insertAll second.toList⟩

@[simp] theorem NameSet.mem_union {first second : NameSet} {name : String} :
    name ∈ first ∪ second ↔ name ∈ first ∨ name ∈ second := by
  have inserted : name ∈ first.insertAll second.toList ↔ name ∈ second.toList ∨ name ∈ first :=
    mem_insertAll
  exact inserted.trans or_comm

theorem NameSet.empty_union (set : NameSet) : ∅ ∪ set = set :=
  ext fun name => by simp

/-! ## Dropped events -/

def Markup.Event.isNamedIn (event : Event) (dropped : NameSet) : Bool :=
  match event.kind with
  | .className name => decide (name ∈ dropped)
  | _ => false

namespace Outline

open StyleSkeleton.Markup

def without (dropped : NameSet) (events : List Event) : List Event :=
  events.filter fun event => !event.isNamedIn dropped

namespace Replay

variable {ignored dropped : NameSet} {replay : Replay} {event : Event}

theorem step_of_isNamedIn (named : event.isNamedIn dropped = true) :
    replay.step (ignored ∪ dropped) event = replay := by
  obtain ⟨position, kind⟩ := event
  cases kind with
  | opening tag => cases named
  | closing => cases named
  | className name =>
    have member : name ∈ dropped := by simpa [Event.isNamedIn] using named
    simp [step, member]

theorem step_of_not_isNamedIn (other : event.isNamedIn dropped = false) :
    replay.step (ignored ∪ dropped) event = replay.step ignored event := by
  obtain ⟨position, kind⟩ := event
  cases kind with
  | opening tag => rfl
  | closing => rfl
  | className name =>
    have apart : name ∉ dropped := by simpa [Event.isNamedIn] using other
    simp [step, apart]

theorem run_union (ignored dropped : NameSet) (replay : Replay) (events : List Event) :
    replay.run (ignored ∪ dropped) events = replay.run ignored (without dropped events) := by
  induction events generalizing replay with
  | nil => rfl
  | cons event events inductionHypothesis =>
    cases named : event.isNamedIn dropped with
    | true =>
      have skipped : without dropped (event :: events) = without dropped events := by simp [without, named]
      rw [run_cons, step_of_isNamedIn named, skipped]
      exact inductionHypothesis replay
    | false =>
      have kept : without dropped (event :: events) = event :: without dropped events := by simp [without, named]
      rw [run_cons, step_of_not_isNamedIn named, kept, run_cons]
      exact inductionHypothesis _

end Replay

theorem replayed_union (ignored dropped : NameSet) (events : List Event) :
    replayed (ignored ∪ dropped) events = replayed ignored (without dropped events) := by
  rw [replayed, replayed, Replay.run_union]

theorem not_ignored_of_mem_ofEvents {ignored : NameSet} {events : List Event} {entry : Entry}
    (member : entry ∈ ofEvents ignored events) : entry.name ∉ ignored := by
  have sound : Replay.Sound ignored (Replay.start.run ignored events) := Replay.Sound.start.run events
  exact sound.settle.entries_not_ignored member

/-- Ignored names are names that are not there: the outline is that of the events without them, and so are
the tags left open, the closings without a tag and the strays. -/
theorem ignoring_is_dropping (ignored dropped : NameSet) (events : List Event) :
    ofEvents (ignored ∪ dropped) events = ofEvents ignored (without dropped events) ∧
    (replayed (ignored ∪ dropped) events).stack.length =
      (replayed ignored (without dropped events)).stack.length ∧
    (replayed (ignored ∪ dropped) events).unmatched = (replayed ignored (without dropped events)).unmatched ∧
    (replayed (ignored ∪ dropped) events).strays = (replayed ignored (without dropped events)).strays ∧
    (∀ markup, ofMarkup ignored markup = ofEvents ∅ (without ignored (scan markup))) ∧
    ∀ entry ∈ ofEvents ignored events, entry.name ∉ ignored := by
  refine ⟨?_, ?_, ?_, ?_, fun markup => ?_, fun entry => not_ignored_of_mem_ofEvents⟩
  · rw [ofEvents, replayed_union, ofEvents]
  · rw [replayed_union]
  · rw [replayed_union]
  · rw [replayed_union]
  · rw [ofMarkup, ofEvents, ofEvents, ← replayed_union, NameSet.empty_union]

/-- Without the name of the outer tag the inner one is not nested, which a selection from the full outline
would not tell. -/
example :
    let events : List Event :=
      [⟨0, .opening "ul"⟩, ⟨3, .className "list"⟩, ⟨16, .opening "li"⟩, ⟨19, .className "item"⟩]
    ofEvents ∅ events = [⟨"ul", "list", 0⟩, ⟨"li", "item", 1⟩] ∧
      ofEvents (NameSet.ofList ["list"]) events = [⟨"li", "item", 0⟩] := by
  decide

end Outline

end StyleSkeleton
