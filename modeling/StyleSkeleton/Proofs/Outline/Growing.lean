import StyleSkeleton.Proofs.Markup.EventOrder
import StyleSkeleton.Proofs.Outline.Invariant
import StyleSkeleton.Proofs.Stylesheet.Lines

/-! # Outlines grow at their end

The outline of a part of the events is a beginning of the outline of all.  The entries of a settled
state never change: another class name of the tag that is collecting comes behind those that
settling brings out already, with the same level, and other events bring out nothing new.
-/

namespace StyleSkeleton.Outline

open StyleSkeleton.Markup

namespace Replay

variable {ignored : NameSet} {replay : Replay}

/-- Settling early and later agree on the entries that are there early. -/
theorem Sound.settle_step (sound : Sound ignored replay) (event : Event) :
    ∃ added, (replay.step ignored event).settle.entries = replay.settle.entries ++ added ∧
      (event.isClassName = false → added = []) := by
  obtain ⟨position, kind⟩ := event
  cases kind with
  | opening tag => exact ⟨[], by simp [Replay.step, settle_opened]⟩
  | closing => exact ⟨[], by simp [Replay.step, settle_closed_settle]⟩
  | className name =>
    by_cases isIgnored : name ∈ ignored
    · exact ⟨[], by simp [Replay.step, isIgnored]⟩
    cases collecting : replay.collecting with
    | false =>
      have stray := named_of_not_collecting collecting name
      exact ⟨[], by simp [Replay.step, isIgnored, stray, settle_with_strays]⟩
    | true =>
      obtain ⟨tag, classes, below, stack, _⟩ := sound.collecting_top collecting
      -- The frames below are the same whether the tag is settled now or later, and so is its level.
      refine ⟨fresh replay.settle.seen [⟨tag, name, depth below⟩], ?_, fun noName => by cases noName⟩
      simp only [Replay.step, if_neg isIgnored]
      exact (settle_named collecting stack name).1

theorem Sound.settle_run (sound : Sound ignored replay) (events : List Event) :
    ∃ added, (replay.run ignored events).settle.entries = replay.settle.entries ++ added ∧
      ((∀ event ∈ events, event.isClassName = false) → added = []) := by
  induction events generalizing replay with
  | nil => exact ⟨[], by simp⟩
  | cons event events inductionHypothesis =>
    obtain ⟨now, stepEntries, noneNow⟩ := sound.settle_step event
    obtain ⟨later, runEntries, noneLater⟩ := inductionHypothesis (sound.step event)
    refine ⟨now ++ later, ?_, fun noName => ?_⟩
    · rw [run_cons, runEntries, stepEntries, List.append_assoc]
    · rw [noneNow (noName event List.mem_cons_self),
        noneLater fun other member => noName other (List.mem_cons_of_mem _ member), List.append_nil]

end Replay

theorem exists_ofEvents_append (ignored : NameSet) (events more : List Event) :
    ∃ added, ofEvents ignored (events ++ more) = ofEvents ignored events ++ added ∧
      ((∀ event ∈ more, event.isClassName = false) → added = []) := by
  have sound : Replay.Sound ignored (Replay.start.run ignored events) := Replay.Sound.start.run events
  rw [ofEvents, replayed, Replay.run_append]
  exact sound.settle_run more

/-- More events only add entries at the end, and so more rules at the end of the stylesheet; without
class names among them they add nothing. -/
theorem ofEvents_grows (ignored : NameSet) (events more : List Event) :
    ofEvents ignored events <+: ofEvents ignored (events ++ more) ∧
    ((∀ event ∈ more, event.isClassName = false) →
      ofEvents ignored (events ++ more) = ofEvents ignored events) ∧
    ∀ settings : Settings, ∃ rest, Stylesheet.render settings (ofEvents ignored (events ++ more)) =
      Stylesheet.render settings (ofEvents ignored events) ++ rest := by
  obtain ⟨added, entries, none⟩ := exists_ofEvents_append ignored events more
  rw [entries]
  refine ⟨List.prefix_append _ _, fun noName => ?_, fun settings => Stylesheet.render_append settings _ added⟩
  rw [none noName, List.append_nil]

end StyleSkeleton.Outline
