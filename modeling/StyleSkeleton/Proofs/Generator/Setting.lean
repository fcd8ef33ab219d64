import StyleSkeleton.Generator.Basic
import StyleSkeleton.Proofs.Settings.Patch

/-! # What setters leave of a generator

A setter that is refused leaves the generator as it was, and any other one writes its patch.  In a
list of setters those in front of the first that is refused are in effect when it is met, and those
behind it are not made out any more (`setAll_of_refused`).
-/

namespace StyleSkeleton.Generator

open Settings (Patch Setter)

def patched (generator : Generator) (patch : Patch) : Generator :=
  { generator with settings := generator.settings.patched patch }

theorem patched_followedBy (generator : Generator) (first second : Patch) :
    generator.patched (first.followedBy second) = (generator.patched first).patched second := by
  rw [patched, patched, patched, Settings.patched_followedBy]

variable {setter : Setter} {setters : List Setter} {error : SettingError}

theorem set_of_refused (refused : setter.refusal? = some error) (generator : Generator) :
    generator.set setter = (.error error, generator) := by
  rw [set, Setter.toChange_of_refused refused]

theorem set_of_accepted (accepted : setter.refusal? = none) (generator : Generator) :
    generator.set setter = (.ok (), generator.patched setter.patch) := by
  obtain ⟨change, isChange, patch⟩ := Setter.toChange_of_accepted accepted
  rw [set, isChange, patched, ← patch, ← Settings.change_eq_patched]
  rfl

theorem setAll_of_accepted (accepted : ∀ setter ∈ setters, setter.refusal? = none) (generator : Generator) :
    generator.setAll setters = (.ok (), generator.patched (Patch.joined (setters.map Setter.patch))) := by
  induction setters generalizing generator with
  | nil => rfl
  | cons setter setters inductionHypothesis =>
    obtain ⟨first, others⟩ := List.forall_mem_cons.mp accepted
    rw [setAll, set_of_accepted first, List.map_cons, Patch.joined_cons, patched_followedBy]
    exact inductionHypothesis others _

theorem setAll_of_refused {front behind : List Setter} (accepted : ∀ other ∈ front, other.refusal? = none)
    (refused : setter.refusal? = some error) (generator : Generator) :
    generator.setAll (front ++ setter :: behind) =
      (.error error, generator.patched (Patch.joined (front.map Setter.patch))) := by
  induction front generalizing generator with
  | nil =>
    rw [List.nil_append, setAll, set_of_refused refused]
    rfl
  | cons other front inductionHypothesis =>
    obtain ⟨first, others⟩ := List.forall_mem_cons.mp accepted
    rw [List.cons_append, setAll, set_of_accepted first, List.map_cons, Patch.joined_cons, patched_followedBy]
    exact inductionHypothesis others _

end StyleSkeleton.Generator
