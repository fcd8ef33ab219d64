import StyleSkeleton.Proofs.Outline.Blocks
import StyleSkeleton.Proofs.Outline.Resuming

/-! # What is around a block

A complete block in the middle of any events has no influence on the entries of the others, but for the names
that it takes from them by having them first.  The events around it need not be well-formed.  The tag in front
of the block may still collect names, or be void, as the block begins with an opening and settles it.
-/

namespace StyleSkeleton.Outline

open StyleSkeleton.Markup

variable {ignored : NameSet} {before block after : List Event}

def newBehind (ignored : NameSet) (replay : Replay) (candidates : List Entry) (after : List Event) : List Entry :=
  (replay.unrecorded.run ignored after).settle.entries.filter fun entry =>
    entry.name ∉ replay.seen.insertAll (candidates.map Entry.name)

section Absorbed

variable {candidates : List Entry}

theorem ofEvents_of_absorbed
    (absorbed : replayed ignored (before ++ block) = (replayed ignored before).absorb candidates) :
    ofEvents ignored (before ++ block) =
      ofEvents ignored before ++ fresh (replayed ignored before).seen candidates := by
  rw [ofEvents, absorbed]
  rfl

theorem ofEvents_behind_absorbed
    (absorbed : replayed ignored (before ++ block) = (replayed ignored before).absorb candidates)
    (startsAnew : ∀ event ∈ after.head?, event.isClassName = false) :
    ofEvents ignored (before ++ block ++ after) =
      ofEvents ignored (before ++ block) ++ newBehind ignored (replayed ignored before) candidates after := by
  have settled : ofEvents ignored (before ++ block ++ after) =
      ((replayed ignored (before ++ block)).run ignored after).settle.entries := by
    rw [ofEvents, replayed, Replay.run_append _ _ (before ++ block), ← Replay.settle_run_settle _ startsAnew]
    rfl
  rw [settled, absorbed, Replay.entries_settle_run_absorb, ofEvents_of_absorbed absorbed, List.append_assoc]
  rfl

end Absorbed

/-- A complete block changes nothing for the names that do not occur in it.  The open tags behind it are those
in front of it. -/
theorem ofEvents_around_block (ignored : NameSet) (before block after : List Event) (isBlock : IsBlock block)
    (startsAnew : ∀ event ∈ after.head?, event.isClassName = false) :
    (ofEvents ignored (before ++ block ++ after)).filter (fun entry => entry.name ∉ namesIn block) =
        (ofEvents ignored (before ++ after)).filter (fun entry => entry.name ∉ namesIn block) ∧
      (replayed ignored (before ++ block)).stack = (replayed ignored before).stack := by
  obtain ⟨tree, kinds⟩ := isBlock
  let candidates := tree.entries ignored (depth (replayed ignored before).stack)
  have absorbed : replayed ignored (before ++ block) = (replayed ignored before).absorb candidates :=
    Block.replayed_append kinds ignored before
  have nothing : replayed ignored (before ++ []) = (replayed ignored before).absorb [] := by
    rw [Replay.absorb_nil, List.append_nil]
  have withBlock := ofEvents_behind_absorbed absorbed startsAnew
  have without := ofEvents_behind_absorbed nothing startsAnew
  rw [List.append_nil] at without
  constructor
  · have hidden : (fresh (replayed ignored before).seen candidates).filter (fun entry => entry.name ∉ namesIn block) =
        [] := by
      rw [List.filter_eq_nil_iff]
      intro entry member
      simpa using Block.names_entries kinds (mem_names_fresh.mp (List.mem_map_of_mem member)).1
    have behind : (newBehind ignored (replayed ignored before) candidates after).filter
          (fun entry => entry.name ∉ namesIn block) =
        (newBehind ignored (replayed ignored before) [] after).filter (fun entry => entry.name ∉ namesIn block) := by
      rw [newBehind, newBehind, List.filter_filter, List.filter_filter]
      refine List.filter_congr fun entry _ => ?_
      -- The names that the block adds to those seen are names of the block.
      by_cases inBlock : entry.name ∈ namesIn block
      · simp [inBlock]
      · have apart : entry.name ∉ candidates.map Entry.name := fun member =>
          inBlock (Block.names_entries kinds member)
        simp [apart]
    rw [withBlock, without, ofEvents_of_absorbed absorbed, List.filter_append, List.filter_append, List.filter_append,
      hidden, behind, List.append_nil]
  · rw [absorbed, Replay.absorb_stack]

/-- A tag that still collects stands in front of an image with a class that comes again behind it. -/
theorem ofEvents_around_image :
    let before : List Event := [⟨0, .closing⟩, ⟨1, .opening "div"⟩, ⟨2, .className "card"⟩]
    let block : List Event :=
      [⟨3, .opening "IMG"⟩, ⟨4, .className "icon"⟩, ⟨5, .opening "p"⟩, ⟨6, .className "text"⟩, ⟨7, .closing⟩]
    let after : List Event := [⟨8, .opening "span"⟩, ⟨9, .className "icon"⟩, ⟨10, .className "label"⟩]
    ofEvents ∅ (before ++ block ++ after) =
      [⟨"div", "card", 0⟩, ⟨"IMG", "icon", 1⟩, ⟨"p", "text", 1⟩, ⟨"span", "label", 1⟩] ∧
    ofEvents ∅ (before ++ after) = [⟨"div", "card", 0⟩, ⟨"span", "icon", 1⟩, ⟨"span", "label", 1⟩] ∧
    (ofEvents ∅ (before ++ block ++ after)).filter (fun entry => entry.name ∉ namesIn block) =
        (ofEvents ∅ (before ++ after)).filter (fun entry => entry.name ∉ namesIn block) ∧
      (replayed ∅ (before ++ block)).stack = (replayed ∅ before).stack := by
  intro before block after
  have isBlock : IsBlock block :=
    ⟨.void "IMG" (by decide) ["icon"] (.element "p" (by decide) ["text"] .done .done), by decide⟩
  exact ⟨by decide, by decide, ofEvents_around_block ∅ before block after isBlock (by decide)⟩

end StyleSkeleton.Outline
