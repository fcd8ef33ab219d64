import StyleSkeleton.Proofs.Forest.Scanned
import StyleSkeleton.Proofs.Outline.Blocks

/-! # The outline of a forest

Replaying the events of a forest comes to the same as the recursion on its tree.  Without its spelling a
forest is a block, and its replay absorbs the entries of that block wherever it begins.
-/

namespace StyleSkeleton

open StyleSkeleton.Markup StyleSkeleton.Outline StyleSkeleton.Text

/-! ## Forests -/

namespace Forest

def block : (forest : Forest) → forest.WellFormed → Block
  | done, _ => .done
  | text _ rest, wellFormed => rest.block wellFormed.2
  | void head rest, wellFormed =>
    .void (String.ofList head.tag) wellFormed.1 head.names (rest.block wellFormed.2.2)
  | element head children _ rest, wellFormed =>
    .element (String.ofList head.tag) wellFormed.1 head.names (children.block wellFormed.2.2.1)
      (rest.block wellFormed.2.2.2.2)

theorem kinds_block (forest : Forest) (wellFormed : forest.WellFormed) :
    (forest.block wellFormed).kinds = forest.kinds := by
  induction forest with
  | done => rfl
  | text content rest inductionHypothesis => exact inductionHypothesis wellFormed.2
  | void head rest inductionHypothesis =>
    rw [block, Block.kinds, inductionHypothesis]
    rfl
  | element head children closing rest childrenHypothesis restHypothesis =>
    rw [block, Block.kinds, childrenHypothesis, restHypothesis]
    rfl

theorem entries_block (forest : Forest) (wellFormed : forest.WellFormed) (ignored : NameSet) (level : Nat) :
    (forest.block wellFormed).entries ignored level = forest.entries ignored level := by
  induction forest generalizing level with
  | done => rfl
  | text content rest inductionHypothesis => exact inductionHypothesis wellFormed.2 level
  | void head rest inductionHypothesis =>
    rw [block, Block.entries, inductionHypothesis]
    rfl
  | element head children closing rest childrenHypothesis restHypothesis =>
    rw [block, Block.entries, childrenHypothesis, restHypothesis]
    rfl

theorem settle_feed_kinds (forest : Forest) (wellFormed : forest.WellFormed) (ignored : NameSet)
    (replay : Replay) :
    (replay.feed ignored forest.kinds).settle =
      replay.settle.absorb (forest.entries ignored (depth replay.settle.stack)) := by
  rw [← forest.kinds_block wellFormed, Block.settle_feed_kinds, forest.entries_block]

theorem ofEvents_of_kinds (forest : Forest) (wellFormed : forest.WellFormed) (ignored : NameSet)
    {events : List Event} (kinds : events.map Event.kind = forest.kinds) :
    ofEvents ignored events = forest.outline ignored := by
  have settled : Replay.start.settle = Replay.start := rfl
  rw [ofEvents, replayed, Replay.run_eq_feed, kinds, forest.settle_feed_kinds wellFormed, settled]
  exact fresh_empty _

end Forest

/-! ## Forests and their markup -/

/-- However a forest is spelled, the outline of its markup is the outline of the tree. -/
theorem ofMarkup_markup (ignored : NameSet) (forest : Forest) (wellFormed : forest.WellFormed)
    (unbroken : forest.Unbroken) : ofMarkup ignored (String.ofList forest.markup) = forest.outline ignored :=
  forest.ofEvents_of_kinds wellFormed ignored (forest.scan_markup wellFormed unbroken)

section Examples

def Head.bare (tag before behind : String) : Head :=
  ⟨tag.toList, before.toList, none, behind.toList⟩

def Head.classed (tag before name : String) : Head :=
  ⟨tag.toList, before.toList, some ⟨[' '], "class".toList, [], [], '"', [⟨[], name.toList⟩], []⟩, []⟩

def Forest.items : Forest :=
  .element (.classed "ul" " id=x" "list")
    (.text ['\n']
      (.element (.classed "LI" "" "item") (.void (.bare "Br" "/" "") .done) ['L', 'I']
        (.element (.classed "li" "" "hidden") (.element (.classed "b" "" "item") .done [] .done) [] .done)))
    ['u', 'l'] .done

theorem ofMarkup_items :
    Forest.items.WellFormed ∧ Forest.items.Unbroken ∧
      ofMarkup (NameSet.ofList ["hidden"]) (String.ofList Forest.items.markup) =
        [⟨"ul", "list", 0⟩, ⟨"LI", "item", 1⟩] := by
  have wellFormed : Forest.items.WellFormed := by decide
  have unbroken : Forest.items.Unbroken := by decide
  refine ⟨wellFormed, unbroken, ?_⟩
  rw [ofMarkup_markup _ Forest.items wellFormed unbroken]
  decide

/-! Three forests that are well-formed but not unbroken, each with another one of the same markup. -/

/-- A tag is continued by the filler behind a missing class attribute. -/
def Forest.brokenName : Forest :=
  .element (.classed "div" "" "a")
    (.element (.bare "b" "" "r") .done []
      (.void (.bare "br" "" "x") (.element (.classed "i" "" "c") .done [] .done)))
    [] .done

def Forest.wholeName : Forest :=
  .element (.classed "div" "" "a") (.void (.bare "br" "" "") .done) []
    (.element (.bare "brx" "" "") (.element (.classed "i" "" "c") .done [] .done) [] .done)

/-- Two fillers make up a class attribute. -/
def Forest.brokenFiller : Forest :=
  .element (.bare "p" " cla" "ss=\"x\"") .done [] .done

def Forest.wholeFiller : Forest :=
  .element (.classed "p" "" "x") .done [] .done

/-- Two texts make up a class attribute. -/
def Forest.brokenText : Forest :=
  .element (.bare "p" "" "") (.text " cla".toList (.text "ss=\"x\">".toList .done)) [] .done

def Forest.wholeText : Forest :=
  .element (.classed "p" ">" "x") .done [] .done

/-- A markup that can be taken for two forests has the outline of the unbroken one. -/
theorem outline_of_same_markup {broken whole : Forest} (same : broken.markup = whole.markup)
    (wellFormed : whole.WellFormed) (unbroken : whole.Unbroken)
    (differ : whole.outline ∅ ≠ broken.outline ∅) :
    ofMarkup ∅ (String.ofList broken.markup) ≠ broken.outline ∅ := by
  have kinds := whole.scan_markup wellFormed unbroken
  rw [same]
  intro outlined
  exact differ ((whole.ofEvents_of_kinds wellFormed ∅ kinds).symm.trans outlined)

theorem ofMarkup_broken :
    (Forest.brokenName.WellFormed ∧
      ofMarkup ∅ (String.ofList Forest.brokenName.markup) ≠ Forest.brokenName.outline ∅) ∧
    (Forest.brokenFiller.WellFormed ∧
      ofMarkup ∅ (String.ofList Forest.brokenFiller.markup) ≠ Forest.brokenFiller.outline ∅) ∧
    (Forest.brokenText.WellFormed ∧
      ofMarkup ∅ (String.ofList Forest.brokenText.markup) ≠ Forest.brokenText.outline ∅) := by
  refine ⟨⟨by decide, ?_⟩, ⟨by decide, ?_⟩, ⟨by decide, ?_⟩⟩
  · have same : Forest.brokenName.markup = Forest.wholeName.markup := by decide
    exact outline_of_same_markup same (by decide) (by decide) (by decide)
  · have same : Forest.brokenFiller.markup = Forest.wholeFiller.markup := by decide
    exact outline_of_same_markup same (by decide) (by decide) (by decide)
  · have same : Forest.brokenText.markup = Forest.wholeText.markup := by decide
    exact outline_of_same_markup same (by decide) (by decide) (by decide)

end Examples

end StyleSkeleton
