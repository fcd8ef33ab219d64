import StyleSkeleton.Proofs.Stylesheet.Lines

/-! # Nested and flat layout

A rule has the same lines in both layouts.  Nested layout puts the step of indentation in front of
each of them, as often as the level says, and leaves the empty lines between rules alone
(`nested_is_flat_indented`).  So the levels of an outline are lost in flat layout.

Lines are cut out of the finished text here, at its line feeds.  They are those that the rule was
made of as long as neither the indentation nor an entry has a line feed in it.
-/

namespace StyleSkeleton

namespace Text

def linesOf (text : String) : List String :=
  (text.toList.splitOn '\n').map String.ofList

def indented (margin text : String) : String :=
  "\n".intercalate ((linesOf text).map (margin ++ ·))

theorem linesOf_intercalate {lines : List String} (nonempty : lines ≠ [])
    (feedless : ∀ line ∈ lines, '\n' ∉ line.toList) : linesOf ("\n".intercalate lines) = lines := by
  rw [linesOf, splitOn_intercalate nonempty feedless, List.map_map]
  simp [Function.comp_def]

end Text

namespace Stylesheet

open StyleSkeleton.Outline (Entry)
open StyleSkeleton.Text (repeated linesOf indented)

/-! ## The two layouts -/

def flattened (settings : Settings) : Settings :=
  { settings with flat := true }

def nested (settings : Settings) : Settings :=
  { settings with flat := false }

variable {settings : Settings} {entry : Entry}

theorem linesOf_rule (indent : '\n' ∉ settings.indent.toList) (oneLine : OneLine entry) :
    linesOf (rule settings entry) = lines settings entry := by
  rw [rule_eq_lines]
  exact Text.linesOf_intercalate (lines_ne_nil settings entry) (newline_not_mem_lines indent oneLine)

theorem lines_flattened (settings : Settings) (entry : Entry) :
    lines (flattened settings) entry = ruleLines settings entry := by
  have noMargin : margin (flattened settings) entry = "" := rfl
  rw [lines, noMargin]
  simp only [String.empty_append, List.map_id']
  rfl

theorem rule_nested (indent : '\n' ∉ settings.indent.toList) (oneLine : OneLine entry) :
    rule (nested settings) entry = indented (repeated settings.indent entry.level) (rule (flattened settings) entry) := by
  have cut : linesOf (rule (flattened settings) entry) = lines (flattened settings) entry :=
    linesOf_rule indent oneLine
  rw [indented, cut, lines_flattened, rule_eq_lines]
  rfl

theorem height_eq (settings : Settings) :
    height settings = 2 + (if settings.brace = .ownLine then 1 else 0) + if settings.inner then 1 else 0 := by
  cases brace : settings.brace <;> simp [height, brace]

theorem map_rule_flattened (settings : Settings) (outline : List Entry) :
    outline.map (rule (flattened settings)) =
      (outline.map fun entry => (entry.tag, entry.name)).map fun (tag, name) => rule (flattened settings) ⟨tag, name, 0⟩ := by
  rw [List.map_map]
  rfl

/-- A nested stylesheet is the flat one with each rule indented by its level.  The rules have as many lines as the
settings say, the separators between them are the same, and nothing of the levels is left in the flat one. -/
theorem nested_is_flat_indented (settings : Settings) (outline : List Entry)
    (indent : '\n' ∉ settings.indent.toList) (oneLine : ∀ entry ∈ outline, OneLine entry) :
    render (flattened settings) outline =
      (separator settings).intercalate (outline.map (rule (flattened settings))) ∧
    render (nested settings) outline =
      (separator settings).intercalate (outline.map fun entry =>
        indented (repeated settings.indent entry.level) (rule (flattened settings) entry)) ∧
    (∀ entry ∈ outline, ∀ flat, (linesOf (rule { settings with flat } entry)).length =
      2 + (if settings.brace = .ownLine then 1 else 0) + if settings.inner then 1 else 0) ∧
    ∀ others : List Entry, others.map (fun entry => (entry.tag, entry.name)) =
      outline.map (fun entry => (entry.tag, entry.name)) →
        render (flattened settings) others = render (flattened settings) outline := by
  refine ⟨rfl, ?_, fun entry member flat => ?_, fun others same => ?_⟩
  · have rules : outline.map (rule (nested settings)) = outline.map fun entry =>
        indented (repeated settings.indent entry.level) (rule (flattened settings) entry) :=
      List.map_congr_left fun entry member => rule_nested indent (oneLine entry member)
    rw [render, rules]
    rfl
  · have cut : linesOf (rule { settings with flat } entry) = lines { settings with flat } entry :=
      linesOf_rule indent (oneLine entry member)
    rw [cut, length_lines, height_eq]
  · rw [render, render, map_rule_flattened, same, ← map_rule_flattened]

/-- Of two rules with three lines each, the second one is indented by two steps. -/
theorem nested_is_flat_indented_twice :
    let settings : Settings := { indent := "  ", brace := .ownLine, inner := false }
    let outline : List Entry := [⟨"ul", "menu", 0⟩, ⟨"a", "link", 2⟩]
    '\n' ∉ settings.indent.toList ∧ (∀ entry ∈ outline, OneLine entry) ∧
      render (nested settings) outline = (separator settings).intercalate
        [indented "" ".menu\n\x7b\n\x7d", indented "    " ".link\n\x7b\n\x7d"] ∧
      render (nested settings) outline = ".menu\n\x7b\n\x7d\n    .link\n    \x7b\n    \x7d" := by
  intro settings outline
  have feedless : '\n' ∉ settings.indent.toList := by decide
  have oneLine : ∀ entry ∈ outline, OneLine entry := by
    simp only [outline, List.forall_mem_cons]
    exact ⟨⟨by decide, by decide⟩, ⟨by decide, by decide⟩, fun _ member => by cases member⟩
  obtain ⟨_, layout, _⟩ := nested_is_flat_indented settings outline feedless oneLine
  refine ⟨feedless, oneLine, ?_, by decide⟩
  rw [layout]
  decide

end Stylesheet

end StyleSkeleton
