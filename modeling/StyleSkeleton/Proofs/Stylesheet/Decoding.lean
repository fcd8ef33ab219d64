import StyleSkeleton.Proofs.Forest.Outlined
import StyleSkeleton.Proofs.Outline.Reading
import StyleSkeleton.Proofs.Stylesheet.Lines

/-! # Reading a stylesheet back

Given the settings, a stylesheet tells the outline it was made from, as far as the settings let the
outline show.  `read` cuts the text into lines, picks the first line of every rule by counting, and
takes that line apart: blanks up to the selector, a tag up to the first dot, a name up to the next
blank.

Nothing is escaped in a stylesheet, so this depends on what scanning lets through: tags without dots
and blanks, and names without blanks.  Names may well contain dots, braces and quotes.
-/

namespace StyleSkeleton.Stylesheet

open StyleSkeleton.Markup StyleSkeleton.Text
open StyleSkeleton.Outline (Entry)

/-! ## What is shown -/

structure Shown where
  tag : String
  name : String
  level : Option Nat
deriving DecidableEq, Repr

def shown (settings : Settings) (entry : Entry) : Shown where
  tag := if settings.tags.includes entry.tag then entry.tag else ""
  name := entry.name
  level := if settings.flat then none else some entry.level

/-! ## Reading -/

/-- The items of a list that have `gap` items between them, the first of them after `skip` items. -/
def spaced {α : Type} (gap : Nat) : Nat → List α → List α
  | _, [] => []
  | 0, item :: items => item :: spaced gap gap items
  | skip + 1, _ :: items => spaced gap skip items

def readLine (settings : Settings) (line : List Char) : Shown where
  tag := String.ofList ((line.dropWhile isBlank).takeWhile (· != '.'))
  name := String.ofList ((((line.dropWhile isBlank).dropWhile (· != '.')).drop 1).takeWhile (!isBlank ·))
  level := if settings.flat then none else some ((line.takeWhile isBlank).length / settings.indent.length)

def read (settings : Settings) (stylesheet : String) : List Shown :=
  if stylesheet = "" then []
  else (spaced (height settings - 1 + settings.separatorLines) 0
    (List.splitOn '\n' stylesheet.toList)).map (readLine settings)

/-! ## Picking first lines -/

section Spaced

variable {α β : Type} {gap skip : Nat} {passed items : List α}

theorem spaced_append (many : passed.length = skip) : spaced gap skip (passed ++ items) = spaced gap 0 items := by
  induction passed generalizing skip with
  | nil =>
    cases many
    rfl
  | cons item passed inductionHypothesis =>
    cases many
    exact inductionHypothesis rfl

theorem spaced_eq_nil (few : items.length ≤ skip) : spaced gap skip items = [] := by
  induction items generalizing skip with
  | nil => rw [spaced]
  | cons item items inductionHypothesis =>
    cases skip with
    | zero => cases few
    | succ skip => exact inductionHypothesis (Nat.le_of_succ_le_succ few)

theorem spaced_map (f : α → β) : spaced gap skip (items.map f) = (spaced gap skip items).map f := by
  induction items generalizing skip with
  | nil => simp [spaced]
  | cons item items inductionHypothesis => cases skip <;> simp [spaced, inductionHypothesis]

end Spaced

theorem spaced_allLines (settings : Settings) (entries : List Entry) :
    spaced (height settings - 1 + settings.separatorLines) 0 (allLines settings entries) =
      entries.map (firstLine settings) := by
  induction entries with
  | nil => rw [allLines, spaced, List.map_nil]
  | cons entry entries inductionHypothesis =>
    have behind : (lines settings entry).tail.length = height settings - 1 := by
      rw [List.length_tail, length_lines]
    rw [allLines, lines_eq_cons, List.cons_append, spaced, List.map_cons]
    congr 1
    -- What is skipped now are the other lines of the rule and the empty lines behind it.
    by_cases more : entries = []
    · rw [if_pos more, List.append_nil, more, List.map_nil]
      exact spaced_eq_nil (by omega)
    · rw [if_neg more, ← List.append_assoc, ← inductionHypothesis]
      exact spaced_append (by rw [List.length_append, behind, List.length_replicate])

/-! ## Taking a line apart -/

theorem ne_dot_of_isNameChar {char : Char} (named : isNameChar char = true) : (char != '.') = true := by
  have notNamed : isNameChar '.' = false := by decide
  rw [bne_iff_ne]
  rintro rfl
  cases notNamed.symm.trans named

theorem readLine_of_parts (settings : Settings) {blanks tag name ending : List Char}
    (blank : ∀ char ∈ blanks, isBlank char = true) (named : ∀ char ∈ tag, isNameChar char = true)
    (visible : ∀ char ∈ name, isBlank char = false) (ends : ∀ char ∈ ending.head?, isBlank char = true) :
    readLine settings (blanks ++ (tag ++ ('.' :: name ++ ending))) =
      ⟨String.ofList tag, String.ofList name,
        if settings.flat then none else some (blanks.length / settings.indent.length)⟩ := by
  have begins : ∀ char ∈ (tag ++ ('.' :: name ++ ending)).head?, isBlank char = false := by
    cases tag with
    | nil => simp [isBlank, blankRanges]
    | cons first others => simpa using visible_of_isNameChar (named first List.mem_cons_self)
  have noDot : ∀ char ∈ tag, (char != '.') = true := fun char member => ne_dot_of_isNameChar (named char member)
  have dot : ∀ char ∈ ('.' :: name ++ ending).head?, (char != '.') = false := by simp
  have inName : ∀ char ∈ name, (!isBlank char) = true := fun char member => by simp [visible char member]
  have behindName : ∀ char ∈ ending.head?, (!isBlank char) = false := fun char isNext => by
    simp [ends char isNext]
  rw [readLine, takeWhile_run blank begins, dropWhile_run blank begins, takeWhile_run noDot dot,
    dropWhile_run noDot dot, List.cons_append, List.drop_one, List.tail_cons, takeWhile_run inName behindName]

/-! ## Legible entries -/

structure Legible (entry : Entry) : Prop where
  tag_named : ∀ char ∈ entry.tag.toList, isNameChar char = true
  name_visible : ∀ char ∈ entry.name.toList, isBlank char = false

theorem Legible.oneLine {entry : Entry} (legible : Legible entry) : OneLine entry where
  tag member := absurd (legible.tag_named _ member) (by decide)
  name member := absurd (legible.name_visible _ member) (by decide)

theorem mem_unit {style : IndentStyle} {width : Nat} {char : Char} (member : char ∈ (style.unit width).toList) :
    char = '\t' ∨ char = ' ' := by
  have isStep := mem_of_mem_repeated member
  cases style with
  | tabs => exact .inl (by simpa [IndentStyle.char] using isStep)
  | spaces => exact .inr (by simpa [IndentStyle.char] using isStep)

theorem length_unit_pos (style : IndentStyle) (width : Nat) : 0 < (style.unit width).length := by
  have single : style.char.length = 1 := by cases style <;> rfl
  rw [IndentStyle.unit, length_repeated, single]
  omega

section Reading

variable {settings : Settings} {style : IndentStyle} {width : Nat} {entry : Entry}

theorem isBlank_of_mem_margin (indented : settings.indent = style.unit width) {char : Char}
    (member : char ∈ (margin settings entry).toList) : isBlank char = true := by
  unfold margin at member
  split at member
  · cases member
  · have inUnit := mem_of_mem_repeated member
    rw [indented] at inUnit
    cases mem_unit inUnit with
    | inl tab => exact tab ▸ by decide
    | inr space => exact space ▸ by decide

theorem readLine_firstLine (indented : settings.indent = style.unit width) (legible : Legible entry) :
    readLine settings (firstLine settings entry).toList = shown settings entry := by
  have named : ∀ char ∈ (shown settings entry).tag.toList, isNameChar char = true := by
    unfold shown
    split
    · exact legible.tag_named
    · simp
  have ends : ∀ char ∈ (selectorEnd settings).toList.head?, isBlank char = true := by
    unfold selectorEnd
    split
    · simp [isBlank, blankRanges]
    · simp
  have parts : (firstLine settings entry).toList =
      (margin settings entry).toList ++ ((shown settings entry).tag.toList ++
        ('.' :: entry.name.toList ++ (selectorEnd settings).toList)) := by
    simp [firstLine, selector, shown]
  rw [parts, readLine_of_parts settings (fun char => isBlank_of_mem_margin indented) named
    legible.name_visible ends, String.ofList_toList, String.ofList_toList]
  -- The margin repeats the step of indentation, which is not empty, so that its length tells how often.
  have level : (margin settings entry).toList.length / settings.indent.length =
      if settings.flat then 0 else entry.level := by
    unfold margin
    split
    · simp
    · have positive : 0 < settings.indent.length := indented ▸ length_unit_pos style width
      rw [String.length_toList, length_repeated, Nat.mul_div_cancel _ positive]
  rw [level]
  cases flat : settings.flat <;> simp [shown, flat]

theorem render_ne_empty (entry : Entry) (entries : List Entry) : render settings (entry :: entries) ≠ "" := by
  intro empty
  have chars := congrArg String.toList empty
  rw [render_eq_allLines, allLines, lines_eq_cons] at chars
  cases others : (lines settings entry).tail ++
      (if entries = [] then [] else List.replicate settings.separatorLines "" ++ allLines settings entries) <;>
    simp [others, firstLine, selector] at chars

theorem read_render (indented : settings.indent = style.unit width) {entries : List Entry}
    (legible : ∀ entry ∈ entries, Legible entry) :
    read settings (render settings entries) = entries.map (shown settings) := by
  cases entries with
  | nil => simp [render, read]
  | cons entry entries =>
    have indent : '\n' ∉ settings.indent.toList := fun member => by
      rw [indented] at member
      cases mem_unit member <;> contradiction
    have cut := splitOn_render indent (fun other member => (legible other member).oneLine)
      (List.cons_ne_nil entry entries)
    rw [read, if_neg (render_ne_empty entry entries), cut, spaced_map, spaced_allLines, List.map_map,
      List.map_map]
    apply List.map_congr_left
    intro other member
    exact readLine_firstLine indented (legible other member)

end Reading

/-! ## From markup -/

theorem legible_of_mem_ofMarkup {ignored : NameSet} {markup : String} {entry : Entry}
    (member : entry ∈ Outline.ofMarkup ignored markup) : Legible entry := by
  obtain ⟨⟨opening, isOpening, opens⟩, ⟨className, isName, names⟩⟩ :=
    Outline.exists_events_of_mem_ofEvents member
  have tagRead := mem_scan_iff.mp isOpening
  have nameRead := mem_scan_iff.mp isName
  simp only [IsEvent, opens] at tagRead
  simp only [IsEvent, names] at nameRead
  obtain ⟨_, name, _, _, _, _, named, _, isTag⟩ := tagRead
  obtain ⟨found, _, number, isWord, _⟩ := nameRead
  refine ⟨?_, visible_of_mem_wordsOf (List.mem_of_getElem? isWord)⟩
  rw [isTag, String.toList_ofList]
  exact named

theorem shown_injective {settings : Settings} (nested : settings.flat = false) (always : settings.tags = .always) :
    Function.Injective (shown settings) := by
  rintro ⟨tag, name, level⟩ ⟨otherTag, otherName, otherLevel⟩ same
  simpa [shown, nested, always, TagPolicy.includes] using same

/-- The settings and the stylesheet of a markup text determine its outline, as far as the settings let it show. -/
theorem read_ofMarkup (settings : Settings) (style : IndentStyle) (width : Nat)
    (indented : settings.indent = style.unit width) :
    (∀ markup, read settings (ofMarkup settings markup) =
      (Outline.ofMarkup settings.ignored markup).map (shown settings)) ∧
    (settings.flat = false → settings.tags = .always → ∀ first second,
      ofMarkup settings first = ofMarkup settings second →
        Outline.ofMarkup settings.ignored first = Outline.ofMarkup settings.ignored second) := by
  have reads : ∀ markup, read settings (ofMarkup settings markup) =
      (Outline.ofMarkup settings.ignored markup).map (shown settings) := fun markup =>
    read_render indented fun entry => legible_of_mem_ofMarkup
  refine ⟨reads, fun nested always first second same => ?_⟩
  apply (shown_injective nested always).list_map
  rw [← reads first, ← reads second, same]

section Example

/-- A list whose class names look like parts of a stylesheet. -/
def dotted : Forest :=
  .element (.classed "ul" "" "a.b") (.element (.classed "li" "" ".\x7b\x7d") .done [] .done) [] .done

def dottedSettings : Settings :=
  { indent := IndentStyle.tabs.unit 0
    tags := .only (NameSet.ofList ["li"])
    brace := .ownLine
    separatorLines := 2 }

theorem read_ofMarkup_dotted :
    dottedSettings.indent = IndentStyle.tabs.unit 0 ∧
      read dottedSettings (ofMarkup dottedSettings (String.ofList dotted.markup)) =
        [⟨"", "a.b", some 0⟩, ⟨"li", ".\x7b\x7d", some 1⟩] := by
  have indented : dottedSettings.indent = IndentStyle.tabs.unit 0 := rfl
  have wellFormed : dotted.WellFormed := by decide
  have unbroken : dotted.Unbroken := by decide
  have outlined : Outline.ofMarkup dottedSettings.ignored (String.ofList dotted.markup) =
      dotted.outline dottedSettings.ignored :=
    dotted.ofEvents_of_kinds wellFormed _ (dotted.scan_markup wellFormed unbroken)
  refine ⟨indented, ?_⟩
  rw [(read_ofMarkup dottedSettings .tabs 0 indented).1, outlined]
  decide

end Example

end StyleSkeleton.Stylesheet
