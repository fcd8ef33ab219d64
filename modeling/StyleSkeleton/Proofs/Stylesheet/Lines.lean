import StyleSkeleton.Stylesheet

/-! # The lines of a stylesheet

A stylesheet is a list of lines with line feeds between them.  Every rule takes as many lines as the
settings say, whatever its entry, and between two rules stand the empty lines of the separator.
-/

namespace StyleSkeleton

/-! ## Repeated texts -/

namespace Text

theorem repeated_succ (text : String) (count : Nat) :
    repeated text (count + 1) = text ++ repeated text count := by
  rw [repeated_eq_join, repeated_eq_join, List.replicate_succ, String.join_cons]

theorem mem_of_mem_repeated {text : String} {count : Nat} {char : Char}
    (member : char ∈ (repeated text count).toList) : char ∈ text.toList := by
  rw [repeated_eq_join, String.toList_join] at member
  obtain ⟨copy, isCopy, inside⟩ := List.mem_flatMap.mp member
  rwa [List.eq_of_mem_replicate isCopy] at inside

theorem length_repeated (text : String) (count : Nat) : (repeated text count).length = count * text.length := by
  induction count with
  | zero => simp [repeated_eq_join]
  | succ count inductionHypothesis =>
    rw [repeated_succ, String.length_append, inductionHypothesis, Nat.succ_mul, Nat.add_comm]

/-! ## Joined lines -/

theorem splitOn_intercalate {lines : List String} (nonempty : lines ≠ [])
    (feedless : ∀ line ∈ lines, '\n' ∉ line.toList) :
    List.splitOn '\n' ("\n".intercalate lines).toList = lines.map String.toList := by
  have feed : "\n".toList = ['\n'] := rfl
  rw [String.toList_intercalate, feed]
  apply List.splitOn_intercalate
  · simpa using feedless
  · simpa using nonempty

end Text

namespace Stylesheet

open StyleSkeleton.Outline (Entry)
open StyleSkeleton.Text (repeated)

/-! ## The lines of a rule -/

/-- The lines of an entry's rule before they are indented. -/
def ruleLines (settings : Settings) (entry : Entry) : List String :=
  (match settings.brace with
    | .sameLine => [selector settings entry ++ " \x7b"]
    | .ownLine => [selector settings entry, "\x7b"]) ++
  (if settings.inner then [settings.indent] else []) ++
  ["\x7d"]

def lines (settings : Settings) (entry : Entry) : List String :=
  (ruleLines settings entry).map (margin settings entry ++ ·)

/-- A rule is written piece by piece, and each line feed in it is followed by the margin. -/
theorem rule_eq_lines (settings : Settings) (entry : Entry) :
    rule settings entry = "\n".intercalate (lines settings entry) := by
  cases brace : settings.brace <;> cases inner : settings.inner <;>
    simp [rule, lines, ruleLines, brace, inner, String.append_assoc, -String.reduceAppend]

def height (settings : Settings) : Nat :=
  (match settings.brace with
    | .sameLine => 2
    | .ownLine => 3) + if settings.inner then 1 else 0

def selectorEnd (settings : Settings) : String :=
  match settings.brace with
  | .sameLine => " \x7b"
  | .ownLine => ""

def firstLine (settings : Settings) (entry : Entry) : String :=
  margin settings entry ++ (selector settings entry ++ selectorEnd settings)

theorem length_lines (settings : Settings) (entry : Entry) : (lines settings entry).length = height settings := by
  cases brace : settings.brace <;> cases inner : settings.inner <;>
    simp [lines, ruleLines, height, brace, inner]

theorem lines_eq_cons (settings : Settings) (entry : Entry) :
    lines settings entry = firstLine settings entry :: (lines settings entry).tail := by
  cases brace : settings.brace <;> simp [lines, ruleLines, firstLine, selectorEnd, brace]

theorem lines_ne_nil (settings : Settings) (entry : Entry) : lines settings entry ≠ [] := by
  rw [lines_eq_cons]
  exact List.cons_ne_nil _ _

structure OneLine (entry : Entry) : Prop where
  tag : '\n' ∉ entry.tag.toList
  name : '\n' ∉ entry.name.toList

theorem newline_not_mem_lines {settings : Settings} {entry : Entry} (indent : '\n' ∉ settings.indent.toList)
    (oneLine : OneLine entry) : ∀ line ∈ lines settings entry, '\n' ∉ line.toList := by
  have inMargin : '\n' ∉ (margin settings entry).toList := by
    unfold margin
    split
    · simp
    · exact fun member => indent (Text.mem_of_mem_repeated member)
  have inSelector : '\n' ∉ (selector settings entry).toList := by
    unfold selector
    split <;> simp [oneLine.tag, oneLine.name]
  have bare : ∀ line ∈ ruleLines settings entry, '\n' ∉ line.toList := by
    cases brace : settings.brace <;> cases inner : settings.inner <;>
      simp [ruleLines, brace, inner, inSelector, indent]
  intro line member
  obtain ⟨bareLine, isLine, rfl⟩ := List.mem_map.mp member
  simp [inMargin, bare bareLine isLine]

/-! ## The lines of all rules -/

theorem render_cons {settings : Settings} {entries : List Entry} (more : entries ≠ []) (entry : Entry) :
    render settings (entry :: entries) = rule settings entry ++ separator settings ++ render settings entries := by
  rw [render, List.map_cons, String.intercalate_cons_of_ne_nil (by simpa using more), render]

theorem render_append (settings : Settings) (first second : List Entry) :
    ∃ rest, render settings (first ++ second) = render settings first ++ rest := by
  by_cases noFirst : first = []
  · exact ⟨render settings second, by simp [noFirst, render]⟩
  by_cases noSecond : second = []
  · exact ⟨"", by simp [noSecond]⟩
  · refine ⟨separator settings ++ render settings second, ?_⟩
    rw [render, List.map_append, String.intercalate_append_of_ne_nil (by simpa using noFirst)
      (by simpa using noSecond), String.append_assoc, render, render]

def allLines (settings : Settings) : List Entry → List String
  | [] => []
  | entry :: entries =>
    lines settings entry ++
      if entries = [] then [] else List.replicate settings.separatorLines "" ++ allLines settings entries

theorem allLines_ne_nil {settings : Settings} {entries : List Entry} (more : entries ≠ []) :
    allLines settings entries ≠ [] := by
  cases entries with
  | nil => exact (more rfl).elim
  | cons entry entries => simp [allLines, lines_ne_nil]

theorem newline_not_mem_allLines {settings : Settings} (indent : '\n' ∉ settings.indent.toList)
    {entries : List Entry} (oneLine : ∀ entry ∈ entries, OneLine entry) :
    ∀ line ∈ allLines settings entries, '\n' ∉ line.toList := by
  induction entries with
  | nil =>
    intro line member
    cases member
  | cons entry entries inductionHypothesis =>
    intro line member
    rw [allLines, List.mem_append] at member
    cases member with
    | inl inRule => exact newline_not_mem_lines indent (oneLine entry List.mem_cons_self) line inRule
    | inr behind =>
      split at behind
      · cases behind
      · cases List.mem_append.mp behind with
        | inl empty => simp [List.eq_of_mem_replicate empty]
        | inr later =>
          have others : ∀ other ∈ entries, OneLine other := fun other isOther =>
            oneLine other (List.mem_cons_of_mem _ isOther)
          exact inductionHypothesis others line later

theorem intercalate_emptyLines (count : Nat) {others : List String} (more : others ≠ []) :
    "\n".intercalate (List.replicate count "" ++ others) = repeated "\n" count ++ "\n".intercalate others := by
  induction count with
  | zero => simp [repeated]
  | succ count inductionHypothesis =>
    rw [List.replicate_succ, List.cons_append, String.intercalate_cons_of_ne_nil (by simp [more]),
      inductionHypothesis, Text.repeated_succ, String.empty_append, String.append_assoc]

theorem render_eq_allLines (settings : Settings) (entries : List Entry) :
    render settings entries = "\n".intercalate (allLines settings entries) := by
  induction entries with
  | nil => simp [render, allLines]
  | cons entry entries inductionHypothesis =>
    by_cases more : entries = []
    · simp [more, render, allLines, rule_eq_lines]
    · have behind : List.replicate settings.separatorLines "" ++ allLines settings entries ≠ [] := by
        simp [allLines_ne_nil more]
      rw [render_cons more, inductionHypothesis, allLines, if_neg more,
        String.intercalate_append_of_ne_nil (lines_ne_nil settings entry) behind,
        intercalate_emptyLines _ (allLines_ne_nil more), separator, Text.repeated_succ]
      simp only [rule_eq_lines, String.append_assoc]

theorem splitOn_render {settings : Settings} (indent : '\n' ∉ settings.indent.toList) {entries : List Entry}
    (oneLine : ∀ entry ∈ entries, OneLine entry) (more : entries ≠ []) :
    List.splitOn '\n' (render settings entries).toList = (allLines settings entries).map String.toList := by
  rw [render_eq_allLines]
  exact Text.splitOn_intercalate (allLines_ne_nil more) (newline_not_mem_allLines indent oneLine)

end Stylesheet

end StyleSkeleton
