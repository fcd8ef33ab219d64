import StyleSkeleton.NameSet
import StyleSkeleton.Text.Writing

/-! # Styles

The choices that shape a rule: what one step of indentation is, where the opening brace goes,
and which selectors name their tag. The first two can be given by a word. A word that names
nothing is refused, and the refusal carries the word.
-/

namespace StyleSkeleton

open Text (repeated)

/-! ## Refusals -/

inductive SettingError where
  | unknownIndent (word : String)
  | unknownBrace (word : String)
deriving DecidableEq, Repr

def SettingError.message : SettingError → String
  | unknownIndent word => "Unknown indent type: " ++ word
  | unknownBrace word => "Unknown brace type: " ++ word

/-! ## Indentation -/

inductive IndentStyle where
  | tabs
  | spaces
deriving DecidableEq, Repr

namespace IndentStyle

def ofWord (word : String) : Except SettingError IndentStyle :=
  if word = "tabs" then .ok .tabs
  else if word = "spaces" then .ok .spaces
  else .error (.unknownIndent word)

def char : IndentStyle → String
  | tabs => "\t"
  | spaces => " "

/-- One step of indentation, of the given width. A width of zero counts as one. -/
def unit (style : IndentStyle) (width : Nat) : String :=
  repeated style.char (max width 1)

end IndentStyle

/-! ## Braces -/

inductive BraceStyle where
  | sameLine
  /-- On a line of its own, indented like the selector. -/
  | ownLine
deriving DecidableEq, Repr

def BraceStyle.ofWord (word : String) : Except SettingError BraceStyle :=
  if word = "default" then .ok .sameLine
  else if word = "newline" then .ok .ownLine
  else .error (.unknownBrace word)

/-! ## Tags in selectors -/

inductive TagPolicy where
  | never
  | always
  /-- The selectors of the given tags, compared as written. -/
  | only (tags : NameSet)
deriving DecidableEq, Repr

namespace TagPolicy

def ofBool (every : Bool) : TagPolicy :=
  if every then .always else .never

def includes : TagPolicy → String → Bool
  | never, _ => false
  | always, _ => true
  | only tags, tag => decide (tag ∈ tags)

end TagPolicy

end StyleSkeleton
