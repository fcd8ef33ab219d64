import StyleSkeleton.Settings.Style

/-! # Settings

All that decides how an outline is made and laid out, apart from the markup itself. A `Change`
writes one field; a `Setter` is a change as a caller writes it, by words and switches, and is
first made out to be a change or refused.
-/

namespace StyleSkeleton

/-! ## Ignored names -/

inductive IgnoreChange where
  | one (name : String)
  | many (names : List String)
  | clear
deriving DecidableEq, Repr

def IgnoreChange.applyTo (ignored : NameSet) : IgnoreChange → NameSet
  | one name => ignored.insert name
  | many names => ignored.insertAll names
  | clear => ∅

/-! ## Settings -/

structure Settings where
  indent : String := IndentStyle.spaces.unit 4
  /-- Whether rules stay unindented whatever their level. -/
  flat : Bool := false
  /-- Whether the body of a rule has an empty line, indented one step more than the rule. -/
  inner : Bool := true
  tags : TagPolicy := .never
  brace : BraceStyle := .sameLine
  separatorLines : Nat := 0
  ignored : NameSet := ∅
deriving DecidableEq, Repr

namespace Settings

/-! ## Changes -/

inductive Change where
  | indent (style : IndentStyle) (width : Nat)
  | flat (flat : Bool)
  | inner (inner : Bool)
  | tags (policy : TagPolicy)
  | brace (style : BraceStyle)
  | separatorLines (count : Nat)
  | ignore (change : IgnoreChange)
deriving DecidableEq, Repr

def change (settings : Settings) : Change → Settings
  | .indent style width => { settings with indent := style.unit width }
  | .flat flat => { settings with flat }
  | .inner inner => { settings with inner }
  | .tags policy => { settings with tags := policy }
  | .brace style => { settings with brace := style }
  | .separatorLines count => { settings with separatorLines := count }
  | .ignore change => { settings with ignored := change.applyTo settings.ignored }

/-! ## Setters -/

inductive Setter where
  | plain (change : Change)
  | indentWord (word : String) (width : Nat)
  | braceWord (word : String)
  /-- Switch empty lines between rules on or off. Switched on, there is at least one. -/
  | lines (enabled : Bool) (count : Nat)
deriving DecidableEq, Repr

def Setter.toChange : Setter → Except SettingError Change
  | plain change => .ok change
  | indentWord word width => (IndentStyle.ofWord word).map fun style => .indent style width
  | braceWord word => (BraceStyle.ofWord word).map fun style => .brace style
  | lines enabled count => .ok (.separatorLines (if enabled then max count 1 else 0))

end Settings

end StyleSkeleton
