import StyleSkeleton.Options.Loose
import StyleSkeleton.Settings.Basic

/-! # Choices

Two options can be given in more than one type: which selectors name their tag, and which names
are ignored. A choice keeps the type it was given in.
-/

namespace StyleSkeleton

/-! ## Tags -/

inductive TagChoice where
  | every (all : Bool)
  | one (tag : String)
  | many (tags : List String)
deriving DecidableEq, Repr

namespace TagChoice

/-- The types are alternatives that nothing in the value tells apart but its own type: they are
    tried in the order in which they are declared, and the first that can be read counts. -/
def ofLoose? (value : Loose) : Option TagChoice :=
  value.flag?.map every <|> value.text?.map one <|> value.texts?.map many

def toLoose : TagChoice → Loose
  | every all => .flag all
  | one tag => .text tag
  | many tags => Loose.ofTexts tags

def toPolicy : TagChoice → TagPolicy
  | every all => .ofBool all
  | one tag => .only (NameSet.ofList [tag])
  | many tags => .only (NameSet.ofList tags)

end TagChoice

/-! ## Ignored names -/

/-- One more ignored name, some more, or none at all, whether the flag is on or off. -/
inductive IgnoreChoice where
  | one (name : String)
  | many (names : List String)
  | clear (flag : Bool)
deriving DecidableEq, Repr

namespace IgnoreChoice

/-- The types are tried in the order in which they are declared, which is another one here. -/
def ofLoose? (value : Loose) : Option IgnoreChoice :=
  value.text?.map one <|> value.texts?.map many <|> value.flag?.map clear

def toLoose : IgnoreChoice → Loose
  | one name => .text name
  | many names => Loose.ofTexts names
  | clear flag => .flag flag

def toChange : IgnoreChoice → IgnoreChange
  | one name => .one name
  | many names => .many names
  | clear _ => .clear

end IgnoreChoice

end StyleSkeleton
