import StyleSkeleton.Settings.Basic

/-! # Building settings

A builder starts from the standard settings and hands itself on from member to member. Each member
is the change of one field, applied to the member's values. Names to be ignored are only ever
added, and no member can be refused.
-/

namespace StyleSkeleton.Settings

structure Builder where
  settings : Settings := {}
deriving DecidableEq, Repr

namespace Builder

def changed (builder : Builder) (change : Change) : Builder :=
  ⟨builder.settings.change change⟩

/-! ## Members -/

def indent (builder : Builder) (style : IndentStyle) (width : Nat) : Builder :=
  builder.changed (.indent style width)

def flat (builder : Builder) (flat : Bool) : Builder :=
  builder.changed (.flat flat)

def inner (builder : Builder) (inner : Bool) : Builder :=
  builder.changed (.inner inner)

def tags (builder : Builder) (policy : TagPolicy) : Builder :=
  builder.changed (.tags policy)

def brace (builder : Builder) (style : BraceStyle) : Builder :=
  builder.changed (.brace style)

def separatorLines (builder : Builder) (count : Nat) : Builder :=
  builder.changed (.separatorLines count)

def ignore (builder : Builder) (names : List String) : Builder :=
  builder.changed (.ignore (.many names))

def build (builder : Builder) : Settings :=
  builder.settings

/-! ## Calls -/

inductive Call where
  | indent (style : IndentStyle) (width : Nat)
  | flat (flat : Bool)
  | inner (inner : Bool)
  | tags (policy : TagPolicy)
  | brace (style : BraceStyle)
  | separatorLines (count : Nat)
  | ignore (names : List String)
deriving DecidableEq, Repr

def perform (builder : Builder) : Call → Builder
  | .indent style width => builder.indent style width
  | .flat flat => builder.flat flat
  | .inner inner => builder.inner inner
  | .tags policy => builder.tags policy
  | .brace style => builder.brace style
  | .separatorLines count => builder.separatorLines count
  | .ignore names => builder.ignore names

def performAll (builder : Builder) (calls : List Call) : Builder :=
  calls.foldl perform builder

end Builder

end StyleSkeleton.Settings
