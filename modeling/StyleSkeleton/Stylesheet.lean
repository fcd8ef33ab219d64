import StyleSkeleton.Outline
import StyleSkeleton.Settings.Basic

/-! # Stylesheets

A stylesheet has one empty rule for each entry of an outline, in the same order. A rule has a line
for the selector, perhaps one for the opening brace, perhaps a blank one inside, and one for the
closing brace. Each of them begins with a margin, which repeats the step of indentation once per
level, or is empty when the settings are flat. Between two rules stand a line feed and the empty
lines that the settings ask for.
-/

namespace StyleSkeleton.Stylesheet

open StyleSkeleton.Outline (Entry)
open StyleSkeleton.Text (repeated)

/-! ## One rule -/

def margin (settings : Settings) (entry : Entry) : String :=
  if settings.flat then "" else repeated settings.indent entry.level

def selector (settings : Settings) (entry : Entry) : String :=
  (if settings.tags.includes entry.tag then entry.tag else "") ++ "." ++ entry.name

def rule (settings : Settings) (entry : Entry) : String :=
  margin settings entry ++ selector settings entry ++
  (match settings.brace with
    | .sameLine => " \x7b"
    | .ownLine => "\n" ++ margin settings entry ++ "\x7b") ++
  (if settings.inner then "\n" ++ margin settings entry ++ settings.indent else "") ++
  "\n" ++ margin settings entry ++ "\x7d"

/-! ## All rules -/

def separator (settings : Settings) : String :=
  repeated "\n" (settings.separatorLines + 1)

def render (settings : Settings) (outline : List Entry) : String :=
  (separator settings).intercalate (outline.map (rule settings))

def renderLog (outline : List Entry) : List LogRecord :=
  [.rendered outline.length]

/-! ## From markup -/

def ofMarkup (settings : Settings) (markup : String) : String :=
  render settings (Outline.ofMarkup settings.ignored markup)

def markupLog (settings : Settings) (markup : String) : List LogRecord :=
  Outline.markupLog settings.ignored markup ++
    renderLog (Outline.ofMarkup settings.ignored markup)

end StyleSkeleton.Stylesheet
