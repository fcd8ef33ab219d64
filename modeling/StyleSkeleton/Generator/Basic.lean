import StyleSkeleton.Options.Basic
import StyleSkeleton.Stylesheet

/-! # Generators

A generator holds a markup text and settings, and renders the one by the other. Setters and
options can be refused; a refusal is returned together with what it leaves of the generator.
-/

namespace StyleSkeleton

def version : String := "0.1.0"

structure Generator where
  markup : String := ""
  settings : Settings := {}
deriving DecidableEq, Repr

namespace Generator

/-! ## Rendering -/

def outline (generator : Generator) : List Outline.Entry :=
  Outline.ofMarkup generator.settings.ignored generator.markup

def css (generator : Generator) : String :=
  Stylesheet.ofMarkup generator.settings generator.markup

def outlineLog (generator : Generator) : List LogRecord :=
  Outline.markupLog generator.settings.ignored generator.markup

def cssLog (generator : Generator) : List LogRecord :=
  Stylesheet.markupLog generator.settings generator.markup

/-! ## Setting -/

def setMarkup (generator : Generator) (markup : String) : Generator :=
  { generator with markup }

def change (generator : Generator) (change : Settings.Change) : Generator :=
  { generator with settings := generator.settings.change change }

/-- How a call ends that can be refused, and the generator that it leaves. -/
abbrev Outcome := Except SettingError Unit × Generator

/-- A setter is made out before anything is written. -/
def set (generator : Generator) (setter : Settings.Setter) : Outcome :=
  match setter.toChange with
  | .ok change => (.ok (), generator.change change)
  | .error error => (.error error, generator)

/-- Setters one after the other. The first that is refused is the last that is made out, and leaves
    what those in front of it have written. -/
def setAll : Generator → List Settings.Setter → Outcome
  | generator, [] => (.ok (), generator)
  | generator, setter :: setters =>
    match generator.set setter with
    | (.ok (), changed) => changed.setAll setters
    | (.error error, left) => (.error error, left)

/-- Options are set on a copy, which takes the place of the generator unless one of them is
    refused. -/
def apply (generator : Generator) (options : Options) : Outcome :=
  let (outcome, copy) := generator.setAll options.setters
  match outcome with
  | .ok () => (.ok (), copy)
  | .error error => (.error error, generator)

/-! ## Handing on -/

/-- The generator after a call, for a caller who is left with nothing by a refusal. -/
def Outcome.handedOn : Outcome → Except SettingError Generator
  | (.ok (), after) => .ok after
  | (.error error, _) => .error error

def ofOptions (markup : String) (options : Options) : Except SettingError Generator :=
  (apply { markup } options).handedOn

end Generator

end StyleSkeleton
