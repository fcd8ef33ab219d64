import StyleSkeleton.Generator.Basic

/-! # Sessions

A session is a list of calls on one generator, each answered in turn. It goes on after a call that
is refused, or whose options cannot be read, with the generator that such a call leaves.
-/

namespace StyleSkeleton.Session

/-! ## Calls and answers -/

inductive Call where
  | setMarkup (markup : String)
  | set (setter : Settings.Setter)
  | apply (options : Loose)
  | css
  | outline
  | markup
deriving Repr

inductive Answer where
  | css (text : String)
  | outline (entries : List Outline.Entry)
  | markup (text : String)
  | settings (settings : Settings)
  /-- The settings after the call, and why it was refused. -/
  | refused (settings : Settings) (error : SettingError)
  | unreadable
deriving DecidableEq, Repr

/-! ## Responding -/

def conclude : Generator.Outcome → Answer × Generator
  | (.ok (), after) => (.settings after.settings, after)
  | (.error error, after) => (.refused after.settings error, after)

def respond (generator : Generator) : Call → Answer × Generator
  | .setMarkup markup => conclude (.ok (), generator.setMarkup markup)
  | .set setter => conclude (generator.set setter)
  | .apply value =>
    match Options.ofLoose? value with
    | some options => conclude (generator.apply options)
    | none => (.unreadable, generator)
  | .css => (.css generator.css, generator)
  | .outline => (.outline generator.outline, generator)
  | .markup => (.markup generator.markup, generator)

def answers : Generator → List Call → List Answer
  | _, [] => []
  | generator, call :: calls =>
    (respond generator call).1 :: answers (respond generator call).2 calls

def final : Generator → List Call → Generator
  | generator, [] => generator
  | generator, call :: calls => final (respond generator call).2 calls

/-! ## What a session reports -/

def callLog (generator : Generator) : Call → List LogRecord
  | .css => generator.cssLog
  | .outline => generator.outlineLog
  | _ => []

def log : Generator → List Call → List LogRecord
  | _, [] => []
  | generator, call :: calls =>
    callLog generator call ++ log (respond generator call).2 calls

end StyleSkeleton.Session
