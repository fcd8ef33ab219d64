import StyleSkeleton.Generator.Basic

/-! # Chains

A chain is a list of calls in which each call hands its generator on to the next. Each answer is
the stylesheet as it is after the call. A refused call hands on nothing, so its refusal is the
last answer.
-/

namespace StyleSkeleton.Chain

/-! ## Calls -/

/-- The generator at the start of a chain. Markup that is left out is empty. -/
def start (markup : Option String) : Generator :=
  { markup := markup.getD "" }

/-- A link of a chain. A count that is left out is one. -/
inductive Call where
  | setMarkup (markup : String)
  | flat (flat : Bool)
  | inner (inner : Bool)
  | indent (word : String) (width : Option Nat)
  | brace (word : String)
  | lines (enabled : Bool) (count : Option Nat)
  | css
deriving DecidableEq, Repr

def perform (generator : Generator) : Call → Except SettingError Generator
  | .setMarkup markup => .ok (generator.setMarkup markup)
  | .flat flat => (generator.set (.plain (.flat flat))).handedOn
  | .inner inner => (generator.set (.plain (.inner inner))).handedOn
  | .indent word width => (generator.set (.indentWord word (width.getD 1))).handedOn
  | .brace word => (generator.set (.braceWord word)).handedOn
  | .lines enabled count => (generator.set (.lines enabled (count.getD 1))).handedOn
  | .css => .ok generator

/-! ## Running a chain -/

def answers : Generator → List Call → List (Except SettingError String)
  | _, [] => []
  | generator, call :: calls =>
    match perform generator call with
    | .ok next => .ok next.css :: answers next calls
    | .error error => [.error error]

def log : Generator → List Call → List LogRecord
  | _, [] => []
  | generator, call :: calls =>
    match perform generator call with
    | .ok next => next.cssLog ++ log next calls
    | .error _ => []

end StyleSkeleton.Chain
