import StyleSkeleton.Text.Writing

/-! # Log records

What the stages of the library report about their work: one kind of record for each thing that
can be said, with its level and the wording of its message. Which records a stage leaves, and in
which order, is told beside the stage.
-/

namespace StyleSkeleton

open Text (quoted)

inductive LogLevel where
  | trace
  | debug
deriving DecidableEq, Repr

inductive LogRecord where
  | foundAttribute (position : Nat) (value : String)
  | scanned (events openings classNames : Nat)
  | ignoring (name : String) (position : Nat)
  | levelled (name tag : String) (level : Nat)
  | outlined (entries unclosed unmatched strays : Nat)
  | rendered (rules : Nat)
deriving DecidableEq, Repr

namespace LogRecord

def level : LogRecord → LogLevel
  | foundAttribute _ _ | ignoring _ _ | levelled _ _ _ => .trace
  | scanned _ _ _ | outlined _ _ _ _ | rendered _ => .debug

def message : LogRecord → String
  | foundAttribute position value =>
    "class attribute at " ++ toString position ++ ": " ++ quoted value
  | scanned events openings classNames =>
    "scanned " ++ toString events ++ " events (" ++ toString openings ++ " tags, " ++
      toString classNames ++ " classes)"
  | ignoring name position =>
    "ignoring class " ++ quoted name ++ " at " ++ toString position
  | levelled name tag level =>
    "class " ++ quoted name ++ " on <" ++ tag ++ "> at level " ++ toString level
  | outlined entries unclosed unmatched strays =>
    "assigned " ++ toString entries ++ " classes (" ++ toString unclosed ++ " unclosed tags, " ++
      toString unmatched ++ " unmatched closes, " ++ toString strays ++ " stray classes)"
  | rendered rules =>
    "rendered " ++ toString rules ++ " rules"

end LogRecord

end StyleSkeleton
