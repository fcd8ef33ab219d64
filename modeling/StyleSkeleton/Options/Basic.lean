import StyleSkeleton.Options.Choice

/-! # Options

Options are what a caller may say about the settings in one go; whatever is left out stays as it
is. They are read from a record by field names, and they stand for a list of setters in a fixed
order.
-/

namespace StyleSkeleton

structure Options where
  indent : Option String := none
  /-- Says nothing without the word. -/
  indentCount : Option UInt64 := none
  flat : Option Bool := none
  inner : Option Bool := none
  tag : Option TagChoice := none
  brace : Option String := none
  line : Option UInt64 := none
  ignore : Option IgnoreChoice := none
deriving DecidableEq, Repr

namespace Options

/-! ## Reading and writing -/

/-- A field that is missing, or there without a value, is an option left out. Fields of other names
    are passed over, and one field of a wrong type is enough for nothing to be read. -/
def ofLoose? : Loose → Option Options
  | .record fields => do
    let indent ← (Loose.field fields "indent").optional? Loose.text?
    let indentCount ← (Loose.field fields "indentCount").optional? Loose.count?
    let flat ← (Loose.field fields "flat").optional? Loose.flag?
    let inner ← (Loose.field fields "inner").optional? Loose.flag?
    let tag ← (Loose.field fields "tag").optional? TagChoice.ofLoose?
    let brace ← (Loose.field fields "brace").optional? Loose.text?
    let line ← (Loose.field fields "line").optional? Loose.count?
    let ignore ← (Loose.field fields "ignore").optional? IgnoreChoice.ofLoose?
    return { indent, indentCount, flat, inner, tag, brace, line, ignore }
  | _ => none

def toLoose (options : Options) : Loose :=
  .record
    [("indent", .ofOptional .text options.indent),
     ("indentCount", .ofOptional .ofCount options.indentCount),
     ("flat", .ofOptional .flag options.flat),
     ("inner", .ofOptional .flag options.inner),
     ("tag", .ofOptional TagChoice.toLoose options.tag),
     ("brace", .ofOptional .text options.brace),
     ("line", .ofOptional .ofCount options.line),
     ("ignore", .ofOptional IgnoreChoice.toLoose options.ignore)]

/-! ## Setters -/

def indentWidth (options : Options) : Nat :=
  match options.indentCount with
  | some count => count.toNat
  | none => 1

/-- The setters that options stand for. An unknown word for the indentation is met before one for
    the brace. -/
def setters (options : Options) : List Settings.Setter :=
  (options.indent.map fun word => .indentWord word options.indentWidth).toList ++
  (options.flat.map fun flat => .plain (.flat flat)).toList ++
  (options.inner.map fun inner => .plain (.inner inner)).toList ++
  (options.tag.map fun choice => .plain (.tags choice.toPolicy)).toList ++
  (options.brace.map fun word => .braceWord word).toList ++
  (options.line.map fun count => .lines (decide (0 < count)) count.toNat).toList ++
  (options.ignore.map fun choice => .plain (.ignore choice.toChange)).toList

end Options

end StyleSkeleton
