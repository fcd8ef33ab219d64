/-! # Events

What a scan of markup finds: tags that open, tags that close, and class names. An event says
where it was found; closings carry no name, since they are matched to openings by order alone.

A tag name is a run of ASCII letters, digits, hyphens and underscores and keeps the spelling it
was written in. Void tags hold no children and are never closed; a tag is void whatever the
case of its letters.
-/

namespace StyleSkeleton.Markup

/-! ## Tags -/

def isNameChar (char : Char) : Bool :=
  char.isAlphanum || char == '-' || char == '_'

def voidTags : List String :=
  ["doctype", "area", "base", "br", "col", "command", "embed", "frame", "hr", "img", "input",
   "keygen", "link", "meta", "param", "source", "wbr"]

/-- A text with its ASCII capitals replaced by small letters. -/
def lowered (text : String) : String :=
  String.ofList (text.toList.map Char.toLower)

def isVoid (tag : String) : Bool :=
  voidTags.contains (lowered tag)

/-- Every tag of the list is void as listed. -/
example : voidTags.all isVoid = true := by decide

/-! ## Events -/

inductive EventKind where
  | opening (tag : String)
  | closing
  | className (name : String)
deriving DecidableEq, Repr

/-- An event and its position, a byte offset into the markup. -/
structure Event where
  position : Nat
  kind : EventKind
deriving DecidableEq, Repr

namespace Event

def notAfter (first second : Event) : Bool :=
  decide (first.position ≤ second.position)

theorem notAfter_iff {first second : Event} :
    first.notAfter second = true ↔ first.position ≤ second.position := by
  rw [notAfter, decide_eq_true_eq]

theorem notAfter_trans (first second third : Event) (before : first.notAfter second = true)
    (behind : second.notAfter third = true) : first.notAfter third = true :=
  notAfter_iff.mpr (Nat.le_trans (notAfter_iff.mp before) (notAfter_iff.mp behind))

theorem notAfter_total (first second : Event) :
    (first.notAfter second || second.notAfter first) = true := by
  rw [Bool.or_eq_true, notAfter_iff, notAfter_iff]
  exact Nat.le_total _ _

end Event

end StyleSkeleton.Markup
