import Mathlib.Data.List.Infix
import StyleSkeleton.Outline
import StyleSkeleton.Proofs.Markup.AttributeGrammar
import StyleSkeleton.Proofs.Outline.Settling

/-! # Forests of elements

A `Forest` is well-formed markup as a tree, with all that its spelling leaves open: fillers,
blanks, quotes and the case of letters are kept as they are written.  `Forest.markup` is its text,
and `Forest.outline` its outline, told by recursion on the tree: the level of an element is the
number of elements around it that have a class which is not ignored.
-/

namespace StyleSkeleton

open StyleSkeleton.Markup StyleSkeleton.Outline StyleSkeleton.Text

/-! ## Elements as they are written -/

structure SpacedName where
  gap : List Char
  name : List Char
deriving DecidableEq, Repr

structure ClassList where
  blanks : List Char
  word : List Char
  beforeSign : List Char
  behindSign : List Char
  quote : Char
  names : List SpacedName
  trailing : List Char
deriving DecidableEq, Repr

/-- The opening tag of an element, cut into its name, a filler, the class attribute if there is
one, and a filler. -/
structure Head where
  tag : List Char
  before : List Char
  classes : Option ClassList
  behind : List Char
deriving DecidableEq, Repr

inductive Forest where
  | done
  | text (content : List Char) (rest : Forest)
  | void (head : Head) (rest : Forest)
  | element (head : Head) (children : Forest) (closing : List Char) (rest : Forest)
deriving DecidableEq, Repr

/-! ## Markup -/

def ClassList.value (classes : ClassList) : List Char :=
  classes.names.flatMap (fun spaced => spaced.gap ++ spaced.name) ++ classes.trailing

def ClassList.spelling (classes : ClassList) : Spelling :=
  ⟨classes.blanks, classes.word, classes.beforeSign, classes.behindSign, classes.quote, classes.value⟩

namespace Head

def classText (head : Head) : List Char :=
  match head.classes with
  | none => []
  | some classes => classes.spelling.text

def markup (head : Head) : List Char :=
  '<' :: (head.tag ++ (head.before ++ (head.classText ++ (head.behind ++ ['>']))))

def names (head : Head) : List String :=
  match head.classes with
  | none => []
  | some classes => classes.names.map fun spaced => String.ofList spaced.name

end Head

def Forest.markup : Forest → List Char
  | done => []
  | text content rest => content ++ rest.markup
  | void head rest => head.markup ++ rest.markup
  | element head children closing rest =>
    head.markup ++ (children.markup ++ ('<' :: '/' :: closing ++ '>' :: rest.markup))

/-! ## Outlines -/

def Head.kept (head : Head) (ignored : NameSet) : List String :=
  head.names.filter fun name => name ∉ ignored

def Head.entries (head : Head) (ignored : NameSet) (level : Nat) : List Entry :=
  (head.kept ignored).map fun name => ⟨String.ofList head.tag, name, level⟩

def Forest.entries (ignored : NameSet) (level : Nat) : Forest → List Entry
  | done => []
  | text _ rest => rest.entries ignored level
  | void head rest => head.entries ignored level ++ rest.entries ignored level
  | element head children _ rest =>
    head.entries ignored level ++
      (children.entries ignored (if head.kept ignored = [] then level else level + 1) ++
        rest.entries ignored level)

def Forest.outline (ignored : NameSet) (forest : Forest) : List Entry :=
  firstsByName (forest.entries ignored 0)

/-! ## Well-formedness -/

/-- A stretch of text without a tag and without the word of class attributes. -/
def Plain (stretch : List Char) : Prop :=
  '<' ∉ stretch ∧ Wordless stretch

theorem plain_iff {stretch : List Char} :
    '<' ∉ stretch ∧ (∀ rest ∈ stretch.tails, ¬ SpellsClass (rest.take 5)) ↔ Plain stretch := by
  refine and_congr_right fun _ => ⟨?_, ?_⟩
  · intro tails word inside spells
    obtain ⟨rest, isPrefix, isSuffix⟩ := List.infix_iff_prefix_suffix.mp inside
    refine tails rest ((List.mem_tails _ _).mpr isSuffix) ?_
    rwa [← spells.length_eq, ← List.prefix_iff_eq_take.mp isPrefix]
  · intro infixes rest isTail
    exact infixes _ ((List.take_prefix 5 rest).isInfix.trans ((List.mem_tails _ _).mp isTail).isInfix)

instance (stretch : List Char) : Decidable (Plain stretch) :=
  decidable_of_iff _ plain_iff

def IsClassName (quote : Char) (name : List Char) : Prop :=
  name ≠ [] ∧ ∀ char ∈ name, isBlank char = false ∧ char ≠ '<' ∧ char ≠ quote

instance (quote : Char) (name : List Char) : Decidable (IsClassName quote name) :=
  @instDecidableAnd _ _ _ (List.decidableBAll _ name)

def IsTagName (name : List Char) : Prop :=
  name ≠ [] ∧ ∀ char ∈ name, isNameChar char = true

instance (name : List Char) : Decidable (IsTagName name) :=
  @instDecidableAnd _ _ _ (List.decidableBAll _ name)

def EndsName (stretch : List Char) : Prop :=
  ∀ char ∈ stretch.head?, isNameChar char = false

instance (stretch : List Char) : Decidable (EndsName stretch) :=
  @Option.decidableForallMem _ _ _ stretch.head?

@[reducible] def SpacedName.WellFormed (quote : Char) (spaced : SpacedName) : Prop :=
  AllBlank spaced.gap ∧ IsClassName quote spaced.name

@[reducible] def ClassList.WellFormed (classes : ClassList) : Prop :=
  classes.blanks ≠ [] ∧ AllBlank classes.blanks ∧ SpellsClass classes.word ∧
    AllBlank classes.beforeSign ∧ AllBlank classes.behindSign ∧
    (classes.quote = '"' ∨ classes.quote = '\'') ∧
    (∀ spaced ∈ classes.names, spaced.WellFormed classes.quote) ∧
    (∀ spaced ∈ classes.names.tail, spaced.gap ≠ []) ∧ AllBlank classes.trailing

@[reducible] def Head.WellFormed (head : Head) : Prop :=
  IsTagName head.tag ∧ Plain head.before ∧ EndsName head.before ∧
    (∀ classes ∈ head.classes, classes.WellFormed) ∧ Plain head.behind

/-- Without a class attribute the two fillers of a head are one filler. -/
@[reducible] def Head.Unbroken (head : Head) : Prop :=
  head.classes = none → Plain (head.before ++ head.behind) ∧ EndsName (head.before ++ head.behind)

namespace Forest

/-- Fillers and texts are plain, each on its own. -/
def WellFormed : Forest → Prop
  | done => True
  | text content rest => Plain content ∧ rest.WellFormed
  | void head rest => isVoid (String.ofList head.tag) = true ∧ head.WellFormed ∧ rest.WellFormed
  | element head children closing rest =>
    isVoid (String.ofList head.tag) = false ∧ head.WellFormed ∧ children.WellFormed ∧ Plain closing ∧
      rest.WellFormed

def leadingText : Forest → List Char
  | text content rest => content ++ rest.leadingText
  | _ => []

/-- Fillers and texts that stand side by side are plain together. -/
def Unbroken : Forest → Prop
  | done => True
  | text content rest => Plain (content ++ rest.leadingText) ∧ rest.Unbroken
  | void head rest => head.Unbroken ∧ rest.Unbroken
  | element head children _ rest => head.Unbroken ∧ children.Unbroken ∧ rest.Unbroken

instance decidableWellFormed : (forest : Forest) → Decidable forest.WellFormed
  | done => inferInstanceAs (Decidable True)
  | text content rest =>
    have := rest.decidableWellFormed
    inferInstanceAs (Decidable (Plain content ∧ rest.WellFormed))
  | void head rest =>
    have := rest.decidableWellFormed
    inferInstanceAs
      (Decidable (isVoid (String.ofList head.tag) = true ∧ head.WellFormed ∧ rest.WellFormed))
  | element head children closing rest =>
    have := children.decidableWellFormed
    have := rest.decidableWellFormed
    inferInstanceAs
      (Decidable (isVoid (String.ofList head.tag) = false ∧ head.WellFormed ∧ children.WellFormed ∧
        Plain closing ∧ rest.WellFormed))

instance decidableUnbroken : (forest : Forest) → Decidable forest.Unbroken
  | done => inferInstanceAs (Decidable True)
  | text content rest =>
    have := rest.decidableUnbroken
    inferInstanceAs (Decidable (Plain (content ++ rest.leadingText) ∧ rest.Unbroken))
  | void head rest =>
    have := rest.decidableUnbroken
    inferInstanceAs (Decidable (head.Unbroken ∧ rest.Unbroken))
  | element head children _ rest =>
    have := children.decidableUnbroken
    have := rest.decidableUnbroken
    inferInstanceAs (Decidable (head.Unbroken ∧ children.Unbroken ∧ rest.Unbroken))

end Forest

end StyleSkeleton
