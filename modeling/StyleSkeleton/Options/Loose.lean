/-! # Loosely typed values

Options reach the library as values whose types nobody has checked yet: nothing, flags, numbers,
texts, lists, and records of named fields. The readers below take a value of one type out of
such a value, or nothing if it has another type. Nothing is converted on the way: a number is no
text, and a number written with a fraction or an exponent is no integer, whatever its size.
-/

namespace StyleSkeleton

inductive Loose where
  | null
  | flag (value : Bool)
  /-- A number written as an integer. -/
  | integer (value : Int)
  /-- Any other number, as written. -/
  | decimal (spelling : String)
  | text (value : String)
  | list (items : List Loose)
  /-- Values under names. Only the first value under a name counts. -/
  | record (fields : List (String × Loose))
deriving Repr

namespace Loose

/-! ## Reading -/

def flag? : Loose → Option Bool
  | flag value => some value
  | _ => none

def text? : Loose → Option String
  | text value => some value
  | _ => none

def count? : Loose → Option UInt64
  | integer (.ofNat value) => if value < UInt64.size then some (UInt64.ofNat value) else none
  | _ => none

def allTexts? : List Loose → Option (List String)
  | [] => some []
  | text value :: items => (allTexts? items).map (value :: ·)
  | _ :: _ => none

def texts? : Loose → Option (List String)
  | list items => allTexts? items
  | _ => none

def optional? {α : Type} (read : Loose → Option α) : Loose → Option (Option α)
  | null => some none
  | value => (read value).map some

/-- A name that is not there counts as one without a value. -/
def field (fields : List (String × Loose)) (name : String) : Loose :=
  (fields.lookup name).getD null

/-! ## Writing -/

def ofCount (count : UInt64) : Loose :=
  integer (.ofNat count.toNat)

def ofTexts (texts : List String) : Loose :=
  list (texts.map text)

def ofOptional {α : Type} (write : α → Loose) : Option α → Loose
  | some value => write value
  | none => null

/-! ## Reading what was written -/

theorem allTexts?_eq_some_iff {items : List Loose} {texts : List String} :
    allTexts? items = some texts ↔ items = texts.map text := by
  induction items generalizing texts with
  | nil => cases texts <;> simp [allTexts?]
  | cons item items inductionHypothesis =>
    cases item with
    | text value =>
      cases texts with
      | nil => simp [allTexts?]
      | cons first rest =>
        simp only [allTexts?, Option.map_eq_some_iff, inductionHypothesis, List.cons.injEq,
          List.map_cons, Loose.text.injEq]
        constructor
        · intro ⟨_, others, same, rfl⟩
          exact ⟨same, others⟩
        · intro ⟨same, others⟩
          exact ⟨rest, others, same, rfl⟩
    | _ => cases texts <;> simp [allTexts?]

@[simp] theorem count?_ofCount (count : UInt64) : (ofCount count).count? = some count := by
  simp [ofCount, count?, count.toNat_lt_size]

end Loose

end StyleSkeleton
