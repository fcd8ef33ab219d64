/-! # Places in a text

A place is a byte offset together with the text from there on. Reading moves from place to
place; `Reaches` says which characters were passed on the way, and each way of moving below
comes with the lemma that says so. The offset counts bytes of the UTF-8 encoding, so it grows
by one to four for each character passed.
-/

namespace StyleSkeleton.Text

def byteLength : List Char → Nat
  | [] => 0
  | char :: rest => char.utf8Size + byteLength rest

@[simp] theorem byteLength_nil : byteLength [] = 0 := rfl

@[simp] theorem byteLength_cons (char : Char) (rest : List Char) :
    byteLength (char :: rest) = char.utf8Size + byteLength rest := rfl

@[simp] theorem byteLength_append (left right : List Char) :
    byteLength (left ++ right) = byteLength left + byteLength right := by
  induction left with
  | nil => simp
  | cons char left inductionHypothesis => simp [inductionHypothesis, Nat.add_assoc]

structure Place where
  offset : Nat
  rest : List Char
deriving DecidableEq, Repr

namespace Place

def start (text : List Char) : Place := ⟨0, text⟩

/-! ## Moving -/

def next? : Place → Option (Char × Place)
  | ⟨_, []⟩ => none
  | ⟨offset, char :: rest⟩ => some (char, ⟨offset + char.utf8Size, rest⟩)

def pass? (test : Char → Bool) (place : Place) : Option Place :=
  match place.next? with
  | some (char, after) => if test char then some after else none
  | none => none

def passAll? : List (Char → Bool) → Place → Option Place
  | [], place => some place
  | test :: tests, place =>
    match place.pass? test with
    | some after => after.passAll? tests
    | none => none

def passWhile (test : Char → Bool) (place : Place) : Place :=
  ⟨place.offset + byteLength (place.rest.takeWhile test), place.rest.dropWhile test⟩

/-! ## What was passed -/

/-- From one place the other is reached by passing exactly the given characters. -/
def Reaches (before : Place) (passed : List Char) (after : Place) : Prop :=
  before.rest = passed ++ after.rest ∧ after.offset = before.offset + byteLength passed

theorem Reaches.refl (place : Place) : place.Reaches [] place := by
  simp [Reaches]

theorem Reaches.trans {first second third : Place} {left right : List Char}
    (toSecond : first.Reaches left second) (toThird : second.Reaches right third) :
    first.Reaches (left ++ right) third := by
  obtain ⟨leftRest, leftOffset⟩ := toSecond
  obtain ⟨rightRest, rightOffset⟩ := toThird
  refine ⟨?_, ?_⟩
  · rw [leftRest, rightRest, List.append_assoc]
  · rw [rightOffset, leftOffset, byteLength_append, Nat.add_assoc]

theorem Reaches.length_eq {before after : Place} {passed : List Char}
    (reached : before.Reaches passed after) :
    before.rest.length = passed.length + after.rest.length := by
  rw [reached.1, List.length_append]

theorem next?_reaches {before after : Place} {char : Char}
    (next : before.next? = some (char, after)) : before.Reaches [char] after := by
  match before with
  | ⟨_, []⟩ => simp [next?] at next
  | ⟨_, _ :: _⟩ =>
    obtain ⟨rfl, rfl⟩ := by simpa [next?] using next
    simp [Reaches]

theorem pass?_reaches {test : Char → Bool} {before after : Place}
    (passes : before.pass? test = some after) :
    ∃ char, test char = true ∧ before.Reaches [char] after := by
  unfold pass? at passes
  split at passes
  · rename_i char found next
    split at passes
    · rename_i meets
      obtain rfl := Option.some.inj passes
      exact ⟨char, meets, next?_reaches next⟩
    · cases passes
  · cases passes

theorem passAll?_reaches {tests : List (Char → Bool)} {before after : Place}
    (passes : before.passAll? tests = some after) :
    ∃ passed, passed.length = tests.length ∧ before.Reaches passed after := by
  induction tests generalizing before with
  | nil =>
    obtain rfl := Option.some.inj passes
    exact ⟨[], rfl, Reaches.refl _⟩
  | cons test tests inductionHypothesis =>
    unfold passAll? at passes
    split at passes
    · rename_i between first
      obtain ⟨char, _, isFirst⟩ := pass?_reaches first
      obtain ⟨passed, length, reached⟩ := inductionHypothesis passes
      exact ⟨char :: passed, by simp [length], isFirst.trans reached⟩
    · cases passes

theorem passWhile_reaches (test : Char → Bool) (place : Place) :
    place.Reaches (place.rest.takeWhile test) (place.passWhile test) := by
  simp [Reaches, passWhile]

end Place

end StyleSkeleton.Text
