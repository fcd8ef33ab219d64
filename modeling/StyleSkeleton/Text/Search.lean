import StyleSkeleton.Text.Place

/-! # Searching a text

A reader tries to read one thing at a place and says where reading ended. A search tries a reader
at one place after the other, from left to right: where it reads something the search goes on
behind what was read, so that findings do not overlap, and where it reads nothing the search
passes one character.
-/

namespace StyleSkeleton.Text

/-- A way to read one thing at a place. What it reads is never empty. -/
structure Reader (α : Type) where
  read? : Place → Option (α × Place)
  passes : ∀ {place after found}, read? place = some (found, after) →
    ∃ passed, passed ≠ [] ∧ place.Reaches passed after

namespace Reader

variable {α : Type}

theorem read?_length_lt (reader : Reader α) {place after : Place} {found : α}
    (read : reader.read? place = some (found, after)) :
    after.rest.length < place.rest.length := by
  obtain ⟨passed, nonempty, reached⟩ := reader.passes read
  have length := reached.length_eq
  have positive := List.length_pos_iff.mpr nonempty
  omega

theorem next?_length_lt {place after : Place} {char : Char}
    (next : place.next? = some (char, after)) : after.rest.length < place.rest.length := by
  have length := (Place.next?_reaches next).length_eq
  rw [List.length_singleton] at length
  omega

def findFrom (reader : Reader α) (place : Place) : List α :=
  match _read : reader.read? place with
  | some (found, after) => found :: findFrom reader after
  | none =>
    match _next : place.next? with
    | some (_, after) => findFrom reader after
    | none => []
termination_by place.rest.length
decreasing_by
  · exact reader.read?_length_lt _read
  · exact next?_length_lt _next

theorem findFrom_of_read (reader : Reader α) {place after : Place} {found : α}
    (read : reader.read? place = some (found, after)) :
    reader.findFrom place = found :: reader.findFrom after := by
  rw [findFrom]
  split
  · rename_i other otherAfter otherRead
    rw [read] at otherRead
    cases otherRead
    rfl
  · rename_i nothing
    rw [read] at nothing
    cases nothing

theorem findFrom_of_pass (reader : Reader α) {offset : Nat} {char : Char} {rest : List Char}
    (nothing : reader.read? ⟨offset, char :: rest⟩ = none) :
    reader.findFrom ⟨offset, char :: rest⟩ = reader.findFrom ⟨offset + char.utf8Size, rest⟩ := by
  rw [findFrom]
  split
  · rename_i found after read
    rw [nothing] at read
    cases read
  · rfl

theorem findFrom_end (reader : Reader α) (offset : Nat) : reader.findFrom ⟨offset, []⟩ = [] := by
  rw [findFrom]
  split
  · rename_i found after read
    have length := reader.read?_length_lt read
    rw [List.length_nil] at length
    omega
  · rfl

end Reader

end StyleSkeleton.Text
