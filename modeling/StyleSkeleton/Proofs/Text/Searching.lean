import Mathlib.Data.List.Forall2
import StyleSkeleton.Text.Search

/-! # What a search finds

A search of a text finds readings in order and without overlaps, and it overlooks nothing: every
place at which the reader could read lies inside a reading that was found.  The non-trivial
ingredient is `Reaches.between`: places of one text are ordered by their offsets, since every
character takes at least one byte.
-/

namespace StyleSkeleton.Text

/-! ## Places of one text -/

theorem byteLength_eq_zero {text : List Char} (empty : byteLength text = 0) : text = [] := by
  cases text with
  | nil => rfl
  | cons char rest =>
    have positive := char.utf8Size_pos
    rw [byteLength_cons] at empty
    omega

theorem length_le_byteLength (text : List Char) : text.length ≤ byteLength text := by
  induction text with
  | nil => exact Nat.le_refl _
  | cons char rest inductionHypothesis =>
    have positive := char.utf8Size_pos
    rw [List.length_cons, byteLength_cons]
    omega

theorem append_inj_of_byteLength {left right left' right' : List Char}
    (same : left ++ right = left' ++ right') (lengths : byteLength left = byteLength left') :
    left = left' ∧ right = right' := by
  rcases List.append_eq_append_iff.mp same with ⟨passed, rfl, rest⟩ | ⟨passed, rfl, rest⟩ <;>
    rw [byteLength_append] at lengths <;>
    obtain rfl : passed = [] := byteLength_eq_zero (by omega)
  · simpa using rest
  · simpa using rest.symm

section Runs

variable {test : Char → Bool} {run rest : List Char}

theorem takeWhile_run (accepted : ∀ char ∈ run, test char = true)
    (stops : ∀ char ∈ rest.head?, test char = false) : (run ++ rest).takeWhile test = run := by
  rw [List.takeWhile_append_of_pos accepted]
  cases rest with
  | nil => simp
  | cons char others => simp [stops char rfl]

theorem dropWhile_run (accepted : ∀ char ∈ run, test char = true)
    (stops : ∀ char ∈ rest.head?, test char = false) : (run ++ rest).dropWhile test = rest := by
  rw [List.dropWhile_append_of_pos accepted]
  cases rest with
  | nil => rfl
  | cons char others => simp [stops char rfl]

end Runs

namespace Place

theorem Reaches.eq_of_nil {first second : Place} (reached : first.Reaches [] second) :
    first = second := by
  cases first with
  | mk offset rest =>
    cases second with
    | mk otherOffset otherRest =>
      obtain ⟨sameRest, sameOffset⟩ := reached
      simp only [List.nil_append, byteLength_nil, Nat.add_zero] at sameRest sameOffset
      rw [sameRest, sameOffset]

theorem Reaches.offset_le {first second : Place} {passed : List Char}
    (reached : first.Reaches passed second) : first.offset ≤ second.offset := by
  rw [reached.2]
  exact Nat.le_add_right _ _

theorem Reaches.offset_lt {first second : Place} {passed : List Char}
    (reached : first.Reaches passed second) (nonempty : passed ≠ []) :
    first.offset < second.offset := by
  have positive : byteLength passed ≠ 0 := fun zero => nonempty (byteLength_eq_zero zero)
  rw [reached.2]
  omega

theorem Reaches.of_append (offset : Nat) (left right : List Char) :
    Reaches ⟨offset, left ++ right⟩ left ⟨offset + byteLength left, right⟩ :=
  ⟨rfl, rfl⟩

theorem Reaches.of_cons (offset : Nat) (char : Char) (rest : List Char) :
    Reaches ⟨offset, char :: rest⟩ [char] ⟨offset + char.utf8Size, rest⟩ :=
  ⟨rfl, rfl⟩

theorem Reaches.between {origin first second : Place} {toFirst toSecond : List Char}
    (reachedFirst : origin.Reaches toFirst first) (reachedSecond : origin.Reaches toSecond second)
    (ordered : first.offset ≤ second.offset) :
    ∃ passed, toSecond = toFirst ++ passed ∧ first.Reaches passed second := by
  obtain ⟨splitFirst, offsetFirst⟩ := reachedFirst
  obtain ⟨splitSecond, offsetSecond⟩ := reachedSecond
  have same : toFirst ++ first.rest = toSecond ++ second.rest := splitFirst.symm.trans splitSecond
  rcases List.append_eq_append_iff.mp same with ⟨passed, longer, rest⟩ | ⟨passed, longer, rest⟩
  · refine ⟨passed, longer, rest, ?_⟩
    rw [longer, byteLength_append] at offsetSecond
    omega
  -- Here the first place would lie behind the second, so nothing can be between them.
  · rw [longer, byteLength_append] at offsetFirst
    obtain rfl : passed = [] := byteLength_eq_zero (by omega)
    simp only [List.append_nil, List.nil_append] at longer rest
    exact ⟨[], by rw [longer, List.append_nil], by rw [List.nil_append, rest], by simpa using by omega⟩

theorem Reaches.eq_of_offset_eq {origin first second : Place} {toFirst toSecond : List Char}
    (reachedFirst : origin.Reaches toFirst first) (reachedSecond : origin.Reaches toSecond second)
    (same : first.offset = second.offset) : first = second := by
  obtain ⟨passed, _, reached⟩ := reachedFirst.between reachedSecond (Nat.le_of_eq same)
  have length := reached.2
  obtain rfl : passed = [] := byteLength_eq_zero (by omega)
  exact reached.eq_of_nil

theorem Reaches.split {first last : Place} {left right : List Char}
    (reached : first.Reaches (left ++ right) last) :
    ∃ middle : Place, first.Reaches left middle ∧ middle.Reaches right last := by
  obtain ⟨rest, offsets⟩ := reached
  refine ⟨⟨first.offset + byteLength left, right ++ last.rest⟩, ⟨?_, rfl⟩, rfl, ?_⟩
  · rw [rest, List.append_assoc]
  · rw [offsets, byteLength_append, Nat.add_assoc]

theorem Reaches.split_cons {first last : Place} {char : Char} {right : List Char}
    (reached : first.Reaches (char :: right) last) :
    ∃ middle : Place, first.Reaches [char] middle ∧ middle.Reaches right last :=
  Reaches.split (List.append_cons [] char right ▸ reached)

/-! ## Moving -/

theorem pass?_eq_some_iff {test : Char → Bool} {place after : Place} :
    place.pass? test = some after ↔ ∃ char, test char = true ∧ place.Reaches [char] after := by
  constructor
  · exact pass?_reaches
  · rintro ⟨char, accepted, rest, offsets⟩
    match place, rest with
    | ⟨offset, _⟩, rfl =>
      cases after
      simp only [byteLength_cons, byteLength_nil, Nat.add_zero] at offsets
      simp [pass?, next?, accepted, offsets]

theorem passAll?_eq_some_iff {tests : List (Char → Bool)} {place after : Place} :
    place.passAll? tests = some after ↔
      ∃ passed, List.Forall₂ (fun test char => test char = true) tests passed ∧
        place.Reaches passed after := by
  induction tests generalizing place with
  | nil =>
    simp only [passAll?, Option.some.injEq, List.forall₂_nil_left_iff, exists_eq_left]
    constructor
    · rintro rfl
      exact Reaches.refl place
    · exact Reaches.eq_of_nil
  | cons test tests inductionHypothesis =>
    constructor
    · intro passes
      unfold passAll? at passes
      split at passes
      · rename_i middle first
        obtain ⟨char, accepted, reachedMiddle⟩ := pass?_reaches first
        obtain ⟨passed, matching, reached⟩ := inductionHypothesis.mp passes
        exact ⟨char :: passed, .cons accepted matching, reachedMiddle.trans reached⟩
      · cases passes
    · rintro ⟨_, matching, reached⟩
      cases matching with
      | @cons _ char _ passed accepted matching =>
        obtain ⟨middle, reachedMiddle, reachedAfter⟩ := reached.split_cons
        unfold passAll?
        rw [pass?_eq_some_iff.mpr ⟨char, accepted, reachedMiddle⟩]
        exact inductionHypothesis.mpr ⟨passed, matching, reachedAfter⟩

section Runs

variable {test : Char → Bool} {place after : Place} {passed : List Char}

theorem takeWhile_eq (reached : place.Reaches passed after) (accepted : ∀ char ∈ passed, test char = true)
    (stops : ∀ char ∈ after.rest.head?, test char = false) : place.rest.takeWhile test = passed := by
  rw [reached.1]
  exact takeWhile_run accepted stops

theorem passWhile_eq (reached : place.Reaches passed after) (accepted : ∀ char ∈ passed, test char = true)
    (stops : ∀ char ∈ after.rest.head?, test char = false) : place.passWhile test = after := by
  rw [passWhile, takeWhile_eq reached accepted stops, reached.1, dropWhile_run accepted stops, ← reached.2]

end Runs

end Place

/-! ## Searches -/

namespace Reader

variable {α : Type} (reader : Reader α)

theorem exists_read_of_mem {place : Place} {found : α} (member : found ∈ reader.findFrom place) :
    ∃ passed start after, place.Reaches passed start ∧ reader.read? start = some (found, after) := by
  induction place using findFrom.induct reader with
  | case1 place first after read inductionHypothesis =>
    rw [reader.findFrom_of_read read] at member
    cases member with
    | head => exact ⟨[], place, after, Place.Reaches.refl place, read⟩
    | tail _ later =>
      obtain ⟨passed, start, stop, reached, readLater⟩ := inductionHypothesis later
      obtain ⟨passedFirst, _, reachedAfter⟩ := reader.passes read
      exact ⟨_, start, stop, reachedAfter.trans reached, readLater⟩
  | case2 place nothing char after next inductionHypothesis =>
    match place, next with
    | ⟨offset, first :: rest⟩, next =>
      cases next
      rw [reader.findFrom_of_pass nothing] at member
      obtain ⟨passed, start, stop, reached, read⟩ := inductionHypothesis member
      exact ⟨_, start, stop, (Place.Reaches.of_cons _ _ _).trans reached, read⟩
  | case3 place nothing stopped =>
    match place, stopped with
    | ⟨offset, []⟩, _ =>
      rw [reader.findFrom_end] at member
      cases member

/-- A search overlooks nothing: where the reader can read, it is inside of something found. -/
theorem exists_found_around {place spot after : Place} {passed : List Char} {overlooked : α}
    (reached : place.Reaches passed spot) (readable : reader.read? spot = some (overlooked, after)) :
    ∃ found ∈ reader.findFrom place, ∃ start stop inside outside,
      reader.read? start = some (found, stop) ∧ start.Reaches inside spot ∧
      spot.Reaches outside stop ∧ outside ≠ [] := by
  induction place using findFrom.induct reader generalizing passed with
  | case1 place first stop read inductionHypothesis =>
    obtain ⟨passedFirst, _, reachedStop⟩ := reader.passes read
    rw [reader.findFrom_of_read read]
    -- The spot is inside of the first reading, or the search still has it before it.
    by_cases inside : spot.offset < stop.offset
    · obtain ⟨outside, _, reachedOutside⟩ := reached.between reachedStop (Nat.le_of_lt inside)
      refine ⟨first, List.mem_cons_self, place, stop, passed, outside, read, reached, reachedOutside, ?_⟩
      rintro rfl
      rw [reachedOutside.eq_of_nil] at inside
      exact Nat.lt_irrefl _ inside
    · obtain ⟨onwards, _, reachedSpot⟩ := reachedStop.between reached (Nat.le_of_not_lt inside)
      obtain ⟨found, member, around⟩ := inductionHypothesis reachedSpot
      exact ⟨found, List.mem_cons_of_mem _ member, around⟩
  | case2 place nothing char next step inductionHypothesis =>
    match place, step with
    | ⟨offset, first :: rest⟩, step =>
      cases step
      rw [reader.findFrom_of_pass nothing]
      cases passed with
      | nil =>
        obtain rfl := reached.eq_of_nil
        rw [nothing] at readable
        cases readable
      | cons head onwards =>
        obtain ⟨split, offsets⟩ := reached
        obtain ⟨rfl, rest⟩ := List.cons.inj split
        refine inductionHypothesis ⟨rest, ?_⟩
        rw [offsets, byteLength_cons, Nat.add_assoc]
  | case3 place nothing stopped =>
    match place, stopped with
    | ⟨offset, []⟩, _ =>
      obtain ⟨split, offsets⟩ := reached
      obtain ⟨rfl, _⟩ := List.append_eq_nil_iff.mp split.symm
      obtain rfl := Place.Reaches.eq_of_nil ⟨split, offsets⟩
      rw [nothing] at readable
      cases readable

/-- Where nothing can be read inside of something else, a search finds all that can be read. -/
theorem mem_findFrom_iff {place : Place} {found : α}
    (apart : ∀ {start stop spot after : Place} {outer inner : α} {inside outside : List Char},
      reader.read? start = some (outer, stop) → start.Reaches inside spot → spot.Reaches outside stop →
      outside ≠ [] → reader.read? spot = some (inner, after) → inside = []) :
    found ∈ reader.findFrom place ↔
      ∃ before spot after, place.Reaches before spot ∧ reader.read? spot = some (found, after) := by
  constructor
  · exact reader.exists_read_of_mem
  · rintro ⟨before, spot, after, reached, readable⟩
    obtain ⟨outer, member, start, stop, inside, outside, read, reachedSpot, reachedStop, nonempty⟩ :=
      reader.exists_found_around reached readable
    obtain rfl := apart read reachedSpot reachedStop nonempty readable
    obtain rfl := reachedSpot.eq_of_nil
    rw [readable] at read
    cases read
    exact member

theorem findFrom_pairwise {place : Place} {related : α → α → Prop}
    (ordered : ∀ {start stop laterStart laterStop passed found later},
      reader.read? start = some (found, stop) → stop.Reaches passed laterStart →
      reader.read? laterStart = some (later, laterStop) → related found later) :
    (reader.findFrom place).Pairwise related := by
  induction place using findFrom.induct reader with
  | case1 place first stop read inductionHypothesis =>
    rw [reader.findFrom_of_read read]
    refine List.pairwise_cons.mpr ⟨?_, inductionHypothesis⟩
    intro later member
    obtain ⟨passed, laterStart, laterStop, reached, readLater⟩ := reader.exists_read_of_mem member
    exact ordered read reached readLater
  | case2 place nothing char next step inductionHypothesis =>
    match place, step with
    | ⟨offset, first :: rest⟩, step =>
      cases step
      rw [reader.findFrom_of_pass nothing]
      exact inductionHypothesis
  | case3 place nothing stopped =>
    match place, stopped with
    | ⟨offset, []⟩, _ =>
      rw [reader.findFrom_end]
      exact List.Pairwise.nil

theorem findFrom_append {offset : Nat} {passed rest : List Char}
    (nothing : ∀ before char behind, passed = before ++ char :: behind →
      reader.read? ⟨offset + byteLength before, char :: (behind ++ rest)⟩ = none) :
    reader.findFrom ⟨offset, passed ++ rest⟩ = reader.findFrom ⟨offset + byteLength passed, rest⟩ := by
  induction passed generalizing offset with
  | nil => rfl
  | cons char passed inductionHypothesis =>
    have first : reader.read? ⟨offset, char :: (passed ++ rest)⟩ = none := nothing [] char passed rfl
    rw [List.cons_append, reader.findFrom_of_pass first, byteLength_cons, ← Nat.add_assoc]
    apply inductionHypothesis
    intro before head behind split
    have later := nothing (char :: before) head behind (by rw [split, List.cons_append])
    rwa [byteLength_cons, ← Nat.add_assoc] at later

end Reader

end StyleSkeleton.Text
