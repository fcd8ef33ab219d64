/-! # Sets of names

A finite set of names, kept as the list of its members in increasing order without duplicates.
Order is by code point. Because a set has only one such list, two sets with the same members are
equal (`NameSet.ext`).
-/

namespace StyleSkeleton

structure NameSet where
  toList : List String
  sorted : toList.Pairwise (· < ·)
deriving DecidableEq, Repr

namespace NameSet

/-! ## Members -/

def empty : NameSet := ⟨[], List.Pairwise.nil⟩

instance : EmptyCollection NameSet := ⟨empty⟩

instance : Inhabited NameSet := ⟨empty⟩

instance : Membership String NameSet := ⟨fun set name => name ∈ set.toList⟩

instance (name : String) (set : NameSet) : Decidable (name ∈ set) :=
  inferInstanceAs (Decidable (name ∈ set.toList))

@[simp] theorem not_mem_empty (name : String) : name ∉ (∅ : NameSet) := by
  intro member
  cases member

/-! ## Insertion -/

/-- A name put at its place in an increasing list, unless it is there already. -/
def placed (name : String) : List String → List String
  | [] => [name]
  | first :: rest =>
    if name < first then name :: first :: rest
    else if name = first then first :: rest
    else first :: placed name rest

theorem mem_placed {name member : String} {names : List String} :
    member ∈ placed name names ↔ member = name ∨ member ∈ names := by
  induction names with
  | nil => simp [placed]
  | cons first rest inductionHypothesis =>
    unfold placed
    split
    · simp
    · split
      · next same => simp [same]
      · simp only [List.mem_cons, inductionHypothesis]
        exact or_left_comm

theorem placed_pairwise {name : String} {names : List String} (sorted : names.Pairwise (· < ·)) :
    (placed name names).Pairwise (· < ·) := by
  induction names with
  | nil => simp [placed]
  | cons first rest inductionHypothesis =>
    obtain ⟨firstLeast, restSorted⟩ := List.pairwise_cons.mp sorted
    unfold placed
    split
    · next before =>
      refine List.pairwise_cons.mpr ⟨fun member isMember => ?_, sorted⟩
      cases List.mem_cons.mp isMember with
      | inl same => exact same ▸ before
      | inr later => exact String.lt_trans before (firstLeast member later)
    · next notBefore =>
      split
      · exact sorted
      · next differs =>
        refine List.pairwise_cons.mpr ⟨fun member isMember => ?_, inductionHypothesis restSorted⟩
        cases mem_placed.mp isMember with
        | inl same =>
          subst same
          exact String.not_le.mp fun bound =>
            differs (String.le_antisymm bound (String.not_lt.mp notBefore))
        | inr later => exact firstLeast member later

def insert (set : NameSet) (name : String) : NameSet :=
  ⟨placed name set.toList, placed_pairwise set.sorted⟩

def insertAll (set : NameSet) (names : List String) : NameSet :=
  names.foldl insert set

def ofList (names : List String) : NameSet :=
  empty.insertAll names

@[simp] theorem mem_insert {set : NameSet} {name member : String} :
    member ∈ set.insert name ↔ member = name ∨ member ∈ set :=
  mem_placed

@[simp] theorem mem_insertAll {set : NameSet} {names : List String} {member : String} :
    member ∈ set.insertAll names ↔ member ∈ names ∨ member ∈ set := by
  induction names generalizing set with
  | nil => simp [insertAll]
  | cons name names inductionHypothesis =>
    show member ∈ (set.insert name).insertAll names ↔ _
    rw [inductionHypothesis, mem_insert, List.mem_cons, or_left_comm, or_assoc]

/-! ## Equality -/

theorem eq_of_pairwise_of_mem_iff {left right : List String} (leftSorted : left.Pairwise (· < ·))
    (rightSorted : right.Pairwise (· < ·)) (same : ∀ name, name ∈ left ↔ name ∈ right) :
    left = right := by
  have leftNodup : left.Nodup := leftSorted.imp String.ne_of_lt
  have rightNodup : right.Nodup := rightSorted.imp String.ne_of_lt
  have permuted : left.Perm right :=
    (List.perm_ext_iff_of_nodup leftNodup rightNodup).mpr same
  exact permuted.eq_of_pairwise
    (fun _ _ _ _ before after => absurd after (String.lt_asymm before)) leftSorted rightSorted

theorem ext {left right : NameSet} (same : ∀ name, name ∈ left ↔ name ∈ right) : left = right := by
  obtain ⟨leftNames, leftSorted⟩ := left
  obtain ⟨rightNames, rightSorted⟩ := right
  obtain rfl := eq_of_pairwise_of_mem_iff leftSorted rightSorted same
  rfl

end NameSet

end StyleSkeleton
