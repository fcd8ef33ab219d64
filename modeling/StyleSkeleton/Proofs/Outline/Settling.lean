import StyleSkeleton.Outline

/-! # Settling

A replay is lazy: what a tag contributes shows only after it has been settled.  The lemmas here
say what each event does to the *settled* state, which has no such delay.  Entries are always
added in the same way, by `absorb`: of a list of candidates the first of each name is taken,
unless the name has an entry already.
-/

namespace StyleSkeleton.Outline

open StyleSkeleton.Markup

/-! ## The first entry of each name -/

def firstsByName : List Entry → List Entry
  | [] => []
  | entry :: entries => entry :: (firstsByName entries).filter fun later => later.name ≠ entry.name

/-- The entries that a list of candidates adds, given the names that have one. -/
def fresh (seen : NameSet) (candidates : List Entry) : List Entry :=
  (firstsByName candidates).filter fun entry => entry.name ∉ seen

theorem firstsByName_append (first second : List Entry) :
    firstsByName (first ++ second) =
      firstsByName first ++ (firstsByName second).filter fun entry => entry.name ∉ first.map Entry.name := by
  induction first with
  | nil =>
    have unfiltered : (firstsByName second).filter (fun entry => entry.name ∉ [].map Entry.name) =
        firstsByName second := List.filter_eq_self.mpr (by simp)
    rw [List.nil_append, unfiltered]
    rfl
  | cons entry entries inductionHypothesis =>
    simp only [List.cons_append, firstsByName, inductionHypothesis, List.filter_append, List.filter_filter,
      List.map_cons, List.mem_cons, not_or, Bool.decide_and]

theorem insertAll_append (seen : NameSet) (first second : List String) :
    seen.insertAll (first ++ second) = (seen.insertAll first).insertAll second :=
  List.foldl_append

theorem fresh_empty (candidates : List Entry) : fresh ∅ candidates = firstsByName candidates := by
  simp [fresh]

theorem fresh_append (seen : NameSet) (first second : List Entry) :
    fresh seen (first ++ second) =
      fresh seen first ++ fresh (seen.insertAll (first.map Entry.name)) second := by
  simp only [fresh, firstsByName_append, List.filter_append, List.filter_filter, NameSet.mem_insertAll,
    not_or, Bool.decide_and, Bool.and_comm]

theorem mem_names_firstsByName {entries : List Entry} {name : String} :
    name ∈ (firstsByName entries).map Entry.name ↔ name ∈ entries.map Entry.name := by
  induction entries with
  | nil => rfl
  | cons entry entries inductionHypothesis =>
    rw [firstsByName, List.map_cons, List.map_cons, List.mem_cons, List.mem_cons, ← inductionHypothesis]
    by_cases first : name = entry.name
    · simp [first]
    · simp only [first, false_or, List.mem_map, List.mem_filter]
      constructor
      · rintro ⟨later, ⟨member, _⟩, rfl⟩
        exact ⟨later, member, rfl⟩
      · rintro ⟨later, member, rfl⟩
        exact ⟨later, ⟨member, by simpa using first⟩, rfl⟩

theorem nodup_names_firstsByName (entries : List Entry) : ((firstsByName entries).map Entry.name).Nodup := by
  induction entries with
  | nil => exact List.nodup_nil
  | cons entry entries inductionHypothesis =>
    rw [firstsByName, List.map_cons, List.nodup_cons]
    refine ⟨by simp, ?_⟩
    exact inductionHypothesis.sublist (List.filter_sublist.map _)

theorem mem_names_fresh {seen : NameSet} {candidates : List Entry} {name : String} :
    name ∈ (fresh seen candidates).map Entry.name ↔ name ∈ candidates.map Entry.name ∧ name ∉ seen := by
  have firsts := @mem_names_firstsByName candidates name
  rw [← firsts]
  simp only [fresh, List.mem_map, List.mem_filter, decide_eq_true_eq]
  constructor
  · rintro ⟨entry, ⟨member, unseen⟩, rfl⟩
    exact ⟨⟨entry, member, rfl⟩, unseen⟩
  · rintro ⟨⟨entry, member, rfl⟩, unseen⟩
    exact ⟨entry, ⟨member, unseen⟩, rfl⟩

theorem nodup_names_fresh (seen : NameSet) (candidates : List Entry) :
    ((fresh seen candidates).map Entry.name).Nodup :=
  (nodup_names_firstsByName candidates).sublist (List.filter_sublist.map _)

theorem unseen_eq_fresh (seen : NameSet) (names : List String) (tag : String) (level : Nat) :
    (unseen seen names).map (fun name => (⟨tag, name, level⟩ : Entry)) =
      fresh seen (names.map fun name => ⟨tag, name, level⟩) := by
  induction names generalizing seen with
  | nil => rfl
  | cons name names inductionHypothesis =>
    have cut := fresh_append seen [⟨tag, name, level⟩] (names.map fun name => ⟨tag, name, level⟩)
    rw [List.singleton_append] at cut
    rw [List.map_cons, cut, ← inductionHypothesis, unseen]
    by_cases known : name ∈ seen
    · have same : seen.insertAll [name] = seen := NameSet.ext fun other => by
        rw [NameSet.mem_insertAll, List.mem_singleton]
        constructor
        · rintro (rfl | member)
          · exact known
          · exact member
        · exact Or.inr
      simp [known, same, fresh, firstsByName]
    · simp [known, fresh, firstsByName, NameSet.insertAll]

/-! ## Depth -/

theorem depth_cons (frame : Frame) (below : List Frame) :
    depth (frame :: below) = if frame.classes = [] then depth below else depth below + 1 := by
  rw [depth, List.countP_cons]
  by_cases empty : frame.classes = [] <;> simp [depth, Frame.bearsClasses, empty]

namespace Replay

/-! ## Absorbing candidates -/

def absorb (replay : Replay) (candidates : List Entry) : Replay :=
  { replay with
    entries := replay.entries ++ fresh replay.seen candidates
    seen := replay.seen.insertAll (candidates.map Entry.name) }

@[simp] theorem absorb_stack (replay : Replay) (candidates : List Entry) :
    (replay.absorb candidates).stack = replay.stack := rfl

theorem absorb_nil (replay : Replay) : replay.absorb [] = replay := by
  simp [absorb, fresh, firstsByName, NameSet.insertAll]

theorem absorb_append (replay : Replay) (first second : List Entry) :
    replay.absorb (first ++ second) = (replay.absorb first).absorb second := by
  simp only [absorb, fresh_append, List.map_append, insertAll_append, List.append_assoc]

/-! ## Settled states -/

theorem settle_of_not_collecting {replay : Replay} (settled : replay.collecting = false) :
    replay.settle = replay := by
  cases replay
  simp_all [settle]

@[simp] theorem settle_collecting (replay : Replay) : replay.settle.collecting = false := by
  unfold settle
  split <;> rfl

theorem settle_with_strays (replay : Replay) (strays : Nat) :
    { replay with strays }.settle = { replay.settle with strays } := by
  obtain ⟨stack, collecting, seen, entries, unmatched, counted⟩ := replay
  cases collecting with
  | false => rfl
  | true => cases stack <;> rfl

def settledStack (tag : String) (classes : List String) (below : List Frame) : List Frame :=
  if isVoid tag then below
  else ⟨tag, classes, if classes = [] then none else some (depth below)⟩ :: below

theorem settle_of_collecting {replay : Replay} {tag : String} {classes : List String} {below : List Frame}
    (collecting : replay.collecting = true) (stack : replay.stack = ⟨tag, classes, none⟩ :: below) :
    replay.settle =
      { replay.absorb (classes.map fun name => ⟨tag, name, depth below⟩) with
        stack := settledStack tag classes below
        collecting := false } := by
  cases classes with
  | nil =>
    rw [List.map_nil, absorb_nil]
    simp [settle, emitted, collecting, stack, unseen, NameSet.insertAll, settledStack, settledTop,
      Frame.bearsClasses]
  | cons name names =>
    have level : topLevel ⟨tag, name :: names, none⟩ below = depth below := by
      simp [topLevel, depth, Frame.bearsClasses]
    have names_eq : ((name :: names).map fun name => (⟨tag, name, depth below⟩ : Entry)).map Entry.name =
        name :: names := by
      simp [Function.comp_def]
    simp only [settle, emitted, collecting, stack, level, unseen_eq_fresh, absorb, names_eq, settledStack,
      settledTop, Frame.bearsClasses]
    simp

theorem settle_opened (replay : Replay) (tag : String) :
    (replay.opened tag).settle =
      { replay with stack := settledStack tag [] replay.stack, collecting := false } := by
  have settled : (replay.opened tag).settle = _ := settle_of_collecting rfl rfl
  rw [settled, List.map_nil, absorb_nil]
  rfl

/-! ## Closed states -/

@[simp] theorem closed_stack (replay : Replay) : replay.closed.stack = replay.stack.tail := by
  unfold closed
  split <;> simp_all

@[simp] theorem closed_collecting (replay : Replay) : replay.closed.collecting = replay.collecting := by
  unfold closed
  split <;> rfl

@[simp] theorem closed_entries (replay : Replay) : replay.closed.entries = replay.entries := by
  unfold closed
  split <;> rfl

@[simp] theorem closed_seen (replay : Replay) : replay.closed.seen = replay.seen := by
  unfold closed
  split <;> rfl

theorem settle_closed_settle (replay : Replay) : replay.settle.closed.settle = replay.settle.closed :=
  settle_of_not_collecting ((closed_collecting _).trans replay.settle_collecting)

/-! ## Named states -/

theorem named_of_not_collecting {replay : Replay} (settled : replay.collecting = false) (name : String) :
    replay.named name = { replay with strays := replay.strays + 1 } := by
  simp [named, settled]

theorem named_of_collecting {replay : Replay} {tag : String} {classes : List String} {below : List Frame}
    (collecting : replay.collecting = true) (stack : replay.stack = ⟨tag, classes, none⟩ :: below)
    (name : String) :
    replay.named name = { replay with stack := ⟨tag, classes ++ [name], none⟩ :: below } := by
  simp only [named, collecting, stack]

/-- One more name of a collecting tag is absorbed on top of what settling brings out without it. -/
theorem settle_named {replay : Replay} {tag : String} {classes : List String} {below : List Frame}
    (collecting : replay.collecting = true) (stack : replay.stack = ⟨tag, classes, none⟩ :: below)
    (name : String) :
    (replay.named name).settle.entries =
        replay.settle.entries ++ fresh replay.settle.seen [⟨tag, name, depth below⟩] ∧
      (replay.named name).settle.seen = replay.settle.seen.insertAll [name] := by
  have named := named_of_collecting collecting stack name
  have before := settle_of_collecting collecting stack
  have after : (replay.named name).settle = _ :=
    settle_of_collecting (by rw [named]; exact collecting) (by rw [named])
  rw [List.map_append, absorb_append] at after
  rw [after, before, named]
  exact ⟨rfl, rfl⟩

end Replay

end StyleSkeleton.Outline
