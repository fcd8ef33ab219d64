import StyleSkeleton.Proofs.Outline.Settling

/-! # Complete blocks

A block is a sequence of elements, each opened, named and closed in order, or void and not closed at all.
Wherever it is replayed, it leaves the settled stack as it was, and all that its entries need to know about
the surroundings is the number of open tags with classes (`Block.settle_feed_kinds`).

The induction is on the tree of the block, for every state in which its replay may begin: the children begin
in one that has a frame more, and what stands behind an element begins in the one where the element began.
-/

namespace StyleSkeleton.Outline

open StyleSkeleton.Markup

/-! ## Replaying kinds -/

namespace Replay

def feed (ignored : NameSet) (replay : Replay) (kinds : List EventKind) : Replay :=
  replay.run ignored (kinds.map (Event.mk 0))

theorem feed_append (ignored : NameSet) (replay : Replay) (first second : List EventKind) :
    replay.feed ignored (first ++ second) = (replay.feed ignored first).feed ignored second := by
  rw [feed, List.map_append, run_append, feed, feed]

theorem feed_opening (ignored : NameSet) (replay : Replay) (tag : String) (kinds : List EventKind) :
    replay.feed ignored (.opening tag :: kinds) = (replay.settle.opened tag).feed ignored kinds := rfl

theorem feed_closing (ignored : NameSet) (replay : Replay) (kinds : List EventKind) :
    replay.feed ignored (.closing :: kinds) = replay.settle.closed.feed ignored kinds := rfl

theorem run_eq_feed (ignored : NameSet) (replay : Replay) (events : List Event) :
    replay.run ignored events = replay.feed ignored (events.map Event.kind) := by
  induction events generalizing replay with
  | nil => rfl
  | cons event events inductionHypothesis => exact inductionHypothesis _

theorem feed_names {ignored : NameSet} {replay : Replay} {tag : String} {classes : List String}
    {below : List Frame} (collecting : replay.collecting = true)
    (stack : replay.stack = ⟨tag, classes, none⟩ :: below) (names : List String) :
    replay.feed ignored (names.map .className) =
      { replay with stack := ⟨tag, classes ++ names.filter (· ∉ ignored), none⟩ :: below } := by
  induction names generalizing replay classes with
  | nil =>
    rw [List.filter_nil, List.append_nil, ← stack]
    rfl
  | cons name names inductionHypothesis =>
    show (replay.step ignored ⟨0, .className name⟩).feed ignored (names.map .className) = _
    by_cases isIgnored : name ∈ ignored
    · have same : replay.step ignored ⟨0, .className name⟩ = replay := if_pos isIgnored
      rw [same, inductionHypothesis collecting stack]
      simp [isIgnored]
    · let taken : Replay := { replay with stack := ⟨tag, classes ++ [name], none⟩ :: below }
      have takes : replay.step ignored ⟨0, .className name⟩ = taken :=
        (if_neg isIgnored).trans (named_of_collecting collecting stack name)
      rw [takes, @inductionHypothesis taken (classes ++ [name]) collecting rfl]
      simp [isIgnored, taken]

end Replay

/-! ## One tag -/

def counted (ignored : NameSet) (names : List String) : List String :=
  names.filter (· ∉ ignored)

def tagEntries (ignored : NameSet) (tag : String) (names : List String) (level : Nat) : List Entry :=
  (counted ignored names).map fun name => ⟨tag, name, level⟩

def innerLevel (ignored : NameSet) (names : List String) (level : Nat) : Nat :=
  if counted ignored names = [] then level else level + 1

theorem names_tagEntries (ignored : NameSet) (tag : String) (names : List String) (level : Nat) :
    (tagEntries ignored tag names level).map Entry.name = counted ignored names := by
  simp [tagEntries, Function.comp_def]

def tagKinds (tag : String) (names : List String) : List EventKind :=
  .opening tag :: names.map .className

theorem Replay.settle_feed_tagKinds (ignored : NameSet) (replay : Replay) (tag : String) (names : List String) :
    (replay.feed ignored (tagKinds tag names)).settle =
      { replay.settle.absorb (tagEntries ignored tag names (depth replay.settle.stack)) with
        stack := settledStack tag (counted ignored names) replay.settle.stack } := by
  have collected : (replay.settle.opened tag).feed ignored (names.map .className) =
      { replay.settle.opened tag with
        stack := ⟨tag, [] ++ counted ignored names, none⟩ :: replay.settle.stack } := feed_names rfl rfl names
  rw [tagKinds, feed_opening, collected, settle_of_collecting rfl rfl, List.nil_append,
    ← replay.settle_collecting]
  rfl

/-! ## Blocks -/

/-- Elements with the names of their tags, one behind the other. -/
inductive Block where
  | done
  | void (tag : String) (void : isVoid tag = true) (names : List String) (rest : Block)
  | element (tag : String) (notVoid : isVoid tag = false) (names : List String) (children rest : Block)

namespace Block

def kinds : Block → List EventKind
  | done => []
  | void tag _ names rest => tagKinds tag names ++ rest.kinds
  | element tag _ names children rest => tagKinds tag names ++ (children.kinds ++ .closing :: rest.kinds)

/-- All class names of a block that count, with their levels if the block stands at the given one. -/
def entries (ignored : NameSet) (level : Nat) : Block → List Entry
  | done => []
  | void tag _ names rest => tagEntries ignored tag names level ++ rest.entries ignored level
  | element tag _ names children rest =>
    tagEntries ignored tag names level ++
      (children.entries ignored (innerLevel ignored names level) ++ rest.entries ignored level)

/-- A replay of a block leaves the stack as it was before and absorbs the entries of the block. -/
theorem settle_feed_kinds (block : Block) (ignored : NameSet) (replay : Replay) :
    (replay.feed ignored block.kinds).settle =
      replay.settle.absorb (block.entries ignored (depth replay.settle.stack)) := by
  induction block generalizing replay with
  | done => exact (Replay.absorb_nil _).symm
  | void tag void names rest inductionHypothesis =>
    have dropped : (replay.feed ignored (tagKinds tag names)).settle =
        replay.settle.absorb (tagEntries ignored tag names (depth replay.settle.stack)) := by
      rw [Replay.settle_feed_tagKinds, Replay.settledStack, void]
      rfl
    rw [kinds, Replay.feed_append, inductionHypothesis, dropped, Replay.absorb_stack, ← Replay.absorb_append,
      entries]
  | element tag notVoid names children rest childrenHypothesis restHypothesis =>
    let level := depth replay.settle.stack
    let top : Frame := ⟨tag, counted ignored names, if counted ignored names = [] then none else some level⟩
    let inside := (replay.settle.absorb (tagEntries ignored tag names level)).absorb
      (children.entries ignored (innerLevel ignored names level))
    have pushed : (replay.feed ignored (tagKinds tag names)).settle =
        { replay.settle.absorb (tagEntries ignored tag names level) with
          stack := top :: replay.settle.stack } := by
      rw [Replay.settle_feed_tagKinds, Replay.settledStack, notVoid]
      rfl
    have deeper : depth (top :: replay.settle.stack) = innerLevel ignored names level := depth_cons _ _
    -- The children are replayed with the frame of the tag on the stack, and the closing takes it off.
    have around : ((replay.feed ignored (tagKinds tag names)).feed ignored children.kinds).settle.closed =
        inside := by
      rw [childrenHypothesis, pushed, deeper]
      rfl
    -- Nothing collects after the closing, so that the rest begins in a settled state.
    have settled : inside.settle = inside := Replay.settle_of_not_collecting replay.settle_collecting
    have restored : inside.stack = replay.settle.stack := rfl
    rw [kinds, Replay.feed_append, Replay.feed_append, Replay.feed_closing, around, restHypothesis, settled,
      restored, entries, Replay.absorb_append, Replay.absorb_append]

/-! ## What a block brings out -/

theorem className_mem_kinds_of_mem_entries {block : Block} {ignored : NameSet} {level : Nat} {entry : Entry}
    (member : entry ∈ block.entries ignored level) : .className entry.name ∈ block.kinds := by
  have ofTag {tag : String} {names : List String} {level : Nat}
      (isEntry : entry ∈ tagEntries ignored tag names level) : .className entry.name ∈ tagKinds tag names := by
    obtain ⟨name, isName, rfl⟩ := List.mem_map.mp isEntry
    exact List.mem_cons_of_mem _ (List.mem_map_of_mem (List.mem_filter.mp isName).1)
  induction block generalizing level with
  | done => cases member
  | void tag _ names rest inductionHypothesis =>
    rw [kinds, List.mem_append]
    exact (List.mem_append.mp member).imp ofTag inductionHypothesis
  | element tag _ names children rest childrenHypothesis restHypothesis =>
    rw [kinds, List.mem_append, List.mem_append, List.mem_cons]
    refine (List.mem_append.mp member).imp ofTag fun inner => ?_
    exact (List.mem_append.mp inner).imp childrenHypothesis fun later => .inr (restHypothesis later)

end Block

def Entry.raised (entry : Entry) (steps : Nat) : Entry :=
  { entry with level := entry.level + steps }

@[simp] theorem Entry.raised_name (entry : Entry) (steps : Nat) : (entry.raised steps).name = entry.name := rfl

@[simp] theorem Entry.raised_zero (entry : Entry) : entry.raised 0 = entry := rfl

theorem innerLevel_add (ignored : NameSet) (names : List String) (level steps : Nat) :
    innerLevel ignored names (level + steps) = innerLevel ignored names level + steps := by
  unfold innerLevel
  split
  · rfl
  · exact Nat.add_right_comm level steps 1

theorem Block.entries_add (block : Block) (ignored : NameSet) (level steps : Nat) :
    block.entries ignored (level + steps) = (block.entries ignored level).map (·.raised steps) := by
  have ofTag (tag : String) (names : List String) (level : Nat) :
      tagEntries ignored tag names (level + steps) = (tagEntries ignored tag names level).map (·.raised steps) := by
    simp [tagEntries, Entry.raised, Function.comp_def]
  induction block generalizing level with
  | done => rfl
  | void tag _ names rest inductionHypothesis =>
    rw [entries, entries, ofTag, inductionHypothesis, List.map_append]
  | element tag _ names children rest childrenHypothesis restHypothesis =>
    rw [entries, entries, ofTag, innerLevel_add, childrenHypothesis, restHypothesis, List.map_append,
      List.map_append]

/-! ## Blocks among events -/

def namesIn (events : List Event) : List String :=
  events.filterMap fun event =>
    match event.kind with
    | .className name => some name
    | _ => none

theorem mem_namesIn {events : List Event} {name : String} :
    name ∈ namesIn events ↔ .className name ∈ events.map Event.kind := by
  simp only [namesIn, List.mem_filterMap, List.mem_map]
  constructor
  · rintro ⟨event, member, isName⟩
    refine ⟨event, member, ?_⟩
    cases kind : event.kind <;> simp_all
  · rintro ⟨event, member, isName⟩
    exact ⟨event, member, by rw [isName]⟩

theorem namesIn_append (first second : List Event) : namesIn (first ++ second) = namesIn first ++ namesIn second :=
  List.filterMap_append

/-- The events are those of a complete block, wherever they stand. -/
def IsBlock (events : List Event) : Prop :=
  ∃ block : Block, events.map Event.kind = block.kinds

variable {tree : Block} {events : List Event}

theorem Block.names_entries (kinds : events.map Event.kind = tree.kinds) {ignored : NameSet} {level : Nat}
    {name : String} (member : name ∈ (tree.entries ignored level).map Entry.name) : name ∈ namesIn events := by
  obtain ⟨entry, isEntry, rfl⟩ := List.mem_map.mp member
  rw [mem_namesIn, kinds]
  exact className_mem_kinds_of_mem_entries isEntry

theorem Block.replayed_append (kinds : events.map Event.kind = tree.kinds) (ignored : NameSet)
    (before : List Event) :
    replayed ignored (before ++ events) =
      (replayed ignored before).absorb (tree.entries ignored (depth (replayed ignored before).stack)) := by
  rw [replayed, Replay.run_append, Replay.run_eq_feed ignored _ events, kinds, settle_feed_kinds]
  rfl

end StyleSkeleton.Outline
