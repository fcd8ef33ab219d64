import StyleSkeleton.Proofs.Outline.Settling

/-! # The states of a replay

`Invariant` says what holds of a replay after any events, well-formed markup or not.  A tag that
collects class names is the top of the stack, all frames below it are frozen, and frozen frames
carry the number of class-bearing frames under them as their level.

The clauses lean on each other: a level stays right because no frame below it changes, none
changes because only the collecting top takes names, and void tags are gone by the time another
tag is opened.  `Sound` is the part that one event preserves; the other clauses are read off it.
-/

namespace StyleSkeleton.Outline

open StyleSkeleton.Markup

/-! ## Settled frames -/

/-- The frames that class names do not reach any more: all but the top of a collecting stack. -/
def Replay.settledFrames (replay : Replay) : List Frame :=
  if replay.collecting then replay.stack.tail else replay.stack

/-- Frames as settling leaves them.  None is void, and those with classes have their level. -/
def Ladder : List Frame → Prop
  | [] => True
  | frame :: below =>
    isVoid frame.tag = false ∧ frame.level = (if frame.bearsClasses then some (depth below) else none) ∧
      Ladder below

theorem Ladder.frame {above below : List Frame} {frame : Frame} (ladder : Ladder (above ++ frame :: below)) :
    isVoid frame.tag = false ∧ frame.level = if frame.bearsClasses then some (depth below) else none := by
  induction above with
  | nil => exact ⟨ladder.1, ladder.2.1⟩
  | cons _ above inductionHypothesis => exact inductionHypothesis ladder.2.2

theorem Ladder.tail {stack : List Frame} (ladder : Ladder stack) : Ladder stack.tail := by
  cases stack with
  | nil => exact trivial
  | cons frame below => exact ladder.2.2

theorem Ladder.levels {stack : List Frame} (ladder : Ladder stack) :
    stack.reverse.filterMap Frame.level = List.range (depth stack) := by
  induction stack with
  | nil => rfl
  | cons frame below inductionHypothesis =>
    obtain ⟨_, level, ladder⟩ := ladder
    rw [List.reverse_cons, List.filterMap_append, inductionHypothesis ladder]
    -- The frame comes last from the bottom, and its level is the number of those before it.
    by_cases empty : frame.classes = []
    · simp [level, Frame.bearsClasses, depth_cons, empty]
    · simp [level, Frame.bearsClasses, depth_cons, empty, List.range_succ]

theorem Ladder.settledStack {below : List Frame} (ladder : Ladder below) (tag : String) (classes : List String) :
    Ladder (Replay.settledStack tag classes below) := by
  unfold Replay.settledStack
  split
  · exact ladder
  · rename_i notVoid
    refine ⟨by simpa using notVoid, ?_, ladder⟩
    by_cases empty : classes = [] <;> simp [Frame.bearsClasses, empty]

theorem mem_settledStack {tag : String} {classes : List String} {below : List Frame} {frame : Frame}
    (member : frame ∈ Replay.settledStack tag classes below) : frame.classes = classes ∨ frame ∈ below := by
  unfold Replay.settledStack at member
  split at member
  · exact .inr member
  · cases member with
    | head => exact .inl rfl
    | tail _ member => exact .inr member

/-! ## Records -/

structure Recorded (ignored : NameSet) (frames : List Frame) (seen : NameSet) (entries : List Entry) : Prop where
  ladder : Ladder frames
  distinct : (entries.map Entry.name).Nodup
  mem_seen_iff : ∀ name, name ∈ seen ↔ name ∈ entries.map Entry.name
  frames_seen : ∀ frame ∈ frames, ∀ name ∈ frame.classes, name ∈ seen
  seen_not_ignored : ∀ name ∈ seen, name ∉ ignored

namespace Recorded

variable {ignored seen : NameSet} {frames : List Frame} {entries : List Entry}

theorem tail (recorded : Recorded ignored frames seen entries) : Recorded ignored frames.tail seen entries :=
  { recorded with
    ladder := recorded.ladder.tail
    frames_seen := fun frame member => recorded.frames_seen frame (List.mem_of_mem_tail member) }

theorem settle (recorded : Recorded ignored frames seen entries) (tag : String) {classes : List String}
    (allCount : ∀ name ∈ classes, name ∉ ignored) {candidates : List Entry}
    (names : candidates.map Entry.name = classes) :
    Recorded ignored (Replay.settledStack tag classes frames) (seen.insertAll classes)
      (entries ++ fresh seen candidates) where
  ladder := recorded.ladder.settledStack tag classes
  distinct := by
    rw [List.map_append, List.nodup_append]
    refine ⟨recorded.distinct, nodup_names_fresh _ _, ?_⟩
    rintro name old _ new rfl
    exact (mem_names_fresh.mp new).2 ((recorded.mem_seen_iff name).mpr old)
  mem_seen_iff name := by
    rw [NameSet.mem_insertAll, List.map_append, List.mem_append, mem_names_fresh, names,
      ← recorded.mem_seen_iff name]
    by_cases known : name ∈ seen <;> simp [known]
  frames_seen frame member name isName := by
    rw [NameSet.mem_insertAll]
    cases mem_settledStack member with
    | inl top => exact .inl (top ▸ isName)
    | inr under => exact .inr (recorded.frames_seen frame under name isName)
  seen_not_ignored name known := by
    cases NameSet.mem_insertAll.mp known with
    | inl new => exact allCount name new
    | inr old => exact recorded.seen_not_ignored name old

end Recorded

namespace Replay

theorem settledFrames_of_not_collecting {replay : Replay} (settled : replay.collecting = false) :
    replay.settledFrames = replay.stack := by
  simp [settledFrames, settled]

theorem settledFrames_of_collecting {replay : Replay} {top : Frame} {below : List Frame}
    (collecting : replay.collecting = true) (stack : replay.stack = top :: below) :
    replay.settledFrames = below := by
  simp [settledFrames, collecting, stack]

/-! ## What an event preserves -/

structure Sound (ignored : NameSet) (replay : Replay) : Prop where
  collecting_top : replay.collecting = true → ∃ tag classes below,
    replay.stack = ⟨tag, classes, none⟩ :: below ∧ ∀ name ∈ classes, name ∉ ignored
  recorded : Recorded ignored replay.settledFrames replay.seen replay.entries

namespace Sound

variable {ignored : NameSet} {replay : Replay}

theorem start : Sound ignored Replay.start where
  collecting_top collecting := by cases collecting
  recorded :=
    { ladder := trivial
      distinct := List.nodup_nil
      mem_seen_iff := by simp [Replay.start]
      frames_seen := by simp [settledFrames, Replay.start]
      seen_not_ignored := by simp [Replay.start] }

theorem of_not_collecting (settled : replay.collecting = false)
    (recorded : Recorded ignored replay.stack replay.seen replay.entries) : Sound ignored replay where
  collecting_top collecting := by cases settled.symm.trans collecting
  recorded := by rwa [settledFrames_of_not_collecting settled]

theorem recorded_settle (sound : Sound ignored replay) :
    Recorded ignored replay.settle.stack replay.settle.seen replay.settle.entries := by
  cases collecting : replay.collecting with
  | false =>
    rw [settle_of_not_collecting collecting, ← settledFrames_of_not_collecting collecting]
    exact sound.recorded
  | true =>
    obtain ⟨tag, classes, below, stack, allCount⟩ := sound.collecting_top collecting
    have recorded := sound.recorded
    rw [settledFrames_of_collecting collecting stack] at recorded
    have names : (classes.map fun name => (⟨tag, name, depth below⟩ : Entry)).map Entry.name = classes := by
      simp [Function.comp_def]
    -- The frames below have been settled all along, and the top joins them with its names.
    rw [settle_of_collecting collecting stack]
    simp only [absorb, names]
    exact recorded.settle tag allCount names

theorem settle (sound : Sound ignored replay) : Sound ignored replay.settle :=
  of_not_collecting replay.settle_collecting sound.recorded_settle

theorem opened (sound : Sound ignored replay) (tag : String) : Sound ignored (replay.settle.opened tag) where
  collecting_top _ := ⟨tag, [], replay.settle.stack, rfl, by simp⟩
  recorded := sound.recorded_settle

theorem closed (sound : Sound ignored replay) : Sound ignored replay.settle.closed := by
  apply of_not_collecting
  · simp
  · rw [closed_stack, closed_seen, closed_entries]
    exact sound.recorded_settle.tail

theorem named {name : String} (sound : Sound ignored replay) (counts : name ∉ ignored) :
    Sound ignored (replay.named name) := by
  cases collecting : replay.collecting with
  | false =>
    rw [named_of_not_collecting collecting]
    exact ⟨sound.collecting_top, sound.recorded⟩
  | true =>
    obtain ⟨tag, classes, below, stack, allCount⟩ := sound.collecting_top collecting
    have recorded := sound.recorded
    rw [settledFrames_of_collecting collecting stack] at recorded
    rw [named_of_collecting collecting stack name]
    refine ⟨fun _ => ⟨tag, classes ++ [name], below, rfl, ?_⟩, ?_⟩
    · intro other isName
      cases List.mem_append.mp isName with
      | inl old => exact allCount other old
      | inr new => exact List.mem_singleton.mp new ▸ counts
    · have frozen : settledFrames { replay with stack := ⟨tag, classes ++ [name], none⟩ :: below } = below :=
        settledFrames_of_collecting collecting rfl
      rw [frozen]
      exact recorded

theorem step (sound : Sound ignored replay) (event : Event) : Sound ignored (replay.step ignored event) := by
  obtain ⟨position, kind⟩ := event
  cases kind with
  | opening tag => exact sound.opened tag
  | closing => exact sound.closed
  | className name =>
    by_cases isIgnored : name ∈ ignored
    · simpa [Replay.step, isIgnored] using sound
    · simpa [Replay.step, isIgnored] using sound.named isIgnored

theorem run (sound : Sound ignored replay) (events : List Event) : Sound ignored (replay.run ignored events) := by
  induction events generalizing replay with
  | nil => exact sound
  | cons event events inductionHypothesis => exact inductionHypothesis (sound.step event)

/-! ## What is read off -/

theorem frames_not_ignored (sound : Sound ignored replay) {frame : Frame} (member : frame ∈ replay.stack)
    {name : String} (isName : name ∈ frame.classes) : name ∉ ignored := by
  have settled : frame ∈ replay.settledFrames → name ∉ ignored := fun member =>
    sound.recorded.seen_not_ignored name (sound.recorded.frames_seen frame member name isName)
  cases collecting : replay.collecting with
  | false => exact settled (settledFrames_of_not_collecting collecting ▸ member)
  | true =>
    obtain ⟨tag, classes, below, stack, allCount⟩ := sound.collecting_top collecting
    rw [stack] at member
    cases member with
    | head => exact allCount name isName
    | tail _ member => exact settled (settledFrames_of_collecting collecting stack ▸ member)

theorem entries_not_ignored (sound : Sound ignored replay) {entry : Entry} (member : entry ∈ replay.entries) :
    entry.name ∉ ignored :=
  sound.recorded.seen_not_ignored _ ((sound.recorded.mem_seen_iff _).mpr (List.mem_map_of_mem member))

theorem void_collects (sound : Sound ignored replay) {above below : List Frame} {frame : Frame}
    (stack : replay.stack = above ++ frame :: below) (void : isVoid frame.tag = true) :
    above = [] ∧ replay.collecting = true := by
  -- No settled frame is void, so that only the collecting top is left.
  have settled : ∀ above, replay.settledFrames = above ++ frame :: below → False := by
    intro above frames
    have ladder := sound.recorded.ladder
    rw [frames] at ladder
    cases void.symm.trans ladder.frame.1
  cases collecting : replay.collecting with
  | false => exact (settled above ((settledFrames_of_not_collecting collecting).trans stack)).elim
  | true =>
    cases above with
    | nil => exact ⟨rfl, rfl⟩
    | cons top above => exact (settled above (settledFrames_of_collecting collecting stack)).elim

/-- Settling finds a frame without a level, and the level it fixes is no truncated difference. -/
theorem settles (sound : Sound ignored replay) (collecting : replay.collecting = true) :
    ∃ top below, replay.stack = top :: below ∧ top.level = none ∧
      (top.bearsClasses = true → 1 ≤ depth (top :: below) ∧ topLevel top below = depth below) := by
  obtain ⟨tag, classes, below, stack, _⟩ := sound.collecting_top collecting
  refine ⟨⟨tag, classes, none⟩, below, stack, rfl, fun bears => ?_⟩
  have nonempty : classes ≠ [] := by simpa [Frame.bearsClasses] using bears
  have deeper : depth (⟨tag, classes, none⟩ :: below) = depth below + 1 := by simp [depth_cons, nonempty]
  exact ⟨by omega, by simp [topLevel, deeper]⟩

end Sound

/-! ## Frozen frames -/

theorem settle_stack_cases (replay : Replay) :
    replay.settle.stack = replay.settledFrames ∨ ∃ top below, replay.collecting = true ∧
      replay.stack = top :: below ∧ replay.settle.stack = settledTop top below :: replay.settledFrames := by
  unfold Replay.settle
  split
  · rename_i top below collecting stack
    rw [settledFrames_of_collecting collecting stack]
    by_cases void : isVoid top.tag = true
    · exact .inl (by simp [void])
    · exact .inr ⟨top, below, collecting, stack, by simp [void]⟩
  · rename_i apart
    cases collecting : replay.collecting with
    | false => exact .inl (settledFrames_of_not_collecting collecting).symm
    | true =>
      cases stack : replay.stack with
      | nil => exact .inl (by simp [settledFrames, collecting, stack])
      | cons top below => exact (apart top below collecting stack).elim

/-- An event leaves the settled frames as they are, apart from taking some off or putting the one that it
settles on top. -/
theorem settledFrames_step (ignored : NameSet) (replay : Replay) (event : Event) :
    (replay.step ignored event).settledFrames <:+ replay.settledFrames ∨ ∃ top below, replay.collecting = true ∧
      replay.stack = top :: below ∧
      (replay.step ignored event).settledFrames = settledTop top below :: replay.settledFrames := by
  obtain ⟨position, kind⟩ := event
  cases kind with
  | opening tag =>
    have frames : (replay.settle.opened tag).settledFrames = replay.settle.stack := rfl
    simp only [Replay.step, frames]
    cases replay.settle_stack_cases with
    | inl same => exact .inl (same ▸ List.suffix_refl _)
    | inr settled => exact .inr settled
  | closing =>
    have settled : replay.settle.closed.collecting = false := by simp
    simp only [Replay.step, settledFrames_of_not_collecting settled, closed_stack]
    -- The closing takes off the frame that was just settled or, if that one was void, another settled one.
    left
    cases replay.settle_stack_cases with
    | inl same => exact same ▸ List.tail_suffix _
    | inr settled =>
      obtain ⟨top, below, _, _, stack⟩ := settled
      simp [stack]
  | className name =>
    left
    simp only [Replay.step]
    split
    · exact List.suffix_refl _
    · unfold Replay.named
      split
      · rename_i top below collecting stack
        simp [settledFrames, collecting, stack]
      · exact List.suffix_refl _

/-! ## The invariant -/

structure Invariant (ignored : NameSet) (replay : Replay) : Prop where
  collecting_stack : replay.collecting = true → replay.stack ≠ []
  /-- A void tag can only be the top frame, and only while it collects. -/
  void_collects : ∀ above frame below, replay.stack = above ++ frame :: below → isVoid frame.tag = true →
    above = [] ∧ replay.collecting = true
  /-- A frame other than the collecting top has a level just in case it has classes, namely the number of
  frames with classes below it. -/
  level_settled : ∀ above frame below, replay.settledFrames = above ++ frame :: below →
    frame.level = if frame.bearsClasses then some (depth below) else none
  level_collecting : replay.collecting = true → ∀ top below, replay.stack = top :: below → top.level = none
  levels_ascend : replay.settledFrames.reverse.filterMap Frame.level = List.range (depth replay.settledFrames)
  names_distinct : (replay.entries.map Entry.name).Nodup
  mem_seen_iff : ∀ name, name ∈ replay.seen ↔ name ∈ replay.entries.map Entry.name
  settled_seen : ∀ frame ∈ replay.settledFrames, ∀ name ∈ frame.classes, name ∈ replay.seen
  frames_not_ignored : ∀ frame ∈ replay.stack, ∀ name ∈ frame.classes, name ∉ ignored
  entries_not_ignored : ∀ entry ∈ replay.entries, entry.name ∉ ignored
  /-- A frame that is settled has no level yet.  With classes it counts itself, so that nothing is cut off
  when one is subtracted, and its level is the number of frames with classes below it. -/
  settles : replay.collecting = true → ∃ top below, replay.stack = top :: below ∧ top.level = none ∧
    (top.bearsClasses = true → 1 ≤ depth (top :: below) ∧ topLevel top below = depth below)
  /-- Once a frame is settled, no event changes it until it leaves the stack. -/
  settled_once : ∀ event, (replay.step ignored event).settledFrames <:+ replay.settledFrames ∨
    ∃ top below, replay.collecting = true ∧ replay.stack = top :: below ∧
      (replay.step ignored event).settledFrames = settledTop top below :: replay.settledFrames

/-- A replay of any events reaches only states with the invariant. -/
theorem run_invariant (ignored : NameSet) (events : List Event) :
    (start.run ignored events).Invariant ignored := by
  have sound : Sound ignored (start.run ignored events) := Sound.start.run events
  exact
    { collecting_stack := fun collecting => by
        obtain ⟨tag, classes, below, stack, _⟩ := sound.collecting_top collecting
        simp [stack]
      void_collects := fun _ _ _ => sound.void_collects
      level_settled := fun above frame below frames => by
        have ladder := sound.recorded.ladder
        rw [frames] at ladder
        exact ladder.frame.2
      level_collecting := fun collecting top below isTop => by
        obtain ⟨tag, classes, others, stack, _⟩ := sound.collecting_top collecting
        obtain ⟨rfl, _⟩ := List.cons.inj (isTop.symm.trans stack)
        rfl
      levels_ascend := sound.recorded.ladder.levels
      names_distinct := sound.recorded.distinct
      mem_seen_iff := sound.recorded.mem_seen_iff
      settled_seen := sound.recorded.frames_seen
      frames_not_ignored := fun _ member _ => sound.frames_not_ignored member
      entries_not_ignored := fun _ => sound.entries_not_ignored
      settles := sound.settles
      settled_once := settledFrames_step ignored _ }

end Replay

end StyleSkeleton.Outline
