import Mathlib.Data.Finset.Card
import StyleSkeleton.Proofs.Outline.Blocks
import StyleSkeleton.Proofs.Outline.Reading

/-! # What the totals say

The record at the end of a replay counts entries, tags that are left open, unmatched closings and strays.
All four can be read off the events without a replay.

The height of the settled stack is a walk over the events that goes up at openings and down at closings, and
stays where it is at a closing on the ground.  The invariant `Replay.Balanced` ties it to the walk that goes down
there as well: the two are apart by the greatest excess of closings so far, and that is the number of closings
that found nothing to close.
-/

namespace StyleSkeleton.Outline

open StyleSkeleton.Markup

/-! ## Openings and closings -/

def openingCount (events : List Event) : Nat :=
  events.countP fun event =>
    match event.kind with
    | .opening tag => !isVoid tag
    | _ => false

def closingCount (events : List Event) : Nat :=
  events.countP fun event => event.kind == .closing

/-- By how many the closings outnumber the openings at most, over all beginnings of the events. -/
def excess (events : List Event) : Nat :=
  (List.range (events.length + 1)).foldl (fun greatest count =>
    max greatest (closingCount (events.take count) - openingCount (events.take count))) 0

theorem openingCount_concat (events : List Event) (event : Event) :
    openingCount (events ++ [event]) = openingCount events + openingCount [event] :=
  List.countP_append

theorem closingCount_concat (events : List Event) (event : Event) :
    closingCount (events ++ [event]) = closingCount events + closingCount [event] :=
  List.countP_append

theorem excess_concat (events : List Event) (event : Event) :
    excess (events ++ [event]) =
      max (excess events) (closingCount (events ++ [event]) - openingCount (events ++ [event])) := by
  have whole : (events ++ [event]).take (events.length + 1) = events ++ [event] := List.take_of_length_le (by simp)
  rw [excess, List.length_append, List.length_singleton, List.range_succ, List.foldl_append, List.foldl_cons,
    List.foldl_nil, whole]
  congr 1
  refine List.foldl_ext _ _ _ fun greatest count inside => ?_
  rw [List.take_append_of_le_length (Nat.le_of_lt_succ (List.mem_range.mp inside))]

theorem le_excess (events : List Event) : closingCount events - openingCount events ≤ excess events := by
  rw [excess, List.range_succ, List.foldl_append, List.foldl_cons, List.foldl_nil, List.take_length]
  exact Nat.le_max_right _ _

theorem excess_concat_of_no_closing {events : List Event} {event : Event}
    (closings : closingCount (events ++ [event]) = closingCount events)
    (openings : openingCount events ≤ openingCount (events ++ [event])) :
    excess (events ++ [event]) = excess events := by
  have bound := le_excess events
  rw [excess_concat, closings]
  omega

namespace Replay

theorem length_settledStack (tag : String) (classes : List String) (below : List Frame) :
    (settledStack tag classes below).length = if isVoid tag then below.length else below.length + 1 := by
  unfold settledStack
  split <;> rfl

theorem length_settle_named (replay : Replay) (name : String) :
    (replay.named name).settle.stack.length = replay.settle.stack.length := by
  obtain ⟨stack, collecting, seen, entries, unmatched, strays⟩ := replay
  cases collecting with
  | false => rfl
  | true =>
    cases stack with
    | nil => rfl
    | cons top below => by_cases void : isVoid top.tag = true <;> simp [named, settle, void]

@[simp] theorem settle_unmatched (replay : Replay) : replay.settle.unmatched = replay.unmatched := by
  unfold settle
  split <;> rfl

@[simp] theorem named_unmatched (replay : Replay) (name : String) :
    (replay.named name).unmatched = replay.unmatched := by
  unfold named
  split <;> rfl

/-- The closings that matched nothing are the excess, and the stack is as high as the openings that the other
closings leave. -/
structure Balanced (events : List Event) (replay : Replay) : Prop where
  unmatched : replay.unmatched = excess events
  height : replay.settle.stack.length + closingCount events = openingCount events + excess events

namespace Balanced

variable {ignored : NameSet} {events : List Event} {replay : Replay}

theorem opening (balanced : Balanced events replay) (position : Nat) (tag : String) :
    Balanced (events ++ [⟨position, .opening tag⟩]) (replay.settle.opened tag) := by
  have height := balanced.height
  have closings : closingCount (events ++ [⟨position, .opening tag⟩]) = closingCount events :=
    closingCount_concat _ _
  have openings : openingCount (events ++ [⟨position, .opening tag⟩]) =
      openingCount events + if isVoid tag then 0 else 1 := by
    cases void : isVoid tag <;> simp [openingCount, void]
  have same := excess_concat_of_no_closing closings (by omega)
  refine ⟨?_, ?_⟩
  · rw [same, ← balanced.unmatched]
    exact replay.settle_unmatched
  · rw [same, openings, closings, settle_opened, length_settledStack]
    split <;> omega

theorem closing (balanced : Balanced events replay) (position : Nat) :
    Balanced (events ++ [⟨position, .closing⟩]) replay.settle.closed := by
  have height := balanced.height
  have unmatched := balanced.unmatched
  have openings : openingCount (events ++ [⟨position, .closing⟩]) = openingCount events := openingCount_concat _ _
  have closings : closingCount (events ++ [⟨position, .closing⟩]) = closingCount events + 1 :=
    closingCount_concat _ _
  have extended := excess_concat events ⟨position, .closing⟩
  rw [openings, closings] at extended
  cases stack : replay.settle.stack with
  -- On an empty stack the excess is as great as ever, and the closing exceeds it.
  | nil =>
    rw [stack, List.length_nil] at height
    refine ⟨?_, ?_⟩
    · simp only [closed, stack, settle_unmatched]
      omega
    · rw [settle_closed_settle, closed_stack, stack, openings, closings]
      simp only [List.tail_nil, List.length_nil]
      omega
  | cons top below =>
    rw [stack, List.length_cons] at height
    refine ⟨?_, ?_⟩
    · simp only [closed, stack, settle_unmatched]
      omega
    · rw [settle_closed_settle, closed_stack, stack, openings, closings]
      simp only [List.tail_cons]
      omega

theorem className (balanced : Balanced events replay) (position : Nat) (name : String) (next : Replay)
    (unmatched : next.unmatched = replay.unmatched)
    (height : next.settle.stack.length = replay.settle.stack.length) :
    Balanced (events ++ [⟨position, .className name⟩]) next := by
  have openings : openingCount (events ++ [⟨position, .className name⟩]) = openingCount events :=
    openingCount_concat _ _
  have closings : closingCount (events ++ [⟨position, .className name⟩]) = closingCount events :=
    closingCount_concat _ _
  have same := excess_concat_of_no_closing closings (Nat.le_of_eq openings.symm)
  refine ⟨?_, ?_⟩
  · rw [same, unmatched, balanced.unmatched]
  · rw [same, openings, closings, height, balanced.height]

theorem step (balanced : Balanced events replay) (event : Event) :
    Balanced (events ++ [event]) (replay.step ignored event) := by
  obtain ⟨position, kind⟩ := event
  cases kind with
  | opening tag => exact balanced.opening position tag
  | closing => exact balanced.closing position
  | className name =>
    by_cases isIgnored : name ∈ ignored
    · simpa [Replay.step, isIgnored] using balanced.className position name replay rfl rfl
    · simpa [Replay.step, isIgnored] using
        balanced.className position name _ (replay.named_unmatched name) (replay.length_settle_named name)

theorem run (ignored : NameSet) (events : List Event) : Balanced events (start.run ignored events) := by
  induction events using List.reverseRecOn with
  | nil => exact ⟨rfl, rfl⟩
  | append_singleton events event inductionHypothesis =>
    rw [run_append]
    exact inductionHypothesis.step event

end Balanced

/-! ## Strays -/

@[simp] theorem settle_strays (replay : Replay) : replay.settle.strays = replay.strays := by
  unfold settle
  split <;> rfl

@[simp] theorem closed_strays (replay : Replay) : replay.closed.strays = replay.strays := by
  unfold closed
  split <;> rfl

end Replay

section Names

variable (events : List Event) (ignored : NameSet)

/-- Whether a class name that counts stands at an index, behind a closing or in front of all tags. -/
def isStray (index : Nat) : Bool :=
  match kindAt? events index, owner? events index with
  | some (.className name), none => name ∉ ignored
  | _, _ => false

def strayCount : Nat :=
  (List.range events.length).countP (isStray events ignored)

end Names

variable {events : List Event} {ignored : NameSet}

theorem strayCount_concat (event : Event) :
    strayCount (events ++ [event]) ignored =
      strayCount events ignored + (isStray (events ++ [event]) ignored events.length).toNat := by
  have before : (List.range events.length).countP (isStray (events ++ [event]) ignored) =
      strayCount events ignored := by
    apply List.countP_congr
    intro index member
    have inside := List.mem_range.mp member
    -- Whether a name is a stray is decided by the events in front of it.
    rw [isStray, isStray, kindAt?_append _ inside, owner?_append _ (Nat.le_of_lt inside)]
  rw [strayCount, List.length_append, List.length_singleton, List.range_succ, List.countP_append, before]
  cases stray : isStray (events ++ [event]) ignored events.length <;> simp [stray]

theorem Agrees.strays_step {replay : Replay} (agrees : Agrees ignored events replay) (event : Event) :
    (replay.step ignored event).strays =
      replay.strays + (isStray (events ++ [event]) ignored events.length).toNat := by
  have pending := agrees.pending
  rw [isStray, kindAt?_concat_length, owner?_append _ (Nat.le_refl _)]
  obtain ⟨position, kind⟩ := event
  cases kind with
  | opening tag => exact replay.settle_strays
  | closing => simp [Replay.step]
  | className name =>
    by_cases isIgnored : name ∈ ignored
    · cases owner? events events.length <;> simp [Replay.step, isIgnored]
    · cases owned : owner? events events.length with
      | none =>
        rw [owned] at pending
        simp [Replay.step, isIgnored, Replay.named_of_not_collecting pending.1]
      | some found =>
        rw [owned] at pending
        obtain ⟨collecting, classes, below, stack, _⟩ := pending
        simp [Replay.step, isIgnored, Replay.named_of_collecting collecting stack]

theorem strays_run (ignored : NameSet) (events : List Event) :
    (Replay.start.run ignored events).strays = strayCount events ignored := by
  induction events using List.reverseRecOn with
  | nil => rfl
  | append_singleton events event inductionHypothesis =>
    rw [Replay.run_append, strayCount_concat, ← inductionHypothesis]
    exact (Agrees.run ignored events).strays_step event

theorem length_attachments_add_strayCount (ignored : NameSet) (events : List Event) :
    (attachments events ignored).length + strayCount events ignored = (counted ignored (namesIn events)).length := by
  induction events using List.reverseRecOn with
  | nil => rfl
  | append_singleton events event inductionHypothesis =>
    rw [attachments_concat, strayCount_concat, namesIn_append, counted, List.filter_append, List.length_append,
      List.length_append, ← counted, ← inductionHypothesis, attachment?, isStray, kindAt?_concat_length,
      owner?_append _ (Nat.le_refl _)]
    obtain ⟨position, kind⟩ := event
    cases kind with
    | opening tag => rfl
    | closing => rfl
    | className name =>
      by_cases isIgnored : name ∈ ignored <;> cases owner? events events.length <;>
        simp [namesIn, isIgnored] <;> omega

/-! ## Entries -/

theorem length_ofEvents (ignored : NameSet) (events : List Event) :
    (ofEvents ignored events).length = ((attachments events ignored).map Attachment.name).toFinset.card := by
  have names : (located events ignored).map Entry.name = (attachments events ignored).map Attachment.name := by
    simp [located, Function.comp_def]
  have same : ((described events ignored).map Entry.name).toFinset =
      ((attachments events ignored).map Attachment.name).toFinset := by
    ext name
    rw [List.mem_toFinset, List.mem_toFinset, ← names]
    exact mem_names_firstsByName
  have distinct : ((described events ignored).map Entry.name).Nodup := nodup_names_firstsByName _
  rw [ofEvents, replayed, (Agrees.run ignored events).entries, ← same, List.toFinset_card_of_nodup distinct,
    List.length_map]

/-! ## The log -/

def isLevelled : LogRecord → Bool
  | .levelled _ _ _ => true
  | _ => false

@[simp] theorem isLevelled_record (entry : Entry) : isLevelled entry.record = true := rfl

namespace Replay

theorem settle_entries (replay : Replay) : replay.settle.entries = replay.entries ++ replay.emitted := by
  obtain ⟨stack, collecting, seen, entries, unmatched, strays⟩ := replay
  cases collecting with
  | false => exact (List.append_nil _).symm
  | true =>
    cases stack with
    | nil => exact (List.append_nil _).symm
    | cons top below => rfl

@[simp] theorem named_entries (replay : Replay) (name : String) : (replay.named name).entries = replay.entries := by
  unfold named
  split <;> rfl

theorem entries_step (ignored : NameSet) (replay : Replay) (event : Event) :
    (replay.step ignored event).entries.map Entry.record =
      replay.entries.map Entry.record ++ (replay.notes ignored event).filter isLevelled := by
  have mentioned : (replay.emitted.map Entry.record).filter isLevelled = replay.emitted.map Entry.record :=
    List.filter_eq_self.mpr (by simp)
  have settled := congrArg (List.map Entry.record) replay.settle_entries
  rw [List.map_append, ← mentioned] at settled
  obtain ⟨position, kind⟩ := event
  cases kind with
  | opening tag => exact settled
  | closing =>
    rw [step, closed_entries]
    exact settled
  | className name =>
    by_cases isIgnored : name ∈ ignored
    · simp [step, notes, isIgnored, isLevelled]
    · simp [step, notes, isIgnored]

theorem level_notes {ignored : NameSet} {replay : Replay} {event : Event} {record : LogRecord}
    (member : record ∈ replay.notes ignored event) : record.level = .trace := by
  have mentioned : record ∈ replay.emitted.map Entry.record → record.level = .trace := by
    intro isEntry
    obtain ⟨entry, _, rfl⟩ := List.mem_map.mp isEntry
    rfl
  obtain ⟨position, kind⟩ := event
  cases kind with
  | opening tag => exact mentioned member
  | closing => exact mentioned member
  | className name =>
    by_cases isIgnored : name ∈ ignored
    · simp only [notes, if_pos isIgnored, List.mem_singleton] at member
      rw [member]
      rfl
    · simp [notes, isIgnored] at member

theorem log_eq_concat (ignored : NameSet) (replay : Replay) (events : List Event) :
    ∃ traced, replay.log ignored events = traced ++ [(replay.run ignored events).settle.summary] ∧
      (∀ record ∈ traced, record.level = .trace) ∧
      (replay.run ignored events).settle.entries.map Entry.record =
        replay.entries.map Entry.record ++ traced.filter isLevelled := by
  induction events generalizing replay with
  | nil =>
    refine ⟨replay.emitted.map Entry.record, rfl, ?_, ?_⟩
    · intro record member
      obtain ⟨entry, _, rfl⟩ := List.mem_map.mp member
      rfl
    · rw [List.filter_eq_self.mpr (by simp), run_nil, settle_entries, List.map_append]
  | cons event events inductionHypothesis =>
    obtain ⟨traced, log_eq, traces, entries⟩ := inductionHypothesis (replay.step ignored event)
    refine ⟨replay.notes ignored event ++ traced, ?_, ?_, ?_⟩
    · rw [log, log_eq, run_cons, List.append_assoc]
    · intro record member
      exact (List.mem_append.mp member).elim level_notes (traces record)
    · rw [run_cons, entries, entries_step, List.filter_append, List.append_assoc]

end Replay

/-- The log of any events ends with totals that account for all of them.  In front of the totals there are only
traces, and those that tell of an entry are the outline. -/
theorem eventsLog_accounts (ignored : NameSet) (events : List Event) :
    ∃ traced entries unclosed unmatched strays,
      eventsLog ignored events = traced ++ [.outlined entries unclosed unmatched strays] ∧
      (LogRecord.outlined entries unclosed unmatched strays).message =
        "assigned " ++ toString entries ++ " classes (" ++ toString unclosed ++ " unclosed tags, " ++
          toString unmatched ++ " unmatched closes, " ++ toString strays ++ " stray classes)" ∧
      unmatched = excess events ∧
      (unclosed : Int) = openingCount events - closingCount events + unmatched ∧
      strays = strayCount events ignored ∧
      (attachments events ignored).length + strays = (counted ignored (namesIn events)).length ∧
      entries = ((attachments events ignored).map Attachment.name).toFinset.card ∧
      entries = (ofEvents ignored events).length ∧
      (∀ record ∈ traced, record.level = .trace) ∧
      traced.filter isLevelled =
        (ofEvents ignored events).map fun entry => .levelled entry.name entry.tag entry.level := by
  obtain ⟨traced, log_eq, traces, recorded⟩ := Replay.start.log_eq_concat ignored events
  have balanced : Replay.Balanced events (Replay.start.run ignored events) := Replay.Balanced.run ignored events
  refine ⟨traced, _, _, _, _, log_eq, rfl, ?_, ?_, ?_, ?_, length_ofEvents ignored events, rfl, traces,
    recorded.symm⟩
  · rw [Replay.settle_unmatched, balanced.unmatched]
  · have height := balanced.height
    rw [Replay.settle_unmatched, balanced.unmatched]
    omega
  · rw [Replay.settle_strays, strays_run]
  · rw [Replay.settle_strays, strays_run, length_attachments_add_strayCount]

end StyleSkeleton.Outline
