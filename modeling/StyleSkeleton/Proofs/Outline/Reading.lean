import Mathlib.Data.List.Basic
import Mathlib.Data.List.Induction
import StyleSkeleton.Proofs.Outline.Settling

/-! # Reading an outline off the events

`described` says what the outline of a list of events is without a replay: by the owners of class
names, by the tags left open on a plain stack, and by counting.  It looks at the events by their
index and knows neither lazy settling nor void tags that stay for a while.  The outline of a
replay is the described one for every list of events (`ofEvents_eq_described`).

The ingredient is `Agrees`, which ties a replay to what can be read off the events it has seen.
A level never changes afterwards, because the tags around an opening get no more class names once
it is there (`levelOf_concat`).
-/

namespace StyleSkeleton.Outline

open StyleSkeleton.Markup

/-! ## The reading -/

section Reading

variable (events : List Event) (ignored : NameSet)

def kindAt? (index : Nat) : Option EventKind :=
  events[index]?.map Event.kind

/-- The nearest event before an index that is no class name, with its tag, if it is an opening. -/
def owner? : Nat → Option (Nat × String)
  | 0 => none
  | index + 1 =>
    match kindAt? events index with
    | some (.opening tag) => some (index, tag)
    | some (.className _) => owner? index
    | _ => none

/-- The openings left on a plain stack by the events before an index, innermost first.  Void
openings never get there. -/
def openTags : Nat → List Nat
  | 0 => []
  | index + 1 =>
    match kindAt? events index with
    | some (.opening tag) => if isVoid tag then openTags index else index :: openTags index
    | some .closing => (openTags index).tail
    | _ => openTags index

structure Attachment where
  owner : Nat
  tag : String
  name : String

def attachment? (index : Nat) : Option Attachment :=
  match kindAt? events index, owner? events index with
  | some (.className name), some (owner, tag) => if name ∈ ignored then none else some ⟨owner, tag, name⟩
  | _, _ => none

def attachments : List Attachment :=
  (List.range events.length).filterMap (attachment? events ignored)

def bearsClass (index : Nat) : Bool :=
  (attachments events ignored).any fun attachment => attachment.owner == index

def levelOf (index : Nat) : Nat :=
  (openTags events index).countP (bearsClass events ignored)

def located : List Entry :=
  (attachments events ignored).map fun attachment =>
    ⟨attachment.tag, attachment.name, levelOf events ignored attachment.owner⟩

def described : List Entry :=
  firstsByName (located events ignored)

end Reading

/-! ## One more event

What is read off at an index does not depend on later events. -/

section Append

variable {events : List Event} {event : Event} {ignored : NameSet} {index : Nat}

theorem kindAt?_append (more : List Event) (inside : index < events.length) :
    kindAt? (events ++ more) index = kindAt? events index := by
  rw [kindAt?, kindAt?, List.getElem?_append_left inside]

theorem kindAt?_concat_length : kindAt? (events ++ [event]) events.length = some event.kind := by
  simp [kindAt?]

theorem owner?_append (more : List Event) (inside : index ≤ events.length) :
    owner? (events ++ more) index = owner? events index := by
  induction index with
  | zero => rfl
  | succ index inductionHypothesis =>
    rw [owner?, owner?, kindAt?_append more inside, inductionHypothesis (Nat.le_of_lt inside)]

theorem openTags_append (more : List Event) (inside : index ≤ events.length) :
    openTags (events ++ more) index = openTags events index := by
  induction index with
  | zero => rfl
  | succ index inductionHypothesis =>
    rw [openTags, openTags, kindAt?_append more inside, inductionHypothesis (Nat.le_of_lt inside)]

theorem attachment?_append (more : List Event) (inside : index < events.length) :
    attachment? (events ++ more) ignored index = attachment? events ignored index := by
  rw [attachment?, attachment?, kindAt?_append more inside, owner?_append more (Nat.le_of_lt inside)]

theorem attachments_concat :
    attachments (events ++ [event]) ignored =
      attachments events ignored ++ (attachment? (events ++ [event]) ignored events.length).toList := by
  have before : (List.range events.length).filterMap (attachment? (events ++ [event]) ignored) =
      attachments events ignored := by
    apply List.filterMap_congr
    intro index member
    exact attachment?_append [event] (List.mem_range.mp member)
  rw [attachments, List.length_append, List.length_singleton, List.range_succ, List.filterMap_append, before]
  cases attached : attachment? (events ++ [event]) ignored events.length <;> simp [attached]

/-! ## Owners -/

theorem owner?_spec {owner : Nat} {tag : String} (owned : owner? events index = some (owner, tag)) :
    owner < index ∧ kindAt? events owner = some (.opening tag) ∧
      ∀ between, owner < between → between < index →
        ∃ name, kindAt? events between = some (.className name) := by
  induction index with
  | zero => cases owned
  | succ index inductionHypothesis =>
    rw [owner?] at owned
    split at owned
    · rename_i isOpening
      cases owned
      exact ⟨Nat.lt_succ_self _, isOpening, fun between above below => by omega⟩
    · rename_i name isName
      obtain ⟨below, isOpening, names⟩ := inductionHypothesis owned
      refine ⟨Nat.lt_succ_of_lt below, isOpening, ?_⟩
      intro between above inside
      by_cases last : between = index
      · exact ⟨name, last ▸ isName⟩
      · exact names between above (by omega)
    · cases owned

/-- After an opening and its class names the stack is the one before it, with the opening on top
unless it is void. -/
theorem openTags_of_owner {owner : Nat} {tag : String} (owned : owner? events index = some (owner, tag)) :
    openTags events index =
      if isVoid tag then openTags events owner else owner :: openTags events owner := by
  induction index with
  | zero => cases owned
  | succ index inductionHypothesis =>
    rw [owner?] at owned
    rw [openTags]
    split at owned
    · rename_i isOpening
      cases owned
      rw [isOpening]
    · rename_i name isName
      rw [isName]
      exact inductionHypothesis owned
    · cases owned

theorem lt_of_mem_openTags {opening : Nat} (member : opening ∈ openTags events index) : opening < index := by
  induction index with
  | zero => cases member
  | succ index inductionHypothesis =>
    rw [openTags] at member
    split at member
    · split at member
      · exact Nat.lt_succ_of_lt (inductionHypothesis member)
      · cases member with
        | head => exact Nat.lt_succ_self _
        | tail _ member => exact Nat.lt_succ_of_lt (inductionHypothesis member)
    · exact Nat.lt_succ_of_lt (inductionHypothesis (List.mem_of_mem_tail member))
    · exact Nat.lt_succ_of_lt (inductionHypothesis member)

theorem attachment?_spec {attachment : Attachment}
    (attached : attachment? events ignored index = some attachment) :
    kindAt? events index = some (.className attachment.name) ∧
      owner? events index = some (attachment.owner, attachment.tag) := by
  unfold attachment? at attached
  split at attached
  · rename_i isName owned
    split at attached
    · cases attached
    · cases attached
      exact ⟨isName, owned⟩
  · cases attached

theorem owner_of_mem_attachments {attachment : Attachment}
    (member : attachment ∈ attachments events ignored) :
    attachment.owner < events.length ∧ kindAt? events attachment.owner = some (.opening attachment.tag) := by
  obtain ⟨index, inside, attached⟩ := List.mem_filterMap.mp member
  obtain ⟨below, isOpening, _⟩ := owner?_spec (attachment?_spec attached).2
  exact ⟨Nat.lt_trans below (List.mem_range.mp inside), isOpening⟩

/-! ## Levels stay -/

theorem bearsClass_concat (opening : Nat) :
    bearsClass (events ++ [event]) ignored opening =
      (bearsClass events ignored opening ||
        (attachment? (events ++ [event]) ignored events.length).any fun attachment =>
          attachment.owner == opening) := by
  rw [bearsClass, bearsClass, attachments_concat, List.any_append]
  cases attachment? (events ++ [event]) ignored events.length <;> simp

theorem owner_of_attachment?_concat {attachment : Attachment}
    (attached : attachment? (events ++ [event]) ignored events.length = some attachment) :
    owner? events events.length = some (attachment.owner, attachment.tag) := by
  rw [← owner?_append [event] (Nat.le_refl _)]
  exact (attachment?_spec attached).2

/-- The event that is added attaches nothing to the tags around an opening: those were opened
earlier, so their class names had ended by then. -/
theorem levelOf_concat {tag : String} (isOpening : kindAt? events index = some (.opening tag))
    (inside : index < events.length) :
    levelOf (events ++ [event]) ignored index = levelOf events ignored index := by
  rw [levelOf, levelOf, openTags_append [event] (Nat.le_of_lt inside)]
  apply List.countP_congr
  intro opening around
  rw [bearsClass_concat]
  cases attached : attachment? (events ++ [event]) ignored events.length with
  | none => simp
  | some attachment =>
    -- Between an opening and its class names there is no other opening, but this one there would be.
    have other : attachment.owner ≠ opening := by
      rintro rfl
      obtain ⟨_, _, names⟩ := owner?_spec (owner_of_attachment?_concat attached)
      obtain ⟨name, isName⟩ := names index (lt_of_mem_openTags around) inside
      rw [isOpening] at isName
      cases isName
    simp [other]

theorem located_concat :
    located (events ++ [event]) ignored =
      located events ignored ++
        (attachment? (events ++ [event]) ignored events.length).toList.map fun attachment =>
          ⟨attachment.tag, attachment.name, levelOf events ignored attachment.owner⟩ := by
  rw [located, located, attachments_concat, List.map_append]
  congr 1
  · apply List.map_congr_left
    intro attachment member
    obtain ⟨inside, isOpening⟩ := owner_of_mem_attachments member
    rw [levelOf_concat isOpening inside]
  · apply List.map_congr_left
    intro attachment member
    have attached := Option.mem_toList.mp member
    obtain ⟨inside, isOpening, _⟩ := owner?_spec (owner_of_attachment?_concat attached)
    rw [levelOf_concat isOpening inside]

theorem located_concat_of_none (nothing : attachment? (events ++ [event]) ignored events.length = none) :
    located (events ++ [event]) ignored = located events ignored ∧
      bearsClass (events ++ [event]) ignored = bearsClass events ignored := by
  refine ⟨?_, funext fun opening => ?_⟩
  · rw [located_concat, nothing]
    exact List.append_nil _
  · rw [bearsClass_concat, nothing]
    exact Bool.or_false _

theorem not_bearsClass_length : bearsClass events ignored events.length = false := by
  rw [bearsClass, List.any_eq_false]
  intro attachment member
  have inside := (owner_of_mem_attachments member).1
  simp only [beq_iff_eq]
  omega

end Append

/-! ## Replays agree with the reading -/

/-- The frames stand for the openings at the given indices. -/
def Mirrors (events : List Event) (ignored : NameSet) (stack : List Frame) (openings : List Nat) : Prop :=
  stack.map Frame.bearsClasses = openings.map (bearsClass events ignored)

theorem Mirrors.depth_eq {events : List Event} {ignored : NameSet} {stack : List Frame} {index : Nat}
    (mirrors : Mirrors events ignored stack (openTags events index)) :
    depth stack = levelOf events ignored index := by
  have frames := List.countP_map (p := id) (f := Frame.bearsClasses) (l := stack)
  have openings := List.countP_map (p := id) (f := bearsClass events ignored) (l := openTags events index)
  rw [mirrors] at frames
  exact frames.symm.trans openings

/-- What the state of a replay has to do with the events it has seen.  Whether it is collecting,
and for which tag, is decided by the owner that a class name would have now. -/
structure Agrees (ignored : NameSet) (events : List Event) (replay : Replay) : Prop where
  entries : replay.settle.entries = described events ignored
  seen : replay.settle.seen = NameSet.ofList ((located events ignored).map Entry.name)
  pending :
    match owner? events events.length with
    | none =>
      replay.collecting = false ∧ Mirrors events ignored replay.stack (openTags events events.length)
    | some (owner, tag) =>
      replay.collecting = true ∧ ∃ classes below, replay.stack = ⟨tag, classes, none⟩ :: below ∧
        (!classes.isEmpty) = bearsClass events ignored owner ∧
          Mirrors events ignored below (openTags events owner)

namespace Agrees

variable {ignored : NameSet} {events : List Event} {replay : Replay}

theorem settled_mirrors (agrees : Agrees ignored events replay) :
    Mirrors events ignored replay.settle.stack (openTags events events.length) := by
  have pending := agrees.pending
  cases owned : owner? events events.length with
  | none =>
    rw [owned] at pending
    obtain ⟨settled, mirrors⟩ := pending
    rw [Replay.settle_of_not_collecting settled]
    exact mirrors
  | some found =>
    obtain ⟨owner, tag⟩ := found
    rw [owned] at pending
    obtain ⟨collecting, classes, below, stack, bears, mirrors⟩ := pending
    rw [Replay.settle_of_collecting collecting stack, openTags_of_owner owned]
    simp only [Replay.settledStack]
    split
    · exact mirrors
    · rw [Mirrors, List.map_cons, List.map_cons, mirrors, Frame.bearsClasses, bears]

/-- After an event that attaches nothing, the entries are still the described ones if settling
brings out the same entries as before. -/
theorem entries_of_nothing_attached {event : Event} (agrees : Agrees ignored events replay) (next : Replay)
    (nothing : attachment? (events ++ [event]) ignored events.length = none)
    (entries : next.settle.entries = replay.settle.entries) (seen : next.settle.seen = replay.settle.seen) :
    next.settle.entries = described (events ++ [event]) ignored ∧
      next.settle.seen = NameSet.ofList ((located (events ++ [event]) ignored).map Entry.name) := by
  rw [described, (located_concat_of_none nothing).1, entries, seen]
  exact ⟨agrees.entries, agrees.seen⟩

theorem opening {position : Nat} {tag : String} (agrees : Agrees ignored events replay) :
    Agrees ignored (events ++ [⟨position, .opening tag⟩]) (replay.settle.opened tag) := by
  have nothing : attachment? (events ++ [⟨position, .opening tag⟩]) ignored events.length = none := by
    rw [attachment?, kindAt?_concat_length]
  obtain ⟨entries, seen⟩ := agrees.entries_of_nothing_attached (replay.settle.opened tag) nothing
    (by rw [Replay.settle_opened]) (by rw [Replay.settle_opened])
  refine ⟨entries, seen, ?_⟩
  rw [List.length_append, List.length_singleton, owner?, kindAt?_concat_length]
  refine ⟨rfl, [], replay.settle.stack, rfl, ?_, ?_⟩
  · rw [(located_concat_of_none nothing).2, not_bearsClass_length]
    rfl
  · rw [Mirrors, (located_concat_of_none nothing).2, openTags_append _ (Nat.le_refl _)]
    exact agrees.settled_mirrors

theorem closing {position : Nat} (agrees : Agrees ignored events replay) :
    Agrees ignored (events ++ [⟨position, .closing⟩]) replay.settle.closed := by
  have nothing : attachment? (events ++ [⟨position, .closing⟩]) ignored events.length = none := by
    rw [attachment?, kindAt?_concat_length]
  obtain ⟨entries, seen⟩ := agrees.entries_of_nothing_attached replay.settle.closed nothing
    (by rw [Replay.settle_closed_settle, Replay.closed_entries])
    (by rw [Replay.settle_closed_settle, Replay.closed_seen])
  refine ⟨entries, seen, ?_⟩
  rw [List.length_append, List.length_singleton, owner?, kindAt?_concat_length]
  refine ⟨by simp, ?_⟩
  rw [Mirrors, Replay.closed_stack, openTags, kindAt?_concat_length, (located_concat_of_none nothing).2,
    openTags_append _ (Nat.le_refl _), List.map_tail, List.map_tail, agrees.settled_mirrors]

theorem className_of_nothing_attached {position : Nat} {name : String} (agrees : Agrees ignored events replay)
    (next : Replay) (same : next = { replay with strays := next.strays })
    (nothing : attachment? (events ++ [⟨position, .className name⟩]) ignored events.length = none) :
    Agrees ignored (events ++ [⟨position, .className name⟩]) next := by
  have settled : next.settle = { replay.settle with strays := next.strays } := by
    rw [same]
    exact replay.settle_with_strays next.strays
  obtain ⟨entries, seen⟩ := agrees.entries_of_nothing_attached next nothing (by rw [settled]) (by rw [settled])
  refine ⟨entries, seen, ?_⟩
  have pending := agrees.pending
  simp only [List.length_append, List.length_singleton, owner?, openTags, kindAt?_concat_length,
    owner?_append _ (Nat.le_refl _), Mirrors, (located_concat_of_none nothing).2]
  rw [same]
  cases owned : owner? events events.length with
  | none =>
    rw [owned] at pending
    rw [openTags_append _ (Nat.le_refl _)]
    exact pending
  | some found =>
    obtain ⟨owner, tag⟩ := found
    rw [owned] at pending
    dsimp only
    rw [openTags_append _ (Nat.le_of_lt (owner?_spec owned).1)]
    exact pending

theorem className_of_owner {position : Nat} {name : String} {owner : Nat} {tag : String}
    (agrees : Agrees ignored events replay) (counts : name ∉ ignored)
    (owned : owner? events events.length = some (owner, tag)) :
    Agrees ignored (events ++ [⟨position, .className name⟩]) (replay.named name) := by
  have pending := agrees.pending
  rw [owned] at pending
  obtain ⟨collecting, classes, below, stack, bears, mirrors⟩ := pending
  have attached : attachment? (events ++ [⟨position, .className name⟩]) ignored events.length =
      some ⟨owner, tag, name⟩ := by
    simp only [attachment?, kindAt?_concat_length, owner?_append _ (Nat.le_refl _), owned, if_neg counts]
  have named := Replay.named_of_collecting collecting stack name
  have settled := Replay.settle_named collecting stack name
  rw [mirrors.depth_eq] at settled
  have located_eq : located (events ++ [⟨position, .className name⟩]) ignored =
      located events ignored ++ [⟨tag, name, levelOf events ignored owner⟩] := by
    rw [located_concat, attached]
    rfl
  refine ⟨?_, ?_, ?_⟩
  · rw [settled.1, agrees.entries, agrees.seen, described, described, located_eq, ← fresh_empty, ← fresh_empty,
      fresh_append]
    rfl
  · rw [settled.2, agrees.seen, located_eq, List.map_append, NameSet.ofList, NameSet.ofList, insertAll_append]
    rfl
  · simp only [List.length_append, List.length_singleton, owner?, kindAt?_concat_length,
      owner?_append _ (Nat.le_refl _), owned]
    have bears_self : bearsClass (events ++ [⟨position, .className name⟩]) ignored owner = true := by
      rw [bearsClass_concat, attached]
      simp
    refine ⟨by rw [named]; exact collecting, classes ++ [name], below, by rw [named], ?_, ?_⟩
    · rw [bears_self]
      simp
    -- The tags below were opened before the owner, so none of them bears one class more.
    · rw [openTags_append _ (Nat.le_of_lt (owner?_spec owned).1), Mirrors, mirrors]
      apply List.map_congr_left
      intro opening around
      have other : owner ≠ opening := Nat.ne_of_gt (lt_of_mem_openTags around)
      rw [bearsClass_concat, attached]
      simp [other]

theorem start : Agrees ignored [] Replay.start :=
  ⟨rfl, rfl, rfl, rfl⟩

theorem step (agrees : Agrees ignored events replay) (event : Event) :
    Agrees ignored (events ++ [event]) (replay.step ignored event) := by
  obtain ⟨position, kind⟩ := event
  cases kind with
  | opening tag => exact agrees.opening
  | closing => exact agrees.closing
  | className name =>
    simp only [Replay.step]
    split
    · rename_i isIgnored
      apply agrees.className_of_nothing_attached replay rfl
      rw [attachment?, kindAt?_concat_length]
      cases owner? (events ++ [⟨position, .className name⟩]) events.length <;> simp [isIgnored]
    · rename_i counts
      cases owned : owner? events events.length with
      | some found => exact agrees.className_of_owner counts owned
      | none =>
        have pending := agrees.pending
        rw [owned] at pending
        apply agrees.className_of_nothing_attached (replay.named name)
        · simp [Replay.named, pending.1]
        · simp only [attachment?, kindAt?_concat_length, owner?_append _ (Nat.le_refl _), owned]

theorem run (ignored : NameSet) (events : List Event) :
    Agrees ignored events (Replay.start.run ignored events) := by
  induction events using List.reverseRecOn with
  | nil => exact start
  | append_singleton events event inductionHypothesis =>
    rw [Replay.run_append]
    exact inductionHypothesis.step event

end Agrees

/-! ## Where entries come from -/

theorem firstsByName_sublist (entries : List Entry) : (firstsByName entries).Sublist entries := by
  induction entries with
  | nil => exact List.Sublist.slnil
  | cons entry entries inductionHypothesis =>
    exact (List.filter_sublist.trans inductionHypothesis).cons_cons entry

theorem exists_event_of_kindAt? {events : List Event} {index : Nat} {kind : EventKind}
    (found : kindAt? events index = some kind) : ∃ event ∈ events, event.kind = kind := by
  obtain ⟨event, isEvent, rfl⟩ := Option.map_eq_some_iff.mp found
  exact ⟨event, List.mem_of_getElem? isEvent, rfl⟩

theorem exists_events_of_mem_ofEvents {ignored : NameSet} {events : List Event} {entry : Entry}
    (member : entry ∈ ofEvents ignored events) :
    (∃ event ∈ events, event.kind = .opening entry.tag) ∧
      ∃ event ∈ events, event.kind = .className entry.name := by
  rw [ofEvents, replayed, (Agrees.run ignored events).entries] at member
  obtain ⟨attachment, attached, rfl⟩ := List.mem_map.mp ((firstsByName_sublist _).subset member)
  obtain ⟨index, _, attachedAt⟩ := List.mem_filterMap.mp attached
  exact ⟨exists_event_of_kindAt? (owner_of_mem_attachments attached).2,
    exists_event_of_kindAt? (attachment?_spec attachedAt).1⟩

/-- The outline of any list of events is the one that the events describe. -/
theorem ofEvents_eq_described (ignored : NameSet) (events : List Event) :
    ofEvents ignored events = described events ignored :=
  (Agrees.run ignored events).entries

end StyleSkeleton.Outline
