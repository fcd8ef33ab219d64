import StyleSkeleton.Markup.Scan
import StyleSkeleton.NameSet

/-! # Outlines

An outline is a list of entries, one for each distinct class name, in the order in which the
names were first attached to a tag. It is made by a replay, which feeds events to a stack of open
tags, innermost first, and collects entries. Closings are matched to openings by order alone.

The tag opened last collects the class names that follow it. The next opening or closing settles
it: its level is fixed as the number of frames with classes below it, each of its names that has
not been seen before becomes an entry, and a void tag leaves the stack. A class name that comes
while no tag is collecting is a stray. Ignored names are treated as if they were not there.
-/

namespace StyleSkeleton.Outline

open StyleSkeleton.Markup

/-! ## Entries -/

/-- A class name, the tag that carries it first, and its level: how many of the tags around that
    one carry classes as well. -/
structure Entry where
  tag : String
  name : String
  level : Nat
deriving DecidableEq, Repr

def Entry.record (entry : Entry) : LogRecord :=
  .levelled entry.name entry.tag entry.level

/-! ## State -/

/-- A tag on the stack with the class names it has collected. The level stays open until the
    frame is settled, and for good if it has no classes. -/
structure Frame where
  tag : String
  classes : List String
  level : Option Nat
deriving DecidableEq, Repr

def Frame.bearsClasses (frame : Frame) : Bool :=
  !frame.classes.isEmpty

structure Replay where
  /-- The open tags, innermost first. -/
  stack : List Frame
  /-- Whether the innermost tag still takes class names. -/
  collecting : Bool
  seen : NameSet
  entries : List Entry
  unmatched : Nat
  strays : Nat
deriving DecidableEq, Repr

def depth (stack : List Frame) : Nat :=
  stack.countP Frame.bearsClasses

/-- The names of a list that are not in a set, each at its first place only. -/
def unseen (seen : NameSet) : List String → List String
  | [] => []
  | name :: names =>
    if name ∈ seen then unseen seen names else name :: unseen (seen.insert name) names

namespace Replay

def start : Replay := ⟨[], false, ∅, [], 0, 0⟩

/-! ## Settling -/

def topLevel (top : Frame) (below : List Frame) : Nat :=
  top.level.getD (depth (top :: below) - 1)

def emitted (replay : Replay) : List Entry :=
  match replay.collecting, replay.stack with
  | true, top :: below =>
    (unseen replay.seen top.classes).map fun name => ⟨top.tag, name, topLevel top below⟩
  | _, _ => []

def settledTop (top : Frame) (below : List Frame) : Frame :=
  if top.bearsClasses then { top with level := some (topLevel top below) } else top

def settle (replay : Replay) : Replay :=
  match replay.collecting, replay.stack with
  | true, top :: below =>
    { replay with
      stack := if isVoid top.tag then below else settledTop top below :: below
      collecting := false
      seen := replay.seen.insertAll top.classes
      entries := replay.entries ++ replay.emitted }
  | _, _ => { replay with collecting := false }

/-! ## Events -/

def opened (replay : Replay) (tag : String) : Replay :=
  { replay with stack := ⟨tag, [], none⟩ :: replay.stack, collecting := true }

def closed (replay : Replay) : Replay :=
  match replay.stack with
  | _ :: below => { replay with stack := below }
  | [] => { replay with unmatched := replay.unmatched + 1 }

def named (replay : Replay) (name : String) : Replay :=
  match replay.collecting, replay.stack with
  | true, top :: below =>
    { replay with stack := { top with classes := top.classes ++ [name] } :: below }
  | _, _ => { replay with strays := replay.strays + 1 }

def step (ignored : NameSet) (replay : Replay) (event : Event) : Replay :=
  match event.kind with
  | .opening tag => replay.settle.opened tag
  | .closing => replay.settle.closed
  | .className name => if name ∈ ignored then replay else replay.named name

def run (ignored : NameSet) (replay : Replay) (events : List Event) : Replay :=
  events.foldl (step ignored) replay

@[simp] theorem run_nil (ignored : NameSet) (replay : Replay) : replay.run ignored [] = replay :=
  rfl

@[simp] theorem run_cons (ignored : NameSet) (replay : Replay) (event : Event)
    (events : List Event) :
    replay.run ignored (event :: events) = (replay.step ignored event).run ignored events :=
  rfl

theorem run_append (ignored : NameSet) (replay : Replay) (first second : List Event) :
    replay.run ignored (first ++ second) = (replay.run ignored first).run ignored second :=
  List.foldl_append

/-! ## What a replay reports -/

/-- The records that one event leaves: an ignored name is mentioned, and an opening or closing
    mentions the entries that it brings about by settling. -/
def notes (ignored : NameSet) (replay : Replay) (event : Event) : List LogRecord :=
  match event.kind with
  | .className name => if name ∈ ignored then [.ignoring name event.position] else []
  | _ => replay.emitted.map Entry.record

def summary (replay : Replay) : LogRecord :=
  .outlined replay.entries.length replay.stack.length replay.unmatched replay.strays

def log (ignored : NameSet) : Replay → List Event → List LogRecord
  | replay, [] => replay.emitted.map Entry.record ++ [replay.settle.summary]
  | replay, event :: events =>
    replay.notes ignored event ++ log ignored (replay.step ignored event) events

end Replay

/-! ## Outlines of events -/

/-- The state after all events, with the last tag settled. Tags that are still open are left
    alone. -/
def replayed (ignored : NameSet) (events : List Event) : Replay :=
  (Replay.start.run ignored events).settle

def ofEvents (ignored : NameSet) (events : List Event) : List Entry :=
  (replayed ignored events).entries

def eventsLog (ignored : NameSet) (events : List Event) : List LogRecord :=
  Replay.start.log ignored events

/-! ## Outlines of markup -/

def ofMarkup (ignored : NameSet) (markup : String) : List Entry :=
  ofEvents ignored (scan markup)

def markupLog (ignored : NameSet) (markup : String) : List LogRecord :=
  scanLog markup ++ eventsLog ignored (scan markup)

/-! ## Outlines as events come in -/

/-- The parts of a list from its start on, from one element to all. -/
def beginnings {α : Type} (items : List α) : List (List α) :=
  (List.range items.length).map fun index => items.take (index + 1)

def growth (ignored : NameSet) (events : List Event) : List (List Entry) :=
  (beginnings events).map (ofEvents ignored)

def growthLog (ignored : NameSet) (events : List Event) : List LogRecord :=
  (beginnings events).flatMap (eventsLog ignored)

end StyleSkeleton.Outline
