import StyleSkeleton.Proofs.Outline.FirstAttached
import StyleSkeleton.Proofs.Outline.Surroundings

/-! # An element around a block

Putting an element around a complete block moves the entries of the block one level deeper if the element has a
class that counts, and leaves them where they are if it has none.  The names of the element come between the
entries of what is in front and all others.  Nothing else changes, whatever the events around the element are.
-/

namespace StyleSkeleton.Outline

open StyleSkeleton.Markup

/-! ## Fresh entries -/

section Fresh

variable {ignored seen : NameSet} {candidates : List Entry}

theorem fresh_eq_firstsByName (new : ∀ name ∈ candidates.map Entry.name, name ∉ seen) :
    fresh seen candidates = firstsByName candidates := by
  refine List.filter_eq_self.mpr fun entry member => ?_
  simpa using new _ (mem_names_firstsByName.mp (List.mem_map_of_mem member))

theorem fresh_insertAll_of_apart {names : List String}
    (apart : ∀ name ∈ candidates.map Entry.name, name ∉ names) :
    fresh (seen.insertAll names) candidates = fresh seen candidates := by
  refine List.filter_congr fun entry member => ?_
  have notNamed := apart _ (mem_names_firstsByName.mp (List.mem_map_of_mem member))
  simp [notNamed]

theorem fresh_raised (seen : NameSet) (candidates : List Entry) (steps : Nat) :
    fresh seen (candidates.map (·.raised steps)) = (fresh seen candidates).map (·.raised steps) := by
  have firsts : firstsByName (candidates.map (·.raised steps)) = (firstsByName candidates).map (·.raised steps) := by
    induction candidates with
    | nil => rfl
    | cons entry candidates inductionHypothesis =>
      rw [List.map_cons, firstsByName, firstsByName, inductionHypothesis, List.filter_map, List.map_cons]
      rfl
  rw [fresh, fresh, firsts, List.filter_map]
  rfl

theorem firstsByName_tagEntries (ignored : NameSet) (tag : String) (names : List String) (level : Nat) :
    firstsByName (tagEntries ignored tag names level) =
      (counted ignored names).eraseDups.map fun name => ⟨tag, name, level⟩ := by
  rw [tagEntries]
  induction counted ignored names using List.reverseRecOn with
  | nil => rfl
  | append_singleton names name inductionHypothesis =>
    rw [List.map_append, firstsByName_append, inductionHypothesis, List.eraseDups_append, List.map_append]
    by_cases repeated : name ∈ names <;> simp [firstsByName, List.removeAll, List.eraseDups_cons, repeated,
      Function.comp_def]

end Fresh

theorem names_raised (candidates : List Entry) (steps : Nat) :
    (candidates.map (·.raised steps)).map Entry.name = candidates.map Entry.name := by
  simp [Function.comp_def]

theorem mem_namesIn_of_mem_ofEvents {ignored : NameSet} {events : List Event} {entry : Entry}
    (member : entry ∈ ofEvents ignored events) : entry.name ∈ namesIn events := by
  obtain ⟨_, event, isEvent, isName⟩ := exists_events_of_mem_ofEvents member
  rw [mem_namesIn, ← isName]
  exact List.mem_map_of_mem isEvent

theorem ofEvents_concat_closing {closing : Event} (isClosing : closing.kind = .closing) (ignored : NameSet)
    (events : List Event) : ofEvents ignored (events ++ [closing]) = ofEvents ignored events := by
  have closes (replay : Replay) : replay.step ignored closing = replay.settle.closed := by
    rw [Replay.step, isClosing]
  rw [ofEvents, replayed, Replay.run_append, Replay.run_cons, Replay.run_nil, closes, Replay.settle_closed_settle,
    Replay.closed_entries]
  rfl

/-! ## Elements -/

structure Encloses (opening : Event) (names : List Event) (closing : Event) (tag : String) : Prop where
  opening : opening.kind = .opening tag
  notVoid : isVoid tag = false
  names : ∀ event ∈ names, event.isClassName = true
  closing : closing.kind = .closing

theorem map_kind_of_isClassName {names : List Event} (areNames : ∀ event ∈ names, event.isClassName = true) :
    names.map Event.kind = (namesIn names).map .className := by
  induction names with
  | nil => rfl
  | cons event names inductionHypothesis =>
    obtain ⟨isName, others⟩ := List.forall_mem_cons.mp areNames
    obtain ⟨position, kind⟩ := event
    cases kind with
    | opening tag => cases isName
    | closing => cases isName
    | className name => simpa [namesIn] using inductionHypothesis others

namespace Encloses

variable {opening closing : Event} {names block : List Event} {tag : String} {tree : Block}

theorem kinds_opening (encloses : Encloses opening names closing tag) :
    (opening :: names).map Event.kind = tagKinds tag (namesIn names) := by
  rw [List.map_cons, encloses.opening, map_kind_of_isClassName encloses.names, tagKinds]

theorem kinds_element (encloses : Encloses opening names closing tag) (kinds : block.map Event.kind = tree.kinds) :
    (opening :: names ++ block ++ [closing]).map Event.kind =
      (Block.element tag encloses.notVoid (namesIn names) tree .done).kinds := by
  rw [List.map_append, List.map_append, encloses.kinds_opening, kinds, List.map_singleton, encloses.closing,
    Block.kinds, Block.kinds, List.append_assoc]

theorem replayed_opening (encloses : Encloses opening names closing tag) (ignored : NameSet) (before : List Event) :
    replayed ignored (before ++ opening :: names) =
      { (replayed ignored before).absorb
          (tagEntries ignored tag (namesIn names) (depth (replayed ignored before).stack)) with
        stack := Replay.settledStack tag (counted ignored (namesIn names)) (replayed ignored before).stack } := by
  rw [replayed, Replay.run_append, Replay.run_eq_feed ignored _ (opening :: names), encloses.kinds_opening,
    Replay.settle_feed_tagKinds]
  rfl

theorem depth_replayed_opening (encloses : Encloses opening names closing tag) (ignored : NameSet)
    (before : List Event) :
    depth (replayed ignored (before ++ opening :: names)).stack =
      innerLevel ignored (namesIn names) (depth (replayed ignored before).stack) := by
  rw [encloses.replayed_opening, Replay.settledStack, encloses.notVoid]
  exact depth_cons _ _

def steps (ignored : NameSet) (names : List Event) : Nat :=
  if counted ignored (namesIn names) = [] then 0 else 1

theorem innerLevel_eq_add (ignored : NameSet) (names : List Event) (level : Nat) :
    innerLevel ignored (namesIn names) level = level + steps ignored names := by
  unfold innerLevel steps
  split <;> rfl

theorem names_element (ignored : NameSet) (notVoid : isVoid tag = false) (names : List Event) (level : Nat) :
    ((Block.element tag notVoid (namesIn names) tree .done).entries ignored level).map Entry.name =
      counted ignored (namesIn names) ++ (tree.entries ignored level).map Entry.name := by
  rw [Block.entries, innerLevel_eq_add, Block.entries_add, Block.entries, List.append_nil, List.map_append,
    names_tagEntries, names_raised]

section Parts

variable {ignored : NameSet} {before after : List Event}

theorem ofEvents_opening (encloses : Encloses opening names closing tag)
    (new : ∀ name ∈ namesIn names, name ∉ (replayed ignored before).seen) :
    ofEvents ignored (before ++ opening :: names) = ofEvents ignored before ++
      (counted ignored (namesIn names)).eraseDups.map fun name =>
        ⟨tag, name, depth (replayed ignored before).stack⟩ := by
  rw [ofEvents, encloses.replayed_opening, ← firstsByName_tagEntries, ← fresh_eq_firstsByName]
  · rfl
  · rw [names_tagEntries]
    exact fun name member => new name (List.mem_filter.mp member).1

theorem ofEvents_inside (encloses : Encloses opening names closing tag) (kinds : block.map Event.kind = tree.kinds)
    (apart : ∀ name ∈ namesIn names, name ∉ namesIn block) :
    ofEvents ignored (before ++ opening :: names ++ block) =
      ofEvents ignored (before ++ opening :: names) ++
        (fresh (replayed ignored before).seen
          (tree.entries ignored (depth (replayed ignored before).stack))).map (·.raised (steps ignored names)) := by
  have seen : (replayed ignored (before ++ opening :: names)).seen =
      (replayed ignored before).seen.insertAll (counted ignored (namesIn names)) := by
    rw [encloses.replayed_opening, ← names_tagEntries ignored tag]
    rfl
  have apartCounted : ∀ name ∈ (tree.entries ignored (depth (replayed ignored before).stack)).map Entry.name,
      name ∉ counted ignored (namesIn names) := fun name member isCounted =>
    apart name (List.mem_filter.mp isCounted).1 (Block.names_entries kinds member)
  have level := encloses.depth_replayed_opening ignored before
  rw [innerLevel_eq_add] at level
  rw [ofEvents, Block.replayed_append kinds, level, Block.entries_add, Replay.absorb, seen, fresh_raised,
    fresh_insertAll_of_apart apartCounted]
  rfl

theorem ofEvents_behind (encloses : Encloses opening names closing tag) (kinds : block.map Event.kind = tree.kinds)
    (startsAnew : ∀ event ∈ after.head?, event.isClassName = false)
    (apart : ∀ name ∈ namesIn names, name ∉ namesIn (before ++ block ++ after)) :
    ofEvents ignored (before ++ opening :: names ++ block ++ closing :: after) =
      ofEvents ignored (before ++ opening :: names ++ block) ++
        newBehind ignored (replayed ignored before)
          (tree.entries ignored (depth (replayed ignored before).stack)) after := by
  let wrapper := Block.element tag encloses.notVoid (namesIn names) tree .done
  let level := depth (replayed ignored before).stack
  have behind := ofEvents_behind_absorbed
    (Block.replayed_append (encloses.kinds_element kinds) ignored before) startsAnew
  have outside := ofEvents_behind_absorbed (Block.replayed_append kinds ignored before) startsAnew
  have same : newBehind ignored (replayed ignored before) (wrapper.entries ignored level) after =
      newBehind ignored (replayed ignored before) (tree.entries ignored level) after := by
    refine List.filter_congr fun entry member => ?_
    by_cases own : entry.name ∈ counted ignored (namesIn names)
    -- A name of the element that came out behind would be an entry without the element as well.
    · have known : entry.name ∈ (replayed ignored before).seen.insertAll
          ((tree.entries ignored level).map Entry.name) := by
        by_contra unknown
        have isEntry : entry ∈ ofEvents ignored (before ++ block ++ after) := by
          rw [outside]
          exact List.mem_append_right _ (List.mem_filter.mpr ⟨member, by simpa using unknown⟩)
        exact apart _ (List.mem_filter.mp own).1 (mem_namesIn_of_mem_ofEvents isEntry)
      simp_all [wrapper, names_element]
    · simp [wrapper, names_element, own]
  have element : before ++ (opening :: names ++ block ++ [closing]) =
      before ++ opening :: names ++ block ++ [closing] := by simp
  rw [same, element, ofEvents_concat_closing encloses.closing, List.append_assoc _ [closing]] at behind
  exact behind

theorem exists_parts (encloses : Encloses opening names closing tag) (isBlock : IsBlock block)
    (startsAnew : ∀ event ∈ after.head?, event.isClassName = false)
    (apart : ∀ name ∈ namesIn names, name ∉ namesIn (before ++ block ++ after)) :
    ∃ level inner behind,
      ofEvents ignored (before ++ block ++ after) = ofEvents ignored before ++ inner ++ behind ∧
      ofEvents ignored (before ++ opening :: names) =
        ofEvents ignored before ++ (counted ignored (namesIn names)).eraseDups.map (fun name => ⟨tag, name, level⟩) ∧
      ofEvents ignored (before ++ opening :: names ++ block) =
        ofEvents ignored (before ++ opening :: names) ++ inner.map (·.raised (steps ignored names)) ∧
      ofEvents ignored (before ++ opening :: names ++ block ++ closing :: after) =
        ofEvents ignored (before ++ opening :: names ++ block) ++ behind := by
  obtain ⟨tree, kinds⟩ := isBlock
  have absorbed := Block.replayed_append kinds ignored before
  have new : ∀ name ∈ namesIn names, name ∉ (replayed ignored before).seen := by
    intro name isNamed known
    have sound : Replay.Sound ignored (replayed ignored before) := (Replay.Sound.start.run before).settle
    obtain ⟨entry, isEntry, rfl⟩ := List.mem_map.mp ((sound.recorded.mem_seen_iff name).mp known)
    exact apart _ isNamed (by simp [namesIn_append, mem_namesIn_of_mem_ofEvents isEntry])
  have apartBlock : ∀ name ∈ namesIn names, name ∉ namesIn block := fun name isNamed inBlock =>
    apart name isNamed (by simp [namesIn_append, inBlock])
  refine ⟨_, _, _, ?_, encloses.ofEvents_opening new, encloses.ofEvents_inside kinds apartBlock,
    encloses.ofEvents_behind kinds startsAnew apart⟩
  rw [ofEvents_behind_absorbed absorbed startsAnew, ofEvents_of_absorbed absorbed]

end Parts

end Encloses

/-! ## With and without the element -/

def Entry.lowered (entry : Entry) (steps : Nat) : Entry :=
  { entry with level := entry.level - steps }

theorem Entry.lowered_raised (entry : Entry) (steps : Nat) : (entry.raised steps).lowered steps = entry := by
  simp [raised, lowered]

theorem map_lowered_filter {front own inner behind : List Entry} {steps : Nat} {stays : Entry → Bool}
    {moved : String → Bool} (fronts : ∀ entry ∈ front, stays entry = true ∧ moved entry.name = false)
    (owns : ∀ entry ∈ own, stays entry = false)
    (inners : ∀ entry ∈ inner, stays (entry.raised steps) = true ∧ moved entry.name = true)
    (behinds : ∀ entry ∈ behind, stays entry = true ∧ moved entry.name = false) :
    ((front ++ own ++ inner.map (·.raised steps) ++ behind).filter stays).map
        (fun entry => if moved entry.name then entry.lowered steps else entry) = front ++ inner ++ behind := by
  have unmoved {entries : List Entry} (still : ∀ entry ∈ entries, stays entry = true ∧ moved entry.name = false) :
      (entries.filter stays).map (fun entry => if moved entry.name then entry.lowered steps else entry) =
        entries := by
    rw [List.filter_eq_self.mpr fun entry member => (still entry member).1]
    refine (List.map_congr_left fun entry member => ?_).trans entries.map_id
    simp [(still entry member).2]
  have lowered : ((inner.map (·.raised steps)).filter stays).map
      (fun entry => if moved entry.name then entry.lowered steps else entry) = inner := by
    rw [List.filter_eq_self.mpr (by simpa using fun entry member => (inners entry member).1), List.map_map]
    refine (List.map_congr_left fun entry member => ?_).trans inner.map_id
    simp [(inners entry member).2, Entry.lowered_raised]
  have dropped : own.filter stays = [] := List.filter_eq_nil_iff.mpr (by simpa using owns)
  simp only [List.filter_append, List.map_append, unmoved fronts, dropped, lowered, unmoved behinds,
    List.append_nil]

/-- An element around a block changes the outline in two ways only.  The entries that are first attached in the
block become deeper by one if the element has a class that counts, and the names of the element come in between,
behind the entries that are first attached in front and before all others, on one level. -/
theorem ofEvents_wrapped (ignored : NameSet) (before names block after : List Event) (opening closing : Event)
    (tag : String) (encloses : Encloses opening names closing tag) (isBlock : IsBlock block)
    (startsAnew : ∀ event ∈ after.head?, event.isClassName = false)
    (apart : ∀ name ∈ namesIn names, name ∉ namesIn (before ++ block ++ after)) :
    let around := before ++ opening :: names
    let wrapped := around ++ block ++ closing :: after
    let steps := if counted ignored (namesIn names) = [] then 0 else 1
    let inBlock := attachedWithin wrapped ignored around.length (around ++ block).length
    (((ofEvents ignored wrapped).filter fun entry => entry.name ∉ namesIn names).map fun entry =>
        if inBlock entry.name then entry.lowered steps else entry) = ofEvents ignored (before ++ block ++ after) ∧
    (∀ entry ∈ ofEvents ignored wrapped, inBlock entry.name = true → steps ≤ entry.level) ∧
    (∃ level earlier later, ofEvents ignored wrapped = earlier ++
        (counted ignored (namesIn names)).eraseDups.map (fun name => ⟨tag, name, level⟩) ++ later ∧
      (∀ entry ∈ earlier, entry.name ∉ namesIn names ∧
        attachedWithin wrapped ignored 0 before.length entry.name = true) ∧
      ∀ entry ∈ later, entry.name ∉ namesIn names ∧
        attachedWithin wrapped ignored around.length wrapped.length entry.name = true) ∧
    (counted ignored (namesIn names) = [] →
      ofEvents ignored wrapped = ofEvents ignored (before ++ block ++ after)) := by
  intro around wrapped steps inBlock
  obtain ⟨level, inner, behind, plain, opened, filled, whole⟩ : ∃ level inner behind, _ :=
    encloses.exists_parts isBlock startsAnew apart
  obtain ⟨notInFront, inside, notBehind⟩ := attachedWithin_second filled whole
  have notNamed : ∀ entry ∈ ofEvents ignored before ++ inner ++ behind, entry.name ∉ namesIn names := by
    intro entry member isNamed
    rw [← plain] at member
    exact apart _ isNamed (mem_namesIn_of_mem_ofEvents member)
  have later : ofEvents ignored wrapped = ofEvents ignored around ++ (inner.map (·.raised steps) ++ behind) := by
    rw [whole, filled, List.append_assoc]
    rfl
  refine ⟨?_, ?_, ⟨level, _, inner.map (·.raised steps) ++ behind, by rw [later, opened], ?_, ?_⟩, fun none => ?_⟩
  · rw [plain, whole, filled, opened]
    -- Four parts: what is in front, the names of the element, the block, and what is behind.
    apply map_lowered_filter
    · intro entry member
      exact ⟨decide_eq_true (notNamed entry (by simp [member])), notInFront entry (by simp [opened, member])⟩
    · intro entry member
      obtain ⟨name, isName, rfl⟩ := List.mem_map.mp member
      simpa using (List.mem_filter.mp (List.mem_eraseDups.mp isName)).1
    · intro entry member
      exact ⟨decide_eq_true (notNamed entry (by simp [member])),
        inside (entry.raised steps) (List.mem_map_of_mem member)⟩
    · intro entry member
      exact ⟨decide_eq_true (notNamed entry (by simp [member])), notBehind entry member⟩
  · intro entry member isInside
    rw [later, List.mem_append, List.mem_append] at member
    obtain isAround | isInner | isBehind := member
    · cases isInside.symm.trans (notInFront entry isAround)
    · obtain ⟨_, _, rfl⟩ := List.mem_map.mp isInner
      exact Nat.le_add_left _ _
    · cases isInside.symm.trans (notBehind entry isBehind)
  · intro entry member
    have split : wrapped = before ++ (opening :: names ++ block ++ closing :: after) := by simp [wrapped, around]
    rw [split]
    exact ⟨notNamed entry (by simp [member]), attachedWithin_of_mem _ member⟩
  · intro entry member
    have split : wrapped = around ++ (block ++ closing :: after) := List.append_assoc ..
    refine ⟨?_, split ▸ attachedWithin_of_added_last (split ▸ later) member⟩
    obtain isInner | isBehind := List.mem_append.mp member
    · obtain ⟨unraised, isThere, rfl⟩ := List.mem_map.mp isInner
      exact notNamed unraised (by simp [isThere])
    · exact notNamed entry (by simp [isBehind])
  · have still : steps = 0 := if_pos none
    rw [later, opened, plain, none, still, List.append_assoc (ofEvents ignored before)]
    simp

/-- A wrapper with an ignored and a repeated class in the middle of events that are not well-formed. -/
theorem ofEvents_wrapped_item :
    let ignored := (∅ : NameSet).insert "js"
    let before : List Event := [⟨0, .className "stray"⟩, ⟨1, .opening "ul"⟩, ⟨2, .className "list"⟩]
    let names : List Event := [⟨4, .className "item"⟩, ⟨5, .className "js"⟩, ⟨6, .className "item"⟩]
    let block : List Event := [⟨7, .opening "a"⟩, ⟨8, .className "link"⟩, ⟨9, .className "list"⟩, ⟨10, .closing⟩]
    let after : List Event := [⟨12, .closing⟩, ⟨13, .closing⟩, ⟨14, .opening "p"⟩, ⟨15, .className "end"⟩]
    let wrapped := before ++ ⟨3, .opening "li"⟩ :: names ++ block ++ ⟨11, .closing⟩ :: after
    ofEvents ignored wrapped =
      [⟨"ul", "list", 0⟩, ⟨"li", "item", 1⟩, ⟨"a", "link", 2⟩, ⟨"p", "end", 0⟩] ∧
    ((ofEvents ignored wrapped).filter fun entry => entry.name ∉ namesIn names).map (fun entry =>
        if attachedWithin wrapped ignored 7 11 entry.name then entry.lowered 1 else entry) =
      ofEvents ignored (before ++ block ++ after) := by
  intro ignored before names block after wrapped
  have encloses : Encloses ⟨3, .opening "li"⟩ names ⟨11, .closing⟩ "li" := ⟨rfl, by decide, by decide, rfl⟩
  have isBlock : IsBlock block := ⟨.element "a" (by decide) ["link", "list"] .done .done, by decide⟩
  exact ⟨by decide,
    (ofEvents_wrapped ignored before names block after _ _ "li" encloses isBlock (by decide) (by decide)).1⟩

end StyleSkeleton.Outline
