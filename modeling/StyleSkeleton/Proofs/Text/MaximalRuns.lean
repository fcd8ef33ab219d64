import StyleSkeleton.Proofs.Text.WordRuns

/-! # Words as maximal runs

A run is a stretch of a text in which no character is blank.  Runs know nothing of splitting: they
are told by the numbers of their characters.  The words of a text are its maximal runs, all of
them, from left to right (`exists_maximalRuns`).

The non-trivial ingredient is `FirstWord.isMaximalRun_iff`: a maximal run of a text is its first
word or lies behind it, because the first word has a blank or an end of the text on both sides.
-/

namespace StyleSkeleton.Text

/-! ## Runs -/

def VisibleAt (text : List Char) (number : Nat) : Prop :=
  ∃ char, text[number]? = some char ∧ isBlank char = false

/-- From the character with the number `start` on, and in front of the one with the number `stop`, there is
no blank. -/
structure IsRun (text : List Char) (start stop : Nat) : Prop where
  nonempty : start < stop
  visible : ∀ number, start ≤ number → number < stop → VisibleAt text number

structure IsMaximalRun (text : List Char) (start stop : Nat) : Prop extends IsRun text start stop where
  maximal : ∀ first last, first ≤ start → stop ≤ last → IsRun text first last → first = start ∧ last = stop

theorem isMaximalRun_iff_neighbours {text : List Char} {start stop : Nat} :
    IsMaximalRun text start stop ↔
      IsRun text start stop ∧ (∀ before, before + 1 = start → ¬ VisibleAt text before) ∧ ¬ VisibleAt text stop := by
  constructor
  · intro maximalRun
    have nonempty := maximalRun.nonempty
    refine ⟨maximalRun.toIsRun, ?_, ?_⟩
    · rintro before rfl visible
      have longer : IsRun text before stop := by
        refine ⟨by omega, fun number fromStart toStop => ?_⟩
        rcases Nat.eq_or_lt_of_le fromStart with rfl | later
        · exact visible
        · exact maximalRun.visible number later toStop
      obtain ⟨same, _⟩ := maximalRun.maximal before stop (by omega) (Nat.le_refl _) longer
      omega
    · intro visible
      have longer : IsRun text start (stop + 1) := by
        refine ⟨by omega, fun number fromStart toStop => ?_⟩
        rcases Nat.eq_or_lt_of_le (Nat.le_of_lt_succ toStop) with rfl | earlier
        · exact visible
        · exact maximalRun.visible number fromStart earlier
      obtain ⟨_, same⟩ := maximalRun.maximal start (stop + 1) (Nat.le_refl _) (by omega) longer
      omega
  · rintro ⟨run, startsThere, stopsThere⟩
    have nonempty := run.nonempty
    refine { run with maximal := fun first last fromFirst toLast longer => ⟨?_, ?_⟩ }
    · by_contra different
      exact startsThere (start - 1) (by omega) (longer.visible _ (by omega) (by omega))
    · by_contra different
      exact stopsThere (longer.visible stop (by omega) (by omega))

/-! ## Runs behind the first word -/

theorem visibleAt_append_left {left right : List Char} {number : Nat} (inside : number < left.length) :
    VisibleAt (left ++ right) number ↔ VisibleAt left number := by
  rw [VisibleAt, VisibleAt, List.getElem?_append_left inside]

theorem visibleAt_append_right {left right : List Char} (number : Nat) :
    VisibleAt (left ++ right) (left.length + number) ↔ VisibleAt right number := by
  rw [VisibleAt, VisibleAt, List.getElem?_append_right (Nat.le_add_right _ _), Nat.add_sub_cancel_left]

theorem visibleAt_of_visible {text : List Char} (visible : ∀ char ∈ text, isBlank char = false) {number : Nat}
    (inside : number < text.length) : VisibleAt text number :=
  ⟨text[number], List.getElem?_eq_getElem inside, visible _ (List.getElem_mem inside)⟩

theorem not_visibleAt_of_blank {text : List Char} (blank : ∀ char ∈ text, isBlank char = true) (number : Nat) :
    ¬ VisibleAt text number := by
  rintro ⟨char, there, visible⟩
  rw [blank char (List.mem_of_getElem? there)] at visible
  cases visible

namespace FirstWord

variable {blanks word rest : List Char} {start stop number : Nat}

theorem not_visibleAt_rest (parts : FirstWord blanks word rest) : ¬ VisibleAt rest 0 := by
  rintro ⟨char, there, visible⟩
  rw [← List.head?_eq_getElem?] at there
  rw [parts.stops char there] at visible
  cases visible

theorem visibleAt_iff_of_lt (parts : FirstWord blanks word rest) (inside : number < blanks.length + word.length) :
    VisibleAt (blanks ++ (word ++ rest)) number ↔ blanks.length ≤ number := by
  rcases Nat.lt_or_ge number blanks.length with inBlanks | behind
  · rw [visibleAt_append_left inBlanks]
    exact iff_of_false (not_visibleAt_of_blank parts.blank number) (Nat.not_le.mpr inBlanks)
  · obtain ⟨number, rfl⟩ := Nat.exists_eq_add_of_le behind
    have inWord : number < word.length := by omega
    rw [visibleAt_append_right, visibleAt_append_left inWord]
    exact iff_of_true (visibleAt_of_visible parts.visible inWord) behind

theorem visibleAt_behind (number : Nat) :
    VisibleAt (blanks ++ (word ++ rest)) (blanks.length + word.length + number) ↔ VisibleAt rest number := by
  rw [Nat.add_assoc, visibleAt_append_right, visibleAt_append_right]

theorem extract_behind (start stop : Nat) :
    (blanks ++ (word ++ rest)).extract (blanks.length + word.length + start) (blanks.length + word.length + stop) =
      rest.extract start stop := by
  rw [List.extract_eq_take_drop, List.extract_eq_take_drop, Nat.add_sub_add_left, Nat.add_assoc,
    List.drop_length_add_append, List.drop_length_add_append]

theorem isRun_behind :
    IsRun (blanks ++ (word ++ rest)) (blanks.length + word.length + start) (blanks.length + word.length + stop) ↔
      IsRun rest start stop := by
  constructor
  · rintro ⟨nonempty, visible⟩
    refine ⟨by omega, fun number fromStart toStop => ?_⟩
    exact (visibleAt_behind number).mp (visible _ (by omega) (by omega))
  · rintro ⟨nonempty, visible⟩
    refine ⟨by omega, fun number fromStart toStop => ?_⟩
    obtain ⟨number, rfl⟩ := Nat.exists_eq_add_of_le (Nat.le_trans (Nat.le_add_right _ _) fromStart)
    exact (visibleAt_behind number).mpr (visible number (by omega) (by omega))

theorem isMaximalRun_word (parts : FirstWord blanks word rest) :
    IsMaximalRun (blanks ++ (word ++ rest)) blanks.length (blanks.length + word.length) := by
  have positive := List.length_pos_iff.mpr parts.nonempty
  refine isMaximalRun_iff_neighbours.mpr ⟨⟨by omega, fun number fromStart toStop => ?_⟩, ?_, ?_⟩
  · exact (parts.visibleAt_iff_of_lt toStop).mpr fromStart
  · intro before isBefore visible
    have behind := (parts.visibleAt_iff_of_lt (by omega)).mp visible
    omega
  · exact fun visible => parts.not_visibleAt_rest ((visibleAt_behind 0).mp visible)

theorem isMaximalRun_behind (parts : FirstWord blanks word rest) :
    IsMaximalRun (blanks ++ (word ++ rest)) (blanks.length + word.length + start)
        (blanks.length + word.length + stop) ↔ IsMaximalRun rest start stop := by
  rw [isMaximalRun_iff_neighbours, isMaximalRun_iff_neighbours, isRun_behind, visibleAt_behind]
  refine and_congr_right fun run => and_congr_left fun _ => ?_
  constructor
  · rintro startsThere before rfl visible
    exact startsThere _ (Nat.add_assoc _ _ _) ((visibleAt_behind before).mpr visible)
  · intro startsThere before isBefore visible
    cases start with
    | zero => exact parts.not_visibleAt_rest (run.visible 0 (Nat.le_refl _) run.nonempty)
    | succ start =>
      obtain rfl : before = blanks.length + word.length + start := by omega
      exact startsThere start rfl ((visibleAt_behind start).mp visible)

theorem isMaximalRun_iff (parts : FirstWord blanks word rest) :
    IsMaximalRun (blanks ++ (word ++ rest)) start stop ↔
      (start = blanks.length ∧ stop = blanks.length + word.length) ∨
        ∃ first last, IsMaximalRun rest first last ∧ start = blanks.length + word.length + first ∧
          stop = blanks.length + word.length + last := by
  constructor
  · intro maximalRun
    have nonempty := maximalRun.nonempty
    rcases Nat.lt_or_ge start (blanks.length + word.length) with inside | behind
    · -- A run that begins in front of the end of the word lies within the word, so it is the word.
      left
      have inWord := (parts.visibleAt_iff_of_lt inside).mp (maximalRun.visible start (Nat.le_refl _) nonempty)
      have toWord : stop ≤ blanks.length + word.length := by
        by_contra beyond
        have visible := maximalRun.visible (blanks.length + word.length) (by omega) (by omega)
        exact parts.not_visibleAt_rest ((visibleAt_behind 0).mp visible)
      obtain ⟨sameStart, sameStop⟩ := maximalRun.maximal _ _ inWord toWord parts.isMaximalRun_word.toIsRun
      exact ⟨sameStart.symm, sameStop.symm⟩
    · right
      obtain ⟨first, rfl⟩ := Nat.exists_eq_add_of_le behind
      obtain ⟨last, rfl⟩ := Nat.exists_eq_add_of_le (Nat.le_trans behind (Nat.le_of_lt nonempty))
      exact ⟨first, last, parts.isMaximalRun_behind.mp maximalRun, rfl, rfl⟩
  · rintro (⟨rfl, rfl⟩ | ⟨first, last, maximalRun, rfl, rfl⟩)
    · exact parts.isMaximalRun_word
    · exact parts.isMaximalRun_behind.mpr maximalRun

end FirstWord

/-! ## Words -/

/-- The words of a text are its maximal runs, from left to right. -/
theorem exists_maximalRuns (text : List Char) :
    ∃ runs : List (Nat × Nat), runs.Pairwise (fun first second => first.2 < second.1) ∧
      (∀ start stop, (start, stop) ∈ runs ↔ IsMaximalRun text start stop) ∧
      words text = runs.map fun (start, stop) => text.extract start stop := by
  induction text using firstWord_induction with
  | blank text blank =>
    refine ⟨[], List.Pairwise.nil, fun start stop => iff_of_false List.not_mem_nil fun maximalRun => ?_,
      words_of_blank blank⟩
    exact not_visibleAt_of_blank blank start (maximalRun.visible start (Nat.le_refl _) maximalRun.nonempty)
  | cut blanks word rest parts inductionHypothesis =>
    obtain ⟨runs, ordered, exactly, same⟩ := inductionHypothesis
    let front := blanks.length + word.length
    let moved : Nat × Nat → Nat × Nat := fun (start, stop) => (front + start, front + stop)
    refine ⟨(blanks.length, front) :: runs.map moved, List.pairwise_cons.mpr ⟨?_, ?_⟩, ?_, ?_⟩
    · intro run member
      obtain ⟨⟨start, stop⟩, isRun, rfl⟩ := List.mem_map.mp member
      have maximalRun := (exactly start stop).mp isRun
      have apart : start ≠ 0 := by
        rintro rfl
        exact parts.not_visibleAt_rest (maximalRun.visible 0 (Nat.le_refl _) maximalRun.nonempty)
      show front < front + start
      omega
    · refine List.pairwise_map.mpr (ordered.imp fun {first second} before => ?_)
      show front + first.2 < front + second.1
      omega
    · intro start stop
      rw [parts.isMaximalRun_iff, List.mem_cons, List.mem_map, Prod.mk.injEq]
      refine or_congr_right ⟨?_, ?_⟩
      · rintro ⟨⟨first, last⟩, isRun, isMoved⟩
        obtain ⟨rfl, rfl⟩ := Prod.mk.inj isMoved
        exact ⟨first, last, (exactly first last).mp isRun, rfl, rfl⟩
      · rintro ⟨first, last, maximalRun, rfl, rfl⟩
        exact ⟨(first, last), (exactly first last).mpr maximalRun, rfl⟩
    · rw [parts.words_eq, same, List.map_cons, List.map_map]
      refine congrArg₂ List.cons ?_ (List.map_congr_left fun run _ => (FirstWord.extract_behind run.1 run.2).symm)
      simp [front]

end StyleSkeleton.Text
