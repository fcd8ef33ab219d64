import StyleSkeleton.Proofs.Markup.AttributeSearch

/-! # The events of a text and their order

`IsEvent` says which events a text has.  A scan lists them all, and it lists them in the order
`Precedes`, which is strict: events of the same kind never share a position, and a class name
that shares one with a tag comes after it.  The list is therefore determined by its members.

The position of a class name is made up from the start of its attribute and its number.  It stays
inside of the attribute since every name takes at least one byte of the value.
-/

namespace StyleSkeleton.Markup

open StyleSkeleton.Text

/-! ## Events of a text -/

def IsEvent (text : List Char) (event : Event) : Prop :=
  match event.kind with
  | .opening tag =>
    ∃ (before : List Char) (name : List Char) (behind : List Char),
      text = before ++ '<' :: (name ++ behind) ∧ byteLength before = event.position ∧
        name ≠ [] ∧ (∀ char ∈ name, isNameChar char = true) ∧
        (∀ char ∈ behind.head?, isNameChar char = false) ∧ tag = String.ofList name
  | .closing =>
    ∃ (before : List Char) (behind : List Char),
      text = before ++ '<' :: '/' :: behind ∧ byteLength before = event.position
  | .className name =>
    ∃ found ∈ ClassAttribute.findAll text, ∃ number,
      (wordsOf found.value)[number]? = some name ∧ event.position = found.start + number

namespace Event

def isClassName (event : Event) : Bool :=
  match event.kind with
  | .className _ => true
  | _ => false

def Apart (first second : Event) : Prop :=
  first.position ≠ second.position

instance : Std.Symm Apart := ⟨fun _ _ => Ne.symm⟩

def Precedes (first second : Event) : Prop :=
  first.position < second.position ∨
    first.position = second.position ∧ first.isClassName = false ∧ second.isClassName = true

theorem Precedes.asymm {first second : Event} (precedes : first.Precedes second) :
    ¬ second.Precedes first := by
  intro follows
  cases follows with
  | inl later => cases precedes with
    | inl earlier => omega
    | inr tied => exact absurd tied.1 (Nat.ne_of_gt later)
  | inr tied => cases precedes with
    | inl earlier => omega
    | inr tiedToo => exact absurd (tied.2.1.symm.trans tiedToo.2.2) Bool.false_ne_true

end Event

/-! ## Strict lists -/

theorem nodup_of_precedes {events : List Event} (ordered : events.Pairwise Event.Precedes) : events.Nodup := by
  refine ordered.imp ?_
  rintro event _ precedes rfl
  exact precedes.asymm precedes

theorem eq_of_precedes_of_mem_iff {first second : List Event} (firstOrdered : first.Pairwise Event.Precedes)
    (secondOrdered : second.Pairwise Event.Precedes) (same : ∀ event, event ∈ first ↔ event ∈ second) :
    first = second := by
  have perm : first.Perm second :=
    (List.perm_ext_iff_of_nodup (nodup_of_precedes firstOrdered) (nodup_of_precedes secondOrdered)).mpr same
  exact perm.eq_of_pairwise (fun _ _ _ _ precedes follows => absurd follows precedes.asymm) firstOrdered
    secondOrdered

theorem not_sublist_of_nodup {α : Type} {list : List α} {first second : α} (distinct : list.Nodup)
    (ordered : [first, second].Sublist list) : ¬ [second, first].Sublist list := by
  intro reversed
  induction list with
  | nil => cases ordered
  | cons head tail inductionHypothesis =>
    obtain ⟨fresh, distinct⟩ := List.nodup_cons.mp distinct
    -- Where one of the two lists begins with the head, the head occurs again in the tail.
    cases ordered with
    | cons _ ordered =>
      cases reversed with
      | cons _ reversed => exact inductionHypothesis distinct ordered reversed
      | cons_cons _ _ => exact fresh (ordered.subset (by simp))
    | cons_cons _ later =>
      cases reversed with
      | cons _ reversed => exact fresh (reversed.subset (by simp))
      | cons_cons _ _ => exact fresh (later.subset (by simp))

/-- Sorting tags in front of class names by position orders them strictly, provided that among
the tags and among the class names no position occurs twice. -/
theorem mergeSort_precedes {tags names : List Event}
    (tagsApart : tags.Pairwise Event.Apart)
    (namesApart : names.Pairwise Event.Apart)
    (areTags : ∀ event ∈ tags, event.isClassName = false)
    (areNames : ∀ event ∈ names, event.isClassName = true) :
    ((tags ++ names).mergeSort Event.notAfter).Pairwise Event.Precedes := by
  have tagsDistinct : tags.Nodup := tagsApart.imp fun apart same => apart (congrArg Event.position same)
  have namesDistinct : names.Nodup := namesApart.imp fun apart same => apart (congrArg Event.position same)
  have distinct : ((tags ++ names).mergeSort Event.notAfter).Nodup := by
    refine (List.mergeSort_perm _ _).nodup_iff.mpr (List.nodup_append.mpr ⟨tagsDistinct, namesDistinct, ?_⟩)
    rintro tag isTag name isName rfl
    have notBoth := (areTags tag isTag).symm.trans (areNames tag isName)
    cases notBoth
  have sorted := List.pairwise_mergeSort Event.notAfter_trans Event.notAfter_total (tags ++ names)
  refine List.pairwise_iff_forall_sublist.mpr ?_
  intro first second sublist
  have notAfter := Event.notAfter_iff.mp (List.pairwise_iff_forall_sublist.mp sorted sublist)
  by_cases tied : first.position = second.position
  · have differ : first ≠ second := List.pairwise_iff_forall_sublist.mp distinct sublist
    have firstMember : first ∈ tags ++ names := List.mem_mergeSort.mp (sublist.subset (by simp))
    have secondMember : second ∈ tags ++ names := List.mem_mergeSort.mp (sublist.subset (by simp))
    cases List.mem_append.mp firstMember with
    | inl firstTag =>
      cases List.mem_append.mp secondMember with
      | inl secondTag => exact absurd tied (tagsApart.forall firstTag secondTag differ)
      | inr secondName => exact Or.inr ⟨tied, areTags first firstTag, areNames second secondName⟩
    | inr firstName =>
      cases List.mem_append.mp secondMember with
      | inl secondTag =>
        -- Sorting is stable, so it has kept the tag in front of the name.
        have kept : [second, first].Sublist (tags ++ names) :=
          (List.singleton_sublist.mpr secondTag).append (List.singleton_sublist.mpr firstName)
        have stable := List.pair_sublist_mergeSort Event.notAfter_trans Event.notAfter_total
          (Event.notAfter_iff.mpr (Nat.le_of_eq tied.symm)) kept
        exact absurd sublist (not_sublist_of_nodup distinct stable)
      | inr secondName => exact absurd tied (namesApart.forall firstName secondName differ)
  · exact Or.inl (Nat.lt_of_le_of_ne notAfter tied)

end StyleSkeleton.Markup
