import Mathlib.Data.List.Forall2
import Mathlib.Data.List.TakeWhile
import StyleSkeleton.Markup.ClassAttribute
import StyleSkeleton.Proofs.Text.Searching

/-! # The grammar of class attributes

A `Spelling` is one way to write a class attribute, cut into its parts, and `Grammatical` says
which spellings there are.  The grammar knows nothing of reading: its parts need not be the
longest possible.  Reading is exact for it (`read?_eq_some_iff`), because each part is followed
by a character that cannot continue it.
-/

namespace StyleSkeleton.Markup

open StyleSkeleton.Text

/-! ## Spellings -/

/-- Simple case folding of the characters that fold to an ASCII letter.  Beside the capitals these
are the long s and the Kelvin sign; all others are left alone. -/
def folded (char : Char) : Char :=
  if char = 'ſ' then 's' else if char = '\u212A' then 'k' else char.toLower

def SpellsClass (word : List Char) : Prop :=
  word.map folded = ['c', 'l', 'a', 's', 's']

instance (word : List Char) : Decidable (SpellsClass word) :=
  inferInstanceAs (Decidable (word.map folded = ['c', 'l', 'a', 's', 's']))

def Wordless (text : List Char) : Prop :=
  ∀ word, word <:+: text → ¬ SpellsClass word

theorem Wordless.of_suffix {text rest : List Char} (wordless : Wordless text) (suffix : rest <:+ text) :
    Wordless rest :=
  fun word inside => wordless word (inside.trans suffix.isInfix)

def AllBlank (text : List Char) : Prop :=
  ∀ char ∈ text, isBlank char = true

instance (text : List Char) : Decidable (AllBlank text) :=
  List.decidableBAll _ text

theorem visible_of_quote {quote : Char} (isQuote : quote = '"' ∨ quote = '\'') : isBlank quote = false := by
  rcases isQuote with rfl | rfl <;> decide

structure Spelling where
  blanks : List Char
  word : List Char
  beforeSign : List Char
  behindSign : List Char
  quote : Char
  value : List Char

namespace Spelling

def behindWord (spelling : Spelling) : List Char :=
  spelling.beforeSign ++ '=' :: (spelling.behindSign ++ spelling.quote :: (spelling.value ++ [spelling.quote]))

def text (spelling : Spelling) : List Char :=
  spelling.blanks ++ spelling.word ++ spelling.behindWord

def opening (spelling : Spelling) : List Char :=
  spelling.blanks ++ spelling.word ++ spelling.beforeSign ++ '=' :: spelling.behindSign ++ [spelling.quote]

theorem text_eq_opening (spelling : Spelling) :
    spelling.text = spelling.opening ++ (spelling.value ++ [spelling.quote]) := by
  simp [text, behindWord, opening]

def lengthened (spelling : Spelling) (blanks : List Char) : Spelling :=
  { spelling with blanks := blanks ++ spelling.blanks }

theorem text_lengthened (spelling : Spelling) (blanks : List Char) :
    (spelling.lengthened blanks).text = blanks ++ spelling.text := by
  simp only [lengthened, text, behindWord, List.append_assoc]

theorem byteLength_value_lt (spelling : Spelling) :
    byteLength spelling.value < byteLength spelling.text := by
  have positive := spelling.quote.utf8Size_pos
  simp only [text, behindWord, byteLength_append, byteLength_cons, byteLength_nil]
  omega

structure Grammatical (spelling : Spelling) : Prop where
  nonempty : spelling.blanks ≠ []
  blanks : AllBlank spelling.blanks
  word : SpellsClass spelling.word
  beforeSign : AllBlank spelling.beforeSign
  behindSign : AllBlank spelling.behindSign
  quote : spelling.quote = '"' ∨ spelling.quote = '\''
  value : spelling.quote ∉ spelling.value

namespace Grammatical

variable {spelling : Spelling}

theorem lengthened (grammatical : spelling.Grammatical) {blanks : List Char} (allBlank : AllBlank blanks) :
    (spelling.lengthened blanks).Grammatical :=
  { grammatical with
    nonempty := List.append_ne_nil_of_right_ne_nil _ grammatical.nonempty
    blanks := List.forall_mem_append.mpr ⟨allBlank, grammatical.blanks⟩ }

theorem head (grammatical : spelling.Grammatical) {first : Char} {rest : List Char}
    (isFirst : first ∈ (spelling.text ++ rest).head?) : isBlank first = true := by
  obtain ⟨blank, blanks, shape⟩ := List.exists_cons_of_ne_nil grammatical.nonempty
  obtain rfl : blank = first := by simpa [text, shape] using isFirst
  exact grammatical.blanks blank (shape ▸ List.mem_cons_self)

theorem getLast (grammatical : spelling.Grammatical) {before : List Char} {last : Char}
    (cut : spelling.text = before ++ [last]) : last = spelling.quote ∧ isBlank last = false := by
  have ends : spelling.text = spelling.blanks ++ spelling.word ++ (spelling.beforeSign ++
      '=' :: (spelling.behindSign ++ spelling.quote :: spelling.value)) ++ [spelling.quote] := by
    simp [text, behindWord]
  obtain ⟨_, same⟩ := List.append_inj' (cut.symm.trans ends) rfl
  obtain rfl : last = spelling.quote := by simpa using same
  exact ⟨rfl, visible_of_quote grammatical.quote⟩

end Grammatical

end Spelling

/-- From byte `start` to byte `stop` the text is a class attribute with the given value. -/
def IsAttribute (text : List Char) (start stop : Nat) (value : List Char) : Prop :=
  ∃ (before : List Char) (spelling : Spelling) (behind : List Char),
    spelling.Grammatical ∧ text = before ++ spelling.text ++ behind ∧ byteLength before = start ∧
      stop = start + byteLength spelling.text ∧ spelling.value = value

/-! ## Folding -/

theorem toNat_toLower (char : Char) :
    char.toLower.toNat =
      if 65 ≤ char.toNat ∧ char.toNat ≤ 90 then char.toNat + 32 else char.toNat := by
  by_cases capital : char.val ≥ 'A'.val ∧ char.val ≤ 'Z'.val
  · have bounds : 65 ≤ char.toNat ∧ char.toNat ≤ 90 := capital
    have lowered : char.toLower.val = char.val + ('a'.val - 'A'.val) := congrArg Char.val (dif_pos capital)
    have distance : ('a'.val - 'A'.val).toNat = 32 := by decide
    have same : char.toNat = char.val.toNat := rfl
    rw [if_pos bounds]
    show char.toLower.val.toNat = char.toNat + 32
    rw [lowered, UInt32.toNat_add, distance]
    omega
  · have same : char.toLower = char := dif_neg capital
    have outside : ¬ (65 ≤ char.toNat ∧ char.toNat ≤ 90) := capital
    rw [same, if_neg outside]

/-- What folds to a small letter: the letter, its capital, and for s and k one more character. -/
theorem folded_eq_iff {char small capital : Char} (isCapital : 65 ≤ capital.toNat ∧ capital.toNat ≤ 90)
    (isSmall : small.toNat = capital.toNat + 32) :
    folded char = small ↔
      char = small ∨ char = capital ∨ (small = 's' ∧ char = 'ſ') ∨ (small = 'k' ∧ char = '\u212A') := by
  have longS : 'ſ'.toNat = 383 := rfl
  have kelvin : '\u212A'.toNat = 8490 := rfl
  unfold folded
  simp only [← Char.toNat_inj]
  split
  · rename_i isLongS
    have letter : 's'.toNat = 115 := rfl
    omega
  · split
    · rename_i notLongS isKelvin
      have letter : 'k'.toNat = 107 := rfl
      omega
    · rename_i notLongS notKelvin
      rw [toNat_toLower]
      split <;> omega

theorem spellsClass_iff {word : List Char} :
    SpellsClass word ↔ List.Forall₂ (fun letters char => char ∈ letters) ClassAttribute.nameLetters word := by
  have c {char : Char} : folded char = 'c' ↔ char ∈ ['c', 'C'] := by
    simpa using @folded_eq_iff char 'c' 'C' (by decide) rfl
  have l {char : Char} : folded char = 'l' ↔ char ∈ ['l', 'L'] := by
    simpa using @folded_eq_iff char 'l' 'L' (by decide) rfl
  have a {char : Char} : folded char = 'a' ↔ char ∈ ['a', 'A'] := by
    simpa using @folded_eq_iff char 'a' 'A' (by decide) rfl
  have s {char : Char} : folded char = 's' ↔ char ∈ ['s', 'S', 'ſ'] := by
    simpa using @folded_eq_iff char 's' 'S' (by decide) rfl
  simp only [SpellsClass, ClassAttribute.nameLetters, List.map_eq_cons_iff, List.map_eq_nil_iff,
    List.forall₂_cons_left_iff, List.forall₂_nil_left_iff]
  constructor
  · rintro ⟨_, _, rfl, hc, _, _, rfl, hl, _, _, rfl, ha, _, _, rfl, hs, _, _, rfl, hs', rfl⟩
    exact ⟨_, _, c.mp hc, ⟨_, _, l.mp hl, ⟨_, _, a.mp ha, ⟨_, _, s.mp hs, ⟨_, _, s.mp hs', rfl, rfl⟩,
      rfl⟩, rfl⟩, rfl⟩, rfl⟩
  · rintro ⟨_, _, hc, ⟨_, _, hl, ⟨_, _, ha, ⟨_, _, hs, ⟨_, _, hs', rfl, rfl⟩, rfl⟩, rfl⟩, rfl⟩, rfl⟩
    exact ⟨_, _, rfl, c.mpr hc, _, _, rfl, l.mpr hl, _, _, rfl, a.mpr ha, _, _, rfl, s.mpr hs, _, _, rfl,
      s.mpr hs', rfl⟩

theorem SpellsClass.length_eq {word : List Char} (spells : SpellsClass word) : word.length = 5 := by
  have folds : (word.map folded).length = 5 := by rw [spells]; rfl
  rwa [List.length_map] at folds

theorem SpellsClass.forall_of_accepted {word : List Char} (spells : SpellsClass word) {holds : Char → Prop}
    (accepted : ∀ letters ∈ ClassAttribute.nameLetters, ∀ char ∈ letters, holds char) : ∀ char ∈ word, holds char := by
  have matching := spellsClass_iff.mp spells
  -- The induction is on the matching, for any list of accepted letters.
  clear spells
  generalize ClassAttribute.nameLetters = letters at accepted matching
  induction matching with
  | nil => exact fun _ member => absurd member List.not_mem_nil
  | cons letter _ inductionHypothesis =>
    obtain ⟨first, rest⟩ := List.forall_mem_cons.mp accepted
    exact List.forall_mem_cons.mpr ⟨first _ letter, inductionHypothesis rest⟩

theorem SpellsClass.letter {word : List Char} (spells : SpellsClass word) :
    ∀ char ∈ word, isBlank char = false ∧ char ≠ '<' ∧ char ≠ '>' := by
  have accepted : ∀ letters ∈ ClassAttribute.nameLetters, ∀ char ∈ letters,
      isBlank char = false ∧ char ≠ '<' ∧ char ≠ '>' := by
    simp only [ClassAttribute.nameLetters, List.forall_mem_cons, List.not_mem_nil, false_implies, implies_true]
    decide
  exact spells.forall_of_accepted accepted

theorem SpellsClass.exists_cons {word : List Char} (spells : SpellsClass word) :
    ∃ first rest, word = first :: rest ∧ isBlank first = false := by
  have nonempty : word ≠ [] := List.ne_nil_of_length_eq_add_one spells.length_eq
  obtain ⟨first, rest, rfl⟩ := List.exists_cons_of_ne_nil nonempty
  exact ⟨first, rest, rfl, (spells.letter first List.mem_cons_self).1⟩

/-- In front of its value an attribute has a blank, the word, the sign and a quote at least. -/
theorem Spelling.Grammatical.eight_le_opening {spelling : Spelling} (grammatical : spelling.Grammatical) :
    8 ≤ byteLength spelling.opening := by
  have blank : 0 < spelling.blanks.length := List.length_pos_iff.mpr grammatical.nonempty
  have word := grammatical.word.length_eq
  refine Nat.le_trans ?_ (length_le_byteLength _)
  simp only [Spelling.opening, List.length_append, List.length_cons, List.length_nil]
  omega

/-! ## Reading is exact -/

namespace ClassAttribute

theorem isQuote_iff {quote : Char} : isQuote quote = true ↔ quote = '"' ∨ quote = '\'' := by
  simp [isQuote]

theorem readValue?_eq_some_iff {place after : Place} {value : List Char} :
    readValue? place = some (value, after) ↔
      ∃ quote, (quote = '"' ∨ quote = '\'') ∧ quote ∉ value ∧
        place.Reaches (quote :: (value ++ [quote])) after := by
  constructor
  · intro read
    obtain ⟨quote, opens, absent, reached⟩ := readValue?_reaches read
    exact ⟨quote, isQuote_iff.mp opens, absent, reached⟩
  · rintro ⟨quote, opens, absent, reached⟩
    obtain ⟨opened, reachedOpened, reachedAfter⟩ := reached.split_cons
    obtain ⟨closing, reachedClosing, reachedEnd⟩ := reachedAfter.split
    have next : place.next? = some (quote, opened) := by
      obtain ⟨rest, offsets⟩ := reachedOpened
      match place, rest with
      | ⟨_, _⟩, rfl => cases opened; simp_all [Place.next?]
    have accepted : ∀ char ∈ value, (char != quote) = true := fun char member =>
      bne_iff_ne.mpr fun same => absent (same ▸ member)
    have stops : ∀ char ∈ closing.rest.head?, (char != quote) = false := by
      rw [reachedEnd.1]
      simp
    have run := Place.takeWhile_eq reachedClosing accepted stops
    have passed := Place.passWhile_eq reachedClosing accepted stops
    have closes : closing.pass? (· == quote) = some after :=
      Place.pass?_eq_some_iff.mpr ⟨quote, by simp, reachedEnd⟩
    simp [readValue?, next, isQuote_iff.mpr opens, passed, closes, run]

theorem passAll?_name_iff {place after : Place} :
    place.passAll? (nameLetters.map fun letters => letters.contains) = some after ↔
      ∃ word, SpellsClass word ∧ place.Reaches word after := by
  rw [Place.passAll?_eq_some_iff]
  simp only [List.forall₂_map_left_iff, List.contains_iff_mem, spellsClass_iff]

theorem allBlank_takeWhile (text : List Char) : AllBlank (text.takeWhile isBlank) :=
  fun _ member => List.mem_takeWhile_imp member

theorem read?_eq_some_iff {place after : Place} {found : ClassAttribute} :
    read? place = some (found, after) ↔
      ∃ spelling : Spelling, spelling.Grammatical ∧ place.Reaches spelling.text after ∧
        found = ⟨place.offset, after.offset, String.ofList spelling.value⟩ := by
  constructor
  · intro read
    unfold read? at read
    split at read
    · cases read
    · rename_i blank firstBlank
      split at read
      · cases read
      · rename_i named name
        split at read
        · cases read
        · rename_i equated sign
          simp only [Option.map_eq_some_iff, Prod.exists, Prod.mk.injEq] at read
          obtain ⟨value, stop, valueRead, rfl, rfl⟩ := read
          obtain ⟨first, isFirst, reachedBlank⟩ := Place.pass?_reaches firstBlank
          obtain ⟨word, spells, reachedNamed⟩ := passAll?_name_iff.mp name
          obtain ⟨char, isSign, reachedSign⟩ := Place.pass?_reaches sign
          obtain rfl : char = '=' := by simpa using isSign
          obtain ⟨quote, opens, absent, reachedStop⟩ := readValue?_eq_some_iff.mp valueRead
          let spelling : Spelling :=
            ⟨first :: blank.rest.takeWhile isBlank, word, named.rest.takeWhile isBlank,
              equated.rest.takeWhile isBlank, quote, value⟩
          refine ⟨spelling, ⟨List.cons_ne_nil _ _, ?_, spells, allBlank_takeWhile _, allBlank_takeWhile _,
            opens, absent⟩, ?_, rfl⟩
          · exact List.forall_mem_cons.mpr ⟨isFirst, allBlank_takeWhile _⟩
          · have passed := reachedBlank.trans ((Place.passWhile_reaches isBlank blank).trans
              (reachedNamed.trans ((Place.passWhile_reaches isBlank named).trans
                (reachedSign.trans ((Place.passWhile_reaches isBlank equated).trans reachedStop)))))
            simpa [spelling, Spelling.text, Spelling.behindWord] using passed
  · rintro ⟨⟨blanks, word, beforeSign, behindSign, quote, value⟩, grammatical, reached, rfl⟩
    obtain ⟨nonempty, allBlanks, spells, allBefore, allBehind, opens, absent⟩ := grammatical
    match blanks, nonempty with
    | first :: blanks, _ =>
      obtain ⟨isFirst, allBlanks⟩ := List.forall_mem_cons.mp allBlanks
      obtain ⟨head, tail, shape, visible⟩ := spells.exists_cons
      -- Each run of blanks is read to its end, as the part behind it begins with something visible.
      obtain ⟨named, reachedNamed, reachedValue⟩ := Place.Reaches.split reached
      obtain ⟨word_start, reachedWord, reachedNamed⟩ := reachedNamed.split
      obtain ⟨blank, reachedBlank, reachedWord⟩ := reachedWord.split_cons
      obtain ⟨sign, reachedSign, reachedValue⟩ := reachedValue.split
      obtain ⟨equated, reachedEquated, reachedValue⟩ := reachedValue.split_cons
      obtain ⟨opening, reachedOpening, reachedAfter⟩ := reachedValue.split
      have step₁ : place.pass? isBlank = some blank :=
        Place.pass?_eq_some_iff.mpr ⟨first, isFirst, reachedBlank⟩
      have step₂ : blank.passWhile isBlank = word_start := by
        refine Place.passWhile_eq reachedWord allBlanks ?_
        rw [reachedNamed.1, shape]
        simpa using visible
      have step₃ := passAll?_name_iff.mpr ⟨word, spells, reachedNamed⟩
      have step₄ : named.passWhile isBlank = sign := by
        refine Place.passWhile_eq reachedSign allBefore ?_
        rw [reachedEquated.1]
        have visible : isBlank '=' = false := by decide
        simpa using visible
      have step₅ : sign.pass? (· == '=') = some equated :=
        Place.pass?_eq_some_iff.mpr ⟨'=', rfl, reachedEquated⟩
      have step₆ : equated.passWhile isBlank = opening := by
        refine Place.passWhile_eq reachedOpening allBehind ?_
        rw [reachedAfter.1]
        simpa using visible_of_quote opens
      have step₇ := readValue?_eq_some_iff.mpr ⟨quote, opens, absent, reachedAfter⟩
      simp only [read?, step₁, step₂, step₃, step₄, step₅, step₆, step₇, Option.map_some]

end ClassAttribute

end StyleSkeleton.Markup
