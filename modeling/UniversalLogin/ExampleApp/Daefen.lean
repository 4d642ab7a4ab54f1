import Mathlib.Data.Nat.Digits.Defs
import UniversalLogin.Commons.MessageSignatures

/-!
# Daefen

Numbers as words that can be pronounced (`Daefen.js`), of which the backup codes of the example
application are made. A digit to the base of 3456 is a syllable, and syllables are put together to
words without a mark between them. Reading splits words between two consonants and then halves what
is four or six letters long, which finds the syllables again (`fromWords_toWords`).

The numbers that are written are below 2 ^ 53, where the numbers of JavaScript are exact.
-/

namespace UniversalLogin.Daefen

def consonants : JsString := "bcdfghjklmnprstvwz".toList

def vowels : JsString := "aeiouy".toList

def syllables : List JsString :=
  (vowels.flatMap fun a => consonants.map fun b => [a, b]) ++
  (consonants.flatMap fun b => vowels.map fun a => [b, a]) ++
  (consonants.flatMap fun b => vowels.flatMap fun a => vowels.map fun e => [b, a, e]) ++
  (consonants.flatMap fun b => vowels.flatMap fun a => consonants.map fun c => [b, a, c]) ++
  (vowels.flatMap fun a => consonants.flatMap fun b => vowels.map fun e => [a, b, e])

/-- The loop of `fromBase10`, which would not end for a base below 2. -/
def fromBase10Loop (base : Nat) (result : List Nat) (i : Nat) : List Nat :=
  if _h : 0 < i ∧ 1 < base then fromBase10Loop base (i % base :: result) (i / base) else result
termination_by i
decreasing_by exact Nat.div_lt_self _h.1 _h.2

def fromBase10 (bigNum base : Nat) : List Nat :=
  if bigNum = 0 then [0] else fromBase10Loop base [] bigNum

/-- A letter is looked for as a part of the string of consonants. -/
def isConsonant (letter : JsString) : Bool := decide (letter <:+: consonants)

/-! ## Writing -/

/-- `isConsonant(lastWord.slice(-1)) && isConsonant(syllable.slice(0, 1))` -/
def meet (lastWord syllable : JsString) : Bool :=
  isConsonant (lastWord.drop (lastWord.length - 1)) && isConsonant (syllable.take 1)

/-- A syllable is put at the end of the last word if the two are of the same length or if a short
word and the syllable meet in two consonants. -/
def addSyllable (result syllable : JsString) : JsString :=
  let lastWord := (result.splitOn ' ').getLastD []
  if result = [] ∨ lastWord.length = syllable.length ∨
      (lastWord.length < 5 ∧ meet lastWord syllable) then
    result ++ syllable
  else
    result ++ ' ' :: syllable

/-- A character that `\w` stands for. -/
def isWordCharacter (c : Char) : Bool := c.isAlphanum || c = '_'

/-- `replace(/\b[a-z]/g, f => f.toUpperCase())` after a character that is one of a word or not. -/
def capitalize (afterWord : Bool) : JsString → JsString
  | [] => []
  | c :: cs =>
    (if !afterWord && c.isLower then c.toUpper else c) :: capitalize (isWordCharacter c) cs

def toWords (number : Nat) : JsString :=
  capitalize false ((fromBase10 number syllables.length).foldl
    (fun result n => addSyllable result (syllables.getD n [])) [])

/-! ## Reading -/

/-- Between two consonants a space is put. -/
def splitConsonants : JsString → JsString
  | a :: b :: rest =>
    if isConsonant [a] && isConsonant [b] then a :: ' ' :: b :: splitConsonants rest
    else a :: splitConsonants (b :: rest)
  | s => s

/-- The string begins with `n` letters. -/
def startsWithLetters (n : Nat) (s : JsString) : Bool :=
  (s.take n).length = n && (s.take n).all (·.isAlpha)

/-- `/[a-z]{6}|[a-z]{4}/gi` is replaced by its halves with a space between them. -/
def splitRuns : JsString → JsString
  | [] => []
  | c :: cs =>
    if startsWithLetters 6 (c :: cs) then
      (c :: cs).take 3 ++ ' ' :: ((c :: cs).drop 3).take 3 ++ splitRuns (cs.drop 5)
    else if startsWithLetters 4 (c :: cs) then
      (c :: cs).take 2 ++ ' ' :: ((c :: cs).drop 2).take 2 ++ splitRuns (cs.drop 3)
    else c :: splitRuns cs
termination_by s => s.length

/-- The loop of `fromWords`, which returns nothing if a word is not a syllable. -/
def fromWordsLoop (result : Nat) : List JsString → Option Nat
  | [] => some result
  | word :: words =>
    if syllables.contains word then
      fromWordsLoop (result + syllables.idxOf word * syllables.length ^ words.length) words
    else none

def wordArray (words : JsString) : List JsString :=
  (splitRuns (splitConsonants (toLowerCase words))).splitOn ' '

def fromWords (words : JsString) : Option Nat := fromWordsLoop 0 (wordArray words)

/-! ## Letters -/

theorem isConsonant_singleton : isConsonant [c] = true ↔ c ∈ consonants := by
  rw [isConsonant, decide_eq_true_iff, List.singleton_infix_iff]

/-- Letters of syllables -/
structure Letter (c : Char) : Prop where
  alpha : c.isAlpha = true
  lower : c.toLower = c
  not_white : c.isWhitespace = false

theorem Letter.not_space (h : Letter c) : c ≠ ' ' := by
  rintro rfl
  exact absurd h.not_white (by decide)

theorem Letter.not_hyphen (h : Letter c) : c ≠ '-' := by
  rintro rfl
  exact absurd h.alpha (by decide)

theorem letter_of_all {letters : JsString}
    (h : letters.all (fun c => c.isAlpha && c.toLower == c && !c.isWhitespace) = true) :
    ∀ c ∈ letters, Letter c := by
  intro c hc
  have hletter := List.all_eq_true.mp h c hc
  simp only [Bool.and_eq_true, beq_iff_eq, Bool.not_eq_true'] at hletter
  exact ⟨hletter.1.1, hletter.1.2, hletter.2⟩

theorem letter_of_consonant : ∀ c ∈ consonants, Letter c := letter_of_all rfl

theorem letter_of_vowel : ∀ c ∈ vowels, Letter c := letter_of_all rfl

theorem vowel_not_consonant (c : Char) (hc : c ∈ vowels) : isConsonant [c] = false := by
  have hall : vowels.all (fun c => !isConsonant [c]) = true := by decide
  simpa using List.all_eq_true.mp hall c hc

theorem space_not_consonant : isConsonant [' '] = false := by decide

/-! ## Syllables -/

inductive IsSyllable : JsString → Prop
  | vc : a ∈ vowels → b ∈ consonants → IsSyllable [a, b]
  | cv : b ∈ consonants → a ∈ vowels → IsSyllable [b, a]
  | cvv : b ∈ consonants → a ∈ vowels → e ∈ vowels → IsSyllable [b, a, e]
  | cvc : b ∈ consonants → a ∈ vowels → c ∈ consonants → IsSyllable [b, a, c]
  | vcv : a ∈ vowels → b ∈ consonants → e ∈ vowels → IsSyllable [a, b, e]

theorem mem_syllables : s ∈ syllables ↔ IsSyllable s := by
  simp only [syllables, List.mem_append, List.mem_flatMap, List.mem_map]
  constructor
  · rintro ((((⟨a, ha, b, hb, rfl⟩ | ⟨b, hb, a, ha, rfl⟩) | ⟨b, hb, a, ha, e, he, rfl⟩) |
      ⟨b, hb, a, ha, c, hc, rfl⟩) | ⟨a, ha, b, hb, e, he, rfl⟩)
    · exact .vc ha hb
    · exact .cv hb ha
    · exact .cvv hb ha he
    · exact .cvc hb ha hc
    · exact .vcv ha hb he
  · intro h
    cases h with
    | vc ha hb => exact .inl (.inl (.inl (.inl ⟨_, ha, _, hb, rfl⟩)))
    | cv hb ha => exact .inl (.inl (.inl (.inr ⟨_, hb, _, ha, rfl⟩)))
    | cvv hb ha he => exact .inl (.inl (.inr ⟨_, hb, _, ha, _, he, rfl⟩))
    | cvc hb ha hc => exact .inl (.inr ⟨_, hb, _, ha, _, hc, rfl⟩)
    | vcv ha hb he => exact .inr ⟨_, ha, _, hb, _, he, rfl⟩

theorem length_syllables : syllables.length = 3456 := by decide +kernel

/-- A letter is put in front of strings that differ. -/
theorem nodup_flatMap_cons {ls : List Char} {ss : List JsString} (hls : ls.Nodup) (hss : ss.Nodup) :
    (ls.flatMap fun a => ss.map (a :: ·)).Nodup := by
  refine List.nodup_flatMap.mpr ⟨fun a _ => hss.map List.cons_injective, hls.imp ?_⟩
  intro a b hne s hs hs'
  obtain ⟨_, _, rfl⟩ := List.mem_map.mp hs
  obtain ⟨_, _, heq⟩ := List.mem_map.mp hs'
  exact hne (List.cons.inj heq).1.symm

/-- Which letters are consonants. -/
def shape (s : JsString) : List Bool := s.map fun c => isConsonant [c]

theorem shape_two {xs ys : List Char} (hx : ∀ a ∈ xs, isConsonant [a] = x)
    (hy : ∀ b ∈ ys, isConsonant [b] = y) :
    ∀ s ∈ xs.flatMap fun a => ys.map fun b => [a, b], shape s = [x, y] := by
  intro s hs
  obtain ⟨a, ha, hs⟩ := List.mem_flatMap.mp hs
  obtain ⟨b, hb, rfl⟩ := List.mem_map.mp hs
  simp [shape, hx a ha, hy b hb]

theorem shape_three {xs ys zs : List Char} (hx : ∀ a ∈ xs, isConsonant [a] = x)
    (hy : ∀ b ∈ ys, isConsonant [b] = y) (hz : ∀ c ∈ zs, isConsonant [c] = z) :
    ∀ s ∈ xs.flatMap fun a => ys.flatMap fun b => zs.map fun c => [a, b, c],
      shape s = [x, y, z] := by
  intro s hs
  obtain ⟨a, ha, hs⟩ := List.mem_flatMap.mp hs
  obtain ⟨b, hb, hs⟩ := List.mem_flatMap.mp hs
  obtain ⟨c, hc, rfl⟩ := List.mem_map.mp hs
  simp [shape, hx a ha, hy b hb, hz c hc]

/-- Strings of a new shape follow those of other shapes. -/
theorem nodup_append_of_shape {l l' : List JsString} {shapes : List (List Bool)}
    (h : l.Nodup ∧ ∀ s ∈ l, shape s ∈ shapes) (hl' : l'.Nodup) (hshape : ∀ s ∈ l', shape s = k)
    (hnew : k ∉ shapes) : (l ++ l').Nodup ∧ ∀ s ∈ l ++ l', shape s ∈ shapes ++ [k] := by
  obtain ⟨hl, hshapes⟩ := h
  constructor
  · refine List.nodup_append.mpr ⟨hl, hl', fun s hs s' hs' heq => hnew ?_⟩
    rw [← hshape s' hs', ← heq]
    exact hshapes s hs
  · intro s hs
    rcases List.mem_append.mp hs with hs | hs
    · exact List.mem_append_left _ (hshapes s hs)
    · exact List.mem_append_right _ (List.mem_singleton.mpr (hshape s hs))

/-- A syllable is written in one way. -/
theorem nodup_syllables : syllables.Nodup := by
  have hconsonants : consonants.Nodup := by decide
  have hvowels : vowels.Nodup := by decide
  have hone : ∀ {ls : List Char}, ls.Nodup → (ls.map fun c => [c]).Nodup :=
    fun h => h.map fun _ _ heq => (List.cons.inj heq).1
  have hvc := nodup_flatMap_cons hvowels (hone hconsonants)
  have hcv := nodup_flatMap_cons hconsonants (hone hvowels)
  have hcvv := nodup_flatMap_cons hconsonants (nodup_flatMap_cons hvowels (hone hvowels))
  have hcvc := nodup_flatMap_cons hconsonants (nodup_flatMap_cons hvowels (hone hconsonants))
  have hvcv := nodup_flatMap_cons hvowels (nodup_flatMap_cons hconsonants (hone hvowels))
  simp only [List.map_flatMap, List.map_map, Function.comp_def] at hvc hcv hcvv hcvc hvcv
  have hc : ∀ c ∈ consonants, isConsonant [c] = true := fun c hc => isConsonant_singleton.mpr hc
  have hv := vowel_not_consonant
  -- the kinds of syllables have different shapes
  have hfirst := And.intro hvc fun s hs => List.mem_singleton.mpr (shape_two hv hc s hs)
  have h := nodup_append_of_shape hfirst hcv (shape_two hc hv) (by decide)
  replace h := nodup_append_of_shape h hcvv (shape_three hc hv hv) (by decide)
  replace h := nodup_append_of_shape h hcvc (shape_three hc hv hc) (by decide)
  exact (nodup_append_of_shape h hvcv (shape_three hv hc hv) (by decide)).1

/-! ## Words are read one by one -/

theorem splitConsonants_space (s rest : JsString) :
    splitConsonants (s ++ ' ' :: rest) = splitConsonants s ++ ' ' :: splitConsonants rest := by
  have hrest : splitConsonants (' ' :: rest) = ' ' :: splitConsonants rest := by
    cases rest with
    | nil => rfl
    | cons c rest => rw [splitConsonants, space_not_consonant, Bool.false_and, if_neg (by decide)]
  fun_induction splitConsonants s with
  | case1 a b s hmeet ih =>
    simp only [List.cons_append, splitConsonants, hmeet, if_true, ih]
  | case2 a b s hmeet ih =>
    rw [List.cons_append, List.cons_append, splitConsonants, if_neg hmeet, ← List.cons_append, ih]
    rfl
  | case3 s hshort =>
    cases s with
    | nil => exact hrest
    | cons a s =>
      cases s with
      | nil =>
        change splitConsonants (a :: ' ' :: rest) = a :: ' ' :: splitConsonants rest
        rw [splitConsonants, space_not_consonant, Bool.and_false, if_neg (by decide), hrest]
      | cons b s => exact absurd rfl (hshort a b s)

theorem startsWithLetters_space (n : Nat) (s rest : JsString) :
    startsWithLetters n (s ++ ' ' :: rest) = startsWithLetters n s := by
  rcases Nat.lt_or_ge s.length n with hlt | hle
  · have hspace : ' ' ∈ (s ++ ' ' :: rest).take n := by
      rw [List.take_append, List.take_of_length_le hlt.le]
      obtain ⟨k, hk⟩ := Nat.exists_eq_add_of_lt hlt
      rw [show n - s.length = k + 1 by omega]
      simp
    have hleft : ((s ++ ' ' :: rest).take n).all (·.isAlpha) = false := by
      rw [List.all_eq_false]
      exact ⟨' ', hspace, by decide⟩
    have hright : (s.take n).length ≠ n := by
      rw [List.length_take]
      omega
    simp only [startsWithLetters, hleft, Bool.and_false, hright, decide_false, Bool.false_and]
  · rw [startsWithLetters, startsWithLetters, List.take_append_of_le_length hle]

theorem le_length_of_startsWithLetters (h : startsWithLetters n s = true) : n ≤ s.length := by
  rw [startsWithLetters, Bool.and_eq_true, decide_eq_true_iff, List.length_take] at h
  omega

theorem splitRuns_space (s rest : JsString) :
    splitRuns (s ++ ' ' :: rest) = splitRuns s ++ ' ' :: splitRuns rest := by
  fun_induction splitRuns s with
  | case1 =>
    have hsix := startsWithLetters_space 6 [] rest
    have hfour := startsWithLetters_space 4 [] rest
    rw [List.nil_append] at hsix hfour
    rw [List.nil_append, splitRuns, hsix, hfour]
    rfl
  | case2 c s hsix ih =>
    have hlength : 5 ≤ s.length := Nat.le_of_succ_le_succ (le_length_of_startsWithLetters hsix)
    have hstarts := (startsWithLetters_space 6 (c :: s) rest).trans hsix
    rw [List.cons_append] at hstarts ⊢
    rw [splitRuns, if_pos hstarts, List.drop_append_of_le_length hlength, ih]
    simp [List.take_append, List.drop_append, show 2 - s.length = 0 by omega,
      show 3 - (s.length - 2) = 0 by omega]
  | case3 c s hsix hfour ih =>
    have hlength : 3 ≤ s.length := Nat.le_of_succ_le_succ (le_length_of_startsWithLetters hfour)
    have hsix' :=
      (startsWithLetters_space 6 (c :: s) rest).trans (Bool.eq_false_of_not_eq_true hsix)
    have hfour' := (startsWithLetters_space 4 (c :: s) rest).trans hfour
    rw [List.cons_append] at hsix' hfour' ⊢
    rw [splitRuns, if_neg (by simp [hsix']), if_pos hfour',
      List.drop_append_of_le_length hlength, ih]
    simp [List.take_append, List.drop_append, show 1 - s.length = 0 by omega,
      show 2 - (s.length - 1) = 0 by omega]
  | case4 c s hsix hfour ih =>
    have hsix' :=
      (startsWithLetters_space 6 (c :: s) rest).trans (Bool.eq_false_of_not_eq_true hsix)
    have hfour' :=
      (startsWithLetters_space 4 (c :: s) rest).trans (Bool.eq_false_of_not_eq_true hfour)
    rw [List.cons_append] at hsix' hfour' ⊢
    rw [splitRuns, if_neg (by simp [hsix']), if_neg (by simp [hfour']), ih]
    rfl

/-! ## One word -/

theorem IsSyllable.letters (h : IsSyllable s) : ∀ c ∈ s, Letter c := by
  cases h with
  | vc ha hb =>
    simpa using ⟨letter_of_vowel _ ha, letter_of_consonant _ hb⟩
  | cv hb ha =>
    simpa using ⟨letter_of_consonant _ hb, letter_of_vowel _ ha⟩
  | cvv hb ha he =>
    simpa using ⟨letter_of_consonant _ hb, letter_of_vowel _ ha, letter_of_vowel _ he⟩
  | cvc hb ha hc =>
    simpa using ⟨letter_of_consonant _ hb, letter_of_vowel _ ha, letter_of_consonant _ hc⟩
  | vcv ha hb he =>
    simpa using ⟨letter_of_vowel _ ha, letter_of_consonant _ hb, letter_of_vowel _ he⟩

theorem IsSyllable.length (h : IsSyllable s) : s.length = 2 ∨ s.length = 3 := by
  cases h with
  | vc | cv => exact .inl rfl
  | cvv | cvc | vcv => exact .inr rfl

/-- There are no two consonants at the beginning. -/
theorem IsSyllable.head (h : IsSyllable t) : ∃ x y rest, t = x :: y :: rest ∧
    (isConsonant [x] = true → isConsonant [y] = false) := by
  cases h with
  | vc ha hb => exact ⟨_, _, _, rfl, fun h => by simp [vowel_not_consonant _ ha] at h⟩
  | cv hb ha => exact ⟨_, _, _, rfl, fun _ => vowel_not_consonant _ ha⟩
  | cvv hb ha he => exact ⟨_, _, _, rfl, fun _ => vowel_not_consonant _ ha⟩
  | cvc hb ha hc => exact ⟨_, _, _, rfl, fun _ => vowel_not_consonant _ ha⟩
  | vcv ha hb he => exact ⟨_, _, _, rfl, fun h => by simp [vowel_not_consonant _ ha] at h⟩

theorem splitConsonants_syllable (h : IsSyllable s) : splitConsonants s = s := by
  cases h with
  | vc ha _ | cv _ ha => simp [splitConsonants, vowel_not_consonant _ ha]
  | cvv _ ha he => simp [splitConsonants, vowel_not_consonant _ ha]
  | cvc _ ha _ => simp [splitConsonants, vowel_not_consonant _ ha]
  | vcv ha _ he => simp [splitConsonants, vowel_not_consonant _ ha, vowel_not_consonant _ he]

/-- Two syllables are split where they meet in two consonants. -/
theorem splitConsonants_append (hs : IsSyllable s) (ht : IsSyllable t) (rest : JsString) :
    splitConsonants (s ++ (t ++ rest)) =
      s ++ if meet s t then ' ' :: splitConsonants (t ++ rest)
        else splitConsonants (t ++ rest) := by
  obtain ⟨x, y, t', rfl, hxy⟩ := ht.head
  have hx : isConsonant [x] = true →
      splitConsonants (x :: y :: (t' ++ rest)) = x :: splitConsonants (y :: (t' ++ rest)) := by
    intro hx
    rw [splitConsonants, hxy hx, Bool.and_false, if_neg (by decide)]
  have hv := vowel_not_consonant
  cases hs with
  | vc ha hb | cvc _ ha hb =>
    cases hcase : isConsonant [x] with
    | true => simp [splitConsonants, meet, hv _ ha, isConsonant_singleton.mpr hb, hcase, hx hcase]
    | false => simp [splitConsonants, meet, hv _ ha, hcase]
  | cv _ ha => simp [splitConsonants, meet, hv _ ha]
  | cvv _ ha he => simp [splitConsonants, meet, hv _ ha, hv _ he]
  | vcv ha _ he => simp [splitConsonants, meet, hv _ ha, hv _ he]

theorem splitRuns_short (h : s.length < 4) : splitRuns s = s := by
  fun_induction splitRuns s with
  | case1 => rfl
  | case2 c s hsix _ => exact absurd (le_length_of_startsWithLetters hsix) (by omega)
  | case3 c s _ hfour _ => exact absurd (le_length_of_startsWithLetters hfour) (by omega)
  | case4 c s _ _ ih =>
    rw [List.length_cons] at h
    rw [ih (by omega)]

theorem splitRuns_halves (hs : IsSyllable s) (ht : IsSyllable t) (hlength : s.length = t.length) :
    splitRuns (s ++ t) = s ++ ' ' :: t := by
  have hletters : (s ++ t).all (·.isAlpha) = true := by
    rw [List.all_append, Bool.and_eq_true]
    exact ⟨List.all_eq_true.mpr fun c hc => (hs.letters c hc).alpha,
      List.all_eq_true.mpr fun c hc => (ht.letters c hc).alpha⟩
  rcases hs.length with h | h
  · obtain ⟨a, b, rfl⟩ := List.length_eq_two.mp h
    obtain ⟨c, d, rfl⟩ := List.length_eq_two.mp (hlength.symm.trans h)
    simp at hletters
    simp [splitRuns, startsWithLetters, hletters]
  · obtain ⟨a, b, c, rfl⟩ := List.length_eq_three.mp h
    obtain ⟨d, e, f, rfl⟩ := List.length_eq_three.mp (hlength.symm.trans h)
    simp at hletters
    simp [splitRuns, startsWithLetters, hletters]

/-- Syllables that are written as one word. -/
inductive IsWord : List JsString → Prop
  | one (hs : IsSyllable s) : IsWord [s]
  | same (hs : IsSyllable s) (ht : IsSyllable t) (hlength : s.length = t.length) : IsWord [s, t]
  | meet (hs : IsSyllable s) (ht : IsSyllable t) (hmeet : meet s t = true) : IsWord [s, t]
  | three (hs : IsSyllable s) (ht : IsSyllable t) (hu : IsSyllable u) (hs2 : s.length = 2)
      (ht2 : t.length = 2) (hmeet : Daefen.meet t u = true) : IsWord [s, t, u]

theorem IsWord.syllables {w : List JsString} (h : IsWord w) : ∀ s ∈ w, IsSyllable s := by
  cases h with
  | one hs => simpa using hs
  | same hs ht _ | meet hs ht _ => simpa using ⟨hs, ht⟩
  | three hs ht hu _ _ _ => simpa using ⟨hs, ht, hu⟩

theorem IsWord.no_space {w : List JsString} (h : IsWord w) : ' ' ∉ w.flatten := by
  intro hspace
  obtain ⟨s, hs, hmem⟩ := List.mem_flatten.mp hspace
  exact ((h.syllables s hs).letters _ hmem).not_space rfl

theorem IsWord.flatten_ne_nil {w : List JsString} (h : IsWord w) : w.flatten ≠ [] := by
  intro hnil
  cases h with
  | one hs | same hs | meet hs | three hs =>
    have hempty := List.flatten_eq_nil_iff.mp hnil _ List.mem_cons_self
    rcases hs.length with h | h <;> simp [hempty] at h

theorem IsSyllable.no_space (h : IsSyllable s) : ' ' ∉ s :=
  fun hspace => (h.letters _ hspace).not_space rfl

theorem splitOn_syllables {w : List JsString} (hw : ∀ s ∈ w, IsSyllable s) (hne : w ≠ []) :
    ([' '].intercalate w).splitOn ' ' = w :=
  List.splitOn_intercalate ' ' (fun s hs => (hw s hs).no_space) hne

theorem splitRuns_syllable (h : IsSyllable s) : splitRuns s = s :=
  splitRuns_short (by rcases h.length with h | h <;> omega)

/-- Two syllables of a word, whatever comes after the word. -/
theorem splitRuns_two (hs : IsSyllable s) (ht : IsSyllable t)
    (h : s.length = t.length ∨ meet s t = true) :
    splitRuns (splitConsonants (s ++ t)) = s ++ ' ' :: t := by
  have happend := splitConsonants_append hs ht []
  rw [List.append_nil, splitConsonants_syllable ht] at happend
  rw [happend]
  cases hmeet : meet s t with
  | true => rw [if_pos rfl, splitRuns_space, splitRuns_syllable hs, splitRuns_syllable ht]
  | false =>
    have hlength := h.resolve_right (by simp [hmeet])
    rw [if_neg (by decide), splitRuns_halves hs ht hlength]

/-- The syllables of a word are found again. -/
theorem IsWord.splitRuns_eq {w : List JsString} (h : IsWord w) :
    splitRuns (splitConsonants w.flatten) = [' '].intercalate w := by
  cases h with
  | @one s hs =>
    rw [List.flatten_singleton, splitConsonants_syllable hs, splitRuns_syllable hs,
      List.intercalate_singleton]
  | @same s t hs ht hlength =>
    have htwo := splitRuns_two hs ht (.inl hlength)
    simpa [List.intercalate] using htwo
  | @meet s t hs ht hmeet =>
    have htwo := splitRuns_two hs ht (.inr hmeet)
    simpa [List.intercalate] using htwo
  | @three s t u hs ht hu hs2 ht2 hmeet =>
    -- the word is split between the last two syllables in any case
    have hlast := splitConsonants_append ht hu []
    rw [List.append_nil, splitConsonants_syllable hu, if_pos hmeet] at hlast
    have htwo := splitRuns_two hs ht (.inl (hs2.trans ht2.symm))
    have hfirst := splitConsonants_append hs ht []
    have hall := splitConsonants_append hs ht u
    rw [List.append_nil, splitConsonants_syllable ht] at hfirst
    have hsplit : splitConsonants (s ++ (t ++ u)) = splitConsonants (s ++ t) ++ ' ' :: u := by
      rw [hall, hlast, hfirst]
      split <;> simp
    simp only [List.flatten_cons, List.flatten_nil, List.append_nil]
    rw [hsplit, splitRuns_space, htwo, splitRuns_syllable hu]
    simp [List.intercalate]

/-! ## A phrase -/

theorem intercalate_append {x : α} {as bs : List (List α)} (has : as ≠ []) (hbs : bs ≠ []) :
    [x].intercalate (as ++ bs) = [x].intercalate as ++ x :: [x].intercalate bs := by
  induction as with
  | nil => exact absurd rfl has
  | cons a as ih =>
    by_cases hnil : as = []
    · subst hnil
      rw [List.singleton_append, List.intercalate_cons_of_ne_nil hbs, List.intercalate_singleton]
      simp
    · have hne : as ++ bs ≠ [] := by simp [hnil]
      rw [List.cons_append, List.intercalate_cons_of_ne_nil hne, ih hnil,
        List.intercalate_cons_of_ne_nil hnil]
      simp

/-- Words with spaces between them. -/
def phrase (words : List (List JsString)) : JsString := [' '].intercalate (words.map List.flatten)

/-- Nothing but words. -/
def IsPhrase (words : List (List JsString)) : Prop := words ≠ [] ∧ ∀ w ∈ words, IsWord w

theorem splitRuns_phrase {words : List (List JsString)} (h : IsPhrase words) :
    splitRuns (splitConsonants (phrase words)) = [' '].intercalate words.flatten := by
  obtain ⟨hne, hwords⟩ := h
  induction words with
  | nil => exact absurd rfl hne
  | cons w words ih =>
    have hw := hwords w List.mem_cons_self
    cases words with
    | nil =>
      simp only [phrase, List.map_cons, List.map_nil, List.intercalate_singleton]
      rw [hw.splitRuns_eq, List.flatten_singleton]
    | cons w' words =>
      have hrest := ih (by simp) fun x hx => hwords x (List.mem_cons_of_mem _ hx)
      have hcons : phrase (w :: w' :: words) = w.flatten ++ ' ' :: phrase (w' :: words) := by
        simp [phrase, List.intercalate]
      have hne' : (w' :: words).flatten ≠ [] := by
        have hw' := hwords w' (by simp)
        cases hw' <;> simp
      have hne : w ≠ [] := by cases hw <;> simp
      rw [hcons, splitConsonants_space, splitRuns_space, hw.splitRuns_eq, hrest,
        ← intercalate_append hne hne']
      rfl

theorem IsPhrase.syllables {words : List (List JsString)} (h : IsPhrase words) :
    (∀ s ∈ words.flatten, IsSyllable s) ∧ words.flatten ≠ [] := by
  constructor
  · intro s hs
    obtain ⟨w, hw, hmem⟩ := List.mem_flatten.mp hs
    exact (h.2 w hw).syllables s hmem
  · obtain ⟨w, words, rfl⟩ := List.exists_cons_of_ne_nil h.1
    have hw := h.2 w List.mem_cons_self
    cases hw <;> simp

/-- Reading a phrase finds its syllables. -/
theorem splitOn_phrase {words : List (List JsString)} (h : IsPhrase words) :
    (splitRuns (splitConsonants (phrase words))).splitOn ' ' = words.flatten := by
  rw [splitRuns_phrase h]
  exact splitOn_syllables h.syllables.1 h.syllables.2

theorem phrase_concat {words : List (List JsString)} (hne : words ≠ []) (w : List JsString) :
    phrase (words ++ [w]) = phrase words ++ ' ' :: w.flatten := by
  rw [phrase, List.map_append, intercalate_append (by simpa using hne) (by simp)]
  simp [phrase]

/-- The last word goes on. -/
theorem phrase_append (words : List (List JsString)) (w : List JsString) (s : JsString) :
    phrase (words ++ [w ++ [s]]) = phrase (words ++ [w]) ++ s := by
  cases words with
  | nil => simp [phrase]
  | cons _ _ =>
    rw [phrase_concat (by simp), phrase_concat (by simp)]
    simp

theorem lastWord_phrase {words : List (List JsString)} {w : List JsString}
    (h : IsPhrase (words ++ [w])) :
    ((phrase (words ++ [w])).splitOn ' ').getLastD [] = w.flatten := by
  rw [phrase, List.splitOn_intercalate ' ' ?_ (by simp)]
  · simp
  · intro l hl
    obtain ⟨v, hv, rfl⟩ := List.mem_map.mp hl
    exact (h.2 v hv).no_space

theorem meet_append (hu : IsSyllable u) : Daefen.meet (t ++ u) s = Daefen.meet u s := by
  have hlength : (t ++ u).length - 1 = t.length + (u.length - 1) := by
    rw [List.length_append]
    rcases hu.length with h | h <;> omega
  rw [Daefen.meet, Daefen.meet, hlength, List.drop_length_add_append]

/-- A word that a syllable is added to is a word. -/
theorem IsWord.add {w : List JsString} (hw : IsWord w) (hs : IsSyllable s)
    (h : w.flatten.length = s.length ∨ w.flatten.length < 5 ∧ Daefen.meet w.flatten s = true) :
    IsWord (w ++ [s]) := by
  have hlength := hs.length
  cases hw with
  | one ht =>
    simp only [List.flatten_singleton] at h
    rcases h with h | ⟨_, h⟩
    · exact .same ht hs h
    · exact .meet ht hs h
  | @same t u ht hu htu =>
    have ht2 := ht.length
    simp only [List.flatten_cons, List.flatten_nil, List.append_nil, List.length_append] at h
    rcases h with h | ⟨hshort, h⟩
    · omega
    · rw [meet_append hu] at h
      exact .three ht hu hs (by omega) (by omega) h
  | @meet t u ht hu _ =>
    have ht2 := ht.length
    have hu2 := hu.length
    simp only [List.flatten_cons, List.flatten_nil, List.append_nil, List.length_append] at h
    rcases h with h | ⟨hshort, h⟩
    · omega
    · rw [meet_append hu] at h
      exact .three ht hu hs (by omega) (by omega) h
  | @three t u v ht hu hv ht2 hu2 _ =>
    -- such a word is not short
    have hv2 := hv.length
    simp only [List.flatten_cons, List.flatten_nil, List.append_nil, List.length_append] at h
    omega

/-- A syllable is added to a phrase. -/
theorem exists_addSyllable {words : List (List JsString)} (h : IsPhrase words)
    (hs : IsSyllable s) : ∃ words', IsPhrase words' ∧ words'.flatten = words.flatten ++ [s] ∧
      addSyllable (phrase words) s = phrase words' := by
  obtain ⟨init, w, rfl⟩ := List.eq_nil_or_concat' words |>.resolve_left h.1
  have hw := h.2 w (by simp)
  have hinit : ∀ v ∈ init, IsWord v := fun v hv => h.2 v (List.mem_append_left _ hv)
  have hne : phrase (init ++ [w]) ≠ [] := by
    intro hnil
    have hlast := lastWord_phrase h
    rw [hnil] at hlast
    exact hw.flatten_ne_nil hlast.symm
  rw [addSyllable]
  split
  · next hglue =>
    have hadd := hw.add hs (by
      rw [lastWord_phrase h] at hglue
      simpa using hglue.resolve_left hne)
    refine ⟨init ++ [w ++ [s]], ⟨by simp, ?_⟩, by simp, (phrase_append init w s).symm⟩
    intro v hv
    rcases List.mem_append.mp hv with hv | hv
    · exact hinit v hv
    · exact List.mem_singleton.mp hv ▸ hadd
  · refine ⟨(init ++ [w]) ++ [[s]], ⟨by simp, ?_⟩, by simp, ?_⟩
    · intro v hv
      rcases List.mem_append.mp hv with hv | hv
      · exact h.2 v hv
      · exact List.mem_singleton.mp hv ▸ .one hs
    · rw [phrase_concat h.1, List.flatten_singleton]

/-- The syllables of a number. -/
def syllablesOf (number : Nat) : List JsString :=
  (fromBase10 number syllables.length).map fun n => syllables.getD n []

/-- What is written is a phrase of the syllables. -/
theorem exists_phrase {ss : List JsString} (hss : ∀ s ∈ ss, IsSyllable s) (hne : ss ≠ []) :
    ∃ words, IsPhrase words ∧ words.flatten = ss ∧ ss.foldl addSyllable [] = phrase words := by
  induction ss using List.reverseRecOn with
  | nil => exact absurd rfl hne
  | append_singleton ss s ih =>
    have hs := hss s (by simp)
    by_cases hnil : ss = []
    · subst hnil
      refine ⟨[[s]], ⟨by simp, by simpa using .one hs⟩, rfl, ?_⟩
      simp [addSyllable, phrase]
    · obtain ⟨words, hwords, rfl, heq⟩ := ih (fun t ht => hss t (List.mem_append_left _ ht)) hnil
      obtain ⟨words', hwords', hflatten, hadd⟩ := exists_addSyllable hwords hs
      refine ⟨words', hwords', hflatten, ?_⟩
      rw [List.foldl_append, heq, List.foldl_cons, List.foldl_nil, hadd]

/-! ## Letter case -/

/-- A capital is a letter again. -/
theorem toUpper_letter {c : Char} (h : c.isLower = true) :
    c.toUpper.toLower = c ∧ c.toUpper.isWhitespace = false := by
  have hletters : ∀ n < 26, (Char.ofNat (97 + n)).toUpper.toLower = Char.ofNat (97 + n) ∧
      (Char.ofNat (97 + n)).toUpper.isWhitespace = false := by decide
  have hbounds : c.val ≥ 'a'.val ∧ c.val ≤ 'z'.val := by
    obtain ⟨hlow, hhigh⟩ := Bool.and_eq_true_iff.mp h
    exact ⟨of_decide_eq_true hlow, of_decide_eq_true hhigh⟩
  have hlow : 97 ≤ c.toNat := UInt32.le_iff_toNat_le.mp hbounds.1
  have hhigh : c.toNat ≤ 122 := UInt32.le_iff_toNat_le.mp hbounds.2
  have hc := hletters (c.toNat - 97) (by omega)
  rwa [show 97 + (c.toNat - 97) = c.toNat by omega, Char.ofNat_toNat] at hc

theorem toLowerCase_capitalize {s : JsString} (h : ∀ c ∈ s, c.toLower = c) (afterWord : Bool) :
    toLowerCase (capitalize afterWord s) = s := by
  induction s generalizing afterWord with
  | nil => rfl
  | cons c cs ih =>
    have hc := h c List.mem_cons_self
    have hcs := ih (fun c hc => h c (List.mem_cons_of_mem _ hc)) (isWordCharacter c)
    rw [toLowerCase] at hcs ⊢
    rw [capitalize, List.map_cons, hcs]
    congr
    split
    · next hlower => exact (toUpper_letter (Bool.and_eq_true_iff.mp hlower).2).1
    · exact hc

theorem eq_or_mem_of_mem_intercalate {x c : α} {ls : List (List α)}
    (h : c ∈ [x].intercalate ls) : c = x ∨ ∃ l ∈ ls, c ∈ l := by
  induction ls with
  | nil => cases h
  | cons l ls ih =>
    by_cases hnil : ls = []
    · subst hnil
      rw [List.intercalate_singleton] at h
      exact .inr ⟨l, List.mem_cons_self, h⟩
    · rw [List.intercalate_cons_of_ne_nil hnil, List.mem_append, List.mem_append,
        List.mem_singleton] at h
      rcases h with (h | rfl) | h
      · exact .inr ⟨l, List.mem_cons_self, h⟩
      · exact .inl rfl
      · exact (ih h).imp_right fun ⟨l', hl', hc⟩ => ⟨l', List.mem_cons_of_mem _ hl', hc⟩

/-- A phrase is made of letters and spaces. -/
theorem mem_phrase {words : List (List JsString)} (h : IsPhrase words) (hc : c ∈ phrase words) :
    c = ' ' ∨ Letter c := by
  refine (eq_or_mem_of_mem_intercalate hc).imp_right ?_
  rintro ⟨l, hl, hc⟩
  obtain ⟨w, hw, rfl⟩ := List.mem_map.mp hl
  obtain ⟨s, hs, hc⟩ := List.mem_flatten.mp hc
  exact ((h.2 w hw).syllables s hs).letters c hc

theorem toLower_phrase {words : List (List JsString)} (h : IsPhrase words) :
    ∀ c ∈ phrase words, c.toLower = c := by
  intro c hc
  rcases mem_phrase h hc with rfl | hletter
  · rfl
  · exact hletter.lower

/-! ## Digits -/

theorem fromBase10Loop_eq (hbase : 1 < base) (result : List Nat) (i : Nat) :
    fromBase10Loop base result i = (Nat.digits base i).reverse ++ result := by
  fun_induction fromBase10Loop base result i with
  | case1 result i h ih =>
    rw [ih, Nat.digits_def' hbase h.1, List.reverse_cons, List.append_assoc, List.singleton_append]
  | case2 result i h =>
    have hzero : i = 0 := by omega
    rw [hzero, Nat.digits_zero, List.reverse_nil, List.nil_append]

theorem fromBase10_spec (hbase : 1 < base) (bigNum : Nat) :
    fromBase10 bigNum base ≠ [] ∧ (∀ d ∈ fromBase10 bigNum base, d < base) ∧
      Nat.ofDigits base (fromBase10 bigNum base).reverse = bigNum := by
  rw [fromBase10]
  split
  · next hzero =>
    subst hzero
    refine ⟨by simp, fun d hd => ?_, by simp⟩
    cases List.mem_singleton.mp hd
    omega
  · next hne =>
    rw [fromBase10Loop_eq hbase, List.append_nil]
    refine ⟨?_, fun d hd => ?_, ?_⟩
    · simpa using Nat.digits_ne_nil_iff_ne_zero.mpr hne
    · exact Nat.digits_lt_base hbase (List.mem_reverse.mp hd)
    · rw [List.reverse_reverse, Nat.ofDigits_digits]

theorem one_lt_length_syllables : 1 < syllables.length := by
  rw [length_syllables]
  omega

theorem getD_syllables (h : d < syllables.length) : syllables.getD d [] = syllables[d] := by
  rw [List.getD_eq_getElem?_getD, List.getElem?_eq_getElem h, Option.getD_some]

theorem idxOf_syllables (h : d < syllables.length) :
    syllables.idxOf (syllables.getD d []) = d := by
  rw [getD_syllables h]
  exact nodup_syllables.idxOf_getElem d h

theorem isSyllable_of_lt (h : d < syllables.length) : IsSyllable (syllables.getD d []) := by
  rw [getD_syllables h]
  exact mem_syllables.mp (List.getElem_mem h)

theorem syllablesOf_spec (number : Nat) :
    (∀ s ∈ syllablesOf number, IsSyllable s) ∧ syllablesOf number ≠ [] := by
  obtain ⟨hne, hlt, _⟩ := fromBase10_spec one_lt_length_syllables number
  refine ⟨fun s hs => ?_, by simpa [syllablesOf] using hne⟩
  obtain ⟨d, hd, rfl⟩ := List.mem_map.mp hs
  exact isSyllable_of_lt (hlt d hd)

/-- What the loop adds is the value of the digits. -/
theorem fromWordsLoop_eq {digits : List Nat} (h : ∀ d ∈ digits, d < syllables.length)
    (result : Nat) : fromWordsLoop result (digits.map fun d => syllables.getD d []) =
      some (result + Nat.ofDigits syllables.length digits.reverse) := by
  induction digits generalizing result with
  | nil => rfl
  | cons d digits ih =>
    have hd := h d List.mem_cons_self
    have hcontains : syllables.contains (syllables.getD d []) = true :=
      List.contains_iff_mem.mpr (mem_syllables.mpr (isSyllable_of_lt hd))
    rw [List.map_cons, fromWordsLoop, if_pos hcontains, idxOf_syllables hd,
      ih fun d hd => h d (List.mem_cons_of_mem _ hd), List.reverse_cons, Nat.ofDigits_append,
      Nat.ofDigits_singleton, List.length_map, List.length_reverse, Nat.add_assoc, Nat.mul_comm d,
      Nat.add_comm (_ * d)]

/-! ## Round trip -/

/-- A number is written as a phrase of its syllables. -/
theorem exists_toWords (number : Nat) : ∃ words, IsPhrase words ∧
    words.flatten = syllablesOf number ∧ toWords number = capitalize false (phrase words) := by
  obtain ⟨hsyllables, hne⟩ := syllablesOf_spec number
  obtain ⟨words, hwords, hflatten, heq⟩ := exists_phrase hsyllables hne
  refine ⟨words, hwords, hflatten, ?_⟩
  rw [← heq, toWords, syllablesOf, List.foldl_map]

/-- A number is read from the words that it is written as. -/
theorem fromWords_toWords (number : Nat) : fromWords (toWords number) = some number := by
  obtain ⟨words, hwords, hflatten, heq⟩ := exists_toWords number
  obtain ⟨_, hlt, hvalue⟩ := fromBase10_spec one_lt_length_syllables number
  have harray : wordArray (toWords number) = syllablesOf number := by
    rw [wordArray, heq, toLowerCase_capitalize (toLower_phrase hwords), splitOn_phrase hwords,
      hflatten]
  rw [fromWords, harray, syllablesOf, fromWordsLoop_eq hlt, hvalue, Nat.zero_add]

end UniversalLogin.Daefen
