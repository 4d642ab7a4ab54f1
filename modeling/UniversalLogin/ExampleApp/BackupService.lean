import UniversalLogin.ExampleApp.Daefen

/-!
# Backup codes

A backup code is made of two random numbers (`BackupService.js`), which are written as words with
hyphens within each number and between the two. Where one number ends is not seen, so two pairs of
numbers may have the same code, but the syllables of both numbers together are told by the code
(`backupCode_digits`).
-/

namespace UniversalLogin.BackupService

open Daefen

/-- `toWords(number).replace(/\\s/g, '-').toLowerCase()` -/
def hyphenated (number : Nat) : JsString :=
  toLowerCase ((toWords number).map fun c => if c.isWhitespace then '-' else c)

/-- The code that is made of two numbers, which are below 3456 ^ 4. -/
def backupCode (first second : Nat) : JsString := hyphenated first ++ '-' :: hyphenated second

def digits (number : Nat) : List Nat := fromBase10 number syllables.length

/-- Hyphens for spaces. -/
def hyphens (s : JsString) : JsString := s.map fun c => if c = ' ' then '-' else c

/-- Spaces for hyphens. -/
def spaces (code : JsString) : JsString := code.map fun c => if c = '-' then ' ' else c

theorem spaces_hyphens {words : List (List JsString)} (h : IsPhrase words) :
    spaces (hyphens (phrase words)) = phrase words := by
  rw [spaces, hyphens, List.map_map]
  refine (List.map_congr_left fun c hc => ?_).trans (List.map_id _)
  rcases mem_phrase h hc with rfl | hletter
  · rfl
  · simp [hletter.not_space, hletter.not_hyphen]

theorem toLowerCase_hyphens {s : JsString} (h : ∀ c ∈ s, c = ' ' ∨ Letter c) (afterWord : Bool) :
    toLowerCase ((capitalize afterWord s).map fun c => if c.isWhitespace then '-' else c) =
      hyphens s := by
  induction s generalizing afterWord with
  | nil => rfl
  | cons c cs ih =>
    have hcs := ih (fun c hc => h c (List.mem_cons_of_mem _ hc)) (isWordCharacter c)
    rw [toLowerCase, hyphens] at hcs ⊢
    rw [capitalize, List.map_cons, List.map_cons, List.map_cons, hcs]
    congr 1
    rcases h c List.mem_cons_self with rfl | hletter
    · cases afterWord <;> rfl
    · rw [if_neg hletter.not_space]
      by_cases hupper : (!afterWord && c.isLower) = true
      · obtain ⟨hlower, hwhite⟩ := toUpper_letter (Bool.and_eq_true_iff.mp hupper).2
        rw [if_pos hupper, hwhite, if_neg (by decide), hlower]
      · rw [if_neg hupper, hletter.not_white, if_neg (by decide), hletter.lower]

/-- Nothing but the spaces is changed in the end. -/
theorem hyphenated_eq {words : List (List JsString)} (h : IsPhrase words)
    (heq : toWords number = capitalize false (phrase words)) :
    hyphenated number = hyphens (phrase words) := by
  rw [hyphenated, heq]
  exact toLowerCase_hyphens (fun c hc => mem_phrase h hc) false

/-- The code is one phrase with hyphens. -/
theorem exists_backupCode (first second : Nat) : ∃ words, IsPhrase words ∧
    words.flatten = syllablesOf first ++ syllablesOf second ∧
    backupCode first second = hyphens (phrase words) := by
  obtain ⟨words, hwords, hflatten, heq⟩ := exists_toWords first
  obtain ⟨words', hwords', hflatten', heq'⟩ := exists_toWords second
  refine ⟨words ++ words', ⟨by simp [hwords.1], fun w hw => ?_⟩, ?_, ?_⟩
  · exact (List.mem_append.mp hw).elim (hwords.2 w) (hwords'.2 w)
  · rw [List.flatten_append, hflatten, hflatten']
  · have happend : phrase (words ++ words') = phrase words ++ ' ' :: phrase words' := by
      rw [phrase, List.map_append]
      exact intercalate_append (by simpa using hwords.1) (by simpa using hwords'.1)
    rw [backupCode, hyphenated_eq hwords heq, hyphenated_eq hwords' heq', happend]
    simp [hyphens]

/-- The syllables of both numbers are read from the code. -/
theorem splitOn_backupCode (first second : Nat) :
    (splitRuns (splitConsonants (spaces (backupCode first second)))).splitOn ' ' =
      syllablesOf first ++ syllablesOf second := by
  obtain ⟨words, hwords, hflatten, heq⟩ := exists_backupCode first second
  rw [heq, spaces_hyphens hwords, splitOn_phrase hwords, hflatten]

/-- The digits are the places of the syllables. -/
theorem digits_eq (number : Nat) :
    digits number = (syllablesOf number).map fun s => syllables.idxOf s := by
  obtain ⟨_, hlt, _⟩ := fromBase10_spec one_lt_length_syllables number
  rw [syllablesOf, List.map_map]
  exact (List.map_id _).symm.trans
    (List.map_congr_left fun d hd => (idxOf_syllables (hlt d hd)).symm)

theorem digits_injective (h : digits first = digits first') : first = first' := by
  have hvalue := (fromBase10_spec one_lt_length_syllables first).2.2
  rw [← hvalue, ← (fromBase10_spec one_lt_length_syllables first').2.2]
  exact congrArg (fun ds : List Nat => Nat.ofDigits syllables.length ds.reverse) h

/-- Two pairs of numbers with the same code have the same digits in a row, and are the same pair if
their first numbers are as long. -/
theorem backupCode_digits (h : backupCode first second = backupCode first' second') :
    digits first ++ digits second = digits first' ++ digits second' ∧
      ((digits first).length = (digits first').length → first = first' ∧ second = second') := by
  have hsyllables := splitOn_backupCode first second
  rw [h, splitOn_backupCode] at hsyllables
  have hdigits : digits first ++ digits second = digits first' ++ digits second' := by
    simp only [digits_eq, ← List.map_append, hsyllables]
  refine ⟨hdigits, fun hlength => ?_⟩
  obtain ⟨hfirst, hsecond⟩ := List.append_inj hdigits hlength
  exact ⟨digits_injective hfirst, digits_injective hsecond⟩

namespace Sample

theorem digits_sample : fromBase10 6264 3456 = [1, 2808] ∧ fromBase10 1 3456 = [1] ∧
    fromBase10 9704448 3456 = [2808, 0] := by
  simp [fromBase10, fromBase10Loop]

/-- The code is `ac-aba-ab` in both cases. -/
theorem same_code : backupCode 6264 0 = backupCode 1 9704448 := by
  obtain ⟨h₁, h₂, h₃⟩ := digits_sample
  have h₀ : fromBase10 0 3456 = [0] := rfl
  simp only [backupCode, hyphenated, toWords, length_syllables, h₀, h₁, h₂, h₃]
  decide +kernel

end Sample

theorem backupCode_digits_sample : digits 6264 ++ digits 0 = digits 1 ++ digits 9704448 :=
  (backupCode_digits Sample.same_code).1

end UniversalLogin.BackupService
