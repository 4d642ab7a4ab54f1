import Mathlib.Data.List.TakeWhile
import UniversalLogin.Commons.Messages

/-!
# Names of the Ethereum Name Service

`parseDomain` splits a name with the regular expression `/\.(.*)/`, where the dot of the group
matches all characters but line terminators. `String.split` goes on after a match, so the group ends
at the first line terminator and what follows is lost in later pieces (`parseDomain_append`).
-/

namespace UniversalLogin

/-- The characters that the dot of a regular expression does not match. -/
def isLineTerminator (c : Char) : Bool :=
  c = '\n' || c = '\r' || c = Char.ofNat 0x2028 || c = Char.ofNat 0x2029

/-- What the group of a match is of what follows its dot. -/
def firstLine (s : JsString) : JsString := s.takeWhile (!isLineTerminator ·)

/-- A character in front of the first piece. -/
def pushFront (c : Char) : List JsString → List JsString
  | [] => [[c]]
  | piece :: pieces => (c :: piece) :: pieces

/-- `ensName.split(/\.(.*)/)`, in the group of a match or outside of it. After a group that ends the
string there is an empty piece. -/
def splitAtDots : Bool → JsString → List JsString
  | false, [] => [[]]
  | true, [] => [[], []]
  | false, c :: cs =>
    if c = '.' then [] :: splitAtDots true cs else pushFront c (splitAtDots false cs)
  | true, c :: cs =>
    if isLineTerminator c then [] :: pushFront c (splitAtDots false cs)
    else pushFront c (splitAtDots true cs)

def parseDomain (ensName : JsString) : List JsString := (splitAtDots false ensName).take 2

example : parseDomain ['a', '.', 'b', '.', 'c'] = [['a'], ['b', '.', 'c']] := by decide

theorem splitAtDots_of_not_mem (h : '.' ∉ s) : splitAtDots false s = [s] := by
  induction s with
  | nil => rfl
  | cons c cs ih =>
    obtain ⟨hc, hcs⟩ := List.ne_and_not_mem_of_not_mem_cons h
    rw [splitAtDots, if_neg hc.symm, ih hcs, pushFront]

/-- The first piece ends at the first dot. -/
theorem splitAtDots_append (h : '.' ∉ label) :
    splitAtDots false (label ++ '.' :: rest) = label :: splitAtDots true rest := by
  induction label with
  | nil => simp [splitAtDots]
  | cons c cs ih =>
    obtain ⟨hc, hcs⟩ := List.ne_and_not_mem_of_not_mem_cons h
    rw [List.cons_append, splitAtDots, if_neg hc.symm, ih hcs, pushFront]

/-- The group ends at the first line terminator. -/
theorem splitAtDots_group (rest : JsString) :
    ∃ pieces, splitAtDots true rest = firstLine rest :: pieces := by
  induction rest with
  | nil => exact ⟨_, rfl⟩
  | cons c cs ih =>
    obtain ⟨pieces, hpieces⟩ := ih
    cases hc : isLineTerminator c with
    | true => exact ⟨pushFront c (splitAtDots false cs), by simp [splitAtDots, hc, firstLine]⟩
    | false => exact ⟨pieces, by simp [splitAtDots, hc, hpieces, pushFront, firstLine]⟩

theorem parseDomain_of_not_mem (h : '.' ∉ s) : parseDomain s = [s] := by
  rw [parseDomain, splitAtDots_of_not_mem h]
  rfl

/-- A name is parsed as what comes before its first dot and the line after it. -/
theorem parseDomain_append (h : '.' ∉ label) :
    parseDomain (label ++ '.' :: rest) = [label, firstLine rest] := by
  obtain ⟨pieces, hpieces⟩ := splitAtDots_group rest
  rw [parseDomain, splitAtDots_append h, hpieces]
  rfl

/-- A name is a label and a domain in at most one way. -/
theorem append_dot_inj {label label' domain domain' : JsString} (h : '.' ∉ label)
    (h' : '.' ∉ label') (heq : label ++ '.' :: domain = label' ++ '.' :: domain') :
    label = label' ∧ domain = domain' := by
  have hsplit := congrArg (splitAtDots false) heq
  rw [splitAtDots_append h, splitAtDots_append h'] at hsplit
  obtain rfl := (List.cons.inj hsplit).1
  exact ⟨rfl, (List.cons.inj (List.append_cancel_left heq)).2⟩

theorem firstLine_eq_self (h : ∀ c ∈ s, isLineTerminator c = false) : firstLine s = s :=
  List.takeWhile_eq_self_iff.mpr fun c hc => by simp [h c hc]

theorem firstLine_ne_self (hc : c ∈ s) (hline : isLineTerminator c = true) :
    firstLine s ≠ s := by
  intro heq
  have hnot := List.takeWhile_eq_self_iff.mp heq c hc
  rw [hline] at hnot
  cases hnot

end UniversalLogin
