import Mathlib
import CordisCore.Scanning.Scanner

/-!
# Hyphenation — the default channel name of a Fiber's logger

The tokenizer writes one `-` between words.  A letter opens a word and a `-` closes it;
digits and everything else belong to whatever they stand in.
-/

namespace CordisCore
namespace Logger

open Scanning

/-! ## The tokenizer -/

inductive State where
  | delim
  | upper
  | lower
  deriving DecidableEq

/-- A capital starts a new word after lower case, and where lower case ends a run of capitals. -/
def splits (state : State) (next : Option Char) : Bool :=
  match state with
  | .delim => false
  | .upper => next.any Char.isLower
  | .lower => true

/-- One character with its lookahead. -/
def tokenize : Scanner State Char Char := fun state ch next =>
  if ch.isUpper then (.upper, (if splits state next then ['-'] else []) ++ [ch.toLower])
  else if ch.isLower then (.lower, [ch])
  else if ch = '-' ∨ ch = '_' then
    -- delimiters collapse into one, and leading ones are stripped
    (.delim, if state = .delim then [] else ['-'])
  else
    -- everything else leaves the state alone
    (state, [ch])

def hyphenate (name : String) : String :=
  .ofList (tokenize.scan .delim name.toList)

/-! ## Hyphenated names -/

/-- Every `-` of a hyphenated name closes a word; the state is whether a word is open. -/
def hyphenated : Acceptor Bool Char := fun word ch =>
  if ch.isUpper then none
  else if ch.isLower then some true
  else if ch = '-' then if word then some false else none
  else if ch = '_' then none
  else some word

def Hyphenated (name : String) : Prop :=
  hyphenated.Accepts false name.toList

variable {state : State} {word : Bool} {ch : Char} {next : Option Char}

theorem hyphenated_lower (h : ch.isLower = true) : hyphenated word ch = some true := by
  unfold hyphenated
  rw [if_neg (Char.not_isUpper_of_isLower h), if_pos h]

theorem hyphenated_other (hupper : ¬ ch.isUpper = true) (hlower : ¬ ch.isLower = true)
    (hdelim : ¬ (ch = '-' ∨ ch = '_')) : hyphenated word ch = some word := by
  unfold hyphenated
  rw [if_neg hupper, if_neg hlower, if_neg fun h => hdelim (.inl h), if_neg fun h => hdelim (.inr h)]

theorem isLower_toLower (h : ch.isUpper = true) : ch.toLower.isLower = true := by
  rw [Char.isLower_toLower_eq_isAlpha, Char.isAlpha, h]
  rfl

/-! ## One character -/

/-- The states of the tokenizer in which a word is open. -/
def State.InWord (state : State) (word : Bool) : Prop :=
  word = true ↔ state ≠ .delim

/-- What is written for one character continues a hyphenated name. -/
theorem tokenize_hyphenated (h : state.InWord word) :
    ∃ word', (tokenize state ch next).2.foldlM hyphenated word = some word' ∧
      (tokenize state ch next).1.InWord word' := by
  unfold tokenize
  by_cases hupper : ch.isUpper = true
  · rw [if_pos hupper]
    refine ⟨true, ?_, fun _ => nofun, fun _ => rfl⟩
    have hletter : ∀ word, hyphenated word ch.toLower = some true := fun word =>
      hyphenated_lower (isLower_toLower hupper)
    cases hsplits : splits state next with
    | false =>
        show [ch.toLower].foldlM hyphenated word = some true
        rw [List.foldlM_cons, hletter]
        rfl
    | true =>
        -- a dash is only written after a character of a word
        have hword : word = true := h.mpr fun hdelim => by
          rw [hdelim] at hsplits
          cases hsplits
        show ['-', ch.toLower].foldlM hyphenated word = some true
        rw [hword]
        show [ch.toLower].foldlM hyphenated false = some true
        rw [List.foldlM_cons, hletter]
        rfl
  · rw [if_neg hupper]
    by_cases hlower : ch.isLower = true
    · rw [if_pos hlower]
      refine ⟨true, ?_, fun _ => nofun, fun _ => rfl⟩
      rw [List.foldlM_cons, hyphenated_lower hlower]
      rfl
    · rw [if_neg hlower]
      by_cases hdelim : ch = '-' ∨ ch = '_'
      · rw [if_pos hdelim]
        refine ⟨false, ?_, nofun, fun hne => absurd rfl hne⟩
        by_cases hstate : state = .delim
        · rw [if_pos hstate]
          have hword : word = false := Bool.eq_false_iff.mpr fun htrue => h.mp htrue hstate
          rw [hword]
          rfl
        · rw [if_neg hstate, h.mpr hstate]
          rfl
      · rw [if_neg hdelim]
        refine ⟨word, ?_, h⟩
        rw [List.foldlM_cons, hyphenated_other hupper hlower hdelim]
        rfl

/-- A character that continues a hyphenated name is written as it is. -/
theorem tokenize_of_hyphenated {word' : Bool} (h : state.InWord word)
    (haccept : hyphenated word ch = some word') :
    (tokenize state ch next).2 = [ch] ∧ (tokenize state ch next).1.InWord word' := by
  unfold hyphenated at haccept
  unfold tokenize
  split at haccept
  · cases haccept
  · rename_i hupper
    rw [if_neg hupper]
    split at haccept
    · rename_i hlower
      cases haccept
      rw [if_pos hlower]
      exact ⟨rfl, fun _ => nofun, fun _ => rfl⟩
    · rename_i hlower
      rw [if_neg hlower]
      split at haccept
      · rename_i hdash
        split at haccept
        · rename_i hword
          cases haccept
          rw [if_pos (.inl hdash), if_neg (h.mp hword), hdash]
          exact ⟨rfl, nofun, fun hne => absurd rfl hne⟩
        · cases haccept
      · rename_i hdash
        split at haccept
        · cases haccept
        · rename_i hunderscore
          cases haccept
          rw [if_neg fun hdelim => hdelim.elim hdash hunderscore]
          exact ⟨rfl, h⟩

/-- Deletes `-` and `_`. -/
def undelimited (name : String) : List Char :=
  name.toList.filter fun ch => ch ≠ '-' ∧ ch ≠ '_'

/-- Besides delimiters, each character is written once, in lower case. -/
theorem tokenize_undelimited (state : State) (ch : Char) (next : Option Char) :
    ((tokenize state ch next).2.filter fun ch => ch ≠ '-' ∧ ch ≠ '_') =
      [ch.toLower].filter fun ch => ch ≠ '-' ∧ ch ≠ '_' := by
  unfold tokenize
  by_cases hupper : ch.isUpper = true
  · rw [if_pos hupper]
    cases splits state next <;> rfl
  · rw [if_neg hupper, Char.toLower_eq_of_not_isUpper hupper]
    split
    · rfl
    · split
      · rename_i hdelim
        rcases hdelim with rfl | rfl <;> by_cases hstate : state = .delim <;> simp [hstate]
      · rfl

/-! ## The normal form -/

theorem hyphenated_hyphenate (name : String) : Hyphenated (hyphenate name) := by
  unfold Hyphenated hyphenate
  rw [String.toList_ofList]
  exact Scanner.accepts_scan (fun _ _ _ _ => tokenize_hyphenated) name.toList
    (show State.InWord .delim false from ⟨nofun, fun h => absurd rfl h⟩)

/-- Hyphenation leaves hyphenated names, and no others, as they are. -/
theorem hyphenate_eq_self_iff {name : String} : hyphenate name = name ↔ Hyphenated name := by
  constructor
  · intro h
    rw [← h]
    exact hyphenated_hyphenate name
  · intro h
    unfold hyphenate
    rw [Scanner.scan_of_accepts (fun _ _ _ _ _ => tokenize_of_hyphenated)
      (show State.InWord .delim false from ⟨nofun, fun h => absurd rfl h⟩) h]
    exact String.ofList_toList

namespace Hyphenated

variable {name : String} (h : Hyphenated name)

include h

theorem plain (hch : ch ∈ name.toList) : ch.isUpper = false ∧ ch ≠ '_' := by
  rcases h.mem hch with ⟨word, word', haccept⟩
  unfold hyphenated at haccept
  split at haccept
  · cases haccept
  · rename_i hupper
    refine ⟨Bool.eq_false_iff.mpr hupper, ?_⟩
    rintro rfl
    cases haccept

theorem not_leading : ¬ ['-'] <+: name.toList := by
  rintro ⟨rest, hname⟩
  unfold Hyphenated at h
  rw [← hname] at h
  rcases Acceptor.accepts_cons.mp h with ⟨word, hdash, -⟩
  cases hdash

theorem not_adjacent : ¬ ['-', '-'] <:+: name.toList := by
  refine Acceptor.Accepts.not_twice h fun word word' hdash => ?_
  cases word with
  | true =>
      cases hdash
      rfl
  | false => cases hdash

end Hyphenated

theorem undelimited_hyphenate (name : String) :
    undelimited (hyphenate name) = undelimited name.toLower := by
  unfold undelimited hyphenate String.toLower
  rw [String.toList_ofList, String.toList_map]
  exact Scanner.filter_scan tokenize_undelimited .delim name.toList

/-- Every name has its hyphenated form, and hyphenation finds it. -/
theorem hyphenate_normal (name : String) :
    (∀ ch ∈ (hyphenate name).toList, ch.isUpper = false ∧ ch ≠ '_') ∧
      ¬ ['-'] <+: (hyphenate name).toList ∧ ¬ ['-', '-'] <:+: (hyphenate name).toList ∧
        undelimited (hyphenate name) = undelimited name.toLower ∧
          hyphenate (hyphenate name) = hyphenate name := by
  have h := hyphenated_hyphenate name
  exact ⟨fun _ => h.plain, h.not_leading, h.not_adjacent, undelimited_hyphenate name,
    hyphenate_eq_self_iff.mpr h⟩

example : hyphenate "HTTPServer" = "http-server" := by decide
example : hyphenate "Foo--Bar_" = "foo-bar-" := by decide
example : hyphenate "foo2B" = "foo2-b" := by decide

end Logger
end CordisCore
