import DecisionMaker.Library.Builtins
import DecisionMaker.Library.Pattern
import DecisionMaker.Library.Trim

/-!
# Python's `re` and `str.strip`

Patterns of ASCII letters under `IGNORECASE`. Which code points outside ASCII are letters or digits is
a parameter.
-/

namespace DecisionMaker.Library.Re

open Library

def isSpace (c : CodePoint) : Bool :=
  decide (0x09 ≤ c.val ∧ c.val ≤ 0x0D) || decide (0x1C ≤ c.val ∧ c.val ≤ 0x20) ||
    decide (c.val ∈ Json.wideSpaces)

def strip (s : Str) : Str := trim isSpace s

def isLower (c : CodePoint) : Bool := decide ('a'.toNat ≤ c.val ∧ c.val ≤ 'z'.toNat)

def isUpper (c : CodePoint) : Bool := decide ('A'.toNat ≤ c.val ∧ c.val ≤ 'Z'.toNat)

/-- The letters outside ASCII that are of one case with an ASCII letter. -/
def foldedLetters : List Nat := [0x130, 0x131, 0x17F, 0x212A]

def isWord (alnum : CodePoint → Bool) (c : CodePoint) : Bool :=
  if c.val < 128 then isLower c || isUpper c || Json.isDigit c || c.is '_'
  else decide (c.val ∈ foldedLetters) || alnum c

def toLower (c : CodePoint) : CodePoint :=
  if h : isUpper c then ⟨c.val + 32, by simp [isUpper] at h; omega⟩
  else if c.val = 0x130 then .ofChar 'i'
  else if c.val = 0x212A then .ofChar 'k'
  else c

def sameLetter (a b : CodePoint) : Bool := toLower a == toLower b

/-- A small letter of the pattern. A dotless i is matched by an i, and a long s by an s, but neither is
the other's lower case. -/
def ignoreCase (a b : CodePoint) : Bool :=
  sameLetter a b || a.is 'i' && b.val == 0x131 || a.is 's' && b.val == 0x17F

def isLetter (c : CodePoint) : Bool := isLower (toLower c) || c.val == 0x131 || c.val == 0x17F

theorem isLower_iff {c : CodePoint} : isLower c = true ↔ 97 ≤ c.val ∧ c.val ≤ 122 := by
  rw [isLower, decide_eq_true_eq]
  rfl

theorem isUpper_iff {c : CodePoint} : isUpper c = true ↔ 65 ≤ c.val ∧ c.val ≤ 90 := by
  rw [isUpper, decide_eq_true_eq]
  rfl

theorem toLower_cases (c : CodePoint) :
    (isUpper c = true ∧ (toLower c).val = c.val + 32) ∨
      c.val = 0x130 ∧ toLower c = .ofChar 'i' ∨ c.val = 0x212A ∧ toLower c = .ofChar 'k' ∨
        isUpper c = false ∧ toLower c = c := by
  unfold toLower
  split_ifs with upper dotted kelvin
  · exact .inl ⟨upper, rfl⟩
  · exact .inr (.inl ⟨dotted, rfl⟩)
  · exact .inr (.inr (.inl ⟨kelvin, rfl⟩))
  · exact .inr (.inr (.inr ⟨Bool.not_eq_true _ ▸ upper, rfl⟩))

theorem isLetter_cases {c : CodePoint} (letter : isLetter c = true) :
    isLower c = true ∨ isUpper c = true ∨ c.val ∈ foldedLetters := by
  rcases Bool.or_eq_true_iff.mp letter with letter | long
  · rcases Bool.or_eq_true_iff.mp letter with lower | dotless
    · rcases toLower_cases c with ⟨upper, -⟩ | ⟨dotted, -⟩ | ⟨kelvin, -⟩ | ⟨-, same⟩
      · exact .inr (.inl upper)
      · exact .inr (.inr (by rw [dotted]; decide))
      · exact .inr (.inr (by rw [kelvin]; decide))
      · exact .inl (same ▸ lower)
    · exact .inr (.inr (by rw [beq_iff_eq.mp dotless]; decide))
  · exact .inr (.inr (by rw [beq_iff_eq.mp long]; decide))

theorem isLetter_of_ignoreCase {a b : CodePoint} (lower : isLower a = true)
    (like : ignoreCase a b = true) : isLetter b = true := by
  simp only [ignoreCase, sameLetter, Bool.or_eq_true, Bool.and_eq_true, beq_iff_eq] at like
  simp only [isLetter, Bool.or_eq_true, beq_iff_eq]
  rcases like with (same | ⟨-, dotless⟩) | ⟨-, long⟩
  · have stays : toLower a = a := by
      rw [isLower_iff] at lower
      rcases toLower_cases a with ⟨upper, -⟩ | ⟨dotted, -⟩ | ⟨kelvin, -⟩ | ⟨-, same⟩
      · rw [isUpper_iff] at upper
        omega
      · omega
      · omega
      · exact same
    rw [← same, stays]
    exact .inl (.inl lower)
  · exact .inl (.inr dotless)
  · exact .inr long

theorem isLetter_of_sameLetter {a b : CodePoint} (letter : isLetter a = true)
    (same : sameLetter a b = true) : isLetter b = true := by
  rw [sameLetter, beq_iff_eq] at same
  simp only [isLetter, Bool.or_eq_true, beq_iff_eq] at letter ⊢
  rw [← same]
  have fixed : ∀ n ∈ [0x131, 0x17F], a.val = n → b.val = n := by
    intro n member value
    have stays : toLower a = a := by
      rcases toLower_cases a with ⟨upper, -⟩ | ⟨dotted, -⟩ | ⟨kelvin, -⟩ | ⟨-, same⟩
      · rw [isUpper_iff] at upper
        grind
      · grind
      · grind
      · exact same
    rw [stays] at same
    rcases toLower_cases b with ⟨upper, lowered⟩ | ⟨-, lowered⟩ | ⟨-, lowered⟩ | ⟨-, lowered⟩
    · rw [isUpper_iff] at upper
      rw [← same] at lowered
      grind
    · have value' : a.val = 105 := same ▸ lowered ▸ rfl
      grind
    · have value' : a.val = 107 := same ▸ lowered ▸ rfl
      grind
    · rw [← lowered, ← same, value]
  rcases letter with (lower | dotless) | long
  · exact .inl (.inl lower)
  · exact .inl (.inr (fixed _ (by decide) dotless))
  · exact .inr (fixed _ (by decide) long)

theorem eq_of_ignoreCase {a b : CodePoint} (other : isLetter a = false) (like : ignoreCase a b = true) :
    b = a := by
  have small : ∀ c, isUpper c = true → (toLower c).val = c.val + 32 → isLower (toLower c) = true := by
    intro c upper lowered
    rw [isUpper_iff] at upper
    rw [isLower_iff]
    omega
  simp only [isLetter, Bool.or_eq_false_iff] at other
  have stays : toLower a = a := by
    rcases toLower_cases a with ⟨upper, lowered⟩ | ⟨-, dotted⟩ | ⟨-, kelvin⟩ | ⟨-, same⟩
    · rw [small a upper lowered] at other
      cases other.1.1
    · rw [dotted] at other
      exact absurd other.1.1 (by decide)
    · rw [kelvin] at other
      exact absurd other.1.1 (by decide)
    · exact same
  rw [stays] at other
  simp only [ignoreCase, sameLetter, Bool.or_eq_true, Bool.and_eq_true, beq_iff_eq, stays] at like
  rcases like with (same | ⟨isI, -⟩) | ⟨isS, -⟩
  · rcases toLower_cases b with ⟨upper, lowered⟩ | ⟨-, dotted⟩ | ⟨-, kelvin⟩ | ⟨-, unchanged⟩
    · rw [same, small b upper lowered] at other
      cases other.1.1
    · rw [same, dotted] at other
      exact absurd other.1.1 (by decide)
    · rw [same, kelvin] at other
      exact absurd other.1.1 (by decide)
    · rw [same, unchanged]
  · rw [Json.is_iff.mp isI] at other
    exact absurd other.1.1 (by decide)
  · rw [Json.is_iff.mp isS] at other
    exact absurd other.1.1 (by decide)

theorem isWord_of_isLetter {c : CodePoint} (letter : isLetter c = true) (alnum : CodePoint → Bool) :
    isWord alnum c = true := by
  have cases := isLetter_cases letter
  rw [isLower_iff, isUpper_iff] at cases
  unfold isWord
  split_ifs with small
  · rcases cases with lower | upper | folded
    · simp [isLower_iff.mpr lower]
    · simp [isUpper_iff.mpr upper]
    · simp only [foldedLetters, List.mem_cons, List.not_mem_nil, or_false] at folded
      omega
  · rcases cases with lower | upper | folded
    · omega
    · omega
    · simp [folded]

end DecisionMaker.Library.Re
