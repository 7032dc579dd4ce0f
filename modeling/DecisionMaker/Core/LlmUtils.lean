import DecisionMaker.Library.Re

namespace DecisionMaker.Core

open Library

def openingTag (alnum : CodePoint → Bool) (names : List String) : Pattern CodePoint Str := do
  let _ ← Pattern.one (·.is '<')
  let name ← Pattern.anyOf (names.map fun name => Pattern.word Re.ignoreCase (Str.ofString name))
  Pattern.notBefore (Re.isWord alnum)
  let _ ← Pattern.greedy fun c => !c.is '>'
  let _ ← Pattern.one (·.is '>')
  pure name

def closingTag (letter : CodePoint → CodePoint → Bool) (name : Str) : Pattern CodePoint Unit := do
  let _ ← Pattern.one (·.is '<')
  let _ ← Pattern.one (·.is '/')
  let _ ← Pattern.word letter name
  let _ ← Pattern.greedy Re.isSpace
  let _ ← Pattern.one (·.is '>')
  pure ()

def reasoningNames : List String := ["thinking", "think", "reasoning", "reflection"]

def outputNames : List String := ["output"]

def reasoningTagRe (alnum : CodePoint → Bool) : Pattern CodePoint Unit := do
  let name ← openingTag alnum reasoningNames
  let _ ← Pattern.few
  closingTag Re.sameLetter name

def outputTagRe (alnum : CodePoint → Bool) : Pattern CodePoint Str := do
  let _ ← openingTag alnum outputNames
  let payload ← Pattern.few
  closingTag Re.ignoreCase (.ofString "output")
  pure payload

def stripReasoningBlocks (alnum : CodePoint → Bool) (raw : Str) : Str :=
  Re.strip (Pattern.remove (reasoningTagRe alnum) raw)

def extractOutputPayload (alnum : CodePoint → Bool) (raw : Str) : Str :=
  match (Pattern.findall (outputTagRe alnum) raw).getLast? with
  | none => raw
  | some payload => Re.strip payload

def sanitizeLlmResponse (alnum : CodePoint → Bool) (raw : Str) : Str :=
  let afterStrip := stripReasoningBlocks alnum raw
  let afterExtract := extractOutputPayload alnum afterStrip
  Re.strip afterExtract

def IsName (names : List String) (name : Str) : Prop :=
  ∃ n ∈ names, List.Forall₂ (fun a b => Re.ignoreCase a b = true) (Str.ofString n) name

def IsOpening (alnum : CodePoint → Bool) (names : List String) (name tag : Str) : Prop :=
  ∃ attributes, tag = .ofChar '<' :: name ++ attributes ++ [.ofChar '>'] ∧ IsName names name ∧
    attributes.head?.any (Re.isWord alnum) = false ∧ ∀ c ∈ attributes, c.is '>' = false

def IsClosing (letter : CodePoint → CodePoint → Bool) (name tag : Str) : Prop :=
  ∃ back spaces, tag = .ofChar '<' :: .ofChar '/' :: back ++ spaces ++ [.ofChar '>'] ∧
    List.Forall₂ (fun a b => letter a b = true) name back ∧ ∀ c ∈ spaces, Re.isSpace c = true

def IsBlock (alnum : CodePoint → Bool) (block : Str) : Prop :=
  ∃ name opening between closing, block = opening ++ between ++ closing ∧
    IsOpening alnum reasoningNames name opening ∧ IsClosing Re.sameLetter name closing

def HasBlock (alnum : CodePoint → Bool) (text : Str) : Prop := ∃ block, IsBlock alnum block ∧ block <:+: text

section Tags

variable {alnum : CodePoint → Bool} {names : List String} {letter : CodePoint → CodePoint → Bool}
variable {name tag s rest : Str}

theorem boundary_iff {attributes : Str} :
    (attributes ++ .ofChar '>' :: rest).head?.any (Re.isWord alnum) = false ↔
      attributes.head?.any (Re.isWord alnum) = false := by
  cases attributes with
  | nil => exact iff_of_true rfl rfl
  | cons c attributes => rfl

theorem mem_openingTag :
    (name, rest) ∈ openingTag alnum names s ↔
      ∃ tag, IsOpening alnum names name tag ∧ s = tag ++ rest := by
  simp only [openingTag, Pattern.mem_bind, Pattern.mem_one, Pattern.mem_anyOf, List.mem_map,
    exists_exists_and_eq_and, Pattern.mem_word, Pattern.mem_notBefore, Pattern.mem_greedy, Pattern.mem_pure, Json.is_iff,
    Bool.not_eq_true']
  constructor
  · rintro ⟨_, _, ⟨rfl, rfl⟩, _, _, ⟨n, known, rfl, like⟩, _, _, ⟨rfl, bounded⟩, attributes, _, ⟨rfl, inside⟩,
      _, _, ⟨rfl, rfl⟩, rfl, rfl⟩
    refine ⟨_, ⟨attributes, rfl, ⟨n, known, like⟩, boundary_iff.mp bounded, inside⟩, ?_⟩
    simp
  · rintro ⟨_, ⟨attributes, rfl, ⟨n, known, like⟩, bounded, inside⟩, rfl⟩
    refine ⟨_, _, ⟨rfl, rfl⟩, name, attributes ++ .ofChar '>' :: rest, ⟨n, known, ?_, like⟩, (), _,
      ⟨rfl, boundary_iff.mpr bounded⟩, attributes, _, ⟨rfl, inside⟩, _, _, ⟨rfl, rfl⟩, rfl, rfl⟩
    simp

theorem mem_closingTag {u : Unit} :
    (u, rest) ∈ closingTag letter name s ↔ ∃ tag, IsClosing letter name tag ∧ s = tag ++ rest := by
  simp only [closingTag, Pattern.mem_bind, Pattern.mem_one, Pattern.mem_word, Pattern.mem_greedy,
    Pattern.mem_pure, Json.is_iff]
  constructor
  · rintro ⟨_, _, ⟨rfl, rfl⟩, _, _, ⟨rfl, rfl⟩, back, _, ⟨rfl, same⟩, spaces, _, ⟨rfl, blank⟩, _, _,
      ⟨rfl, rfl⟩, -, rfl⟩
    refine ⟨_, ⟨back, spaces, rfl, same, blank⟩, ?_⟩
    simp
  · rintro ⟨_, ⟨back, spaces, rfl, same, blank⟩, rfl⟩
    refine ⟨_, _, ⟨rfl, rfl⟩, _, _, ⟨rfl, rfl⟩, back, spaces ++ .ofChar '>' :: rest, ⟨?_, same⟩, spaces, _,
      ⟨rfl, blank⟩, _, _, ⟨rfl, rfl⟩, trivial, rfl⟩
    simp

theorem mem_reasoningTagRe {u : Unit} :
    (u, rest) ∈ reasoningTagRe alnum s ↔ ∃ block, IsBlock alnum block ∧ s = block ++ rest := by
  simp only [reasoningTagRe, Pattern.mem_bind, Pattern.mem_few, mem_openingTag, mem_closingTag]
  constructor
  · rintro ⟨name, _, ⟨opening, opens, rfl⟩, between, _, rfl, closing, closes, rfl⟩
    exact ⟨_, ⟨name, opening, between, closing, rfl, opens, closes⟩, by simp only [List.append_assoc]⟩
  · rintro ⟨_, ⟨name, opening, between, closing, rfl, opens, closes⟩, rfl⟩
    exact ⟨name, between ++ (closing ++ rest), ⟨opening, opens, by simp only [List.append_assoc]⟩, between, _,
      rfl, closing, closes, rfl⟩

end Tags

def LowerCase (names : List String) : Prop := ∀ n ∈ names, (Str.ofString n).all Re.isLower = true

theorem lowerCase_reasoningNames : LowerCase reasoningNames := by
  unfold LowerCase
  decide

theorem lowerCase_outputNames : LowerCase outputNames := by
  unfold LowerCase
  decide

section Ends

variable {alnum : CodePoint → Bool} {names : List String} {letter : CodePoint → CodePoint → Bool}
variable {name tag s rest : Str}

theorem ofChar_not_letter {c : CodePoint} (isLetter : Re.isLetter c = true) {x : Char}
    (other : Re.isLetter (.ofChar x) = false) : c ≠ .ofChar x := by
  rintro rfl
  rw [other] at isLetter
  cases isLetter

theorem IsName.isLetter (lower : LowerCase names) (isName : IsName names name) :
    ∀ c ∈ name, Re.isLetter c = true := by
  obtain ⟨n, known, like⟩ := isName
  have small := List.all_eq_true.mp (lower n known)
  exact forall_of_forall₂ like fun a member b same => Re.isLetter_of_ignoreCase (small a member) same

theorem IsOpening.shape (lower : LowerCase names) (opens : IsOpening alnum names name tag) :
    ∃ inner, tag = .ofChar '<' :: inner ++ [.ofChar '>'] ∧ .ofChar '>' ∉ inner ∧
      inner.takeWhile (Re.isWord alnum) = name := by
  obtain ⟨attributes, rfl, isName, bounded, inside⟩ := opens
  have letters := isName.isLetter lower
  refine ⟨name ++ attributes, by simp, ?_, ?_⟩
  · intro member
    rcases List.mem_append.mp member with member | member
    · exact ofChar_not_letter (letters _ member) rfl rfl
    · exact absurd (inside _ member) (by decide)
  · rw [List.takeWhile_append_of_pos fun c member => Re.isWord_of_isLetter (letters c member) alnum]
    cases attributes with
    | nil => rw [List.takeWhile_nil, List.append_nil]
    | cons c attributes =>
        rw [List.head?_cons, Option.any_some] at bounded
        rw [List.takeWhile_cons, bounded, if_neg Bool.false_ne_true, List.append_nil]

theorem IsClosing.shape (letters : ∀ a ∈ name, ∀ b, letter a b = true → Re.isLetter b = true)
    (closes : IsClosing letter name tag) :
    ∃ inner, tag = .ofChar '<' :: inner ++ [.ofChar '>'] ∧ .ofChar '<' ∉ inner ∧ .ofChar '>' ∉ inner := by
  obtain ⟨back, spaces, rfl, same, blank⟩ := closes
  have backLetters := forall_of_forall₂ same letters
  have absent : ∀ x : Char, Re.isLetter (.ofChar x) = false → Re.isSpace (.ofChar x) = false →
      CodePoint.ofChar x ≠ .ofChar '/' → .ofChar x ∉ .ofChar '/' :: back ++ spaces := by
    intro x notLetter notSpace notSlash member
    rcases List.mem_append.mp member with member | member
    · rcases List.mem_cons.mp member with isSlash | member
      · exact notSlash isSlash
      · exact ofChar_not_letter (backLetters _ member) notLetter rfl
    · rw [blank _ member] at notSpace
      cases notSpace
  exact ⟨_, rfl, absent '<' rfl rfl (by decide), absent '>' rfl rfl (by decide)⟩

theorem IsName.letters_sameLetter (isName : IsName reasoningNames name) :
    ∀ a ∈ name, ∀ b, Re.sameLetter a b = true → Re.isLetter b = true :=
  fun a member _ same =>
    Re.isLetter_of_sameLetter (isName.isLetter lowerCase_reasoningNames a member) same

theorem letters_output :
    ∀ a ∈ Str.ofString "output", ∀ b, Re.ignoreCase a b = true → Re.isLetter b = true := by
  have small := List.all_eq_true.mp (lowerCase_outputNames "output" List.mem_cons_self)
  exact fun a member _ like => Re.isLetter_of_ignoreCase (small a member) like

theorem IsOpening.unique {other otherTag otherRest : Str} (lower : LowerCase names)
    (opens : IsOpening alnum names name tag) (opens' : IsOpening alnum names other otherTag)
    (same : tag ++ rest = otherTag ++ otherRest) : (name, rest) = (other, otherRest) := by
  obtain ⟨inner, rfl, closed, isName⟩ := opens.shape lower
  obtain ⟨inner', rfl, closed', isName'⟩ := opens'.shape lower
  simp only [List.cons_append, List.append_assoc, List.nil_append, List.cons.injEq, true_and] at same
  obtain ⟨rfl, rfl⟩ := append_cons_unique same closed closed'
  rw [← isName, ← isName']

theorem head?_openingTag_bind {β : Type} {f : Str → Pattern CodePoint β} (lower : LowerCase names)
    (opens : IsOpening alnum names name tag) :
    ((openingTag alnum names >>= f) (tag ++ rest)).head? = (f name rest).head? := by
  apply Pattern.head?_bind_of_unique
  · exact mem_openingTag.mpr ⟨tag, opens, rfl⟩
  · rintro ⟨other, otherRest⟩ member
    obtain ⟨otherTag, opens', same⟩ := mem_openingTag.mp member
    exact (opens.unique lower opens' same).symm

theorem IsClosing.unique {otherTag otherRest : Str}
    (letters : ∀ a ∈ name, ∀ b, letter a b = true → Re.isLetter b = true)
    (closes : IsClosing letter name tag) (closes' : IsClosing letter name otherTag)
    (same : tag ++ rest = otherTag ++ otherRest) : rest = otherRest := by
  obtain ⟨inner, rfl, -, closed⟩ := closes.shape letters
  obtain ⟨inner', rfl, -, closed'⟩ := closes'.shape letters
  simp only [List.cons_append, List.append_assoc, List.nil_append, List.cons.injEq, true_and] at same
  exact (append_cons_unique same closed closed').2

theorem closingTag_unique (letters : ∀ a ∈ name, ∀ b, letter a b = true → Re.isLetter b = true)
    (closes : IsClosing letter name tag) : ∀ r ∈ closingTag letter name (tag ++ rest), r = ((), rest) := by
  rintro ⟨⟨⟩, otherRest⟩ member
  obtain ⟨otherTag, closes', same⟩ := mem_closingTag.mp member
  rw [closes.unique letters closes' same]

theorem head?_closingTag (letters : ∀ a ∈ name, ∀ b, letter a b = true → Re.isLetter b = true)
    (closes : IsClosing letter name tag) : (closingTag letter name (tag ++ rest)).head? = some ((), rest) :=
  Pattern.head?_of_unique (mem_closingTag.mpr ⟨tag, closes, rfl⟩) (closingTag_unique letters closes)

theorem head?_closingTag_bind {β : Type} {f : Unit → Pattern CodePoint β}
    (letters : ∀ a ∈ name, ∀ b, letter a b = true → Re.isLetter b = true)
    (closes : IsClosing letter name tag) :
    ((closingTag letter name >>= f) (tag ++ rest)).head? = (f () rest).head? :=
  Pattern.head?_bind_of_unique (mem_closingTag.mpr ⟨tag, closes, rfl⟩) (closingTag_unique letters closes)

theorem IsClosing.isInfix_of_isPrefix {before u : Str}
    (letters : ∀ a ∈ name, ∀ b, letter a b = true → Re.isLetter b = true)
    (closes : IsClosing letter name tag) (same : tag ++ rest = before ++ .ofChar '<' :: u)
    (some : before ≠ []) : tag <+: before := by
  obtain ⟨inner, rfl, opened, -⟩ := closes.shape letters
  apply isPrefix_of_notMem_tail same some
  intro member
  rw [List.cons_append, List.tail_cons, List.mem_append, List.mem_singleton] at member
  rcases member with member | same
  · exact opened member
  · exact absurd same (by decide)

theorem IsBlock.shape {block : Str} (isBlock : IsBlock alnum block) :
    ∃ inner, block = .ofChar '<' :: inner ++ [.ofChar '>'] := by
  obtain ⟨name, _, between, _, rfl, opens, back, spaces, rfl, -, -⟩ := isBlock
  obtain ⟨inner, rfl, -, -⟩ := opens.shape lowerCase_reasoningNames
  exact ⟨inner ++ .ofChar '>' :: between ++ .ofChar '<' :: .ofChar '/' :: back ++ spaces, by simp⟩

theorem IsBlock.ne_nil {block : Str} (isBlock : IsBlock alnum block) : block ≠ [] := by
  obtain ⟨inner, rfl⟩ := isBlock.shape
  exact List.cons_ne_nil _ _

theorem trimmed_tag (inner : Str) : Trimmed Re.isSpace (.ofChar '<' :: inner ++ [.ofChar '>']) where
  first c member := by
    cases member
    rfl
  last c member := by
    rw [List.getLast?_concat] at member
    cases member
    rfl

theorem consumes_reasoningTagRe : Pattern.Consumes (reasoningTagRe alnum) := by
  intro s _ rest member
  obtain ⟨block, isBlock, rfl⟩ := mem_reasoningTagRe.mp member
  exact ⟨block, isBlock.ne_nil, rfl⟩

theorem not_hasBlock_of_notMem (absent : .ofChar '<' ∉ s) : ¬HasBlock alnum s := by
  rintro ⟨_, isBlock, inside⟩
  obtain ⟨inner, rfl⟩ := isBlock.shape
  exact absent (inside.subset List.mem_cons_self)

theorem HasBlock.of_isInfix {t : Str} (has : HasBlock alnum t) (inside : t <:+: s) : HasBlock alnum s := by
  obtain ⟨block, isBlock, part⟩ := has
  exact ⟨block, isBlock, part.trans inside⟩

theorem not_hasBlock_iff : ¬HasBlock alnum s ↔ Pattern.nowhere (reasoningTagRe alnum) s = true := by
  rw [← Pattern.not_infix_iff_nowhere (P := fun _ => IsBlock alnum) fun _ _ _ => mem_reasoningTagRe]
  constructor
  · exact fun none _ block isBlock inside => none ⟨block, isBlock, inside⟩
  · rintro none ⟨block, isBlock, inside⟩
    exact none () block isBlock inside

instance : Decidable (HasBlock alnum s) := decidable_of_iff _ (not_congr not_hasBlock_iff.symm |>.trans not_not)

theorem not_opening_iff :
    (∀ name tag, IsOpening alnum names name tag → ¬tag <:+: s) ↔
      Pattern.nowhere (openingTag alnum names) s = true :=
  Pattern.not_infix_iff_nowhere fun _ _ _ => mem_openingTag

theorem not_closing_iff :
    (∀ tag, IsClosing letter name tag → ¬tag <:+: s) ↔ Pattern.nowhere (closingTag letter name) s = true := by
  rw [← Pattern.not_infix_iff_nowhere (P := fun _ => IsClosing letter name) fun _ _ _ => mem_closingTag]
  exact ⟨fun none _ => none, fun none => none ()⟩

theorem remove_of_not_hasBlock (none : ¬HasBlock alnum s) :
    Pattern.remove (reasoningTagRe alnum) s = s :=
  Pattern.remove_eq_self (Pattern.nowhere_iff.mp (not_hasBlock_iff.mp none))

theorem stripReasoningBlocks_of_not_hasBlock (none : ¬HasBlock alnum s) :
    stripReasoningBlocks alnum s = Re.strip s := by
  rw [stripReasoningBlocks, remove_of_not_hasBlock none]

theorem hasBlock_strip_iff : HasBlock alnum (Re.strip s) ↔ HasBlock alnum s := by
  constructor
  · exact fun has => has.of_isInfix (trim_isInfix s)
  · rintro ⟨block, isBlock, front, back, rfl⟩
    obtain ⟨inner, rfl⟩ := isBlock.shape
    refine ⟨_, isBlock, front.dropWhile Re.isSpace, back.rdropWhile Re.isSpace, ?_⟩
    exact ((trimmed_tag inner).trim_append (List.cons_ne_nil _ _) front back).symm

end Ends

end DecisionMaker.Core
