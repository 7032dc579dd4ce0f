import DecisionMaker.Core.Extraction

namespace DecisionMaker.Core

open Library Pattern

variable (alnum : CodePoint → Bool) (x : Str)

/-- Cleaning twice is cleaning once, and leaves no complete block. -/
structure CleansForGood : Prop where
  strip_strip : stripReasoningBlocks alnum (stripReasoningBlocks alnum x) = stripReasoningBlocks alnum x
  sanitize_sanitize : sanitizeLlmResponse alnum (sanitizeLlmResponse alnum x) = sanitizeLlmResponse alnum x
  strip_complete : ¬HasBlock alnum (stripReasoningBlocks alnum x)
  sanitize_complete : ¬HasBlock alnum (sanitizeLlmResponse alnum x)

/-- A block was taken out from between the first and the last character of what became a tag. -/
def Interrupted (tag : List (Piece CodePoint Unit)) : Prop :=
  ∃ first front text back last, tag = .kept first :: front ++ .matched text () :: back ++ [.kept last]

/-- Of the pieces into which the blocks divide the text, some spell an opening tag and later ones the
matching closing tag, and one of the two has a block inside. -/
def Spliced : Prop :=
  ∃ before opening between closing after name,
    pieces (reasoningTagRe alnum) x = before ++ opening ++ between ++ closing ++ after ∧
      IsOpening alnum reasoningNames name (remaining opening) ∧
      IsClosing Re.sameLetter name (remaining closing) ∧ (Interrupted opening ∨ Interrupted closing)

variable {alnum x}

theorem Spliced.hasBlock (spliced : Spliced alnum x) : HasBlock alnum (remove (reasoningTagRe alnum) x) := by
  obtain ⟨before, opening, between, closing, after, name, split, opens, closes, -⟩ := spliced
  refine ⟨_, ⟨name, _, remaining between, _, rfl, opens, closes⟩, remaining before, remaining after, ?_⟩
  simp only [remove, split, remaining_append, List.append_assoc]

theorem interrupted_or_whole (first last : CodePoint) (inner : List (Piece CodePoint Unit)) :
    Interrupted (.kept first :: inner ++ [.kept last]) ∨ inner.flatMap Piece.text = remaining inner := by
  by_cases all : ∀ text value, .matched text value ∉ inner
  · exact .inr (flatMap_text_eq_remaining all)
  · push Not at all
    obtain ⟨text, value, member⟩ := all
    obtain ⟨front, back, rfl⟩ := List.append_of_mem member
    exact .inl ⟨first, front, text, back, last, by simp⟩

theorem spliced_of_hasBlock (has : HasBlock alnum (remove (reasoningTagRe alnum) x)) : Spliced alnum x := by
  obtain ⟨_, ⟨name, _, between, _, rfl, opens, closes⟩, front, back, same⟩ := has
  obtain ⟨inner, rfl, -, -⟩ := opens.shape lowerCase_reasoningNames
  have isName : IsName reasoningNames name := by
    obtain ⟨_, -, isName, -, -⟩ := opens
    exact isName
  obtain ⟨inner', rfl, -, -⟩ := closes.shape isName.letters_sameLetter
  -- each end of the two tags is a piece that was kept
  obtain ⟨before, rest, split, -, found⟩ := exists_kept (u := front) (c := .ofChar '<')
    (v := inner ++ .ofChar '>' :: between ++ .ofChar '<' :: inner' ++ .ofChar '>' :: back)
    (same.symm.trans (by simp))
  obtain ⟨opening, rest, rfl, openingText, found⟩ := exists_kept (u := inner) (c := .ofChar '>')
    (v := between ++ .ofChar '<' :: inner' ++ .ofChar '>' :: back) (found.trans (by simp))
  obtain ⟨middle, rest, rfl, -, found⟩ := exists_kept (u := between) (c := .ofChar '<')
    (v := inner' ++ .ofChar '>' :: back) (found.trans (by simp))
  obtain ⟨closing, after, rfl, closingText, -⟩ := exists_kept found
  have assemble : pieces (reasoningTagRe alnum) x =
      before ++ (.kept (.ofChar '<') :: opening ++ [.kept (.ofChar '>')]) ++ middle ++
        (.kept (.ofChar '<') :: closing ++ [.kept (.ofChar '>')]) ++ after :=
    split.trans (by simp)
  have spells : ∀ {tag : List (Piece CodePoint Unit)} {text : Str}, remaining tag = text →
      remaining (.kept (.ofChar '<') :: tag ++ [.kept (.ofChar '>')]) =
        .ofChar '<' :: text ++ [.ofChar '>'] := by
    rintro tag _ rfl
    rw [remaining_append, remaining_kept]
    rfl
  refine ⟨before, _, middle, _, after, name, assemble, (spells openingText).symm ▸ opens,
    (spells closingText).symm ▸ closes, ?_⟩
  rcases interrupted_or_whole (.ofChar '<') (.ofChar '>') opening with interrupted | whole
  · exact .inl interrupted
  rcases interrupted_or_whole (.ofChar '<') (.ofChar '>') closing with interrupted | whole'
  · exact .inr interrupted
  -- neither tag was interrupted, so the block began where its first character was kept
  have none := eq_nil_of_kept consumes_reasoningTagRe split
  have matched : ((), after.flatMap Piece.text) ∈ reasoningTagRe alnum (.ofChar '<' ::
      (opening ++ .kept (.ofChar '>') :: (middle ++ .kept (.ofChar '<') ::
        (closing ++ .kept (.ofChar '>') :: after))).flatMap Piece.text) := by
    refine mem_reasoningTagRe.mpr ⟨_, ⟨name, _, middle.flatMap Piece.text, _, rfl, opens, closes⟩, ?_⟩
    simp [whole, whole', openingText, closingText, Piece.text]
  rw [none] at matched
  cases matched

theorem hasBlock_remove_iff : HasBlock alnum (remove (reasoningTagRe alnum) x) ↔ Spliced alnum x :=
  ⟨spliced_of_hasBlock, Spliced.hasBlock⟩

theorem extractOutputPayload_spec (alnum : CodePoint → Bool) {s : Str} (trimmed : Trimmed Re.isSpace s) :
    extractOutputPayload alnum s <:+: s ∧ Trimmed Re.isSpace (extractOutputPayload alnum s) ∧
      extractOutputPayload alnum (extractOutputPayload alnum s) = extractOutputPayload alnum s := by
  have blocks := blocks_outputTagRe alnum s
  have extracts := Extracts.of_blocks blocks
  cases last : (findall (outputTagRe alnum) s).getLast? with
  | none =>
      have returned := extracts.unchanged (List.getLast?_eq_none_iff.mp last)
      rw [returned]
      exact ⟨List.infix_rfl, trimmed, returned⟩
  | some payload =>
      have part := blocks.isInfix payload (List.mem_of_getLast? last)
      refine ⟨?_, ?_, extracts.again⟩
      · exact extracts.last payload last ▸ (trim_isInfix payload).trans part
      · exact extracts.last payload last ▸ trimmed_trim payload

theorem cleansForGood_of_not_hasBlock (none : ¬HasBlock alnum (stripReasoningBlocks alnum x)) :
    CleansForGood alnum x := by
  have fixed : ∀ s, Trimmed Re.isSpace s → ¬HasBlock alnum s → stripReasoningBlocks alnum s = s := by
    intro s trimmed clean
    rw [stripReasoningBlocks_of_not_hasBlock clean]
    exact trimmed.eq_self
  have trimmed : Trimmed Re.isSpace (stripReasoningBlocks alnum x) := trimmed_trim _
  obtain ⟨inside, trimmed', again⟩ := extractOutputPayload_spec alnum trimmed
  have sanitized : sanitizeLlmResponse alnum x = extractOutputPayload alnum (stripReasoningBlocks alnum x) :=
    trimmed'.eq_self
  have clean : ¬HasBlock alnum (extractOutputPayload alnum (stripReasoningBlocks alnum x)) :=
    fun has => none (has.of_isInfix inside)
  refine ⟨fixed _ trimmed none, ?_, none, sanitized ▸ clean⟩
  rw [sanitized, sanitizeLlmResponse, fixed _ trimmed' clean, again]
  exact trimmed'.eq_self

theorem cleansForGood_iff : CleansForGood alnum x ↔ ¬Spliced alnum x := by
  have stripped : HasBlock alnum (stripReasoningBlocks alnum x) ↔ Spliced alnum x :=
    hasBlock_strip_iff.trans hasBlock_remove_iff
  rw [← stripped]
  exact ⟨CleansForGood.strip_complete, cleansForGood_of_not_hasBlock⟩

theorem nested_think_cleaned_twice :
    ¬CleansForGood (fun _ => false) (.ofString "<thi<think></think>nk>secret</think>") := by
  intro law
  have once : stripReasoningBlocks (fun _ => false) (.ofString "<thi<think></think>nk>secret</think>") =
      .ofString "<think>secret</think>" := by
    decide +kernel
  have twice : stripReasoningBlocks (fun _ => false) (.ofString "<think>secret</think>") = [] := by
    decide +kernel
  have again := law.strip_strip
  rw [once, twice] at again
  cases again

end DecisionMaker.Core
