import DecisionMaker.Core.LlmUtils
import DecisionMaker.Library.Delimited

namespace DecisionMaker.Core

open Library Pattern

variable {alnum : CodePoint → Bool} {s : Str}

def OutputOpening (alnum : CodePoint → Bool) (tag : Str) : Prop :=
  ∃ name, IsOpening alnum outputNames name tag

def OutputClosing (tag : Str) : Prop := IsClosing Re.ignoreCase (.ofString "output") tag

theorem ended_outputOpening : Ended (.ofChar '>') (OutputOpening alnum) := by
  rintro tag ⟨name, opens⟩
  obtain ⟨inner, rfl, closed, -⟩ := opens.shape lowerCase_outputNames
  refine ⟨.ofChar '<' :: inner, rfl, ?_⟩
  rw [List.mem_cons]
  exact not_or.mpr ⟨by decide, closed⟩

theorem ended_outputClosing : Ended (.ofChar '>') OutputClosing := by
  intro tag closes
  obtain ⟨inner, rfl, -, closed⟩ := closes.shape letters_output
  refine ⟨.ofChar '<' :: inner, rfl, ?_⟩
  rw [List.mem_cons]
  exact not_or.mpr ⟨by decide, closed⟩

theorem spells_outputOpening : Spells (openingTag alnum outputNames) (OutputOpening alnum) := by
  intro s rest
  simp only [mem_openingTag, OutputOpening]
  constructor
  · rintro ⟨name, tag, opens, same⟩
    exact ⟨tag, ⟨name, opens⟩, same⟩
  · rintro ⟨tag, ⟨name, opens⟩, same⟩
    exact ⟨name, tag, opens, same⟩

theorem spells_outputClosing : Spells (closingTag Re.ignoreCase (.ofString "output")) OutputClosing := by
  intro s rest
  simp only [mem_closingTag, exists_const, OutputClosing]

theorem outputTagRe_eq :
    outputTagRe alnum = between (openingTag alnum outputNames) (closingTag Re.ignoreCase (.ofString "output")) :=
  rfl

theorem blocks_outputTagRe (alnum : CodePoint → Bool) (s : Str) :
    Blocks (OutputOpening alnum) OutputClosing s (findall (outputTagRe alnum) s) := by
  rw [outputTagRe_eq]
  exact blocks_findall ended_outputOpening spells_outputOpening spells_outputClosing s

theorem extractOutputPayload_of_unclosed (none : ∀ tag, OutputClosing tag → ¬tag <:+: s) :
    extractOutputPayload alnum s = s := by
  have empty : findall (outputTagRe alnum) s = [] := by
    rw [(blocks_outputTagRe alnum s).eq_nil_iff ended_outputOpening]
    intro opening content closing _ closes inside
    have behind : closing <:+: opening ++ (content ++ closing) := ⟨opening ++ content, [], by simp⟩
    exact none closing closes (behind.trans inside)
  rw [extractOutputPayload, empty]
  rfl

/-- What a text gives whose blocks hold `contents`. -/
structure Extracts (alnum : CodePoint → Bool) (raw : Str) (contents : List Str) : Prop where
  unchanged : contents = [] → extractOutputPayload alnum raw = raw
  last : ∀ content, contents.getLast? = some content → extractOutputPayload alnum raw = Re.strip content
  unclosed : contents ≠ [] → ∀ tag, OutputClosing tag → ¬tag <:+: extractOutputPayload alnum raw
  again : extractOutputPayload alnum (extractOutputPayload alnum raw) = extractOutputPayload alnum raw

theorem Extracts.of_blocks {contents : List Str} (blocks : Blocks (OutputOpening alnum) OutputClosing s contents) :
    Extracts alnum s contents := by
  have same : findall (outputTagRe alnum) s = contents :=
    (blocks_outputTagRe alnum s).unique ended_outputOpening ended_outputClosing blocks
  have unclosed : ∀ content, contents.getLast? = some content → ∀ tag, OutputClosing tag →
      ¬tag <:+: Re.strip content := by
    intro content isLast tag closes inside
    apply blocks.not_closes ended_outputClosing content (List.mem_of_getLast? isLast) tag closes
    exact inside.trans (trim_isInfix content)
  cases isLast : contents.getLast? with
  | none =>
      have returned : extractOutputPayload alnum s = s := by rw [extractOutputPayload, same, isLast]
      have empty := List.getLast?_eq_none_iff.mp isLast
      refine ⟨fun _ => returned, fun content found => ?_, fun some => absurd empty some, by rw [returned, returned]⟩
      rw [isLast] at found
      cases found
  | some content =>
      have returned : extractOutputPayload alnum s = Re.strip content := by
        rw [extractOutputPayload, same, isLast]
      have closed := unclosed content isLast
      refine ⟨fun empty => ?_, fun other found => ?_, fun _ => returned ▸ closed, ?_⟩
      · subst empty
        cases isLast
      · rw [isLast] at found
        cases found
        exact returned
      · rw [returned]
        exact extractOutputPayload_of_unclosed closed

/-- There is one scan of the text, and it finds nothing only where there is no block. -/
theorem extractOutputPayload_extracts (alnum : CodePoint → Bool) (raw : Str) :
    ∃ contents, (∀ found, Blocks (OutputOpening alnum) OutputClosing raw found ↔ found = contents) ∧
      (contents = [] ↔ ∀ opening content closing, OutputOpening alnum opening → OutputClosing closing →
        ¬opening ++ (content ++ closing) <:+: raw) ∧ Extracts alnum raw contents := by
  have blocks := blocks_outputTagRe alnum raw
  refine ⟨_, fun found => ⟨fun other => ?_, ?_⟩, blocks.eq_nil_iff ended_outputOpening, .of_blocks blocks⟩
  · exact other.unique ended_outputOpening ended_outputClosing blocks
  · rintro rfl
    exact blocks

example : extractOutputPayload (fun _ => false)
    (.ofString "<output>a</output><OUTPUT b> <output>c</Output >d</output>") = .ofString "<output>c" := by
  decide +kernel

end DecisionMaker.Core
