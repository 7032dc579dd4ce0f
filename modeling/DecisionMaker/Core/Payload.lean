import DecisionMaker.Core.JsonUtils
import DecisionMaker.Core.Sanitizer

namespace DecisionMaker.Core

open Library

variable {alnum : CodePoint → Bool} {nesting : Nat} {name back reasoning payload : Str}

def plainOpening (name : Str) : Str := .ofChar '<' :: name ++ [.ofChar '>']

def plainClosing (name : Str) : Str := .ofChar '<' :: .ofChar '/' :: name ++ [.ofChar '>']

def outputBlock (payload : Str) : Str :=
  Str.ofString "<output>" ++ payload ++ Str.ofString "</output>"

def answer (name back reasoning payload : Str) : Str :=
  plainOpening name ++ reasoning ++ plainClosing back ++ outputBlock payload

theorem isOpening_plainOpening {names : List String} (isName : IsName names name) :
    IsOpening alnum names name (plainOpening name) :=
  ⟨[], by rw [plainOpening, List.append_nil], isName, rfl, fun _ member => absurd member List.not_mem_nil⟩

theorem isClosing_plainClosing {letter : CodePoint → CodePoint → Bool}
    (same : List.Forall₂ (fun a b => letter a b = true) name back) :
    IsClosing letter name (plainClosing back) :=
  ⟨back, [], by rw [plainClosing, List.append_nil], same, fun _ member => absurd member List.not_mem_nil⟩

theorem output_ignoreCase :
    List.Forall₂ (fun a b => Re.ignoreCase a b = true) (Str.ofString "output") (Str.ofString "output") :=
  literal_ignoreCase.self _

theorem isName_output : IsName outputNames (Str.ofString "output") :=
  ⟨"output", List.mem_cons_self, output_ignoreCase⟩

theorem IsName.starts (isName : IsName reasoningNames name) :
    ∃ c t, name = c :: t ∧ c ≠ .ofChar 'o' := by
  obtain ⟨n, known, like⟩ := isName
  have starts : ∀ n ∈ reasoningNames, ∃ a t, Str.ofString n = a :: t ∧
      Re.ignoreCase a (.ofChar 'o') = false := by
    intro n known
    simp only [reasoningNames, List.mem_cons, List.not_mem_nil, or_false] at known
    rcases known with rfl | rfl | rfl | rfl <;> exact ⟨_, _, rfl, by decide⟩
  obtain ⟨a, t, spelled, other⟩ := starts n known
  rw [spelled] at like
  cases like with
  | cons first _ =>
      refine ⟨_, _, rfl, ?_⟩
      rintro rfl
      rw [other] at first
      cases first

theorem closingTag_eq_nil {letter : CodePoint → CodePoint → Bool} {text rest tag cs mid : Str}
    (letters : ∀ a ∈ name, ∀ b, letter a b = true → Re.isLetter b = true)
    (unclosed : ∀ tag, IsClosing letter name tag → ¬tag <:+: text) (closes : IsClosing letter name tag)
    (same : text ++ (tag ++ rest) = cs ++ mid) (shorter : cs.length < text.length) :
    closingTag letter name mid = [] := by
  rw [List.eq_nil_iff_forall_not_mem]
  rintro ⟨⟨⟩, after⟩ member
  obtain ⟨other, closes', rfl⟩ := mem_closingTag.mp member
  rcases List.append_eq_append_iff.mp same with ⟨more, rfl, -⟩ | ⟨more, rfl, others⟩
  · rw [List.length_append] at shorter
    omega
  · obtain ⟨inner, rfl, -, -⟩ := closes.shape letters
    have some : more ≠ [] := by
      rintro rfl
      simp at shorter
    have part := closes'.isInfix_of_isPrefix letters others some
    exact unclosed other closes' (part.isInfix.trans (List.infix_append_right))

theorem remove_answer (isName : IsName reasoningNames name)
    (same : List.Forall₂ (fun a b => Re.sameLetter a b = true) name back)
    (unclosed : ∀ tag, IsClosing Re.sameLetter name tag → ¬tag <:+: reasoning) :
    Pattern.remove (reasoningTagRe alnum) (answer name back reasoning payload) =
      Pattern.remove (reasoningTagRe alnum) (outputBlock payload) := by
  have letters := isName.letters_sameLetter
  have closes := isClosing_plainClosing same
  have first : (reasoningTagRe alnum (answer name back reasoning payload)).head? = some ((), outputBlock payload) := by
    rw [reasoningTagRe, answer, List.append_assoc, List.append_assoc,
      head?_openingTag_bind lowerCase_reasoningNames (isOpening_plainOpening isName)]
    apply Pattern.head?_few_bind
    · exact fun cs mid split shorter => closingTag_eq_nil letters unclosed closes split shorter
    · exact head?_closingTag letters closes
  apply Pattern.remove_append _ first
  exact List.append_ne_nil_of_left_ne_nil (List.append_ne_nil_of_left_ne_nil (List.cons_ne_nil _ _) _) _

theorem not_hasBlock_outputBlock
    (unopened : ∀ other tag, IsOpening alnum reasoningNames other tag → ¬tag <:+: payload) :
    ¬HasBlock alnum (outputBlock payload) := by
  rintro ⟨_, ⟨other, _, between, closing, rfl, opens, closes⟩, front, back, same⟩
  obtain ⟨inner, rfl, -, -⟩ := opens.shape lowerCase_reasoningNames
  have closingSome : between ++ (closing ++ back) ≠ [] := by
    obtain ⟨_, _, rfl, -, -⟩ := closes
    simp
  -- the opening tag ends before the last character, and so before the closing output tag
  have inFront : front ++ .ofChar '<' :: inner ++ [.ofChar '>'] <+:
      Str.ofString "<output>" ++ payload ++ Str.ofString "</output" := by
    have whole : front ++ .ofChar '<' :: inner ++ [.ofChar '>'] ++ (between ++ (closing ++ back)) =
        Str.ofString "<output>" ++ payload ++ Str.ofString "</output" ++ [.ofChar '>'] := by
      calc
        _ = front ++ (.ofChar '<' :: inner ++ [.ofChar '>'] ++ between ++ closing) ++ back := by simp
        _ = outputBlock payload := same
        _ = _ := by
          rw [List.append_assoc _ (Str.ofString "</output")]
          rfl
    exact isPrefix_of_append_eq_concat whole closingSome
  have tag : Str.ofString "<output>" = .ofChar '<' :: Str.ofString "output>" := rfl
  obtain ⟨rest, split⟩ := isPrefix_of_notMem inFront (by decide)
  rw [tag] at split
  cases front with
  | nil =>
      obtain ⟨attributes, spelled, isName, -, -⟩ := opens
      obtain ⟨c, t, rfl, notO⟩ := isName.starts
      rw [List.nil_append, spelled] at split
      have second := (List.cons.inj (List.cons.inj split).2).1
      exact notO second
  | cons c front =>
      have tail : Str.ofString "output>" ++ payload = front ++ .ofChar '<' :: (inner ++ [.ofChar '>'] ++ rest) := by
        apply (List.cons.inj split).2.symm.trans
        simp only [List.append_assoc, List.cons_append, List.append_eq]
      obtain ⟨more, -, rest'⟩ := exists_append_of_notMem tail (by decide)
      apply unopened other _ opens
      exact ⟨more, rest, by rw [rest']; simp⟩

theorem findall_outputBlock
    (unclosed : ∀ tag, IsClosing Re.ignoreCase (Str.ofString "output") tag → ¬tag <:+: payload) :
    Pattern.findall (outputTagRe alnum) (outputBlock payload) = [payload] := by
  have closes := isClosing_plainClosing output_ignoreCase
  have first : (outputTagRe alnum (outputBlock payload ++ [])).head? = some (payload, []) := by
    have split : outputBlock payload ++ [] =
        plainOpening (Str.ofString "output") ++ (payload ++ (plainClosing (Str.ofString "output") ++ [])) := by
      rw [outputBlock, List.append_nil, List.append_nil, List.append_assoc]
      rfl
    rw [split, outputTagRe, head?_openingTag_bind lowerCase_outputNames (isOpening_plainOpening isName_output)]
    apply Pattern.head?_few_bind
    · intro cs mid same shorter
      rw [Pattern.bind_apply, closingTag_eq_nil letters_output unclosed closes same shorter]
      rfl
    · rw [head?_closingTag_bind letters_output closes]
      rfl
  have some : outputBlock payload ≠ [] := List.cons_ne_nil _ _
  rw [← List.append_nil (outputBlock payload), Pattern.findall_append some first]
  rfl

theorem sanitizeLlmResponse_answer (isName : IsName reasoningNames name)
    (same : List.Forall₂ (fun a b => Re.sameLetter a b = true) name back)
    (unclosed : ∀ tag, IsClosing Re.sameLetter name tag → ¬tag <:+: reasoning)
    (unopened : ∀ other tag, IsOpening alnum reasoningNames other tag → ¬tag <:+: payload)
    (inside : ∀ tag, IsClosing Re.ignoreCase (Str.ofString "output") tag → ¬tag <:+: payload) :
    sanitizeLlmResponse alnum (answer name back reasoning payload) = Re.strip payload := by
  have trimmed : Re.strip (outputBlock payload) = outputBlock payload := by
    have ends : outputBlock payload =
        .ofChar '<' :: (Str.ofString "output>" ++ payload ++ Str.ofString "</output") ++ [.ofChar '>'] := by
      rw [outputBlock, List.cons_append, List.append_assoc _ (Str.ofString "</output")]
      rfl
    rw [ends]
    exact (trimmed_tag _).eq_self
  have stripped : stripReasoningBlocks alnum (answer name back reasoning payload) = outputBlock payload := by
    rw [stripReasoningBlocks, remove_answer isName same unclosed,
      remove_of_not_hasBlock (not_hasBlock_outputBlock unopened), trimmed]
  rw [sanitizeLlmResponse, stripped, extractOutputPayload, findall_outputBlock inside]
  exact trim_trim payload

theorem space_of_blank {c : CodePoint} (blank : Json.isSpace c = true) : Re.isSpace c = true := by
  simp only [Json.isSpace, Bool.or_eq_true, Json.is_iff] at blank
  rcases blank with ((rfl | rfl) | rfl) | rfl <;> rfl

theorem decode_strip {text : Str} {members : Dict} (decoded : Json.decode nesting text = .ok (.object members)) :
    Json.decode nesting (Re.strip text) = .ok (.object members) := by
  obtain ⟨front, object, after, rfl, frontBlank, reads, afterBlank⟩ := Json.decode_object_iff.mp decoded
  have trimmed : Trimmed Re.isSpace object := by
    obtain ⟨⟨inner, rfl⟩, -⟩ := reads
    constructor
    · intro c member
      cases member
      rfl
    · intro c member
      rw [List.getLast?_concat] at member
      cases member
      rfl
  have stripped : Re.strip (front ++ object ++ after) = object :=
    trim_append (fun c member => space_of_blank (frontBlank c member))
      (fun c member => space_of_blank (afterBlank c member)) trimmed
  rw [stripped]
  exact Json.decode_object_iff.mpr ⟨[], object, [], by simp, fun _ none => absurd none List.not_mem_nil, reads,
    fun _ none => absurd none List.not_mem_nil⟩

theorem safeJsonParse_of_decode {text : Str} {members : Dict} (noBlock : ¬HasBlock alnum text)
    (decoded : Json.decode nesting text = .ok (.object members)) :
    safeJsonParse alnum nesting text = .ok members := by
  have first : plain nesting (Re.strip text) = .ok (.object members) := decode_strip (decode_strip decoded)
  rw [safeJsonParse, stripReasoningBlocks_of_not_hasBlock noBlock, strategies, first]
  rfl

theorem payload_kept (isName : IsName reasoningNames name)
    (same : List.Forall₂ (fun a b => Re.sameLetter a b = true) name back)
    (unclosed : ∀ tag, IsClosing Re.sameLetter name tag → ¬tag <:+: reasoning)
    (unopened : ∀ other tag, IsOpening alnum reasoningNames other tag → ¬tag <:+: payload)
    (inside : ∀ tag, IsClosing Re.ignoreCase (Str.ofString "output") tag → ¬tag <:+: payload) :
    sanitizeLlmResponse alnum (answer name back reasoning payload) = Re.strip payload ∧
      ∀ members, Json.decode nesting payload = .ok (.object members) →
        safeJsonParse alnum nesting (sanitizeLlmResponse alnum (answer name back reasoning payload)) =
          .ok members := by
  have sanitized := sanitizeLlmResponse_answer isName same unclosed unopened inside
  refine ⟨sanitized, fun members decoded => ?_⟩
  have noBlock : ¬HasBlock alnum (Re.strip payload) := by
    rintro ⟨_, ⟨other, opening, between, closing, rfl, opens, -⟩, part⟩
    apply unopened other opening opens
    have first : opening <:+: opening ++ between ++ closing := ⟨[], between ++ closing, by simp⟩
    exact first.trans (part.trans (trim_isInfix payload))
  rw [sanitized]
  exact safeJsonParse_of_decode noBlock (decode_strip decoded)

theorem payload_kept_decoy :
    sanitizeLlmResponse (fun _ => false) (answer (Str.ofString "Think") (Str.ofString "tHINK")
        (Str.ofString "<output>\x7b</output>") (Str.ofString " {} ")) = Re.strip (Str.ofString " {} ") ∧
      ∀ members, Json.decode 1000 (Str.ofString " {} ") = .ok (.object members) →
        safeJsonParse (fun _ => false) 1000 (sanitizeLlmResponse (fun _ => false)
          (answer (Str.ofString "Think") (Str.ofString "tHINK") (Str.ofString "<output>\x7b</output>")
            (Str.ofString " {} "))) = .ok members := by
  have isName : IsName reasoningNames (Str.ofString "Think") :=
    ⟨"think", by decide, by decide⟩
  have same : List.Forall₂ (fun a b => Re.sameLetter a b = true) (Str.ofString "Think") (Str.ofString "tHINK") := by
    decide
  exact payload_kept isName same (not_closing_iff.mpr (by decide +kernel))
    (not_opening_iff.mpr (by decide +kernel)) (not_closing_iff.mpr (by decide +kernel))

end DecisionMaker.Core
