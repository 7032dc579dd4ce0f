import DecisionMaker.Core.LlmUtils
import DecisionMaker.Library.JsonText

/-!
# Finding the dict in an answer

The strategies are tried in their order, each on a part of the text from which the reasoning blocks are
gone. A strategy passes over a syntax error and over a value that is not a dict. How deep containers may
nest is a parameter.
-/

namespace DecisionMaker.Core

open Library

abbrev Dict := List (Str × Json)

inductive ParseFailure
  | jsonParseError (rawSnippet : Str)
  -- whatever else `json` raised
  | escaped (e : LoadsError)

def fenceRe (letter : CodePoint → CodePoint → Bool) (fence : String) : Pattern CodePoint Str := do
  let _ ← Pattern.word letter (Str.ofString fence)
  let _ ← Pattern.greedy Re.isSpace
  let inner ← Pattern.few
  let _ ← Pattern.word letter (Str.ofString "```")
  pure inner

def fencedJsonRe : Pattern CodePoint Str := fenceRe Re.ignoreCase "```json"

def fencedBareRe : Pattern CodePoint Str := fenceRe (fun a b => a == b) "```"

def braceRe : Pattern CodePoint Str := do
  let first ← Pattern.one (·.is '{')
  let inner ← Pattern.greedy fun _ => true
  let last ← Pattern.one (·.is '}')
  pure (first :: inner ++ [last])

section Strategies

variable (nesting : Nat) (normalized : Str)

def plain : Except LoadsError Json := Json.decode nesting (Re.strip normalized)

def fenced (re : Pattern CodePoint Str) : Option (Except LoadsError Json) :=
  (Pattern.search re normalized).map fun inner => Json.decode nesting (Re.strip inner)

def proseEmbedded : Option (Except LoadsError Json) :=
  (Pattern.search braceRe normalized).map fun inner => Json.decode nesting inner

def rawDecode : Option (Except LoadsError Json) :=
  match normalized.dropWhile fun c => !c.is '{' with
  | [] => none
  | c :: s => some ((Json.scanOnce nesting (c :: s)).map Prod.fst)

def strategies : List (Except LoadsError Json) :=
  plain nesting normalized :: (fenced nesting normalized fencedJsonRe).toList ++
    (fenced nesting normalized fencedBareRe).toList ++ (proseEmbedded nesting normalized).toList ++
      (rawDecode nesting normalized).toList

end Strategies

def firstDict (rawSnippet : Str) : List (Except LoadsError Json) → Except ParseFailure Dict
  | [] => .error (.jsonParseError rawSnippet)
  | .ok (.object members) :: _ => .ok members
  | .ok _ :: later => firstDict rawSnippet later
  | .error .jsonDecodeError :: later => firstDict rawSnippet later
  | .error e :: _ => .error (.escaped e)

def safeJsonParse (alnum : CodePoint → Bool) (nesting : Nat) (raw : Str) : Except ParseFailure Dict :=
  let rawSnippet := raw.take 200
  let normalized := stripReasoningBlocks alnum raw
  firstDict rawSnippet (strategies nesting normalized)

def Passes (result : Except LoadsError Json) : Prop :=
  result = .error .jsonDecodeError ∨ ∃ value, result = .ok value ∧ ∀ members, value ≠ .object members

section FirstDict

variable {snippet : Str} {result : Except LoadsError Json} {results later : List (Except LoadsError Json)}

theorem firstDict_of_passes (passes : Passes result) :
    firstDict snippet (result :: later) = firstDict snippet later := by
  rcases passes with rfl | ⟨value, rfl, other⟩
  · rfl
  · cases value with
    | object members => exact absurd rfl (other members)
    | null | bool | int | float | str | array => rfl

theorem firstDict_escaped {e : LoadsError} (other : e ≠ .jsonDecodeError) :
    firstDict snippet (.error e :: later) = .error (.escaped e) := by
  cases e with
  | jsonDecodeError => exact absurd rfl other
  | unicodeDecodeError | valueError | recursionError => rfl

theorem result_cases (result : Except LoadsError Json) :
    Passes result ∨ (∃ members, result = .ok (.object members)) ∨
      ∃ e, result = .error e ∧ e ≠ .jsonDecodeError := by
  cases result with
  | ok value =>
      cases value with
      | object members => exact .inr (.inl ⟨members, rfl⟩)
      | null | bool | int | float | str | array => exact .inl (.inr ⟨_, rfl, fun _ same => by cases same⟩)
  | error e =>
      by_cases syntaxError : e = .jsonDecodeError
      · exact .inl (.inl (by rw [syntaxError]))
      · exact .inr (.inr ⟨e, rfl, syntaxError⟩)

theorem firstDict_jsonParseError {carried : Str}
    (failed : firstDict snippet results = .error (.jsonParseError carried)) :
    carried = snippet ∧ ∀ result ∈ results, Passes result := by
  induction results with
  | nil =>
      cases failed
      exact ⟨rfl, fun _ member => absurd member List.not_mem_nil⟩
  | cons result results ih =>
      rcases result_cases result with passes | ⟨members, rfl⟩ | ⟨e, rfl, other⟩
      · rw [firstDict_of_passes passes] at failed
        obtain ⟨same, others⟩ := ih failed
        exact ⟨same, List.forall_mem_cons.mpr ⟨passes, others⟩⟩
      · cases failed
      · rw [firstDict_escaped other] at failed
        cases failed

theorem mem_of_firstDict_ok {members : Dict} (found : firstDict snippet results = .ok members) :
    .ok (.object members) ∈ results := by
  induction results with
  | nil => cases found
  | cons result results ih =>
      rcases result_cases result with passes | ⟨others, rfl⟩ | ⟨e, rfl, other⟩
      · rw [firstDict_of_passes passes] at found
        exact List.mem_cons_of_mem _ (ih found)
      · cases found
        exact List.mem_cons_self
      · rw [firstDict_escaped other] at found
        cases found

end FirstDict

theorem safeJsonParse_rawSnippet {alnum : CodePoint → Bool} {nesting : Nat} {raw carried : Str}
    (failed : safeJsonParse alnum nesting raw = .error (.jsonParseError carried)) : carried = raw.take 200 :=
  (firstDict_jsonParseError failed).1

section Search

variable {nesting : Nat} {s : Str}

def ticks : Str := Str.ofString "```"

theorem eq_tick_of_mem {c : CodePoint} (member : c ∈ ticks) : c = .ofChar '`' := by
  simpa [ticks, Str.ofString] using member

structure Literal (letter : CodePoint → CodePoint → Bool) : Prop where
  tick : ∀ c, letter (.ofChar '`') c = true → c = .ofChar '`'
  same : ∀ c, letter c c = true

theorem literal_ignoreCase : Literal Re.ignoreCase where
  tick _ like := Re.eq_of_ignoreCase rfl like
  same c := by rw [Re.ignoreCase, Re.sameLetter, beq_self_eq_true, Bool.true_or, Bool.true_or]

theorem literal_beq : Literal fun a b => a == b where
  tick _ same := (beq_iff_eq.mp same).symm
  same c := beq_self_eq_true c

section Fences

variable {letter : CodePoint → CodePoint → Bool} {fence : String} {inner rest : Str}

theorem Literal.eq_ticks (literal : Literal letter) {closing : Str}
    (like : List.Forall₂ (fun a b => letter a b = true) ticks closing) : closing = ticks := by
  apply eq_of_forall₂ like
  intro a inside b letters
  rw [eq_tick_of_mem inside] at letters ⊢
  exact literal.tick b letters

theorem Literal.self (literal : Literal letter) (s : Str) :
    List.Forall₂ (fun a b => letter a b = true) s s :=
  List.forall₂_same.mpr fun c _ => literal.same c

theorem mem_fenceRe :
    (inner, rest) ∈ fenceRe letter fence s ↔
      ∃ opening spaces closing, s = opening ++ (spaces ++ (inner ++ (closing ++ rest))) ∧
        List.Forall₂ (fun a b => letter a b = true) (Str.ofString fence) opening ∧
          (∀ c ∈ spaces, Re.isSpace c = true) ∧ List.Forall₂ (fun a b => letter a b = true) ticks closing := by
  simp only [fenceRe, Pattern.mem_bind, Pattern.mem_word, Pattern.mem_greedy, Pattern.mem_few, Pattern.mem_pure]
  constructor
  · rintro ⟨opening, _, ⟨rfl, opens⟩, spaces, _, ⟨rfl, blank⟩, between, _, rfl, closing, _, ⟨rfl, closes⟩, rfl, rfl⟩
    exact ⟨opening, spaces, closing, rfl, opens, blank, closes⟩
  · rintro ⟨opening, spaces, closing, rfl, opens, blank, closes⟩
    exact ⟨opening, _, ⟨rfl, opens⟩, spaces, _, ⟨rfl, blank⟩, inner, _, rfl, closing, _, ⟨rfl, closes⟩, rfl, rfl⟩

theorem search_fenceRe (literal : Literal letter) (noFence : ¬ticks <:+: s) :
    Pattern.search (fenceRe letter fence) s = none := by
  apply Pattern.search_eq_none
  intro t suffix
  rw [List.eq_nil_iff_forall_not_mem]
  rintro ⟨inner, rest⟩ member
  obtain ⟨opening, spaces, closing, rfl, -, -, closes⟩ := mem_fenceRe.mp member
  rw [literal.eq_ticks closes] at suffix
  have inside : ticks <:+: opening ++ (spaces ++ (inner ++ (ticks ++ rest))) :=
    ⟨opening ++ spaces ++ inner, rest, by simp only [List.append_assoc]⟩
  exact noFence (inside.trans suffix.isInfix)

end Fences

theorem fenced_eq_none (nesting : Nat) (noFence : ¬Str.ofString "```" <:+: s) :
    fenced nesting s fencedJsonRe = none ∧ fenced nesting s fencedBareRe = none := by
  constructor
  · rw [fenced, fencedJsonRe, search_fenceRe literal_ignoreCase noFence]
    rfl
  · rw [fenced, fencedBareRe, search_fenceRe literal_beq noFence]
    rfl

theorem mem_braceRe {text rest : Str} :
    (text, rest) ∈ braceRe s ↔
      ∃ inner, text = .ofChar '{' :: inner ++ [.ofChar '}'] ∧ s = text ++ rest := by
  simp only [braceRe, Pattern.mem_bind, Pattern.mem_one, Pattern.mem_greedy, Pattern.mem_pure, Json.is_iff]
  constructor
  · rintro ⟨_, _, ⟨rfl, rfl⟩, inner, _, ⟨rfl, -⟩, _, _, ⟨rfl, rfl⟩, rfl, rfl⟩
    exact ⟨inner, rfl, by simp⟩
  · rintro ⟨inner, rfl, rfl⟩
    exact ⟨_, _, ⟨rfl, rfl⟩, inner, .ofChar '}' :: rest, ⟨by simp, fun _ _ => trivial⟩, _, _, ⟨rfl, rfl⟩, rfl, rfl⟩

theorem braceRe_eq_nil {c : CodePoint} (other : c ≠ .ofChar '{') : braceRe (c :: s) = [] := by
  rw [List.eq_nil_iff_forall_not_mem]
  rintro ⟨text, rest⟩ member
  obtain ⟨inner, rfl, same⟩ := mem_braceRe.mp member
  exact other (List.cons.inj same).1

theorem braceRe_eq_nil_of_append {before u t : Str} (first : .ofChar '{' ∉ before) (same : before = t ++ u)
    (some : u ≠ []) (s : Str) : braceRe (u ++ s) = [] := by
  cases u with
  | nil => exact absurd rfl some
  | cons c u =>
      apply braceRe_eq_nil
      rintro rfl
      exact first (same ▸ List.mem_append_right _ List.mem_cons_self)

theorem search_braceRe {before inner after : Str} (first : .ofChar '{' ∉ before)
    (last : .ofChar '}' ∉ after) :
    Pattern.search braceRe (before ++ (.ofChar '{' :: inner ++ .ofChar '}' :: after)) =
      some (.ofChar '{' :: inner ++ [.ofChar '}']) := by
  have longest : (braceRe (.ofChar '{' :: inner ++ .ofChar '}' :: after)).head? =
      some (.ofChar '{' :: inner ++ [.ofChar '}'], after) := by
    have opens : (.ofChar '{', inner ++ .ofChar '}' :: after) ∈
        Pattern.one (fun c : CodePoint => c.is '{') (.ofChar '{' :: inner ++ .ofChar '}' :: after) :=
      Pattern.mem_one.mpr ⟨rfl, rfl⟩
    rw [braceRe, Pattern.head?_bind_of_unique opens]
    · apply Pattern.head?_greedy_bind
      · exact fun _ _ => rfl
      · intro cs mid same longer
        rw [List.eq_nil_iff_forall_not_mem]
        rintro ⟨text, rest⟩ member
        simp only [Pattern.mem_bind, Pattern.mem_one, Json.is_iff] at member
        obtain ⟨_, _, ⟨rfl, rfl⟩, -⟩ := member
        rcases List.append_eq_append_iff.mp same with ⟨more, rfl, others⟩ | ⟨more, rfl, -⟩
        · cases more with
          | nil => simp at longer
          | cons d more =>
              apply last
              rw [(List.cons.inj others).2]
              simp
        · simp only [List.length_append] at longer
          omega
      · rfl
    · rintro ⟨c, rest⟩ member
      obtain ⟨-, same⟩ := Pattern.mem_one.mp member
      obtain ⟨rfl, rfl⟩ := List.cons.inj same
      rfl
  exact Pattern.search_append (fun t u same some => braceRe_eq_nil_of_append first same some _) longest

theorem search_braceRe_eq_none {before inner : Str} (first : .ofChar '{' ∉ before)
    (last : .ofChar '}' ∉ inner) : Pattern.search braceRe (before ++ .ofChar '{' :: inner) = none := by
  apply Pattern.search_eq_none
  rintro t ⟨front, whole⟩
  rw [List.eq_nil_iff_forall_not_mem]
  rintro ⟨text, rest⟩ member
  obtain ⟨between, rfl, rfl⟩ := mem_braceRe.mp member
  simp only [List.cons_append, List.append_assoc] at whole
  rcases List.append_eq_append_iff.mp whole with ⟨more, rfl, others⟩ | ⟨more, rfl, others⟩
  · cases more with
    | nil =>
        apply last
        rw [← (List.cons.inj others).2]
        simp
    | cons d more =>
        apply first
        rw [← (List.cons.inj others).1]
        simp
  · cases more with
    | nil =>
        apply last
        rw [(List.cons.inj others).2]
        simp
    | cons d more =>
        apply last
        rw [(List.cons.inj others).2]
        simp

end Search

end DecisionMaker.Core
