import DecisionMaker.Core.Payload
import DecisionMaker.Library.JsonCut

namespace DecisionMaker.Core

open Library

def fenceBlock (fence : String) (object : Str) : Str :=
  Str.ofString fence ++ .ofChar '\n' :: object ++ .ofChar '\n' :: ticks

def fencedReply (fence : String) (before object after : Str) : Str :=
  before ++ fenceBlock fence object ++ after

structure Fenceless (s : Str) : Prop where
  noFence : ¬ticks <:+: s
  apart : .ofChar '`' ∉ s.getLast?

section Fenceless

variable {s t u v : Str}

theorem Fenceless.of_suffix (fenceless : Fenceless s) (suffix : t <:+ s) : Fenceless t where
  noFence inside := fenceless.noFence (inside.trans suffix.isInfix)
  apart member := by
    obtain ⟨front, rfl⟩ := suffix
    apply fenceless.apart
    rw [List.getLast?_append, Option.mem_def.mp member]
    rfl

theorem Fenceless.concat (noFence : ¬ticks <:+: s) {c : CodePoint} (other : c ≠ .ofChar '`') :
    Fenceless (s ++ [c]) where
  noFence inside := by
    rcases List.infix_concat_iff.mp inside with suffix | inside
    · obtain ⟨front, same⟩ := suffix
      have ends : ticks = [.ofChar '`', .ofChar '`'] ++ [.ofChar '`'] := rfl
      rw [ends, ← List.append_assoc] at same
      obtain ⟨-, last⟩ := List.append_inj' same rfl
      exact other (List.singleton_inj.mp last).symm
    · exact noFence inside
  apart member := by
    rw [List.getLast?_concat] at member
    cases member
    exact other rfl

theorem Fenceless.exists_append (fenceless : Fenceless s) (same : s ++ t = u ++ (ticks ++ v)) :
    ∃ more, u = s ++ more ∧ t = more ++ (ticks ++ v) := by
  rcases List.append_eq_append_iff.mp same with ⟨more, rfl, rest⟩ | ⟨more, rfl, rest⟩
  · exact ⟨more, rfl, rest⟩
  · -- the text would hold the fence, or end within it
    rcases List.append_eq_append_iff.mp rest with ⟨beyond, rfl, -⟩ | ⟨beyond, split, -⟩
    · exact absurd ⟨u, beyond, by simp⟩ fenceless.noFence
    · cases more using List.reverseRecOn with
      | nil => exact ⟨[], by rw [List.append_nil, List.append_nil], rest.symm⟩
      | append_singleton more c =>
          have tick : c = .ofChar '`' := eq_tick_of_mem (split ▸ by simp)
          rw [tick] at fenceless
          exact absurd (by simp) fenceless.apart

end Fenceless

section Capture

variable {letter : CodePoint → CodePoint → Bool} {fence : String} {s t u v inner rest : Str}

structure Opens (fence : String) (word : Str) : Prop where
  spelled : Str.ofString fence = ticks ++ word
  noQuote : .ofChar '"' ∉ word

theorem opens_json : Opens "```json" (Str.ofString "json") := ⟨rfl, by decide⟩

theorem opens_bare : Opens "```" [] := ⟨rfl, List.not_mem_nil⟩

theorem exists_of_mem_fenceRe (literal : Literal letter) {word : Str} (opens : Opens fence word)
    (member : (inner, rest) ∈ fenceRe letter fence s) :
    ∃ tag more, s = ticks ++ (tag ++ more ++ (ticks ++ rest)) ∧
      List.Forall₂ (fun a b => letter a b = true) word tag := by
  obtain ⟨opening, spaces, closing, rfl, like, -, closes⟩ := mem_fenceRe.mp member
  rw [opens.spelled] at like
  have first := List.forall₂_take ticks.length like
  have second := List.forall₂_drop ticks.length like
  rw [List.take_left] at first
  rw [List.drop_left] at second
  refine ⟨opening.drop ticks.length, spaces ++ inner, ?_, second⟩
  rw [literal.eq_ticks closes]
  conv_lhs => rw [← List.take_append_drop ticks.length opening, literal.eq_ticks first]
  simp only [List.append_assoc]

theorem fenceRe_eq_nil (literal : Literal letter) {word : Str} (opens : Opens fence word)
    (fenceless : Fenceless u) (some : u ≠ []) (s : Str) : fenceRe letter fence (u ++ s) = [] := by
  rw [List.eq_nil_iff_forall_not_mem]
  rintro ⟨inner, rest⟩ member
  obtain ⟨tag, more, same, -⟩ := exists_of_mem_fenceRe literal opens member
  obtain ⟨beyond, none, -⟩ := fenceless.exists_append (u := []) same
  exact some (List.append_eq_nil_iff.mp none.symm).1

theorem head?_fenceRe (literal : Literal letter) {blanks : Str} {c : CodePoint}
    (blank : ∀ d ∈ blanks, Re.isSpace d = true) (visible : Re.isSpace c = false)
    (fenceless : Fenceless (c :: inner)) (rest : Str) :
    (fenceRe letter fence (Str.ofString fence ++ (blanks ++ c :: (inner ++ (ticks ++ rest))))).head? =
      some (c :: inner, rest) := by
  rw [fenceRe, Pattern.head?_word_bind (literal.self _)]
  apply Pattern.head?_greedy_stop blanks blank visible
  rw [← List.cons_append]
  apply Pattern.head?_few_bind
  · intro cs mid same shorter
    rw [List.eq_nil_iff_forall_not_mem]
    rintro ⟨captured, after⟩ member
    rw [Pattern.mem_bind] at member
    obtain ⟨closing, behind, closes, -⟩ := member
    obtain ⟨rfl, like⟩ := Pattern.mem_word.mp closes
    rw [literal.eq_ticks like] at same
    obtain ⟨more, rfl, -⟩ := fenceless.exists_append same
    rw [List.length_append] at shorter
    omega
  · exact Pattern.head?_word_bind (literal.self ticks) rest

theorem search_fenceRe_reply (literal : Literal letter) {word : Str} (opens : Opens fence word)
    {blanks : Str} {c : CodePoint} (before : Fenceless u) (blank : ∀ d ∈ blanks, Re.isSpace d = true)
    (visible : Re.isSpace c = false) (fenceless : Fenceless (c :: inner)) (rest : Str) :
    Pattern.search (fenceRe letter fence)
        (u ++ (Str.ofString fence ++ (blanks ++ c :: (inner ++ (ticks ++ rest))))) = some (c :: inner) := by
  refine Pattern.search_append (fun t w same some => ?_) (head?_fenceRe literal blank visible fenceless rest)
  exact fenceRe_eq_nil literal opens (before.of_suffix ⟨t, same.symm⟩) some _

end Capture

section Bare

variable {before object after : Str}

theorem fence_cases {p x s : Str} {c : CodePoint} (other : c ≠ .ofChar '`')
    (same : ticks ++ c :: s = p ++ (ticks ++ x)) :
    x = c :: s ∨ ∃ more, c :: s = more ++ (ticks ++ x) := by
  have spelled : ticks = [.ofChar '`', .ofChar '`', .ofChar '`'] := rfl
  rcases p with _ | ⟨a, _ | ⟨b, _ | ⟨d, p⟩⟩⟩
  · exact .inl (List.append_cancel_left same).symm
  · simp [spelled, other] at same
  · simp [spelled, other] at same
  · simp only [spelled, List.cons_append, List.nil_append, List.cons.injEq] at same
    exact .inr ⟨p, same.2.2.2⟩

theorem fenceless_line (inside : ¬ticks <:+: object) : Fenceless (.ofChar '\n' :: object ++ [.ofChar '\n']) := by
  apply Fenceless.concat
  · intro part
    rcases List.infix_cons_iff.mp part with ⟨rest, same⟩ | part
    · exact absurd (List.cons.inj same).1 (by decide)
    · exact inside part
  · decide

theorem search_fencedJsonRe_bare (fenceless : Fenceless before) (inside : ¬ticks <:+: object)
    (behind : ¬ticks <:+: after) : Pattern.search fencedJsonRe (fencedReply "```" before object after) = none := by
  apply Pattern.search_eq_none
  rintro t ⟨front, whole⟩
  rw [List.eq_nil_iff_forall_not_mem]
  rintro ⟨inner, rest⟩ member
  obtain ⟨tag, more, rfl, like⟩ := exists_of_mem_fenceRe literal_ignoreCase opens_json member
  obtain ⟨letter, tag, rfl⟩ : ∃ letter others, tag = letter :: others := by
    cases like with
    | cons first others => exact ⟨_, _, rfl⟩
  have split : before ++ (ticks ++ .ofChar '\n' :: (object ++ .ofChar '\n' :: (ticks ++ after))) =
      front ++ (ticks ++ (letter :: tag ++ more ++ (ticks ++ rest))) := by
    rw [whole, fencedReply, fenceBlock]
    simp [ticks]
  obtain ⟨p, -, opening⟩ := fenceless.exists_append split
  rcases fence_cases (by decide) opening with line | ⟨p, line⟩
  · -- the first fence is followed by a new line
    obtain ⟨rfl, -⟩ := List.cons.inj line
    cases like with
    | cons first _ => exact absurd first (by decide)
  · have line' : .ofChar '\n' :: object ++ [.ofChar '\n'] ++ (ticks ++ after) =
        p ++ (ticks ++ (letter :: tag ++ more ++ (ticks ++ rest))) := by
      rw [← line]
      simp
    obtain ⟨q, -, closing⟩ := (fenceless_line inside).exists_append line'
    have last : ticks ++ after = q ++ ticks ++ (letter :: tag ++ more) ++ (ticks ++ rest) := by
      rw [closing]
      simp
    rcases List.append_eq_append_iff.mp last with ⟨beyond, -, found⟩ | ⟨beyond, short, -⟩
    · exact behind ⟨beyond, rest, by rw [found, List.append_assoc]⟩
    · have lengths := congrArg List.length short
      simp only [List.length_append, List.length_cons] at lengths
      omega

end Bare

section Reply

variable {letter : CodePoint → CodePoint → Bool} {fence : String} {word before object after : Str}
  {alnum : CodePoint → Bool} {nesting : Nat} {members : Dict}

theorem trimmed_fenceBlock (opens : Opens fence word) (object : Str) :
    Trimmed Re.isSpace (fenceBlock fence object) where
  first c member := by
    rw [fenceBlock, opens.spelled] at member
    cases member
    rfl
  last c member := by
    have ends : fenceBlock fence object =
        Str.ofString fence ++ .ofChar '\n' :: object ++ .ofChar '\n' :: [.ofChar '`', .ofChar '`'] ++
          [.ofChar '`'] := by
      rw [fenceBlock, List.append_assoc (Str.ofString fence ++ _) [_, _, _] [_]]
      rfl
    rw [ends, List.getLast?_concat] at member
    cases member
    rfl

theorem strip_fencedReply (opens : Opens fence word) (before object after : Str) :
    Re.strip (fencedReply fence before object after) =
      fencedReply fence (before.dropWhile Re.isSpace) object (after.rdropWhile Re.isSpace) := by
  apply (trimmed_fenceBlock opens object).trim_append
  rw [fenceBlock, opens.spelled]
  exact List.cons_ne_nil _ _

theorem cuts_fenceBlock (opens : Opens fence word) (object after : Str) :
    Json.Cuts (fenceBlock fence object ++ after) := by
  have absent : .ofChar '"' ∉ .ofChar '`' :: .ofChar '`' :: word := by
    simp only [List.mem_cons, not_or]
    exact ⟨by decide, by decide, opens.noQuote⟩
  have cuts := Json.Cuts.of_line absent (object ++ .ofChar '\n' :: ticks ++ after)
  rw [fenceBlock, opens.spelled]
  simpa [ticks, Str.ofString] using cuts

theorem decode_fencedReply (opens : Opens fence word) (nesting : Nat) (before object after : Str) :
    Json.decode nesting (fencedReply fence before object after) =
      (Json.decode nesting before).bind fun _ => .error .jsonDecodeError := by
  rw [fencedReply, List.append_assoc]
  exact Json.decode_append (cuts_fenceBlock opens object after) nesting before

theorem fenced_fencedReply (literal : Literal letter) (opens : Opens fence word) (fenceless : Fenceless before)
    (inside : ¬ticks <:+: object) (decoded : Json.decode nesting object = .ok (.object members)) (after : Str) :
    fenced nesting (fencedReply fence before object after) (fenceRe letter fence) =
      some (.ok (.object members)) := by
  obtain ⟨front, text, back, rfl, frontBlank, reads, backBlank⟩ := Json.decode_object_iff.mp decoded
  obtain ⟨⟨between, spelled⟩, -⟩ := id reads
  have captured : Fenceless (text ++ back ++ [.ofChar '\n']) := by
    have whole := Fenceless.concat inside (c := .ofChar '\n') (by decide)
    exact whole.of_suffix ⟨front, by simp⟩
  have lineBlank : ∀ c ∈ .ofChar '\n' :: front, Re.isSpace c = true :=
    List.forall_mem_cons.mpr ⟨rfl, fun c member => space_of_blank (frontBlank c member)⟩
  have found : Pattern.search (fenceRe letter fence) (fencedReply fence before (front ++ text ++ back) after) =
      some (text ++ back ++ [.ofChar '\n']) := by
    rw [spelled] at captured ⊢
    have search := search_fenceRe_reply (c := .ofChar '{') literal opens fenceless lineBlank rfl captured after
    simpa [fencedReply, fenceBlock] using search
  have line : Json.decode nesting (text ++ back ++ [.ofChar '\n']) = .ok (.object members) := by
    refine Json.decode_object_iff.mpr ⟨[], text, back ++ [.ofChar '\n'], by simp, ?_, reads, ?_⟩
    · exact fun _ none => absurd none List.not_mem_nil
    · rw [List.forall_mem_append]
      exact ⟨backBlank, List.forall_mem_singleton.mpr rfl⟩
  rw [fenced, found, Option.map_some, decode_strip line]

theorem firstDict_reply_iff {snippet : Str} {later : List (Except LoadsError Json)}
    (decoded : Except LoadsError Json) :
    firstDict snippet (decoded.bind (fun _ => .error .jsonDecodeError) :: .ok (.object members) :: later) =
        .ok members ↔
      ∀ e, decoded = .error e → e = .jsonDecodeError := by
  cases decoded with
  | ok value =>
      refine iff_of_true ?_ fun e failed => by cases failed
      rfl
  | error e =>
      by_cases syntaxError : e = .jsonDecodeError
      · rw [syntaxError]
        refine iff_of_true rfl fun e failed => ?_
        cases failed
        rfl
      · apply iff_of_false
        · rw [Except.bind, firstDict_escaped syntaxError]
          intro found
          cases found
        · exact fun quiet => syntaxError (quiet e rfl)

theorem strategies_json (fenceless : Fenceless before) (inside : ¬ticks <:+: object)
    (decoded : Json.decode nesting object = .ok (.object members)) (after : Str) :
    ∃ later, strategies nesting (fencedReply "```json" before object after) =
      plain nesting (fencedReply "```json" before object after) :: .ok (.object members) :: later := by
  have found := fenced_fencedReply literal_ignoreCase opens_json fenceless inside decoded after
  rw [strategies, fencedJsonRe, found]
  exact ⟨_, rfl⟩

theorem strategies_bare (fenceless : Fenceless before) (inside : ¬ticks <:+: object) (behind : ¬ticks <:+: after)
    (decoded : Json.decode nesting object = .ok (.object members)) :
    ∃ later, strategies nesting (fencedReply "```" before object after) =
      plain nesting (fencedReply "```" before object after) :: .ok (.object members) :: later := by
  have found := fenced_fencedReply literal_beq opens_bare fenceless inside decoded after
  have none : fenced nesting (fencedReply "```" before object after) fencedJsonRe = none := by
    rw [fenced, search_fencedJsonRe_bare fenceless inside behind]
    rfl
  rw [strategies, none, fencedBareRe, found]
  exact ⟨_, rfl⟩

theorem safeJsonParse_reply_iff (opens : Opens fence word)
    (noBlock : ¬HasBlock alnum (fencedReply fence before object after))
    (found : ∃ later, strategies nesting (Re.strip (fencedReply fence before object after)) =
      plain nesting (Re.strip (fencedReply fence before object after)) :: .ok (.object members) :: later) :
    safeJsonParse alnum nesting (fencedReply fence before object after) = .ok members ↔
      ∀ e, Json.decode nesting (before.dropWhile Re.isSpace) = .error e → e = .jsonDecodeError := by
  obtain ⟨later, found⟩ := found
  rw [safeJsonParse, stripReasoningBlocks_of_not_hasBlock noBlock, found, plain]
  have trimmed : Re.strip (Re.strip (fencedReply fence before object after)) =
      Re.strip (fencedReply fence before object after) := trim_trim _
  rw [trimmed, strip_fencedReply opens, decode_fencedReply opens]
  exact firstDict_reply_iff _

theorem Fenceless.lstrip (fenceless : Fenceless before) : Fenceless (before.dropWhile Re.isSpace) :=
  fenceless.of_suffix (List.dropWhile_suffix _)

theorem safeJsonParse_json_iff (fenceless : Fenceless before) (inside : ¬ticks <:+: object)
    (decoded : Json.decode nesting object = .ok (.object members))
    (noBlock : ¬HasBlock alnum (fencedReply "```json" before object after)) :
    safeJsonParse alnum nesting (fencedReply "```json" before object after) = .ok members ↔
      ∀ e, Json.decode nesting (before.dropWhile Re.isSpace) = .error e → e = .jsonDecodeError := by
  apply safeJsonParse_reply_iff opens_json noBlock
  rw [strip_fencedReply opens_json]
  exact strategies_json fenceless.lstrip inside decoded _

theorem safeJsonParse_bare_iff (fenceless : Fenceless before) (inside : ¬ticks <:+: object)
    (behind : ¬ticks <:+: after) (decoded : Json.decode nesting object = .ok (.object members))
    (noBlock : ¬HasBlock alnum (fencedReply "```" before object after)) :
    safeJsonParse alnum nesting (fencedReply "```" before object after) = .ok members ↔
      ∀ e, Json.decode nesting (before.dropWhile Re.isSpace) = .error e → e = .jsonDecodeError := by
  have behind' : ¬ticks <:+: after.rdropWhile Re.isSpace := by
    intro part
    exact behind (part.trans (List.rdropWhile_prefix _ _).isInfix)
  apply safeJsonParse_reply_iff opens_bare noBlock
  rw [strip_fencedReply opens_bare]
  exact strategies_bare fenceless.lstrip inside behind' decoded

/-- The dict of the block is found, unless the prose before the block begins with JSON that `json` gives
up on with another error. -/
theorem safeJsonParse_fenced_iff (fenceless : Fenceless before) (inside : ¬ticks <:+: object)
    (behind : ¬ticks <:+: after) (decoded : Json.decode nesting object = .ok (.object members)) :
    (¬HasBlock alnum (fencedReply "```json" before object after) →
      (safeJsonParse alnum nesting (fencedReply "```json" before object after) = .ok members ↔
        ∀ e, Json.decode nesting (before.dropWhile Re.isSpace) = .error e → e = .jsonDecodeError)) ∧
    (¬HasBlock alnum (fencedReply "```" before object after) →
      (safeJsonParse alnum nesting (fencedReply "```" before object after) = .ok members ↔
        ∀ e, Json.decode nesting (before.dropWhile Re.isSpace) = .error e → e = .jsonDecodeError)) :=
  ⟨safeJsonParse_json_iff fenceless inside decoded, safeJsonParse_bare_iff fenceless inside behind decoded⟩

end Reply

theorem safeJsonParse_fenced_iff_prose :
    (¬HasBlock (fun _ => false)
        (fencedReply "```json" (Str.ofString "So {x}: ") (Str.ofString "{}") (Str.ofString " json")) →
      (safeJsonParse (fun _ => false) 1000
          (fencedReply "```json" (Str.ofString "So {x}: ") (Str.ofString "{}") (Str.ofString " json")) = .ok [] ↔
        ∀ e, Json.decode 1000 ((Str.ofString "So {x}: ").dropWhile Re.isSpace) = .error e → e = .jsonDecodeError)) ∧
    (¬HasBlock (fun _ => false)
        (fencedReply "```" (Str.ofString "So {x}: ") (Str.ofString "{}") (Str.ofString " json")) →
      (safeJsonParse (fun _ => false) 1000
          (fencedReply "```" (Str.ofString "So {x}: ") (Str.ofString "{}") (Str.ofString " json")) = .ok [] ↔
        ∀ e, Json.decode 1000 ((Str.ofString "So {x}: ").dropWhile Re.isSpace) = .error e → e = .jsonDecodeError)) :=
  safeJsonParse_fenced_iff ⟨by decide, by decide⟩ (by decide) (by decide) rfl

theorem decode_ones {n : Nat} (long : Json.maxStrDigits < n + 1) (nesting : Nat) :
    Json.decode nesting (List.replicate (n + 1) (.ofChar '1')) = .error .valueError := by
  have digit : Json.isDigit (.ofChar '1') = true := rfl
  have digits : ∀ c ∈ List.replicate n (CodePoint.ofChar '1'), Json.isDigit c = true := by
    intro c member
    rw [List.eq_of_mem_replicate member]
    exact digit
  rw [List.replicate_succ]
  have sign : Json.scanSign (.ofChar '1' :: List.replicate n (.ofChar '1')) =
      (false, .ofChar '1' :: List.replicate n (.ofChar '1')) := rfl
  have integer : Json.scanInteger (.ofChar '1' :: List.replicate n (.ofChar '1')) =
      some (.ofChar '1' :: List.replicate n (.ofChar '1'), []) := by
    rw [Json.scanInteger, if_neg (by decide), if_pos digit, List.takeWhile_eq_self_iff.mpr digits,
      List.dropWhile_eq_nil_iff.mpr digits]
  have number : Json.scanNumber (.ofChar '1' :: List.replicate n (.ofChar '1')) = .error .valueError := by
    have length : (CodePoint.ofChar '1' :: List.replicate n (CodePoint.ofChar '1')).length = n + 1 := by
      rw [List.length_cons, List.length_replicate]
    rw [Json.scanNumber_eq sign integer, Json.numberRest]
    dsimp only [Json.scanFraction, Json.scanExponent]
    rw [length, if_pos long]
  have skipped : Json.skip (.ofChar '1' :: List.replicate n (.ofChar '1')) =
      .ofChar '1' :: List.replicate n (.ofChar '1') := Json.skip_cons rfl _
  rw [Json.decode, skipped, Json.scanOnce_number (.inl digit) _ (Json.scanConstant_digit digit _), number]

theorem number_hides_block :
    ¬∀ (before object after : Str) (members : Dict), Fenceless before → ¬ticks <:+: object →
      ¬ticks <:+: after → Json.decode 1000 object = .ok (.object members) →
      ¬HasBlock (fun _ => false) (fencedReply "```json" before object after) →
      ¬HasBlock (fun _ => false) (fencedReply "```" before object after) →
      safeJsonParse (fun _ => false) 1000 (fencedReply "```json" before object after) = .ok members ∧
        safeJsonParse (fun _ => false) 1000 (fencedReply "```" before object after) = .ok members := by
  intro law
  have others : ∀ x : Char, x.toNat ≠ 49 → .ofChar x ∉ List.replicate 4301 (CodePoint.ofChar '1') := by
    intro x other member
    have same := congrArg Fin.val (List.eq_of_mem_replicate member)
    exact other same
  have fenceless : Fenceless (List.replicate 4301 (.ofChar '1')) := by
    constructor
    · exact fun inside => others '`' (by decide) (inside.subset List.mem_cons_self)
    · exact fun member => others '`' (by decide) (List.mem_of_getLast? member)
  have noTag : ∀ fence, .ofChar '<' ∉ Str.ofString fence →
      ¬HasBlock (fun _ => false) (fencedReply fence (List.replicate 4301 (.ofChar '1')) (Str.ofString "{}") []) := by
    intro fence absent
    apply not_hasBlock_of_notMem
    rw [fencedReply, fenceBlock]
    simp only [List.mem_append, List.mem_cons, not_or]
    exact ⟨⟨others '<' (by decide), ⟨absent, by decide, by decide⟩, by decide, by decide⟩, List.not_mem_nil⟩
  obtain ⟨found, -⟩ := law _ (Str.ofString "{}") [] [] fenceless (by decide) (by decide) rfl
    (noTag _ (by decide)) (noTag _ (by decide))
  have quiet := (safeJsonParse_json_iff fenceless (by decide) rfl (noTag _ (by decide))).mp found
  have failed : Json.decode 1000 ((List.replicate 4301 (.ofChar '1')).dropWhile Re.isSpace) = .error .valueError :=
    decode_ones (Nat.lt_succ_self _) 1000
  cases quiet _ failed

end DecisionMaker.Core
