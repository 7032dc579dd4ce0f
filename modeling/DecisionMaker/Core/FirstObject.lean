import DecisionMaker.Core.JsonUtils

namespace DecisionMaker.Core

open Library

variable {alnum : CodePoint → Bool} {nesting : Nat} {x s : Str} {members : Dict}

/-- A part of the text that starts there is the text of the dict. -/
def ObjectAt (nesting : Nat) (x : Str) (i : Nat) (members : Dict) : Prop :=
  ∃ u, u <+: x.drop i ∧ Json.decode nesting u = .ok (.object members)

/-- The dict that starts first is found, and the parser gives up only where there is none. -/
structure FindsFirst (alnum : CodePoint → Bool) (nesting : Nat) (x : Str) : Prop where
  finds : ∀ i members, ObjectAt nesting x i members → (∀ j others, ObjectAt nesting x j others → i ≤ j) →
    safeJsonParse alnum nesting x = .ok members
  complete : ∀ snippet, safeJsonParse alnum nesting x = .error (.jsonParseError snippet) →
    ∀ i members, ¬ObjectAt nesting x i members

def notBrace (c : CodePoint) : Bool := !c.is '{'

def firstBrace (x : Str) : Nat := x.findIdx fun c => c.is '{'

def fromBrace (x : Str) : Str := x.dropWhile notBrace

theorem drop_firstBrace (x : Str) : x.drop (firstBrace x) = fromBrace x := by
  rw [fromBrace, List.dropWhile_eq_drop_findIdx_not]
  simp only [notBrace, Bool.not_not]
  rfl

theorem length_takeWhile_notBrace (x : Str) : (x.takeWhile notBrace).length = firstBrace x := by
  rw [List.takeWhile_eq_take_findIdx_not, List.length_take]
  simp only [notBrace, Bool.not_not]
  exact Nat.min_eq_left List.findIdx_le_length

theorem fromBrace_cases (x : Str) :
    (fromBrace x = [] ∧ .ofChar '{' ∉ x) ∨
      ∃ before t, x = before ++ .ofChar '{' :: t ∧ .ofChar '{' ∉ before ∧ fromBrace x = .ofChar '{' :: t := by
  have absent : .ofChar '{' ∉ x.takeWhile notBrace := by
    intro member
    have other := List.mem_takeWhile_imp member
    cases other
  cases found : fromBrace x with
  | nil =>
      refine .inl ⟨rfl, fun member => ?_⟩
      have all := List.dropWhile_eq_nil_iff.mp found _ member
      cases all
  | cons c t =>
      have brace := List.head?_dropWhile_not notBrace x
      rw [show x.dropWhile notBrace = c :: t from found] at brace
      have isBrace : c = .ofChar '{' := by
        apply Json.is_iff.mp
        simpa [notBrace] using brace
      refine .inr ⟨x.takeWhile notBrace, t, ?_, absent, by rw [isBrace]⟩
      rw [← isBrace, ← found, fromBrace, List.takeWhile_append_dropWhile]

theorem fromBrace_append {front : Str} (absent : .ofChar '{' ∉ front) (s : Str) :
    fromBrace (front ++ s) = fromBrace s := by
  apply List.dropWhile_append_of_pos
  intro c member
  rw [notBrace, Bool.not_eq_true', ← Bool.not_eq_true, Json.is_iff]
  rintro rfl
  exact absent member

theorem fromBrace_cons (t : Str) : fromBrace (.ofChar '{' :: t) = .ofChar '{' :: t := rfl

theorem brace_not_blank {front : Str} (blank : ∀ c ∈ front, Json.isSpace c = true) : .ofChar '{' ∉ front := by
  intro member
  have space := blank _ member
  cases space

theorem skip_fromBrace (x : Str) : Json.skip (fromBrace x) = fromBrace x := by
  rcases fromBrace_cases x with ⟨none, -⟩ | ⟨before, t, -, -, found⟩
  · rw [none]
    rfl
  · rw [found]
    exact Json.skip_cons rfl t

theorem objectAt_iff {i : Nat} :
    ObjectAt nesting x i members ↔
      ∃ rest, Json.scanOnce nesting (Json.skip (x.drop i)) = .ok (.object members, rest) := by
  constructor
  · rintro ⟨u, ⟨w, same⟩, decoded⟩
    obtain ⟨front, text, back, rfl, blank, object, -⟩ := Json.decode_object_iff.mp decoded
    obtain ⟨⟨inner, rfl⟩, again⟩ := id object
    refine ⟨back ++ w, ?_⟩
    have skipped : Json.skip (x.drop i) = .ofChar '{' :: inner ++ [.ofChar '}'] ++ (back ++ w) := by
      rw [← same, List.append_assoc, List.append_assoc, Json.skip_blanks blank, List.cons_append,
        List.cons_append]
      exact Json.skip_cons rfl _
    rw [skipped, again]
  · rintro ⟨rest, scanned⟩
    obtain ⟨text, object, split⟩ := Json.scanOnce_object_iff.mp scanned
    obtain ⟨blanks, same, blank⟩ := Json.exists_blanks (x.drop i)
    refine ⟨blanks ++ text, ⟨rest, by rw [same, split, List.append_assoc]⟩, ?_⟩
    exact Json.decode_object_iff.mpr
      ⟨blanks, text, [], by rw [List.append_nil], blank, object, fun _ none => absurd none List.not_mem_nil⟩

theorem ObjectAt.unique {i : Nat} {others : Dict} (object : ObjectAt nesting x i members)
    (object' : ObjectAt nesting x i others) : members = others := by
  obtain ⟨rest, scanned⟩ := objectAt_iff.mp object
  obtain ⟨rest', scanned'⟩ := objectAt_iff.mp object'
  rw [scanned] at scanned'
  cases scanned'
  rfl

theorem objectAt_firstBrace_iff :
    ObjectAt nesting x (firstBrace x) members ↔
      ∃ rest, Json.scanOnce nesting (fromBrace x) = .ok (.object members, rest) := by
  rw [objectAt_iff, drop_firstBrace, skip_fromBrace]

theorem ObjectAt.at_firstBrace {i : Nat} (object : ObjectAt nesting x i members) (early : i ≤ firstBrace x) :
    ObjectAt nesting x (firstBrace x) members := by
  obtain ⟨rest, scanned⟩ := objectAt_iff.mp object
  obtain ⟨text, ⟨⟨inner, rfl⟩, -⟩, split⟩ := Json.scanOnce_object_iff.mp scanned
  obtain ⟨blanks, same, blank⟩ := Json.exists_blanks (x.drop i)
  have here : fromBrace (x.drop i) = Json.skip (x.drop i) := by
    rw [same, fromBrace_append (brace_not_blank blank), Json.skip_blanks blank, Json.skip_skip, split]
    rfl
  have there : fromBrace (x.drop i) = fromBrace x := by
    have whole : x.drop i = (x.takeWhile notBrace).drop i ++ fromBrace x := by
      rw [fromBrace, ← List.drop_append_of_le_length, List.takeWhile_append_dropWhile]
      rw [length_takeWhile_notBrace]
      exact early
    have absent : .ofChar '{' ∉ (x.takeWhile notBrace).drop i := by
      intro member
      cases List.mem_takeWhile_imp (List.mem_of_mem_drop member)
    rw [whole, fromBrace_append absent]
    exact List.dropWhile_idempotent _ _
  rw [objectAt_firstBrace_iff, ← there, here]
  exact ⟨rest, scanned⟩

theorem scanOnce_append_iff {back : Str} (absent : .ofChar '}' ∉ back) :
    (∃ rest, Json.scanOnce nesting (s ++ back) = .ok (.object members, rest)) ↔
      ∃ rest, Json.scanOnce nesting s = .ok (.object members, rest) := by
  constructor
  · rintro ⟨rest, scanned⟩
    obtain ⟨text, object, split⟩ := Json.scanOnce_object_iff.mp scanned
    have isPrefix : text <+: s := by
      obtain ⟨⟨inner, rfl⟩, -⟩ := object
      exact isPrefix_of_notMem ⟨rest, split.symm⟩ absent
    obtain ⟨more, rfl⟩ := isPrefix
    exact ⟨more, object.2 more⟩
  · rintro ⟨rest, scanned⟩
    obtain ⟨text, object, rfl⟩ := Json.scanOnce_object_iff.mp scanned
    exact ⟨rest ++ back, by rw [List.append_assoc, object.2]⟩

theorem exists_last {c : CodePoint} (member : c ∈ s) : ∃ inner after, s = inner ++ c :: after ∧ c ∉ after := by
  obtain ⟨after, inner, same, absent⟩ := List.eq_append_cons_of_mem (List.mem_reverse.mpr member)
  refine ⟨inner.reverse, after.reverse, ?_, by rwa [List.mem_reverse]⟩
  rw [← List.reverse_reverse s, same]
  simp

theorem proseEmbedded_cases (nesting : Nat) (x : Str) :
    proseEmbedded nesting x = none ∨ ∃ inner after,
      fromBrace x = .ofChar '{' :: inner ++ [.ofChar '}'] ++ after ∧ .ofChar '}' ∉ after ∧
        proseEmbedded nesting x = some (Json.decode nesting (.ofChar '{' :: inner ++ [.ofChar '}'])) := by
  rcases fromBrace_cases x with ⟨-, absent⟩ | ⟨before, t, rfl, absent, found⟩
  · left
    rw [proseEmbedded, Pattern.search_eq_none]
    · rfl
    · intro u suffix
      cases u with
      | nil => rfl
      | cons c u =>
          apply braceRe_eq_nil
          rintro rfl
          exact absent (suffix.subset List.mem_cons_self)
  · by_cases closing : .ofChar '}' ∈ t
    · obtain ⟨inner, after, rfl, last⟩ := exists_last closing
      refine .inr ⟨inner, after, by rw [found]; simp, last, ?_⟩
      rw [proseEmbedded, ← List.cons_append, search_braceRe absent last]
      rfl
    · left
      rw [proseEmbedded, search_braceRe_eq_none absent closing]
      rfl

theorem rawDecode_eq (nesting : Nat) (x : Str) :
    rawDecode nesting x =
      if fromBrace x = [] then none else some ((Json.scanOnce nesting (fromBrace x)).map Prod.fst) := by
  have same : (x.dropWhile fun c => !c.is '{') = fromBrace x := rfl
  rw [rawDecode, same]
  cases fromBrace x with
  | nil => rfl
  | cons c s => rfl

theorem strategies_of_noFence (noFence : ¬Str.ofString "```" <:+: x) :
    strategies nesting x =
      plain nesting x :: (proseEmbedded nesting x).toList ++ (rawDecode nesting x).toList := by
  obtain ⟨noJson, noBare⟩ := fenced_eq_none nesting noFence
  rw [strategies, noJson, noBare]
  rfl

theorem scanOnce_of_decode {text : Str} (decoded : Json.decode nesting text = .ok (.object members)) :
    ∃ rest, Json.scanOnce nesting (fromBrace text) = .ok (.object members, rest) := by
  obtain ⟨front, object, back, rfl, blank, reads, -⟩ := Json.decode_object_iff.mp decoded
  obtain ⟨⟨inner, rfl⟩, again⟩ := id reads
  refine ⟨back, ?_⟩
  rw [List.append_assoc, fromBrace_append (brace_not_blank blank), List.cons_append, List.cons_append,
    fromBrace_cons, ← List.cons_append, ← List.cons_append, again]

theorem scanOnce_of_mem_strategies (noFence : ¬Str.ofString "```" <:+: x) (trimmed : Re.strip x = x)
    (found : .ok (.object members) ∈ strategies nesting x) :
    ∃ rest, Json.scanOnce nesting (fromBrace x) = .ok (.object members, rest) := by
  rw [strategies_of_noFence noFence] at found
  rcases List.mem_append.mp found with found | found
  · rcases List.mem_cons.mp found with whole | found
    · rw [plain, trimmed] at whole
      exact scanOnce_of_decode whole.symm
    · rcases proseEmbedded_cases nesting x with none | ⟨inner, after, same, last, some⟩
      · rw [none] at found
        cases found
      · rw [some, Option.toList_some, List.mem_singleton] at found
        rw [same, scanOnce_append_iff last]
        exact scanOnce_of_decode found.symm
  · rw [rawDecode_eq] at found
    split_ifs at found
    · cases found
    · rw [Option.toList_some, List.mem_singleton] at found
      obtain ⟨⟨value, rest⟩, scanned, same⟩ := Json.map_eq_ok found.symm
      cases same
      exact ⟨rest, scanned⟩

theorem passes_of_decode_append {text : Str} (more : Str) (object : Json.ObjectText nesting members text) :
    Json.decode nesting (text ++ more) = .ok (.object members) ∨
      Json.decode nesting (text ++ more) = .error .jsonDecodeError := by
  obtain ⟨⟨inner, rfl⟩, again⟩ := object
  have skipped : Json.skip (.ofChar '{' :: inner ++ [.ofChar '}'] ++ more) =
      .ofChar '{' :: inner ++ [.ofChar '}'] ++ more := by
    rw [List.cons_append, List.cons_append]
    exact Json.skip_cons rfl _
  rw [Json.decode, skipped, again]
  dsimp only
  split_ifs
  · exact .inl rfl
  · exact .inr rfl

theorem firstDict_strategies {snippet rest : Str} (noFence : ¬Str.ofString "```" <:+: x)
    (trimmed : Re.strip x = x)
    (scanned : Json.scanOnce nesting (fromBrace x) = .ok (.object members, rest))
    (quiet : ∀ e, Json.decode nesting x = .error e → e = .jsonDecodeError) :
    firstDict snippet (strategies nesting x) = .ok members := by
  have unique : ∀ others, .ok (.object others) ∈ strategies nesting x → others = members := by
    intro others member
    obtain ⟨rest', scanned'⟩ := scanOnce_of_mem_strategies noFence trimmed member
    rw [scanned] at scanned'
    cases scanned'
    rfl
  rw [strategies_of_noFence noFence] at unique ⊢
  rcases result_cases (plain nesting x) with passes | ⟨others, found⟩ | ⟨e, failed, other⟩
  · rw [List.cons_append, firstDict_of_passes passes]
    have raw : rawDecode nesting x = some (.ok (.object members)) := by
      rw [rawDecode_eq, scanned]
      apply if_neg
      intro none
      rw [none, Json.scanOnce.eq_def] at scanned
      cases scanned
    rcases proseEmbedded_cases nesting x with none | ⟨inner, after, same, last, some⟩
    · rw [none, raw]
      rfl
    · obtain ⟨more, cut⟩ := (scanOnce_append_iff last).mp ⟨rest, same ▸ scanned⟩
      obtain ⟨text, object, whole⟩ := Json.scanOnce_object_iff.mp cut
      rw [some, raw, whole]
      rcases passes_of_decode_append more object with found | passes
      · rw [found]
        rfl
      · rw [passes]
        rfl
  · rw [found] at unique ⊢
    rw [unique others List.mem_cons_self]
    rfl
  · rw [plain, trimmed] at failed
    exact absurd (quiet e failed) other

theorem objectAt_firstBrace_strip_iff :
    ObjectAt nesting x (firstBrace x) members ↔
      ∃ rest, Json.scanOnce nesting (fromBrace (Re.strip x)) = .ok (.object members, rest) := by
  obtain ⟨front, back, same, left, right, -⟩ := trim_spec Re.isSpace x
  have notSpace : ∀ c : Char, Re.isSpace (.ofChar c) = false → ∀ part : Str,
      (∀ d ∈ part, Re.isSpace d = true) → .ofChar c ∉ part := by
    intro c visible part spaces member
    rw [spaces _ member] at visible
    cases visible
  rw [objectAt_firstBrace_iff]
  have whole : fromBrace x = fromBrace (Re.strip x ++ back) := by
    conv_lhs => rw [same, List.append_assoc]
    exact fromBrace_append (notSpace '{' rfl front left) _
  rcases fromBrace_cases (Re.strip x) with ⟨none, absent⟩ | ⟨before, t, split, absent, found⟩
  · have none' : fromBrace x = [] := by
      rw [whole, fromBrace_append absent]
      rcases fromBrace_cases back with ⟨none', -⟩ | ⟨before, t, same', -, -⟩
      · exact none'
      · exact absurd (same' ▸ by simp) (notSpace '{' rfl back right)
    rw [none, none']
  · have found' : fromBrace x = fromBrace (Re.strip x) ++ back := by
      rw [whole, found, split, List.append_assoc, fromBrace_append absent]
      rfl
    rw [found', scanOnce_append_iff (notSpace '}' rfl back right)]

theorem safeJsonParse_of_not_hasBlock (noBlock : ¬HasBlock alnum x) :
    safeJsonParse alnum nesting x = firstDict (x.take 200) (strategies nesting (Re.strip x)) := by
  rw [safeJsonParse, stripReasoningBlocks_of_not_hasBlock noBlock]

theorem exists_leftmost {i : Nat} (object : ObjectAt nesting x i members) :
    ∃ j others, ObjectAt nesting x j others ∧ ∀ k other, ObjectAt nesting x k other → j ≤ k := by
  classical
  have some : ∃ j, ∃ others, ObjectAt nesting x j others := ⟨i, members, object⟩
  obtain ⟨others, first⟩ := Nat.find_spec some
  exact ⟨Nat.find some, others, first, fun k other found => Nat.find_min' some ⟨other, found⟩⟩

theorem FindsFirst.at_firstBrace (law : FindsFirst alnum nesting x) (noFence : ¬Str.ofString "```" <:+: x)
    (noBlock : ¬HasBlock alnum x) {i : Nat} (object : ObjectAt nesting x i members) :
    (∃ others, ObjectAt nesting x (firstBrace x) others) ∧
      ∀ e, Json.decode nesting (Re.strip x) = .error e → e = .jsonDecodeError := by
  have trimmed : Re.strip (Re.strip x) = Re.strip x := trim_trim x
  have noFence' : ¬Str.ofString "```" <:+: Re.strip x := fun inside => noFence (inside.trans (trim_isInfix x))
  obtain ⟨j, others, first, least⟩ := exists_leftmost object
  have found := law.finds j others first least
  rw [safeJsonParse_of_not_hasBlock noBlock] at found
  have scanned := scanOnce_of_mem_strategies noFence' trimmed (mem_of_firstDict_ok found)
  refine ⟨⟨others, objectAt_firstBrace_strip_iff.mpr scanned⟩, fun e failed => ?_⟩
  -- an error of the first strategy would have been the answer
  by_contra other
  rw [strategies, plain, trimmed, failed, List.cons_append, List.cons_append, List.cons_append,
    firstDict_escaped other] at found
  cases found

theorem findsFirst_of_firstBrace (noFence : ¬Str.ofString "```" <:+: x) (noBlock : ¬HasBlock alnum x)
    (object : ObjectAt nesting x (firstBrace x) members)
    (quiet : ∀ e, Json.decode nesting (Re.strip x) = .error e → e = .jsonDecodeError) :
    FindsFirst alnum nesting x := by
  have noFence' : ¬Str.ofString "```" <:+: Re.strip x := fun inside => noFence (inside.trans (trim_isInfix x))
  obtain ⟨rest, scanned⟩ := objectAt_firstBrace_strip_iff.mp object
  have found : safeJsonParse alnum nesting x = .ok members := by
    rw [safeJsonParse_of_not_hasBlock noBlock]
    exact firstDict_strategies noFence' (trim_trim x) scanned quiet
  constructor
  · intro i others first least
    rw [found, object.unique (first.at_firstBrace (least _ _ object))]
  · intro snippet failed
    rw [found] at failed
    cases failed

/-- Without triple backticks and reasoning blocks. -/
theorem findsFirst_iff (noFence : ¬Str.ofString "```" <:+: x) (noBlock : ¬HasBlock alnum x) :
    FindsFirst alnum nesting x ↔
      (∀ i members, ¬ObjectAt nesting x i members) ∨
        (∃ members, ObjectAt nesting x (firstBrace x) members) ∧
          ∀ e, Json.decode nesting (Re.strip x) = .error e → e = .jsonDecodeError := by
  constructor
  · intro law
    by_cases none : ∀ i members, ¬ObjectAt nesting x i members
    · exact .inl none
    · push Not at none
      obtain ⟨i, members, object⟩ := none
      exact .inr (law.at_firstBrace noFence noBlock object)
  · rintro (none | ⟨⟨members, object⟩, quiet⟩)
    · exact ⟨fun i members object => absurd object (none i members), fun _ _ => none⟩
    · exact findsFirst_of_firstBrace noFence noBlock object quiet

theorem findsFirst_iff_prose :
    FindsFirst (fun _ => false) 1000 (Str.ofString "Here: {}.") ↔
      (∀ i members, ¬ObjectAt 1000 (Str.ofString "Here: {}.") i members) ∨
        (∃ members, ObjectAt 1000 (Str.ofString "Here: {}.") (firstBrace (Str.ofString "Here: {}.")) members) ∧
          ∀ e, Json.decode 1000 (Re.strip (Str.ofString "Here: {}.")) = .error e → e = .jsonDecodeError :=
  findsFirst_iff (by decide) (not_hasBlock_of_notMem (by decide))

theorem brace_hides_dict : ¬FindsFirst (fun _ => false) 1000 (Str.ofString "{x} {}") := by
  intro law
  have object : ObjectAt 1000 (Str.ofString "{x} {}") 4 [] := ⟨Str.ofString "{}", by decide, rfl⟩
  have noFence : ¬Str.ofString "```" <:+: Str.ofString "{x} {}" := by decide
  have noBlock : ¬HasBlock (fun _ => false) (Str.ofString "{x} {}") := not_hasBlock_of_notMem (by decide)
  obtain ⟨⟨others, first⟩, -⟩ := law.at_firstBrace noFence noBlock object
  obtain ⟨rest, scanned⟩ := objectAt_firstBrace_iff.mp first
  have none : (Json.scanOnce 1000 (fromBrace (Str.ofString "{x} {}"))).isOk = false := by
    decide +kernel
  rw [scanned] at none
  cases none

end DecisionMaker.Core
