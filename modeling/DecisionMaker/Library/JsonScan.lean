import DecisionMaker.Library.Json

namespace DecisionMaker.Library.Json

open Library

theorem map_eq_ok {α β : Type} {f : α → β} {scan : Except LoadsError α} {b : β}
    (mapped : scan.map f = .ok b) : ∃ a, scan = .ok a ∧ f a = b := by
  cases scan with
  | error e => cases mapped
  | ok a =>
      cases mapped
      exact ⟨a, rfl, rfl⟩

theorem exists_constant {s rest : Str} {value : Json} (scanned : scanConstant s = some (value, rest)) :
    ∃ c ∈ constants, value = c.2 ∧ s = Str.ofString c.1 ++ rest := by
  obtain ⟨⟨name, constant⟩, member, found⟩ := List.exists_of_findSome?_eq_some scanned
  obtain ⟨tail, stripped, same⟩ := Option.map_eq_some_iff.mp found
  cases same
  obtain ⟨front, rfl, isText⟩ := List.dropPrefix?_eq_some_iff.mp stripped
  exact ⟨_, member, rfl, by rw [beq_iff_eq.mp isText]⟩

inductive Elements {α : Type} (one : Str → Scan α) (close : Char) : Str → List α → Str → Prop
  | last {s after rest : Str} {a : α} (read : one s = .ok (a, after))
      (closed : skip after = .ofChar close :: rest) : Elements one close s [a] rest
  | more {s after t rest : Str} {a : α} {values : List α} (read : one s = .ok (a, after))
      (comma : skip after = .ofChar ',' :: t) (others : Elements one close (skip t) values rest) :
      Elements one close s (a :: values) rest

section Containers

variable {α : Type} {one : Str → Scan α} {close : Char} {s rest : Str} {values : List α}

theorem elements_of_scanElements {fuel : Nat} (scanned : scanElements one close fuel s = .ok (values, rest)) :
    Elements one close s values rest := by
  induction fuel generalizing s values with
  | zero => cases scanned
  | succ fuel ih =>
      rw [scanElements] at scanned
      split at scanned
      · cases scanned
      · rename_i a after read
        split at scanned
        · cases scanned
        · rename_i c t found
          split_ifs at scanned with closed comma
          · cases scanned
            rw [is_iff.mp closed] at found
            exact .last read found
          · obtain ⟨⟨others, last⟩, inner, same⟩ := map_eq_ok scanned
            cases same
            rw [is_iff.mp comma] at found
            exact .more read found (ih inner)

theorem scanContainer_cases (scanned : scanContainer one close s = .ok (values, rest)) :
    (values = [] ∧ skip s = .ofChar close :: rest) ∨
      ∃ c t, skip s = c :: t ∧ c.is close = false ∧ Elements one close (c :: t) values rest := by
  rw [scanContainer] at scanned
  split at scanned
  · cases scanned
  · rename_i c t found
    split_ifs at scanned with closed
    · cases scanned
      exact .inl ⟨rfl, by rw [found, is_iff.mp closed]⟩
    · exact .inr ⟨c, t, found, Bool.not_eq_true _ ▸ closed, elements_of_scanElements scanned⟩

end Containers

theorem scanMember_iff {scan : Str → Scan Json} {s rest : Str} {member : Str × Json} :
    scanMember scan s = .ok (member, rest) ↔
      ∃ t after v, s = .ofChar '"' :: t ∧ scanString t = .ok (member.1, after) ∧
        skip after = .ofChar ':' :: v ∧ scan (skip v) = .ok (member.2, rest) := by
  constructor
  · intro scanned
    cases s with
    | nil => cases scanned
    | cons q t =>
        rw [scanMember] at scanned
        split_ifs at scanned with quote
        split at scanned
        · cases scanned
        · rename_i key after keyScanned
          split at scanned
          · cases scanned
          · rename_i c v found
            split_ifs at scanned with colon
            obtain ⟨⟨value, last⟩, inner, same⟩ := map_eq_ok scanned
            cases same
            rw [eq_ofChar colon] at found
            exact ⟨t, after, v, by rw [eq_ofChar quote], keyScanned, found, inner⟩
  · rintro ⟨t, after, v, rfl, keyScanned, found, inner⟩
    rw [scanMember, is_ofChar, keyScanned]
    dsimp only
    rw [found]
    dsimp only
    rw [is_ofChar, inner]
    rfl

theorem scanOnce_quote (nesting : Nat) (s : Str) :
    scanOnce nesting (.ofChar '"' :: s) = (scanString s).map fun r => (.str r.1, r.2) := by
  rw [scanOnce.eq_def]
  rfl

theorem scanOnce_brace (nesting : Nat) (s : Str) :
    scanOnce (nesting + 1) (.ofChar '{' :: s) = scanObject (scanOnce nesting) s := by
  rw [scanOnce.eq_def]
  rfl

theorem scanOnce_bracket (nesting : Nat) (s : Str) :
    scanOnce (nesting + 1) (.ofChar '[' :: s) = scanArray (scanOnce nesting) s := by
  rw [scanOnce.eq_def]
  rfl

theorem scanOnce_constant (nesting : Nat) (rest : Str) :
    ∀ c ∈ constants, scanOnce nesting (Str.ofString c.1 ++ rest) = .ok (c.2, rest) := by
  intro c member
  simp only [constants, List.mem_cons, List.not_mem_nil, or_false] at member
  rcases member with rfl | rfl | rfl | rfl | rfl | rfl <;>
    simp [scanOnce.eq_def, scanConstant, constants, Str.ofString, List.dropPrefix?, ofChar_is_eq_false,
      ofChar_beq_eq_false]

theorem scanOnce_cases {nesting : Nat} {s rest : Str} {value : Json}
    (scanned : scanOnce nesting s = .ok (value, rest)) :
    (∃ t text, s = .ofChar '"' :: t ∧ scanString t = .ok (text, rest) ∧ value = .str text) ∨
      (∃ inner t members, nesting = inner + 1 ∧ s = .ofChar '{' :: t ∧
        scanContainer (scanMember (scanOnce inner)) '}' t = .ok (members, rest) ∧
          value = .object (dict members)) ∨
      (∃ inner t items, nesting = inner + 1 ∧ s = .ofChar '[' :: t ∧
        scanContainer (scanOnce inner) ']' t = .ok (items, rest) ∧ value = .array items) ∨
      (∃ c ∈ constants, value = c.2 ∧ s = Str.ofString c.1 ++ rest) ∨
      scanNumber s = .ok (value, rest) := by
  cases s with
  | nil =>
      rw [scanOnce.eq_def] at scanned
      cases scanned
  | cons c s =>
      rw [scanOnce.eq_def] at scanned
      dsimp only at scanned
      split_ifs at scanned with string object array
      · obtain ⟨⟨text, last⟩, inner, same⟩ := map_eq_ok scanned
        cases same
        exact .inl ⟨s, text, by rw [is_iff.mp string], inner, rfl⟩
      · cases nesting with
        | zero => cases scanned
        | succ nesting =>
            obtain ⟨⟨members, last⟩, inner, same⟩ := map_eq_ok scanned
            cases same
            exact .inr (.inl ⟨nesting, s, members, rfl, by rw [is_iff.mp object], inner, rfl⟩)
      · cases nesting with
        | zero => cases scanned
        | succ nesting =>
            obtain ⟨⟨items, last⟩, inner, same⟩ := map_eq_ok scanned
            cases same
            exact .inr (.inr (.inl ⟨nesting, s, items, rfl, by rw [is_iff.mp array], inner, rfl⟩))
      · split at scanned
        · rename_i read found
          cases scanned
          exact .inr (.inr (.inr (.inl (exists_constant found))))
        · exact .inr (.inr (.inr (.inr scanned)))

theorem scanOnce_induction {motive : Nat → Str → Json → Str → Prop}
    (string : ∀ nesting t text rest, scanString t = .ok (text, rest) →
      motive nesting (.ofChar '"' :: t) (.str text) rest)
    (object : ∀ nesting t members rest,
      (∀ s value rest, scanOnce nesting s = .ok (value, rest) → motive nesting s value rest) →
      scanContainer (scanMember (scanOnce nesting)) '}' t = .ok (members, rest) →
      motive (nesting + 1) (.ofChar '{' :: t) (.object (dict members)) rest)
    (array : ∀ nesting t items rest,
      (∀ s value rest, scanOnce nesting s = .ok (value, rest) → motive nesting s value rest) →
      scanContainer (scanOnce nesting) ']' t = .ok (items, rest) →
      motive (nesting + 1) (.ofChar '[' :: t) (.array items) rest)
    (constant : ∀ nesting, ∀ c ∈ constants, ∀ rest, motive nesting (Str.ofString c.1 ++ rest) c.2 rest)
    (number : ∀ nesting s value rest, scanNumber s = .ok (value, rest) → motive nesting s value rest)
    (nesting : Nat) (s : Str) (value : Json) (rest : Str) (scanned : scanOnce nesting s = .ok (value, rest)) :
    motive nesting s value rest := by
  induction nesting using Nat.strongRecOn generalizing s value rest with
  | ind nesting ih =>
      rcases scanOnce_cases scanned with ⟨t, text, rfl, read, rfl⟩ | ⟨inner, t, members, rfl, rfl, read, rfl⟩ |
        ⟨inner, t, items, rfl, rfl, read, rfl⟩ | ⟨c, member, rfl, rfl⟩ | read
      · exact string nesting t text rest read
      · exact object inner t members rest (ih inner (Nat.lt_succ_self _)) read
      · exact array inner t items rest (ih inner (Nat.lt_succ_self _)) read
      · exact constant nesting c member rest
      · exact number nesting s value rest read

def Shortens {α : Type} (one : Str → Scan α) : Prop :=
  ∀ s a rest, one s = .ok (a, rest) → rest.length < s.length

theorem length_skip_le (s : Str) : (skip s).length ≤ s.length := (List.dropWhile_suffix _).length_le

theorem length_lt_of_skip {s t : Str} {c : CodePoint} (skipped : skip s = c :: t) : t.length < s.length := by
  have shorter := length_skip_le s
  rwa [skipped, List.length_cons] at shorter

theorem Scan.push_eq_ok_iff {c : CodePoint} {scan : Scan Str} {s rest : Str} :
    Scan.push c scan = .ok (s, rest) ↔ ∃ tail, scan = .ok (tail, rest) ∧ s = c :: tail := by
  cases scan with
  | error e => simp [Scan.push, Except.map]
  | ok r => simp [Scan.push, Except.map, Prod.ext_iff, eq_comm, and_comm]

theorem scanString_shortens : Shortens scanString := by
  intro s
  fun_induction scanString s
  case case2 =>
    intro text rest scanned
    cases scanned
    exact Nat.lt_succ_self _
  case case1 | case3 | case5 | case6 | case8 | case10 | case15 =>
    intro text rest scanned
    cases scanned
  all_goals
    rename_i ih
    intro text rest scanned
    obtain ⟨tail, inner, -⟩ := Scan.push_eq_ok_iff.mp scanned
    have shorter := ih _ _ inner
    simp only [List.length_cons] at shorter ⊢
    omega

theorem length_scanSign_le (s : Str) : (scanSign s).2.length ≤ s.length := by
  cases s with
  | nil => rfl
  | cons c s =>
      rw [scanSign]
      split_ifs
      · exact Nat.le_succ _
      · exact Nat.le_refl _

theorem scanInteger_shortens {s digits rest : Str} (scanned : scanInteger s = some (digits, rest)) :
    rest.length < s.length := by
  cases s with
  | nil => cases scanned
  | cons c s =>
      have shorter := (List.dropWhile_suffix isDigit (l := s)).length_le
      rw [scanInteger] at scanned
      split_ifs at scanned <;> cases scanned
      · exact Nat.lt_succ_self _
      · exact Nat.lt_succ_of_le shorter

theorem scanFraction_shortens {s digits rest : Str} (scanned : scanFraction s = some (digits, rest)) :
    rest.length ≤ s.length := by
  rcases s with _ | ⟨dot, _ | ⟨d, s⟩⟩
  · cases scanned
  · cases scanned
  · have shorter := (List.dropWhile_suffix isDigit (l := s)).length_le
    rw [scanFraction] at scanned
    split_ifs at scanned
    cases scanned
    simp only [List.length_cons]
    omega

theorem scanExponent_shortens {s rest : Str} {n : Int} (scanned : scanExponent s = some (n, rest)) :
    rest.length ≤ s.length := by
  rcases s with _ | ⟨e, _ | ⟨sign, s⟩⟩
  · cases scanned
  · rw [scanExponent] at scanned
    split_ifs at scanned <;> cases scanned
  · have shorter := (List.dropWhile_suffix isDigit (l := s)).length_le
    have shorter' := (List.dropWhile_suffix isDigit (l := sign :: s)).length_le
    rw [scanExponent] at scanned
    split_ifs at scanned with isE minus plus
    all_goals
      dsimp only at scanned
      split_ifs at scanned
      all_goals
        cases scanned
        simp only [List.length_cons] at shorter' ⊢
        omega

theorem scanNumber_shortens : Shortens scanNumber := by
  intro s value rest scanned
  have signed := length_scanSign_le s
  unfold scanNumber at scanned
  dsimp only at scanned
  split at scanned
  · cases scanned
  · rename_i digits integerRest integer
    have shorter := scanInteger_shortens integer
    split at scanned
    · rename_i fraction fractionRest found
      have notLonger := scanFraction_shortens found
      cases exponent : scanExponent fractionRest with
      | none =>
          rw [exponent] at scanned
          cases scanned
          dsimp only [Option.getD_none]
          omega
      | some read =>
          rw [exponent] at scanned
          cases scanned
          have notLonger' := scanExponent_shortens exponent
          dsimp only [Option.getD_some]
          omega
    · rename_i exponent exponentRest _ found
      have notLonger := scanExponent_shortens found
      cases scanned
      omega
    · split_ifs at scanned
      cases scanned
      omega

theorem constant_ne_nil : ∀ c ∈ constants, Str.ofString c.1 ≠ [] := by
  simp [constants, Str.ofString]

section Containers

variable {α : Type} {one : Str → Scan α} {close : Char} {s rest : Str} {values : List α}

theorem Elements.shortens (shortens : Shortens one) (elements : Elements one close s values rest) :
    rest.length < s.length := by
  induction elements with
  | last read closed =>
      have shorter := shortens _ _ _ read
      have behind := length_lt_of_skip closed
      omega
  | @more s after t rest a values read comma others ih =>
      have shorter := shortens _ _ _ read
      have behind := length_lt_of_skip comma
      have skipped := length_skip_le t
      omega

theorem scanContainer_shortens (shortens : Shortens one) (close : Char) :
    Shortens (scanContainer one close) := by
  intro s values rest scanned
  rcases scanContainer_cases scanned with ⟨-, closed⟩ | ⟨c, t, found, -, elements⟩
  · exact length_lt_of_skip closed
  · have shorter := elements.shortens shortens
    have skipped := length_skip_le s
    rw [found] at skipped
    exact Nat.lt_of_lt_of_le shorter skipped

theorem scanElements_fuel (shortens : Shortens one) (close : Char)
    {fuel more : Nat} {s : Str} (enough : s.length < fuel) (also : s.length < more) :
    scanElements one close fuel s = scanElements one close more s := by
  induction fuel generalizing more s with
  | zero => exact absurd enough (Nat.not_lt_zero _)
  | succ fuel ih =>
      obtain ⟨more, rfl⟩ := Nat.exists_eq_succ_of_ne_zero (Nat.ne_zero_of_lt also)
      rw [scanElements, scanElements]
      cases first : one s with
      | error e => rfl
      | ok read =>
          have shorter := shortens _ _ _ first
          have skipped := length_skip_le read.2
          dsimp only
          cases found : skip read.2 with
          | nil => rfl
          | cons c rest =>
              rw [found, List.length_cons] at skipped
              have skipped' := length_skip_le rest
              dsimp only
              have left : (skip rest).length < fuel := by omega
              have right : (skip rest).length < more := by omega
              rw [ih left right]

theorem Elements.scanned (shortens : Shortens one) (noComma : (CodePoint.ofChar ',').is close = false)
    (elements : Elements one close s values rest) {fuel : Nat} (enough : s.length < fuel) :
    scanElements one close fuel s = .ok (values, rest) := by
  induction elements generalizing fuel with
  | last read closed =>
      obtain ⟨fuel, rfl⟩ := Nat.exists_eq_succ_of_ne_zero (Nat.ne_zero_of_lt enough)
      rw [scanElements, read]
      dsimp only
      rw [closed]
      dsimp only
      rw [is_ofChar, if_pos rfl]
  | @more s after t rest a values read comma others ih =>
      obtain ⟨fuel, rfl⟩ := Nat.exists_eq_succ_of_ne_zero (Nat.ne_zero_of_lt enough)
      have shorter := shortens _ _ _ read
      have behind := length_lt_of_skip comma
      have skipped := length_skip_le t
      have left : (skip t).length < fuel := by omega
      rw [scanElements, read]
      dsimp only
      rw [comma]
      dsimp only
      rw [noComma, if_neg Bool.false_ne_true, is_ofChar, if_pos rfl, ih left]
      rfl

theorem scanContainer_of_close (closed : skip s = .ofChar close :: rest) :
    scanContainer one close s = .ok ([], rest) := by
  rw [scanContainer, closed]
  dsimp only
  rw [is_ofChar, if_pos rfl]

theorem scanContainer_of_elements (shortens : Shortens one) (noComma : (CodePoint.ofChar ',').is close = false)
    {c : CodePoint} {t : Str} (found : skip s = c :: t) (other : c.is close = false)
    (elements : Elements one close (c :: t) values rest) : scanContainer one close s = .ok (values, rest) := by
  rw [scanContainer, found]
  dsimp only
  rw [other, if_neg Bool.false_ne_true]
  exact elements.scanned shortens noComma (Nat.lt_succ_self _)

end Containers

theorem scanMember_shortens {scan : Str → Scan Json} (shortens : Shortens scan) :
    Shortens (scanMember scan) := by
  intro s member rest scanned
  obtain ⟨t, after, v, rfl, keyScanned, found, inner⟩ := scanMember_iff.mp scanned
  have key := scanString_shortens _ _ _ keyScanned
  have behind := length_lt_of_skip found
  have skipped := length_skip_le v
  have shorter := shortens _ _ _ inner
  rw [List.length_cons]
  omega

theorem scanOnce_shortens (nesting : Nat) : Shortens (scanOnce nesting) := by
  refine scanOnce_induction (motive := fun _ s _ rest => rest.length < s.length)
    ?string ?object ?array ?constant ?number nesting
  case string =>
    intro nesting t text rest read
    exact Nat.lt_succ_of_lt (scanString_shortens _ _ _ read)
  case object =>
    intro nesting t members rest shortens read
    exact Nat.lt_succ_of_lt (scanContainer_shortens (scanMember_shortens shortens) _ _ _ _ read)
  case array =>
    intro nesting t items rest shortens read
    exact Nat.lt_succ_of_lt (scanContainer_shortens shortens _ _ _ _ read)
  case constant =>
    intro nesting c member rest
    have some := List.length_pos_iff.mpr (constant_ne_nil c member)
    rw [List.length_append]
    omega
  case number =>
    intro nesting s value rest read
    exact scanNumber_shortens _ _ _ read

theorem scanElements_scanOnce_fuel (nesting : Nat) {fuel : Nat} {s : Str} (enough : s.length < fuel) :
    scanElements (scanOnce nesting) ']' fuel s = scanElements (scanOnce nesting) ']' (s.length + 1) s ∧
      scanElements (scanMember (scanOnce nesting)) '}' fuel s =
        scanElements (scanMember (scanOnce nesting)) '}' (s.length + 1) s := by
  have shortens := scanOnce_shortens nesting
  exact ⟨scanElements_fuel shortens _ enough (Nat.lt_succ_self _),
    scanElements_fuel (scanMember_shortens shortens) _ enough (Nat.lt_succ_self _)⟩

end DecisionMaker.Library.Json
