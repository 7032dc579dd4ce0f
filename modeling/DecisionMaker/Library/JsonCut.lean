import DecisionMaker.Library.JsonText

namespace DecisionMaker.Library.Json

open Library

structure Cuts (b : Str) : Prop where
  tick : ∃ t, b = .ofChar '`' :: t
  unclosed : ∀ u v, b = u ++ .ofChar '"' :: v → ∃ c ∈ u, c.val ≤ 0x1F

theorem Cuts.of_line {front : Str} (noQuote : .ofChar '"' ∉ front) (more : Str) :
    Cuts (.ofChar '`' :: front ++ .ofChar '\n' :: more) where
  tick := ⟨_, List.cons_append⟩
  unclosed u v same := by
    have absent : .ofChar '"' ∉ .ofChar '`' :: front := by
      rw [List.mem_cons, not_or]
      exact ⟨by decide, noQuote⟩
    rcases List.append_eq_append_iff.mp same with ⟨inside, rfl, rest⟩ | ⟨inside, split, rest⟩
    · cases inside with
      | nil => cases (List.cons.inj rest).1
      | cons c inside =>
          obtain ⟨rfl, -⟩ := List.cons.inj rest
          exact ⟨.ofChar '\n', by simp, by decide⟩
    · cases inside with
      | nil => cases (List.cons.inj rest).1
      | cons c inside =>
          obtain ⟨rfl, -⟩ := List.cons.inj rest
          exact absurd (split ▸ by simp) absent

/-- What is read of a text does not depend on whether `b` follows. -/
def EndsBefore {α : Type} (b : Str) (one : Str → Scan α) : Prop :=
  ∀ s, one (s ++ b) = (one s).map (Prod.map id (· ++ b))

variable {b : Str}

theorem hexDigit_printable {c : CodePoint} {d : Fin 16} (hex : hexDigit c = some d) : 0x1F < c.val := by
  unfold hexDigit at hex
  simp only [Char.reduceToNat] at hex
  split_ifs at hex <;> omega

theorem hex4_printable {a b c d x : CodePoint} (hex : hex4 a b c d = some x) :
    ∀ e ∈ [a, b, c, d], 0x1F < e.val := by
  unfold hex4 at hex
  split at hex
  · rename_i first second third fourth
    simp only [List.forall_mem_cons, List.not_mem_nil, false_implies, implies_true, and_true]
    exact ⟨hexDigit_printable first, hexDigit_printable second, hexDigit_printable third,
      hexDigit_printable fourth⟩
  · cases hex

theorem unescape_printable {e c : CodePoint} (known : unescape e = some c) : 0x1F < e.val := by
  have each : escapeLetters.all (fun x => (unescape (.ofChar x)).all
      fun _ => decide (0x1F < (CodePoint.ofChar x).val)) = true := by decide
  exact of_decide_eq_true (of_unescape (P := fun e _ => decide (0x1F < e.val)) each known)

theorem Spells.printable {text s : Str} (spells : Spells text s) :
    ∃ inner, text = inner ++ [.ofChar '"'] ∧ ∀ c ∈ inner, 0x1F < c.val := by
  have backslash : 0x1F < (CodePoint.ofChar '\\').val := by decide
  have letter : 0x1F < (CodePoint.ofChar 'u').val := by decide
  induction spells with
  | close => exact ⟨[], rfl, fun _ none => absurd none List.not_mem_nil⟩
  | @plain c _ _ _ _ visible _ ih =>
      obtain ⟨inner, rfl, rest⟩ := ih
      exact ⟨c :: inner, rfl, List.forall_mem_cons.mpr ⟨visible, rest⟩⟩
  | @short e _ _ _ _ known _ ih =>
      obtain ⟨inner, rfl, rest⟩ := ih
      refine ⟨.ofChar '\\' :: e :: inner, rfl, ?_⟩
      simp only [List.forall_mem_cons]
      exact ⟨backslash, unescape_printable known, rest⟩
  | @unit a b c d _ _ _ hex _ _ ih =>
      obtain ⟨inner, rfl, rest⟩ := ih
      refine ⟨.ofChar '\\' :: .ofChar 'u' :: ([a, b, c, d] ++ inner), rfl, ?_⟩
      rw [List.forall_mem_cons, List.forall_mem_cons, List.forall_mem_append]
      exact ⟨backslash, letter, hex4_printable hex, rest⟩
  | @pair a b c d _ a' b' c' d' _ _ _ hex _ hex' _ _ ih =>
      obtain ⟨inner, rfl, rest⟩ := ih
      refine ⟨.ofChar '\\' :: .ofChar 'u' :: ([a, b, c, d] ++
        .ofChar '\\' :: .ofChar 'u' :: ([a', b', c', d'] ++ inner)), rfl, ?_⟩
      simp only [List.forall_mem_cons (a := CodePoint.ofChar '\\'), List.forall_mem_cons (a := CodePoint.ofChar 'u'),
        List.forall_mem_append]
      exact ⟨backslash, letter, hex4_printable hex, backslash, letter, hex4_printable hex', rest⟩

theorem scanString_error {s : Str} {e : LoadsError} (failed : scanString s = .error e) :
    e = .jsonDecodeError := by
  have inside : ∀ {c : CodePoint} {scan : Scan Str}, Scan.push c scan = .error e → scan = .error e := by
    intro c scan pushed
    cases scan with
    | error e' => exact pushed
    | ok read => cases pushed
  fun_induction scanString s with
  | case1 | case3 | case5 | case6 | case8 | case10 | case15 =>
      cases failed
      rfl
  | case2 => cases failed
  | case4 _ _ _ _ _ ih | case7 _ _ _ _ _ _ _ _ ih | case9 _ _ _ _ _ _ _ _ _ _ _ _ _ ih => exact ih (inside failed)
  | case11 | case12 | case13 | case14 =>
      rename_i ih
      exact ih (inside failed)

theorem scanString_endsBefore (cuts : Cuts b) : EndsBefore b scanString := by
  intro s
  cases scanned : scanString s with
  | ok read =>
      obtain ⟨text, rfl, spells⟩ := exists_spells scanned
      rw [List.append_assoc, spells.scanned]
      rfl
  | error e =>
      rw [scanString_error scanned]
      cases further : scanString (s ++ b) with
      | error e' =>
          rw [scanString_error further]
          rfl
      | ok read =>
          obtain ⟨text, same, spells⟩ := exists_spells further
          rcases List.append_eq_append_iff.mp same with ⟨more, rfl, rest⟩ | ⟨more, rfl, -⟩
          · -- the closing quote would stand behind the cut, but a control character comes first
            obtain ⟨inner, closes, visible⟩ := spells.printable
            cases more using List.reverseRecOn with
            | nil =>
                have again := spells.scanned []
                rw [List.append_nil, List.append_nil, scanned] at again
                cases again
            | append_singleton more c =>
                rw [← List.append_assoc] at closes
                obtain ⟨rfl, quote⟩ := List.append_inj' closes rfl
                rw [quote, List.append_assoc] at rest
                obtain ⟨control, member, low⟩ := cuts.unclosed _ _ rest
                exact absurd (visible control (List.mem_append_right _ member)) (Nat.not_lt.mpr low)
          · rw [spells.scanned] at scanned
            cases scanned

theorem takeWhile_cut (cuts : Cuts b) {p : CodePoint → Bool} (other : p (.ofChar '`') = false) (s : Str) :
    (s ++ b).takeWhile p = s.takeWhile p ∧ (s ++ b).dropWhile p = s.dropWhile p ++ b := by
  obtain ⟨t, rfl⟩ := cuts.tick
  induction s with
  | nil =>
      rw [List.nil_append, List.takeWhile_cons, List.dropWhile_cons, other]
      exact ⟨rfl, rfl⟩
  | cons c s ih =>
      rw [List.cons_append, List.takeWhile_cons, List.takeWhile_cons, List.dropWhile_cons, List.dropWhile_cons]
      split_ifs
      · exact ⟨congrArg (c :: ·) ih.1, ih.2⟩
      · exact ⟨rfl, rfl⟩

theorem scanSign_append (cuts : Cuts b) (s : Str) : scanSign (s ++ b) = (scanSign s).map id (· ++ b) := by
  obtain ⟨t, rfl⟩ := cuts.tick
  cases s with
  | nil => rfl
  | cons c s =>
      rw [List.cons_append, scanSign, scanSign]
      split_ifs <;> rfl

theorem scanInteger_append (cuts : Cuts b) (s : Str) :
    scanInteger (s ++ b) = (scanInteger s).map (Prod.map id (· ++ b)) := by
  cases s with
  | nil =>
      obtain ⟨t, rfl⟩ := cuts.tick
      rfl
  | cons c s =>
      obtain ⟨taken, dropped⟩ := takeWhile_cut cuts (p := isDigit) rfl s
      rw [List.cons_append, scanInteger, scanInteger, taken, dropped]
      split_ifs <;> rfl

theorem scanFraction_append (cuts : Cuts b) (s : Str) :
    scanFraction (s ++ b) = (scanFraction s).map (Prod.map id (· ++ b)) := by
  rcases s with _ | ⟨dot, _ | ⟨d, s⟩⟩
  · obtain ⟨t, rfl⟩ := cuts.tick
    cases t <;> rfl
  · obtain ⟨t, rfl⟩ := cuts.tick
    have noDigit : isDigit (.ofChar '`') = false := rfl
    rw [List.singleton_append, scanFraction, noDigit, Bool.and_false, if_neg Bool.false_ne_true]
    rfl
  · obtain ⟨taken, dropped⟩ := takeWhile_cut cuts (p := isDigit) rfl s
    rw [List.cons_append, List.cons_append, scanFraction, scanFraction, taken, dropped]
    split_ifs <;> rfl

theorem exponentDigits_append (cuts : Cuts b) (negative : Bool) (s : Str) :
    exponentDigits negative (s ++ b) = (exponentDigits negative s).map (Prod.map id (· ++ b)) := by
  obtain ⟨taken, dropped⟩ := takeWhile_cut cuts (p := isDigit) rfl s
  simp only [exponentDigits, taken, dropped]
  split_ifs <;> rfl

theorem scanExponent_append (cuts : Cuts b) (s : Str) :
    scanExponent (s ++ b) = (scanExponent s).map (Prod.map id (· ++ b)) := by
  rcases s with _ | ⟨e, s⟩
  · obtain ⟨t, rfl⟩ := cuts.tick
    rfl
  · by_cases isE : (e.is 'e' || e.is 'E') = true
    · cases s with
      | nil =>
          have alone : scanExponent [e] = none := by
            rw [scanExponent, if_pos isE]
            rfl
          obtain ⟨t, rfl⟩ := cuts.tick
          rw [List.singleton_append, scanExponent_cons isE, alone, if_neg (by decide), if_neg (by decide)]
          exact exponentDigits_append cuts false []
      | cons c s =>
          rw [List.cons_append, List.cons_append, scanExponent_cons isE, scanExponent_cons isE]
          split_ifs
          · exact exponentDigits_append cuts true s
          · exact exponentDigits_append cuts false s
          · exact exponentDigits_append cuts false (c :: s)
    · have none : ∀ t, scanExponent (e :: t) = none := by
        intro t
        rw [scanExponent.eq_def]
        dsimp only
        rw [if_neg isE]
      rw [List.cons_append, none, none]
      rfl

theorem numberRest_append (cuts : Cuts b) (negative : Bool) (digits s : Str) :
    numberRest negative digits (s ++ b) = (numberRest negative digits s).map (Prod.map id (· ++ b)) := by
  rw [numberRest, numberRest, scanFraction_append cuts, scanExponent_append cuts]
  cases scanFraction s with
  | some read =>
      obtain ⟨fraction, rest⟩ := read
      dsimp only [Option.map_some, Prod.map_apply, id_eq]
      rw [scanExponent_append cuts]
      cases scanExponent rest <;> rfl
  | none =>
      cases scanExponent s with
      | some read => rfl
      | none =>
          dsimp only [Option.map_none]
          split_ifs <;> rfl

theorem scanNumber_of_none {s : Str} (none : scanInteger (scanSign s).2 = none) :
    scanNumber s = .error .jsonDecodeError := by
  unfold scanNumber
  dsimp only
  rw [none]

theorem scanNumber_endsBefore (cuts : Cuts b) : EndsBefore b scanNumber := by
  intro s
  have sign := scanSign_append cuts s
  have integer := scanInteger_append cuts (scanSign s).2
  cases digits : scanInteger (scanSign s).2 with
  | none =>
      rw [digits] at integer
      rw [scanNumber_of_none digits, scanNumber_of_none]
      · rfl
      · rw [sign]
        exact integer
  | some read =>
      rw [digits] at integer
      rw [scanNumber_eq rfl digits, scanNumber_eq sign integer]
      exact numberRest_append cuts _ _ _

theorem dropPrefix?_append {text t : Str} {c : CodePoint} (absent : c ∉ text) (s : Str) :
    (s ++ c :: t).dropPrefix? text = (s.dropPrefix? text).map (· ++ c :: t) := by
  induction text generalizing s with
  | nil => rw [List.dropPrefix?, List.dropPrefix?, Option.map_some]
  | cons d text ih =>
      rw [List.mem_cons, not_or] at absent
      cases s with
      | nil =>
          have other : (c == d) = false := beq_false_of_ne absent.1
          simp only [List.nil_append, List.dropPrefix?, other, Bool.false_eq_true, if_false, Option.map_none]
      | cons a s =>
          rw [List.cons_append, List.dropPrefix?, List.dropPrefix?]
          split_ifs
          · exact ih absent.2 s
          · rfl

theorem scanConstant_append (cuts : Cuts b) (s : Str) :
    scanConstant (s ++ b) = (scanConstant s).map (Prod.map id (· ++ b)) := by
  obtain ⟨t, rfl⟩ := cuts.tick
  have names : ∀ c ∈ constants, .ofChar '`' ∉ Str.ofString c.1 := by decide
  rw [scanConstant, scanConstant, List.map_findSome?, ← List.head?_filterMap, ← List.head?_filterMap]
  apply congrArg
  apply List.filterMap_congr
  rintro ⟨name, value⟩ member
  dsimp only [Function.comp_apply]
  rw [dropPrefix?_append (names _ member)]
  cases s.dropPrefix? (Str.ofString name) <;> rfl

theorem skip_append (cuts : Cuts b) (s : Str) : skip (s ++ b) = skip s ++ b :=
  (takeWhile_cut cuts (p := isSpace) rfl s).2

section Containers

variable {α : Type} {one : Str → Scan α} {close : Char}

theorem scanElements_append (cuts : Cuts b) (ends : EndsBefore b one)
    (closes : (CodePoint.ofChar '`').is close = false) (fuel : Nat) (s : Str) :
    scanElements one close fuel (s ++ b) = (scanElements one close fuel s).map (Prod.map id (· ++ b)) := by
  induction fuel generalizing s with
  | zero => rfl
  | succ fuel ih =>
      rw [scanElements, scanElements, ends s]
      cases first : one s with
      | error e => rfl
      | ok read =>
          obtain ⟨a, rest⟩ := read
          dsimp only [Except.map, Prod.map_apply, id_eq]
          rw [skip_append cuts]
          cases found : skip rest with
          | nil =>
              obtain ⟨t, rfl⟩ := cuts.tick
              dsimp only [List.nil_append]
              rw [closes, if_neg Bool.false_ne_true]
              rfl
          | cons c rest =>
              dsimp only [List.cons_append]
              split_ifs
              · rfl
              · rw [skip_append cuts, ih]
                cases scanElements one close fuel (skip rest) <;> rfl
              · rfl

theorem scanContainer_endsBefore (cuts : Cuts b) (ends : EndsBefore b one) (shortens : Shortens one)
    (empty : one [] = .error .jsonDecodeError) (closes : (CodePoint.ofChar '`').is close = false) :
    EndsBefore b (scanContainer one close) := by
  intro s
  rw [scanContainer, scanContainer, skip_append cuts]
  cases found : skip s with
  | nil =>
      obtain ⟨t, rfl⟩ := cuts.tick
      dsimp only [List.nil_append]
      rw [closes, if_neg Bool.false_ne_true, ← List.nil_append (.ofChar '`' :: t),
        scanElements_append cuts ends closes, scanElements, empty]
      rfl
  | cons c rest =>
      dsimp only [List.cons_append]
      split_ifs
      · rfl
      · rw [← List.cons_append, scanElements_append cuts ends closes]
        apply congrArg
        apply scanElements_fuel shortens close
        · rw [List.length_append, List.length_cons]
          omega
        · exact Nat.lt_succ_self _

end Containers

theorem scanMember_endsBefore (cuts : Cuts b) {scan : Str → Scan Json} (ends : EndsBefore b scan) :
    EndsBefore b (scanMember scan) := by
  intro s
  cases s with
  | nil =>
      obtain ⟨t, rfl⟩ := cuts.tick
      rfl
  | cons q s =>
      rw [List.cons_append, scanMember, scanMember]
      split_ifs with quote
      · rfl
      · rw [scanString_endsBefore cuts]
        cases scanString s with
        | error e => rfl
        | ok read =>
            obtain ⟨key, rest⟩ := read
            dsimp only [Except.map, Prod.map_apply, id_eq]
            rw [skip_append cuts]
            cases skip rest with
            | nil =>
                obtain ⟨t, rfl⟩ := cuts.tick
                rfl
            | cons c rest =>
                dsimp only [List.cons_append]
                split_ifs
                · rfl
                · rw [skip_append cuts, ends]
                  cases scan (skip rest) <;> rfl

theorem scanOnce_nil (nesting : Nat) : scanOnce nesting [] = .error .jsonDecodeError := by
  rw [scanOnce.eq_def]

theorem scanOnce_tick (nesting : Nat) (t : Str) :
    scanOnce nesting (.ofChar '`' :: t) = .error .jsonDecodeError := by
  rw [scanOnce.eq_def]
  rfl

theorem scanOnce_endsBefore_of {nesting : Nat} (cuts : Cuts b)
    (inside : ∀ inner, nesting = inner + 1 → EndsBefore b (scanOnce inner)) : EndsBefore b (scanOnce nesting) := by
  intro s
  cases s with
  | nil =>
      obtain ⟨t, rfl⟩ := cuts.tick
      rw [List.nil_append, scanOnce_nil, scanOnce_tick]
      rfl
  | cons c s =>
      rw [List.cons_append, scanOnce.eq_def, scanOnce.eq_def]
      dsimp only
      split_ifs with quote brace bracket
      · rw [scanString_endsBefore cuts]
        cases scanString s <;> rfl
      · cases nesting with
        | zero => rfl
        | succ inner =>
            have ends := scanMember_endsBefore cuts (inside inner rfl)
            have shortens := scanMember_shortens (scanOnce_shortens inner)
            dsimp only
            rw [scanObject, scanObject, scanContainer_endsBefore cuts ends shortens rfl rfl]
            cases scanContainer (scanMember (scanOnce inner)) '}' s <;> rfl
      · cases nesting with
        | zero => rfl
        | succ inner =>
            dsimp only
            rw [scanArray, scanArray, scanContainer_endsBefore cuts (inside inner rfl) (scanOnce_shortens inner)
              (scanOnce_nil inner) rfl]
            cases scanContainer (scanOnce inner) ']' s <;> rfl
      · rw [← List.cons_append, scanConstant_append cuts]
        cases scanConstant (c :: s) with
        | some read => rfl
        | none => exact scanNumber_endsBefore cuts (c :: s)

theorem scanOnce_endsBefore (cuts : Cuts b) (nesting : Nat) : EndsBefore b (scanOnce nesting) := by
  induction nesting with
  | zero => exact scanOnce_endsBefore_of cuts fun inner none => by cases none
  | succ nesting ih =>
      apply scanOnce_endsBefore_of cuts
      intro inner same
      cases same
      exact ih

theorem decode_append (cuts : Cuts b) (nesting : Nat) (s : Str) :
    decode nesting (s ++ b) = (decode nesting s).bind fun _ => .error .jsonDecodeError := by
  rw [decode, decode, skip_append cuts, scanOnce_endsBefore cuts]
  cases scanOnce nesting (skip s) with
  | error e => rfl
  | ok read =>
      obtain ⟨value, rest⟩ := read
      dsimp only [Except.map, Prod.map_apply, id_eq]
      have more : skip (rest ++ b) ≠ [] := by
        obtain ⟨t, rfl⟩ := cuts.tick
        rw [skip_append cuts]
        simp
      rw [if_neg more]
      split_ifs <;> rfl

end DecisionMaker.Library.Json
