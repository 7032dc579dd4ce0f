import DecisionMaker.Library.JsonRoundTrip
import Mathlib.Data.List.TakeWhile

namespace DecisionMaker.Library.Json

open Library

theorem noDigit_cons {c : CodePoint} (other : isDigit c = false) (s : Str) : NoDigit (c :: s) := by
  intro d member
  cases member
  exact other

def signText (negative : Bool) : Str := if negative then [.ofChar '-'] else []

theorem exists_sign {s rest : Str} {negative : Bool} (scanned : scanSign s = (negative, rest)) :
    s = signText negative ++ rest ∧
      ∀ c t, isDigit c = true → scanSign (signText negative ++ c :: t) = (negative, c :: t) := by
  have none : ∀ c t, isDigit c = true → scanSign (signText false ++ c :: t) = (false, c :: t) := by
    intro c t digit
    rw [isDigit_iff] at digit
    have notMinus : c.is '-' = false := is_eq_false (x := '-') (show c.val ≠ 45 by omega)
    exact if_neg (by rw [notMinus]; exact Bool.false_ne_true)
  cases s with
  | nil =>
      cases scanned
      exact ⟨rfl, none⟩
  | cons c s =>
      rw [scanSign] at scanned
      split_ifs at scanned with minus
      · cases scanned
        refine ⟨by rw [is_iff.mp minus]; rfl, fun d t _ => ?_⟩
        rw [signText, if_pos rfl, List.singleton_append, scanSign, is_ofChar, if_pos rfl]
      · cases scanned
        exact ⟨rfl, none⟩

theorem exists_integer {s digits rest : Str} (scanned : scanInteger s = some (digits, rest)) :
    s = digits ++ rest ∧ (∃ c t, digits = c :: t) ∧ (∀ c ∈ digits, isDigit c = true) ∧
      ∀ r, NoDigit r → scanInteger (digits ++ r) = some (digits, r) := by
  cases s with
  | nil => cases scanned
  | cons c s =>
      rw [scanInteger] at scanned
      split_ifs at scanned with zero digit
      · cases scanned
        refine ⟨rfl, ⟨c, [], rfl⟩, ?_, fun r _ => ?_⟩
        · rw [List.forall_mem_singleton, is_iff.mp zero]
          rfl
        · rw [List.singleton_append, scanInteger, if_pos zero]
      · cases scanned
        have all : ∀ d ∈ s.takeWhile isDigit, isDigit d = true := fun d => List.mem_takeWhile_imp
        refine ⟨by rw [List.cons_append, List.takeWhile_append_dropWhile], ⟨c, _, rfl⟩,
          List.forall_mem_cons.mpr ⟨digit, all⟩, fun r other => ?_⟩
        rw [List.cons_append, scanInteger, if_neg zero, if_pos digit, takeWhile_isDigit all other,
          dropWhile_isDigit all other]

theorem exists_fraction {s digits rest : Str} (scanned : scanFraction s = some (digits, rest)) :
    s = .ofChar '.' :: digits ++ rest ∧
      ∀ r, NoDigit r → scanFraction (.ofChar '.' :: digits ++ r) = some (digits, r) := by
  rcases s with _ | ⟨dot, _ | ⟨d, s⟩⟩
  · cases scanned
  · cases scanned
  · rw [scanFraction] at scanned
    split_ifs at scanned with both
    cases scanned
    rw [Bool.and_eq_true, is_iff] at both
    refine ⟨by rw [both.1, List.cons_append, List.cons_append, List.takeWhile_append_dropWhile], ?_⟩
    intro r other
    have all : ∀ c ∈ s.takeWhile isDigit, isDigit c = true := fun c => List.mem_takeWhile_imp
    rw [List.cons_append, List.cons_append, scanFraction, is_ofChar, both.2, takeWhile_isDigit all other,
      dropWhile_isDigit all other]
    rfl

def exponentDigits (negative : Bool) (s : Str) : Option (Int × Str) :=
  let digits := s.takeWhile isDigit
  if digits = [] then none
  else some (if negative then -(natOf digits : Int) else natOf digits, s.dropWhile isDigit)

theorem scanExponent_cons {e c : CodePoint} (isE : (e.is 'e' || e.is 'E') = true) (s : Str) :
    scanExponent (e :: c :: s) =
      if c.is '-' then exponentDigits true s
      else if c.is '+' then exponentDigits false s
      else exponentDigits false (c :: s) := by
  rw [scanExponent, if_pos isE]
  split_ifs <;> rfl

theorem exists_exponentDigits {s rest : Str} {n : Int} {negative : Bool}
    (scanned : exponentDigits negative s = some (n, rest)) :
    ∃ digits, s = digits ++ rest ∧ (∃ c t, digits = c :: t ∧ isDigit c = true) ∧
      ∀ r, NoDigit r → exponentDigits negative (digits ++ r) = some (n, r) := by
  simp only [exponentDigits] at scanned
  have all : ∀ c ∈ s.takeWhile isDigit, isDigit c = true := fun c => List.mem_takeWhile_imp
  by_cases none : s.takeWhile isDigit = []
  · rw [if_pos none] at scanned
    cases scanned
  · rw [if_neg none] at scanned
    cases scanned
    refine ⟨s.takeWhile isDigit, List.takeWhile_append_dropWhile.symm, ?_, fun r other => ?_⟩
    · cases digits : s.takeWhile isDigit with
      | nil => exact absurd digits none
      | cons c t => exact ⟨c, t, rfl, all c (by rw [digits]; exact List.mem_cons_self)⟩
    · simp only [exponentDigits, takeWhile_isDigit all other, dropWhile_isDigit all other, if_neg none]

theorem exists_exponent {s rest : Str} {n : Int} (scanned : scanExponent s = some (n, rest)) :
    ∃ e text, s = e :: text ++ rest ∧ (e.is 'e' || e.is 'E') = true ∧
      ∀ r, NoDigit r → scanExponent (e :: text ++ r) = some (n, r) := by
  rcases s with _ | ⟨e, s⟩
  · cases scanned
  · by_cases isE : (e.is 'e' || e.is 'E') = true
    · cases s with
      | nil => simp [scanExponent, isE] at scanned
      | cons c s =>
          rw [scanExponent_cons isE] at scanned
          split_ifs at scanned with minus plus
          · obtain ⟨digits, rfl, -, again⟩ := exists_exponentDigits scanned
            refine ⟨e, c :: digits, rfl, isE, fun r other => ?_⟩
            rw [List.cons_append, List.cons_append, scanExponent_cons isE, if_pos minus, again r other]
          · obtain ⟨digits, rfl, -, again⟩ := exists_exponentDigits scanned
            refine ⟨e, c :: digits, rfl, isE, fun r other => ?_⟩
            rw [List.cons_append, List.cons_append, scanExponent_cons isE, if_neg minus, if_pos plus,
              again r other]
          · obtain ⟨digits, same, ⟨d, t, rfl, -⟩, again⟩ := exists_exponentDigits scanned
            obtain ⟨rfl, -⟩ := List.cons.inj same
            refine ⟨e, c :: t, congrArg (e :: ·) same, isE, fun r other => ?_⟩
            rw [List.cons_append, List.cons_append, scanExponent_cons isE, if_neg minus, if_neg plus]
            exact again r other
    · rw [scanExponent.eq_def] at scanned
      dsimp only at scanned
      rw [if_neg isE] at scanned
      cases scanned

/-- What is read here does not depend on what stands behind it. -/
def Local {α : Type} (one : Str → Scan α) : Prop :=
  ∀ s a rest, one s = .ok (a, rest) →
    ∃ text, text ≠ [] ∧ s = text ++ rest ∧ ∀ r, Stops r → one (text ++ r) = .ok (a, r)

theorem Local.shortens {α : Type} {one : Str → Scan α} (inside : Local one) : Shortens one := by
  intro s a rest scanned
  obtain ⟨text, some, rfl, -⟩ := inside _ _ _ scanned
  rw [List.length_append]
  exact Nat.lt_add_of_pos_left (List.length_pos_iff.mpr some)

def Numeral (text : Str) : Prop :=
  ∃ c t, isDigit c = true ∧ (text = c :: t ∨ text = .ofChar '-' :: c :: t)

def numberRest (negative : Bool) (digits s : Str) : Scan Json :=
  match scanFraction s, scanExponent s with
  | some (fraction, s), _ =>
      let (exponent, s) := (scanExponent s).getD (0, s)
      .ok (.float (Binary64.ofDecimal negative (natOf (digits ++ fraction)) (exponent - fraction.length)), s)
  | none, some (exponent, s) => .ok (.float (Binary64.ofDecimal negative (natOf digits) exponent), s)
  | none, none =>
      if maxStrDigits < digits.length then .error .valueError
      else .ok (.int (signedInt negative (natOf digits)), s)

theorem scanNumber_eq {s t rest digits : Str} {negative : Bool} (sign : scanSign s = (negative, t))
    (integer : scanInteger t = some (digits, rest)) : scanNumber s = numberRest negative digits rest := by
  unfold scanNumber
  rw [sign]
  dsimp only
  rw [integer]
  rfl

theorem stops_e {e : CodePoint} (isE : (e.is 'e' || e.is 'E') = true) : isDigit e = false ∧ e.is '.' = false := by
  rcases Bool.or_eq_true_iff.mp isE with lower | upper
  · rw [is_iff.mp lower]
    exact ⟨rfl, rfl⟩
  · rw [is_iff.mp upper]
    exact ⟨rfl, rfl⟩

theorem scanFraction_e {e : CodePoint} (isE : (e.is 'e' || e.is 'E') = true) (s : Str) :
    scanFraction (e :: s) = none := by
  cases s with
  | nil => rfl
  | cons c s => rw [scanFraction, (stops_e isE).2, Bool.false_and, if_neg Bool.false_ne_true]

theorem exists_numberRest {negative : Bool} {digits s rest : Str} {value : Json}
    (scanned : numberRest negative digits s = .ok (value, rest)) :
    ∃ text, s = text ++ rest ∧ ∀ r, Stops r → NoDigit (text ++ r) ∧
      numberRest negative digits (text ++ r) = .ok (value, r) := by
  unfold numberRest at scanned
  cases fraction : scanFraction s with
  | some read =>
      obtain ⟨point, afterPoint⟩ := read
      obtain ⟨rfl, againPoint⟩ := exists_fraction fraction
      rw [fraction] at scanned
      dsimp only at scanned
      cases exponent : scanExponent afterPoint with
      | none =>
          rw [exponent] at scanned
          cases scanned
          refine ⟨.ofChar '.' :: point, rfl, fun r stops => ⟨noDigit_cons rfl _, ?_⟩⟩
          rw [numberRest, againPoint r stops.noDigit]
          dsimp only
          rw [scanExponent_stops stops]
          rfl
      | some read =>
          obtain ⟨n, afterExponent⟩ := read
          obtain ⟨e, text, rfl, isE, again⟩ := exists_exponent exponent
          rw [exponent] at scanned
          cases scanned
          refine ⟨.ofChar '.' :: point ++ (e :: text), by simp, fun r stops => ⟨noDigit_cons rfl _, ?_⟩⟩
          rw [numberRest, List.append_assoc, againPoint (e :: text ++ r) (noDigit_cons (stops_e isE).1 _)]
          dsimp only
          rw [again r stops.noDigit]
          rfl
  | none =>
      rw [fraction] at scanned
      cases exponent : scanExponent s with
      | some read =>
          obtain ⟨n, afterExponent⟩ := read
          obtain ⟨e, text, rfl, isE, again⟩ := exists_exponent exponent
          rw [exponent] at scanned
          cases scanned
          refine ⟨e :: text, rfl, fun r stops => ⟨noDigit_cons (stops_e isE).1 _, ?_⟩⟩
          rw [numberRest, again r stops.noDigit, List.cons_append, scanFraction_e isE]
      | none =>
          rw [exponent] at scanned
          dsimp only at scanned
          split_ifs at scanned with long
          cases scanned
          refine ⟨[], rfl, fun r stops => ⟨stops.noDigit, ?_⟩⟩
          rw [List.nil_append, numberRest, scanFraction_stops stops, scanExponent_stops stops]
          dsimp only
          rw [if_neg long]

theorem exists_number {s rest : Str} {value : Json} (scanned : scanNumber s = .ok (value, rest)) :
    ∃ text, Numeral text ∧ s = text ++ rest ∧ ∀ r, Stops r → scanNumber (text ++ r) = .ok (value, r) := by
  have halves : scanSign s = ((scanSign s).1, (scanSign s).2) := rfl
  obtain ⟨same, signed⟩ := exists_sign halves
  cases integer : scanInteger (scanSign s).2 with
  | none =>
      unfold scanNumber at scanned
      dsimp only at scanned
      rw [integer] at scanned
      cases scanned
  | some read =>
      obtain ⟨digits, afterDigits⟩ := read
      obtain ⟨split, ⟨c, t, rfl⟩, all, again⟩ := exists_integer integer
      have digit := all c List.mem_cons_self
      rw [scanNumber_eq halves integer] at scanned
      obtain ⟨text, rfl, tail⟩ := exists_numberRest scanned
      refine ⟨signText (scanSign s).1 ++ (c :: t) ++ text, ?_, ?_, fun r stops => ?_⟩
      · cases (scanSign s).1 with
        | false => exact ⟨c, t ++ text, digit, .inl rfl⟩
        | true => exact ⟨c, t ++ text, digit, .inr rfl⟩
      · rw [split] at same
        simpa only [List.append_assoc] using same
      · obtain ⟨other, read⟩ := tail r stops
        rw [List.append_assoc, List.append_assoc]
        exact (scanNumber_eq (signed c _ digit) (again _ other)).trans read

theorem Numeral.scanOnce_eq {text : Str} (numeral : Numeral text) (nesting : Nat) (rest : Str) :
    scanOnce nesting (text ++ rest) = scanNumber (text ++ rest) := by
  obtain ⟨c, t, digit, rfl | rfl⟩ := numeral
  · exact scanOnce_number (.inl digit) _ (scanConstant_digit digit _) nesting
  · exact scanOnce_number (.inr rfl) _ (scanConstant_minus digit _) nesting

theorem exists_blanks (s : Str) : ∃ blanks, s = blanks ++ skip s ∧ ∀ c ∈ blanks, isSpace c = true :=
  ⟨s.takeWhile isSpace, List.takeWhile_append_dropWhile.symm, fun _ => List.mem_takeWhile_imp⟩

theorem visible_of_skip {s t : Str} {c : CodePoint} (skipped : skip s = c :: t) : isSpace c = false := by
  have other := List.head?_dropWhile_not isSpace s
  rw [show s.dropWhile isSpace = c :: t from skipped] at other
  exact other

theorem skip_skip (s : Str) : skip (skip s) = skip s := by
  cases skipped : skip s with
  | nil => rfl
  | cons c t => exact skip_cons (visible_of_skip skipped) t

theorem stops_blanks {blanks : Str} (blank : ∀ c ∈ blanks, isSpace c = true) {c : CodePoint}
    (other : continuesNumber c = false) (s : Str) : Stops (blanks ++ c :: s) := by
  cases blanks with
  | nil => exact stops_cons other s
  | cons d blanks =>
      have space := blank d List.mem_cons_self
      simp only [isSpace, Bool.or_eq_true, is_iff] at space
      refine stops_cons ?_ _
      rcases space with ((rfl | rfl) | rfl) | rfl <;> rfl

section Containers

variable {α : Type} {one : Str → Scan α} {close : Char} {s rest : Str} {values : List α}

theorem elements_local (inside : Local one) (closes : close = ']' ∨ close = '}')
    (elements : Elements one close s values rest) :
    ∃ inner, s = inner ++ .ofChar close :: rest ∧ inner ≠ [] ∧
      ∀ r, Elements one close (inner ++ .ofChar close :: r) values r := by
  obtain ⟨closeVisible, closeStops, -⟩ := close_cases closes
  induction elements with
  | @last s after rest a read closed =>
      obtain ⟨text, some, rfl, again⟩ := inside _ _ _ read
      obtain ⟨blanks, same, blank⟩ := exists_blanks after
      rw [closed] at same
      refine ⟨text ++ blanks, by rw [same, List.append_assoc], by simp [some], fun r => ?_⟩
      rw [List.append_assoc]
      apply Elements.last
      · exact again _ (stops_blanks blank closeStops r)
      · rw [skip_blanks blank, skip_cons closeVisible]
  | @more s after t rest a values read comma others ih =>
      obtain ⟨text, some, rfl, again⟩ := inside _ _ _ read
      obtain ⟨blanks, same, blank⟩ := exists_blanks after
      obtain ⟨inner, split, someInner, againInner⟩ := ih
      obtain ⟨blanks', same', blank'⟩ := exists_blanks t
      rw [comma] at same
      refine ⟨text ++ blanks ++ .ofChar ',' :: blanks' ++ inner, ?_, by simp [some], fun r => ?_⟩
      · rw [same, same', split]
        simp
      have assoc : text ++ blanks ++ .ofChar ',' :: blanks' ++ inner ++ .ofChar close :: r =
          text ++ (blanks ++ .ofChar ',' :: (blanks' ++ (inner ++ .ofChar close :: r))) := by
        simp
      -- what follows the comma starts as it did
      have starts : skip (inner ++ .ofChar close :: r) = inner ++ .ofChar close :: r := by
        cases inner with
        | nil => exact absurd rfl someInner
        | cons d inner => exact skip_cons (visible_of_skip split) _
      rw [assoc]
      apply Elements.more
      · exact again _ (stops_blanks blank (c := .ofChar ',') rfl _)
      · rw [skip_blanks blank, skip_cons (c := .ofChar ',') rfl]
      · rw [skip_blanks blank', starts]
        exact againInner r

theorem scanContainer_local (inside : Local one) (closes : close = ']' ∨ close = '}')
    (scanned : scanContainer one close s = .ok (values, rest)) :
    ∃ inner, s = inner ++ .ofChar close :: rest ∧
      ∀ r, scanContainer one close (inner ++ .ofChar close :: r) = .ok (values, r) := by
  obtain ⟨closeVisible, -, noComma⟩ := close_cases closes
  obtain ⟨blanks, same, blank⟩ := exists_blanks s
  rcases scanContainer_cases scanned with ⟨rfl, closed⟩ | ⟨c, t, found, other, elements⟩
  · rw [closed] at same
    refine ⟨blanks, same, fun r => scanContainer_of_close ?_⟩
    rw [skip_blanks blank, skip_cons closeVisible]
  · obtain ⟨inner, split, some, again⟩ := elements_local inside closes elements
    rw [found, split] at same
    refine ⟨blanks ++ inner, by rw [same, List.append_assoc], fun r => ?_⟩
    cases inner with
    | nil => exact absurd rfl some
    | cons d inner =>
        obtain ⟨rfl, -⟩ := List.cons.inj split
        have skipped : skip (blanks ++ c :: inner ++ .ofChar close :: r) = c :: (inner ++ .ofChar close :: r) := by
          rw [List.append_assoc, skip_blanks blank]
          exact skip_cons (visible_of_skip found) _
        exact scanContainer_of_elements inside.shortens noComma skipped other (again r)

end Containers

theorem scanMember_local {scan : Str → Scan Json} (inside : Local scan) : Local (scanMember scan) := by
  intro s member rest scanned
  obtain ⟨t, after, v, rfl, keyScanned, found, inner⟩ := scanMember_iff.mp scanned
  obtain ⟨keyText, rfl, spells⟩ := exists_spells keyScanned
  obtain ⟨blanks, same, blank⟩ := exists_blanks after
  obtain ⟨blanks', same', blank'⟩ := exists_blanks v
  obtain ⟨text, some, split, again⟩ := inside _ _ _ inner
  rw [found] at same
  rw [split] at same'
  refine ⟨.ofChar '"' :: keyText ++ blanks ++ .ofChar ':' :: blanks' ++ text, by simp, ?_, fun r stops => ?_⟩
  · rw [same, same']
    simp
  have starts : skip (text ++ r) = text ++ r := by
    cases text with
    | nil => exact absurd rfl some
    | cons d text => exact skip_cons (visible_of_skip split) _
  apply scanMember_iff.mpr
  refine ⟨keyText ++ (blanks ++ .ofChar ':' :: (blanks' ++ (text ++ r))), _, blanks' ++ (text ++ r), by simp,
    spells.scanned _, ?_, ?_⟩
  · rw [skip_blanks blank, skip_cons (c := .ofChar ':') rfl]
  · rw [skip_blanks blank', starts]
    exact again r stops

def ObjectText (nesting : Nat) (members : List (Str × Json)) (text : Str) : Prop :=
  (∃ inner, text = .ofChar '{' :: inner ++ [.ofChar '}']) ∧
    ∀ rest, scanOnce nesting (text ++ rest) = .ok (.object members, rest)

theorem ObjectText.of_scanContainer {inner : Nat} (inside : Local (scanOnce inner)) {t rest : Str}
    {members : List (Str × Json)}
    (scanned : scanContainer (scanMember (scanOnce inner)) '}' t = .ok (members, rest)) :
    ∃ text, ObjectText (inner + 1) (dict members) text ∧ .ofChar '{' :: t = text ++ rest := by
  obtain ⟨between, rfl, again⟩ := scanContainer_local (scanMember_local inside) (.inr rfl) scanned
  refine ⟨.ofChar '{' :: between ++ [.ofChar '}'], ⟨⟨between, rfl⟩, fun r => ?_⟩, by simp⟩
  rw [List.cons_append, List.cons_append, List.append_assoc, scanOnce_brace, scanObject,
    List.singleton_append, again]
  rfl

theorem ObjectText.ne_nil {nesting : Nat} {members : List (Str × Json)} {text : Str}
    (object : ObjectText nesting members text) : text ≠ [] := by
  obtain ⟨⟨inner, rfl⟩, -⟩ := object
  exact List.cons_ne_nil _ _

theorem scanOnce_local (nesting : Nat) : Local (scanOnce nesting) := by
  refine scanOnce_induction (motive := fun nesting s value rest => ∃ text, text ≠ [] ∧ s = text ++ rest ∧
    ∀ r, Stops r → scanOnce nesting (text ++ r) = .ok (value, r)) ?string ?object ?array ?constant ?number nesting
  case string =>
    intro nesting t text rest read
    obtain ⟨spelled, rfl, spells⟩ := exists_spells read
    refine ⟨.ofChar '"' :: spelled, List.cons_ne_nil _ _, rfl, fun r _ => ?_⟩
    rw [List.cons_append, scanOnce_quote, spells.scanned]
    rfl
  case object =>
    intro nesting t members rest inside read
    obtain ⟨text, reads, same⟩ := ObjectText.of_scanContainer inside read
    exact ⟨text, reads.ne_nil, same, fun r _ => reads.2 r⟩
  case array =>
    intro nesting t items rest inside read
    obtain ⟨between, rfl, again⟩ := scanContainer_local inside (.inl rfl) read
    refine ⟨.ofChar '[' :: between ++ [.ofChar ']'], List.cons_ne_nil _ _, by simp, fun r _ => ?_⟩
    rw [List.cons_append, List.cons_append, List.append_assoc, scanOnce_bracket, scanArray,
      List.singleton_append, again]
    rfl
  case constant =>
    intro nesting c member rest
    exact ⟨Str.ofString c.1, constant_ne_nil c member, rfl, fun r _ => scanOnce_constant nesting r c member⟩
  case number =>
    intro nesting s value rest read
    obtain ⟨text, numeral, rfl, again⟩ := exists_number read
    refine ⟨text, ?_, rfl, fun r stops => (numeral.scanOnce_eq nesting r).trans (again r stops)⟩
    obtain ⟨c, t, -, rfl | rfl⟩ := numeral
    · exact List.cons_ne_nil _ _
    · exact List.cons_ne_nil _ _

theorem scanNumber_cases {s rest : Str} {value : Json} (scanned : scanNumber s = .ok (value, rest)) :
    (∃ n, value = .int n) ∨ ∃ bits, value = .float bits := by
  unfold scanNumber at scanned
  dsimp only at scanned
  split at scanned
  · cases scanned
  · split at scanned
    · cases scanned
      exact .inr ⟨_, rfl⟩
    · cases scanned
      exact .inr ⟨_, rfl⟩
    · split_ifs at scanned
      cases scanned
      exact .inl ⟨_, rfl⟩

theorem scanOnce_object_iff {nesting : Nat} {s rest : Str} {members : List (Str × Json)} :
    scanOnce nesting s = .ok (.object members, rest) ↔
      ∃ text, ObjectText nesting members text ∧ s = text ++ rest := by
  constructor
  · intro scanned
    rcases scanOnce_cases scanned with ⟨_, _, -, -, same⟩ | ⟨inner, t, others, rfl, rfl, object, same⟩ |
      ⟨_, _, _, -, -, -, same⟩ | ⟨c, member, same, -⟩ | number
    · cases same
    · cases same
      exact ObjectText.of_scanContainer (scanOnce_local inner) object
    · cases same
    · have other : ∀ c ∈ constants, ∀ members, c.2 ≠ .object members := by
        simp [constants]
      exact absurd same.symm (other c member members)
    · rcases scanNumber_cases number with ⟨n, same⟩ | ⟨bits, same⟩
      · cases same
      · cases same
  · rintro ⟨text, object, rfl⟩
    exact object.2 rest

theorem skip_eq_nil_iff {s : Str} : skip s = [] ↔ ∀ c ∈ s, isSpace c = true := List.dropWhile_eq_nil_iff

theorem decode_object_iff {nesting : Nat} {s : Str} {members : List (Str × Json)} :
    decode nesting s = .ok (.object members) ↔
      ∃ front text back, s = front ++ text ++ back ∧ (∀ c ∈ front, isSpace c = true) ∧
        ObjectText nesting members text ∧ ∀ c ∈ back, isSpace c = true := by
  constructor
  · intro decoded
    rw [decode] at decoded
    split at decoded
    · cases decoded
    · rename_i value rest scanned
      split_ifs at decoded with blank
      cases decoded
      obtain ⟨text, object, same⟩ := scanOnce_object_iff.mp scanned
      obtain ⟨front, split, frontBlank⟩ := exists_blanks s
      exact ⟨front, text, rest, by rw [split, same, List.append_assoc], frontBlank, object,
        skip_eq_nil_iff.mp blank⟩
  · rintro ⟨front, text, back, rfl, frontBlank, object, backBlank⟩
    obtain ⟨⟨inner, rfl⟩, again⟩ := id object
    have skipped : skip (front ++ (.ofChar '{' :: inner ++ [.ofChar '}']) ++ back) =
        .ofChar '{' :: inner ++ [.ofChar '}'] ++ back := by
      rw [List.append_assoc, skip_blanks frontBlank, List.cons_append, List.cons_append]
      exact skip_cons rfl _
    rw [decode, skipped, again]
    dsimp only
    rw [if_pos (skip_eq_nil_iff.mpr backBlank)]

end DecisionMaker.Library.Json
