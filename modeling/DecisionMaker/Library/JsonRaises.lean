import DecisionMaker.Library.JsonCut

namespace DecisionMaker.Library.Json

open Library

inductive Passed {α : Type} (one : Str → Scan α) : Str → Str → Prop
  | here (s : Str) : Passed one s s
  | more {s after t u : Str} {a : α} (read : one s = .ok (a, after)) (comma : skip after = .ofChar ',' :: t)
      (later : Passed one (skip t) u) : Passed one s u

/-- An integer literal over the digit limit, with neither a fraction nor an exponent behind it. -/
def Overlong (s : Str) : Prop :=
  ∃ digits rest, scanInteger (scanSign s).2 = some (digits, rest) ∧ scanFraction rest = none ∧
    scanExponent rest = none ∧ maxStrDigits < digits.length

/-- What a scan meets that it cannot read although it is no syntax error: a container where no more may be
entered, or an overlong integer, behind values that it has read. -/
inductive RunsInto : Nat → Str → LoadsError → Prop
  | nested {c : CodePoint} (t : Str) (opens : c.is '{' = true ∨ c.is '[' = true) : RunsInto 0 (c :: t) .recursionError
  | overlong (nesting : Nat) {s : Str} (long : Overlong s) : RunsInto nesting s .valueError
  | item {nesting : Nat} {t u : Str} {e : LoadsError} (passed : Passed (scanOnce nesting) (skip t) u)
      (inside : RunsInto nesting u e) : RunsInto (nesting + 1) (.ofChar '[' :: t) e
  | member {nesting : Nat} {t u key after v : Str} {e : LoadsError}
      (passed : Passed (scanMember (scanOnce nesting)) (skip t) (.ofChar '"' :: u))
      (named : scanString u = .ok (key, after)) (colon : skip after = .ofChar ':' :: v)
      (inside : RunsInto nesting (skip v) e) : RunsInto (nesting + 1) (.ofChar '{' :: t) e

section Containers

variable {α : Type} {one : Str → Scan α} {close : Char} {s : Str} {e : LoadsError}

theorem map_eq_error {α β : Type} {f : α → β} {scan : Except LoadsError α} :
    scan.map f = .error e ↔ scan = .error e := by
  cases scan with
  | error other => rw [Except.map, Except.error.injEq, Except.error.injEq]
  | ok a => exact iff_of_false (fun same => by cases same) fun same => by cases same

theorem passed_of_scanElements (other : e ≠ .jsonDecodeError) {fuel : Nat}
    (raised : scanElements one close fuel s = .error e) : ∃ u, Passed one s u ∧ one u = .error e := by
  induction fuel generalizing s with
  | zero =>
      cases raised
      exact absurd rfl other
  | succ fuel ih =>
      rw [scanElements] at raised
      split at raised
      · rename_i d failed
        cases raised
        exact ⟨s, .here s, failed⟩
      · rename_i a after read
        split at raised
        · cases raised
          exact absurd rfl other
        · rename_i c t found
          split_ifs at raised with closed comma
          · obtain ⟨u, passed, failed⟩ := ih (map_eq_error.mp raised)
            rw [is_iff.mp comma] at found
            exact ⟨u, .more read found passed, failed⟩
          · cases raised
            exact absurd rfl other

theorem Passed.raises (shortens : Shortens one) (noComma : (CodePoint.ofChar ',').is close = false) {u : Str}
    (passed : Passed one s u) (failed : one u = .error e) {fuel : Nat} (enough : s.length < fuel) :
    scanElements one close fuel s = .error e := by
  induction passed generalizing fuel with
  | here s =>
      obtain ⟨fuel, rfl⟩ := Nat.exists_eq_succ_of_ne_zero (Nat.ne_zero_of_lt enough)
      rw [scanElements, failed]
  | @more s after t u a read comma later ih =>
      obtain ⟨fuel, rfl⟩ := Nat.exists_eq_succ_of_ne_zero (Nat.ne_zero_of_lt enough)
      have shorter := shortens _ _ _ read
      have behind := length_lt_of_skip comma
      have skipped := length_skip_le t
      rw [scanElements, read]
      dsimp only
      rw [comma]
      dsimp only
      rw [noComma, if_neg Bool.false_ne_true, is_ofChar, if_pos rfl, ih failed (by omega)]
      rfl

def Refuses (one : Str → Scan α) (close : Char) : Prop :=
  one [] = .error .jsonDecodeError ∧ ∀ t, one (.ofChar close :: t) = .error .jsonDecodeError

theorem Passed.opens (refuses : Refuses one close) {u : Str} (passed : Passed one s u)
    (failed : one u = .error e) (other : e ≠ .jsonDecodeError) : ∃ c t, s = c :: t ∧ c.is close = false := by
  have starts (result : Scan α) (same : one s = result) (noSyntaxError : result ≠ .error .jsonDecodeError) :
      ∃ c t, s = c :: t ∧ c.is close = false := by
    cases s with
    | nil => exact absurd (same.symm.trans refuses.1) noSyntaxError
    | cons c t =>
        refine ⟨c, t, rfl, ?_⟩
        rw [← Bool.not_eq_true]
        intro closes
        rw [is_iff.mp closes] at same
        exact noSyntaxError (same.symm.trans (refuses.2 t))
  cases passed with
  | here => exact starts _ failed fun same => other (Except.error.inj same)
  | more read comma later => exact starts _ read fun same => by cases same

theorem scanContainer_raises_iff (shortens : Shortens one) (noComma : (CodePoint.ofChar ',').is close = false)
    (refuses : Refuses one close) (other : e ≠ .jsonDecodeError) :
    scanContainer one close s = .error e ↔ ∃ u, Passed one (skip s) u ∧ one u = .error e := by
  constructor
  · intro raised
    rw [scanContainer] at raised
    split at raised
    · cases raised
      exact absurd rfl other
    · rename_i c t found
      split_ifs at raised with closed
      · rw [found]
        exact passed_of_scanElements other raised
  · rintro ⟨u, passed, failed⟩
    obtain ⟨c, t, found, opened⟩ := passed.opens refuses failed other
    rw [scanContainer, found]
    dsimp only
    rw [opened, if_neg Bool.false_ne_true]
    exact (found ▸ passed).raises shortens noComma failed (by simp)

theorem scanMember_raises_iff {scan : Str → Scan Json} (other : e ≠ .jsonDecodeError) :
    scanMember scan s = .error e ↔ ∃ u key after v, s = .ofChar '"' :: u ∧ scanString u = .ok (key, after) ∧
      skip after = .ofChar ':' :: v ∧ scan (skip v) = .error e := by
  constructor
  · intro raised
    cases s with
    | nil =>
        cases raised
        exact absurd rfl other
    | cons q u =>
        rw [scanMember] at raised
        split_ifs at raised with quote
        · cases raised
          exact absurd rfl other
        split at raised
        · rename_i d failed
          cases raised
          exact absurd (scanString_error failed) other
        · rename_i key after named
          split at raised
          · cases raised
            exact absurd rfl other
          · rename_i c v found
            split_ifs at raised with colon
            · cases raised
              exact absurd rfl other
            · rw [eq_ofChar colon] at found
              exact ⟨u, key, after, v, by rw [eq_ofChar quote], named, found, map_eq_error.mp raised⟩
  · rintro ⟨u, key, after, v, rfl, named, found, inside⟩
    rw [scanMember, is_ofChar, named]
    dsimp only
    rw [found]
    dsimp only
    rw [is_ofChar, inside]
    rfl

end Containers

theorem scanNumber_raises_iff {s : Str} {e : LoadsError} (other : e ≠ .jsonDecodeError) :
    scanNumber s = .error e ↔ Overlong s ∧ e = .valueError := by
  cases integer : scanInteger (scanSign s).2 with
  | none =>
      rw [scanNumber_of_none integer]
      apply iff_of_false
      · rintro ⟨⟩
        exact other rfl
      · rintro ⟨⟨digits, rest, scanned, -⟩, -⟩
        rw [integer] at scanned
        cases scanned
  | some read =>
      obtain ⟨digits, rest⟩ := read
      rw [scanNumber_eq rfl integer, numberRest]
      cases fraction : scanFraction rest with
      | some part =>
          apply iff_of_false
          · rintro ⟨⟩
          · rintro ⟨⟨_, _, scanned, plain, -⟩, -⟩
            cases integer.symm.trans scanned
            rw [fraction] at plain
            cases plain
      | none =>
          cases exponent : scanExponent rest with
          | some part =>
              apply iff_of_false
              · rintro ⟨⟩
              · rintro ⟨⟨_, _, scanned, -, plain, -⟩, -⟩
                cases integer.symm.trans scanned
                rw [exponent] at plain
                cases plain
          | none =>
              dsimp only
              constructor
              · intro raised
                split_ifs at raised with long
                cases raised
                exact ⟨⟨digits, rest, integer, fraction, exponent, long⟩, rfl⟩
              · rintro ⟨⟨_, _, scanned, -, -, long⟩, rfl⟩
                cases integer.symm.trans scanned
                rw [if_pos long]

theorem Overlong.numeral {s : Str} (long : Overlong s) : Numeral s := by
  obtain ⟨digits, rest, scanned, -⟩ := long
  have halves : scanSign s = ((scanSign s).1, (scanSign s).2) := rfl
  obtain ⟨same, -⟩ := exists_sign halves
  obtain ⟨split, ⟨c, t, rfl⟩, all, -⟩ := exists_integer scanned
  rw [split] at same
  refine ⟨c, t ++ rest, all c List.mem_cons_self, ?_⟩
  unfold signText at same
  split at same
  · exact .inr same
  · exact .inl same

theorem refuses_scanOnce (nesting : Nat) : Refuses (scanOnce nesting) ']' := by
  refine ⟨scanOnce_nil nesting, fun t => ?_⟩
  rw [scanOnce.eq_def]
  rfl

theorem refuses_scanMember (scan : Str → Scan Json) : Refuses (scanMember scan) '}' :=
  ⟨rfl, fun _ => rfl⟩

theorem RunsInto.ne_syntaxError {nesting : Nat} {s : Str} {e : LoadsError} (runs : RunsInto nesting s e) :
    e ≠ .jsonDecodeError := by
  induction runs with
  | nested | overlong => exact fun same => by cases same
  | item passed inside ih => exact ih
  | member passed named colon inside ih => exact ih

theorem RunsInto.raised {nesting : Nat} {s : Str} {e : LoadsError} (runs : RunsInto nesting s e) :
    scanOnce nesting s = .error e := by
  induction runs with
  | nested t opens =>
      rw [scanOnce.eq_def]
      rcases opens with object | array
      · rw [is_iff.mp object]
        rfl
      · rw [is_iff.mp array]
        rfl
  | @overlong nesting s long =>
      have number := long.numeral.scanOnce_eq nesting []
      rw [List.append_nil] at number
      rw [number]
      exact (scanNumber_raises_iff fun same => by cases same).mpr ⟨long, rfl⟩
  | @item nesting t u e passed inside ih =>
      rw [scanOnce_bracket, scanArray, map_eq_error, scanContainer_raises_iff (scanOnce_shortens nesting) rfl
        (refuses_scanOnce nesting) inside.ne_syntaxError]
      exact ⟨u, passed, ih⟩
  | @member nesting t u key after v e passed named colon inside ih =>
      rw [scanOnce_brace, scanObject, map_eq_error, scanContainer_raises_iff
        (scanMember_shortens (scanOnce_shortens nesting)) rfl (refuses_scanMember _) inside.ne_syntaxError]
      exact ⟨_, passed, (scanMember_raises_iff inside.ne_syntaxError).mpr ⟨u, key, after, v, rfl, named, colon, ih⟩⟩

theorem runsInto_of_raised {nesting : Nat} {s : Str} {e : LoadsError} (other : e ≠ .jsonDecodeError)
    (raised : scanOnce nesting s = .error e) : RunsInto nesting s e := by
  induction nesting using Nat.strongRecOn generalizing s with
  | ind nesting ih =>
      cases s with
      | nil =>
          rw [scanOnce_nil] at raised
          exact absurd (Except.error.inj raised).symm other
      | cons c t =>
          rw [scanOnce.eq_def] at raised
          dsimp only at raised
          split_ifs at raised with string object array
          · exact absurd (scanString_error (map_eq_error.mp raised)) other
          · cases nesting with
            | zero =>
                cases raised
                exact .nested t (.inl object)
            | succ nesting =>
                obtain ⟨u, passed, failed⟩ := (scanContainer_raises_iff
                  (scanMember_shortens (scanOnce_shortens nesting)) rfl (refuses_scanMember _) other).mp
                    (map_eq_error.mp raised)
                obtain ⟨v, key, after, w, rfl, named, colon, inside⟩ := (scanMember_raises_iff other).mp failed
                rw [is_iff.mp object]
                exact .member passed named colon (ih nesting (Nat.lt_succ_self _) inside)
          · cases nesting with
            | zero =>
                cases raised
                exact .nested t (.inr array)
            | succ nesting =>
                obtain ⟨u, passed, inside⟩ := (scanContainer_raises_iff (scanOnce_shortens nesting) rfl
                  (refuses_scanOnce nesting) other).mp (map_eq_error.mp raised)
                rw [is_iff.mp array]
                exact .item passed (ih nesting (Nat.lt_succ_self _) inside)
          · split at raised
            · cases raised
            · obtain ⟨long, rfl⟩ := (scanNumber_raises_iff other).mp raised
              exact .overlong nesting long

theorem scanOnce_raises_iff {nesting : Nat} {s : Str} {e : LoadsError} (other : e ≠ .jsonDecodeError) :
    scanOnce nesting s = .error e ↔ RunsInto nesting s e :=
  ⟨runsInto_of_raised other, RunsInto.raised⟩

theorem decode_raises_iff {nesting : Nat} {s : Str} {e : LoadsError} (other : e ≠ .jsonDecodeError) :
    decode nesting s = .error e ↔ RunsInto nesting (skip s) e := by
  rw [← scanOnce_raises_iff other, decode]
  cases scanOnce nesting (skip s) with
  | error met => rw [Except.error.injEq, Except.error.injEq]
  | ok read =>
      apply iff_of_false
      · intro raised
        dsimp only at raised
        split_ifs at raised
        cases raised
        exact other rfl
      · rintro ⟨⟩

section Modest

variable {nesting : Nat} {s : Str} {e : LoadsError}

def LongRun (s : Str) : Prop :=
  ∃ digits, digits <:+: s ∧ maxStrDigits < digits.length ∧ ∀ c ∈ digits, isDigit c = true

def opensContainer (c : CodePoint) : Bool := c.is '{' || c.is '['

theorem LongRun.mono {t : Str} (run : LongRun s) (inside : s <:+: t) : LongRun t := by
  obtain ⟨digits, found, long, all⟩ := run
  exact ⟨digits, found.trans inside, long, all⟩

theorem skip_isSuffix (s : Str) : skip s <:+ s := List.dropWhile_suffix _

theorem isSuffix_of_skip {t : Str} {c : CodePoint} (found : skip s = c :: t) : t <:+ s :=
  (List.suffix_cons c t).trans (found ▸ skip_isSuffix s)

theorem Local.isSuffix {α : Type} {one : Str → Scan α} (inside : Local one) {after : Str} {a : α}
    (read : one s = .ok (a, after)) : after <:+ s := by
  obtain ⟨text, -, rfl, -⟩ := inside _ _ _ read
  exact List.suffix_append text after

theorem Passed.isSuffix {α : Type} {one : Str → Scan α} (inside : Local one) {u : Str}
    (passed : Passed one s u) : u <:+ s := by
  induction passed with
  | here s => exact List.suffix_refl s
  | @more s after t u a read comma later ih =>
      exact ih.trans ((skip_isSuffix t).trans ((isSuffix_of_skip comma).trans (inside.isSuffix read)))

theorem isSuffix_of_member {u t key after v : Str} (passed : Passed (scanMember (scanOnce nesting)) (skip t)
    (.ofChar '"' :: u)) (named : scanString u = .ok (key, after)) (colon : skip after = .ofChar ':' :: v) :
    skip v <:+ t := by
  obtain ⟨text, rfl, -⟩ := exists_spells named
  have reached := (passed.isSuffix (scanMember_local (scanOnce_local nesting))).trans (skip_isSuffix t)
  calc skip v <:+ v := skip_isSuffix v
    _ <:+ after := isSuffix_of_skip colon
    _ <:+ text ++ after := List.suffix_append text after
    _ <:+ .ofChar '"' :: (text ++ after) := List.suffix_cons _ _
    _ <:+ t := reached

theorem RunsInto.cases (runs : RunsInto nesting s e) : e = .valueError ∨ e = .recursionError := by
  induction runs with
  | nested => exact .inr rfl
  | overlong => exact .inl rfl
  | item passed inside ih => exact ih
  | member passed named colon inside ih => exact ih

theorem Overlong.longRun (long : Overlong s) : LongRun s := by
  obtain ⟨digits, rest, scanned, -, -, tooLong⟩ := long
  have halves : scanSign s = ((scanSign s).1, (scanSign s).2) := rfl
  obtain ⟨signed, -⟩ := exists_sign halves
  obtain ⟨split, -, all, -⟩ := exists_integer scanned
  exact ⟨digits, ⟨signText (scanSign s).1, rest, by rw [List.append_assoc, ← split, ← signed]⟩, tooLong, all⟩

theorem RunsInto.longRun (runs : RunsInto nesting s e) (value : e = .valueError) : LongRun s := by
  induction runs with
  | nested => cases value
  | overlong nesting long => exact long.longRun
  | @item nesting t u e passed inside ih =>
      have reached := (passed.isSuffix (scanOnce_local nesting)).trans (skip_isSuffix t)
      exact (ih value).mono (reached.trans (List.suffix_cons _ t)).isInfix
  | @member nesting t u key after v e passed named colon inside ih =>
      exact (ih value).mono ((isSuffix_of_member passed named colon).trans (List.suffix_cons _ t)).isInfix

theorem RunsInto.lt_countP (runs : RunsInto nesting s e) (recursion : e = .recursionError) :
    nesting < s.countP opensContainer := by
  induction runs with
  | @nested c t opens =>
      rw [List.countP_cons_of_pos (by rw [opensContainer, Bool.or_eq_true]; exact opens)]
      exact Nat.succ_pos _
  | overlong => cases recursion
  | @item nesting t u e passed inside ih =>
      have reached := (passed.isSuffix (scanOnce_local nesting)).trans (skip_isSuffix t)
      have counted := List.Sublist.countP_le (p := opensContainer) reached.sublist
      rw [List.countP_cons_of_pos rfl]
      exact Nat.succ_lt_succ (Nat.lt_of_lt_of_le (ih recursion) counted)
  | @member nesting t u key after v e passed named colon inside ih =>
      have counted := List.Sublist.countP_le (p := opensContainer) (isSuffix_of_member passed named colon).sublist
      rw [List.countP_cons_of_pos rfl]
      exact Nat.succ_lt_succ (Nat.lt_of_lt_of_le (ih recursion) counted)

theorem not_runsInto (short : ¬LongRun s) (shallow : s.countP opensContainer ≤ nesting) : ¬RunsInto nesting s e := by
  intro runs
  rcases runs.cases with value | recursion
  · exact short (runs.longRun value)
  · exact absurd (runs.lt_countP recursion) (Nat.not_lt.mpr shallow)

end Modest

end DecisionMaker.Library.Json
