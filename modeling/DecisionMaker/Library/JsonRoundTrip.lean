import DecisionMaker.Library.JsonString
import Mathlib.Data.Nat.Digits.Lemmas

namespace DecisionMaker.Library.Json

open Library

def continuesNumber (c : CodePoint) : Bool := isDigit c || c.is '.' || c.is 'e' || c.is 'E'

def Stops (rest : Str) : Prop := ∀ c ∈ rest.head?, continuesNumber c = false

theorem stops_nil : Stops [] := by
  intro c member
  cases member

theorem stops_cons {c : CodePoint} (other : continuesNumber c = false) (s : Str) : Stops (c :: s) := by
  intro d member
  cases member
  exact other

theorem Stops.cons {c : CodePoint} {s : Str} (stops : Stops (c :: s)) :
    isDigit c = false ∧ c.is '.' = false ∧ c.is 'e' = false ∧ c.is 'E' = false := by
  have other : continuesNumber c = false := stops c rfl
  simpa [continuesNumber, and_assoc] using other

theorem isDigit_iff {c : CodePoint} : isDigit c = true ↔ 48 ≤ c.val ∧ c.val ≤ 57 := by
  rw [isDigit, decide_eq_true_eq]
  rfl

theorem digitChar_val (d : Nat) : (digitChar d).val = 48 + d % 10 := rfl

@[simp] theorem digitChar_mod (n : Nat) : digitChar (n % 10) = digitChar n := by
  rw [← Fin.val_inj, digitChar_val, digitChar_val, Nat.mod_mod]

theorem isDigit_digitChar (d : Nat) : isDigit (digitChar d) = true := by
  rw [isDigit_iff, digitChar_val]
  omega

theorem isDigit_of_mem_natRepr {n : Nat} {c : CodePoint} (member : c ∈ natRepr n) :
    isDigit c = true := by
  unfold natRepr at member
  split_ifs at member
  · rw [List.mem_singleton.mp member, isDigit_digitChar]
  · obtain ⟨d, -, rfl⟩ := List.mem_map.mp member
    exact isDigit_digitChar d

theorem natOf_natRepr (n : Nat) : natOf (natRepr n) = n := by
  by_cases zero : n = 0
  · rw [zero]
    rfl
  · have digit : ∀ d ∈ Nat.digits 10 n, (digitChar d).val - '0'.toNat = id d := by
      intro d member
      have small := Nat.digits_lt_base (by decide) member
      rw [digitChar_val, Nat.mod_eq_of_lt small]
      exact Nat.add_sub_cancel_left 48 d
    rw [natOf, natRepr, if_neg zero, ← List.map_reverse, List.reverse_reverse, List.map_map]
    calc
      _ = Nat.ofDigits 10 ((Nat.digits 10 n).map id) :=
        congrArg _ (List.map_congr_left digit)
      _ = n := by rw [List.map_id, Nat.ofDigits_digits]

theorem natRepr_eq (n : Nat) :
    natRepr n = if n < 10 then [digitChar n] else natRepr (n / 10) ++ [digitChar n] := by
  by_cases small : n < 10
  · rw [if_pos small]
    interval_cases n <;> rfl
  · have some : n ≠ 0 := by omega
    have more : n / 10 ≠ 0 := by omega
    rw [if_neg small, natRepr, if_neg some, natRepr, if_neg more,
      Nat.digits_def' (by decide) (Nat.pos_of_ne_zero some), List.reverse_cons, List.map_append,
      List.map_singleton, digitChar_mod]

theorem ofChar_digitChar {d : Nat} (small : d < 10) : CodePoint.ofChar d.digitChar = digitChar d := by
  interval_cases d <;> rfl

theorem ofString_toString (n : Nat) : Str.ofString (toString n) = natRepr n := by
  rw [Str.ofString, Nat.toString_eq_ofList_toDigits, String.toList_ofList]
  induction n using Nat.strongRecOn with
  | ind n ih =>
      rw [natRepr_eq, Nat.toDigits_eq_if (by decide)]
      by_cases small : n < 10
      · rw [if_pos small, if_pos small, List.map_singleton, ofChar_digitChar small]
      · rw [if_neg small, if_neg small, List.map_append, ih (n / 10) (by omega), List.map_singleton,
          ofChar_digitChar (Nat.mod_lt n (by decide)), digitChar_mod]

theorem natRepr_cons (n : Nat) :
    ∃ c s, natRepr n = c :: s ∧ isDigit c = true ∧ (c.is '0' = true → s = []) := by
  by_cases zero : n = 0
  · exact ⟨_, _, by rw [natRepr, if_pos zero], isDigit_digitChar 0, fun _ => rfl⟩
  · have some : Nat.digits 10 n ≠ [] := Nat.digits_ne_nil_iff_ne_zero.mpr zero
    have leading := Nat.getLast_digit_ne_zero 10 zero
    have small := Nat.digits_lt_base (by decide) (List.getLast_mem some)
    refine ⟨digitChar ((Nat.digits 10 n).getLast some), (Nat.digits 10 n).dropLast.reverse.map digitChar,
      ?_, isDigit_digitChar _, ?_⟩
    · rw [natRepr, if_neg zero, ← List.map_cons, ← List.reverse_concat,
        List.dropLast_append_getLast]
    · intro isZero
      have value : (digitChar _).val = 48 := beq_iff_eq.mp isZero
      rw [digitChar_val] at value
      omega

def NoDigit (rest : Str) : Prop := ∀ c ∈ rest.head?, isDigit c = false

theorem Stops.noDigit {rest : Str} (stops : Stops rest) : NoDigit rest := by
  cases rest with
  | nil => exact fun c member => by cases member
  | cons c rest =>
      intro d member
      cases member
      exact stops.cons.1

theorem takeWhile_isDigit {digits rest : Str} (all : ∀ c ∈ digits, isDigit c = true)
    (other : NoDigit rest) : (digits ++ rest).takeWhile isDigit = digits := by
  rw [List.takeWhile_append_of_pos all]
  cases rest with
  | nil => simp
  | cons c rest => simp [other c rfl]

theorem dropWhile_isDigit {digits rest : Str} (all : ∀ c ∈ digits, isDigit c = true)
    (other : NoDigit rest) : (digits ++ rest).dropWhile isDigit = rest := by
  rw [List.dropWhile_append_of_pos all]
  cases rest with
  | nil => rfl
  | cons c rest => simp [other c rfl]

theorem scanInteger_natRepr (n : Nat) {rest : Str} (stops : Stops rest) :
    scanInteger (natRepr n ++ rest) = some (natRepr n, rest) := by
  obtain ⟨c, s, eq, digit, single⟩ := natRepr_cons n
  have all : ∀ d ∈ s, isDigit d = true := fun d member =>
    isDigit_of_mem_natRepr (n := n) (eq ▸ List.mem_cons_of_mem c member)
  rw [eq, List.cons_append, scanInteger, takeWhile_isDigit all stops.noDigit,
    dropWhile_isDigit all stops.noDigit]
  split_ifs with zero
  · rw [single zero]
    rfl
  · rfl

theorem scanFraction_stops {rest : Str} (stops : Stops rest) : scanFraction rest = none := by
  rcases rest with _ | ⟨c, _ | ⟨d, rest⟩⟩
  · rfl
  · rfl
  · simp [scanFraction, stops.cons.2.1]

theorem scanExponent_stops {rest : Str} (stops : Stops rest) : scanExponent rest = none := by
  cases rest with
  | nil => rfl
  | cons c rest =>
      have ⟨_, _, lower, upper⟩ := stops.cons
      simp [scanExponent, lower, upper]

theorem scanNumber_intRepr {n : Int} {text rest : Str} (written : intRepr n = some text)
    (stops : Stops rest) : scanNumber (text ++ rest) = .ok (.int n, rest) := by
  unfold intRepr at written
  split_ifs at written with long negative
  · cases written
    have sign : scanSign (.ofChar '-' :: (natRepr n.natAbs ++ rest)) = (true, natRepr n.natAbs ++ rest) :=
      rfl
    have value : signedInt true n.natAbs = n := by
      rw [signedInt, if_pos rfl]
      omega
    simp only [List.cons_append, scanNumber, sign, scanInteger_natRepr _ stops, scanFraction_stops stops,
      scanExponent_stops stops, long, if_false, natOf_natRepr, value]
  · cases written
    have sign : scanSign (natRepr n.natAbs ++ rest) = (false, natRepr n.natAbs ++ rest) := by
      obtain ⟨c, s, eq, digit, -⟩ := natRepr_cons n.natAbs
      have minus : c.is '-' = false := is_eq_false (by rw [isDigit_iff] at digit; exact (by omega : c.val ≠ 45))
      simp [eq, scanSign, minus]
    have value : signedInt false n.natAbs = n := by
      rw [signedInt, if_neg Bool.false_ne_true]
      omega
    simp only [scanNumber, sign, scanInteger_natRepr _ stops, scanFraction_stops stops,
      scanExponent_stops stops, long, if_false, natOf_natRepr, value]

theorem length_natRepr_le {n k : Nat} (some : 0 < k) : (natRepr n).length ≤ k ↔ n < 10 ^ k := by
  unfold natRepr
  split_ifs with isZero
  · rw [isZero]
    exact iff_of_true some (Nat.pow_pos (by decide))
  · rw [List.length_map, List.length_reverse]
    exact Nat.digits_length_le_iff (by decide) n

theorem intRepr_isSome_iff {n : Int} :
    (∃ text, intRepr n = some text) ↔ n.natAbs < 10 ^ maxStrDigits := by
  rw [← length_natRepr_le (by decide : 0 < maxStrDigits)]
  unfold intRepr
  split_ifs with long
  · exact iff_of_false (by simp) (Nat.not_le.mpr long)
  all_goals exact iff_of_true ⟨_, rfl⟩ (Nat.not_lt.mp long)

theorem intRepr_natCast (n : Nat) :
    intRepr n = if n < 10 ^ maxStrDigits then some (natRepr n) else none := by
  have nonneg : ¬(n : Int) < 0 := Int.not_lt.mpr (Int.natCast_nonneg n)
  rw [intRepr, Int.natAbs_natCast, if_neg nonneg]
  by_cases small : n < 10 ^ maxStrDigits
  · have short := (length_natRepr_le (by decide)).mpr small
    rw [if_pos small, if_neg (Nat.not_lt.mpr short)]
  · have long := mt (length_natRepr_le (by decide)).mp small
    rw [if_neg small, if_pos (Nat.not_le.mp long)]

theorem digit_beq {c : CodePoint} (digit : isDigit c = true) {x : Char}
    (outside : 57 < x.toNat ∨ x.toNat < 48) : (c == CodePoint.ofChar x) = false := by
  rw [isDigit_iff] at digit
  refine beq_false_of_ne fun same => ?_
  have value : c.val = x.toNat := congrArg Fin.val same
  omega

theorem scanConstant_digit {c : CodePoint} (digit : isDigit c = true) (s : Str) :
    scanConstant (c :: s) = none := by
  simp [scanConstant, constants, Str.ofString, List.dropPrefix?, digit_beq digit]

theorem scanConstant_minus {c : CodePoint} (digit : isDigit c = true) (s : Str) :
    scanConstant (.ofChar '-' :: c :: s) = none := by
  simp [scanConstant, constants, Str.ofString, List.dropPrefix?, digit_beq digit, ofChar_beq_eq_false]

theorem hexChar_printable (d : Fin 16) : 0x20 ≤ (hexChar d).val ∧ (hexChar d).val ≤ 0x7E := by
  revert d
  decide

theorem printable_unicodeEscape (n : Fin 65536) : (unicodeEscape n).Printable := by
  intro c member
  simp only [unicodeEscape, List.mem_cons, List.not_mem_nil, or_false] at member
  rcases member with rfl | rfl | rfl | rfl | rfl | rfl
  · decide
  · decide
  all_goals exact hexChar_printable _

theorem printable_escape (c : CodePoint) : (escape c).Printable := by
  unfold escape
  split_ifs with special printable newline return_ tab backspace formFeed bmp
  · rcases Bool.or_eq_true_iff.mp special with quote | backslash
    · rw [is_iff.mp quote]
      decide
    · rw [is_iff.mp backslash]
      decide
  · intro d member
    rw [List.mem_singleton.mp member]
    exact printable
  · decide
  · decide
  · decide
  · decide
  · decide
  · exact printable_unicodeEscape _
  · exact (printable_unicodeEscape _).append (printable_unicodeEscape _)

theorem ascii_encodeString (s : Str) : (encodeString s).Ascii := by
  have quote : Str.Ascii [.ofChar '"'] := by decide
  refine Str.Ascii.append (s := .ofChar '"' :: s.flatMap escape) (quote.append ?_) quote
  intro c member
  obtain ⟨d, -, inside⟩ := List.mem_flatMap.mp member
  exact (printable_escape d).ascii c inside

theorem ascii_natRepr (n : Nat) : (natRepr n).Ascii := by
  intro c member
  have digit := isDigit_of_mem_natRepr member
  rw [isDigit_iff] at digit
  omega

theorem ascii_intRepr {n : Int} {text : Str} (written : intRepr n = some text) : text.Ascii := by
  unfold intRepr at written
  split_ifs at written with long negative
  · cases written
    exact Str.Ascii.append (s := [.ofChar '-']) (by decide) (ascii_natRepr _)
  · cases written
    exact ascii_natRepr _

theorem ascii_intercalate {separator : Str} (ascii : separator.Ascii) {texts : List Str}
    (all : ∀ text ∈ texts, text.Ascii) : Str.Ascii (separator.intercalate texts) := by
  induction texts with
  | nil => exact fun c member => absurd member List.not_mem_nil
  | cons text texts ih =>
      have first := all text (by simp)
      cases texts with
      | nil => rwa [List.intercalate_singleton]
      | cons next texts =>
          rw [List.intercalate_cons_cons]
          exact (first.append ascii).append (ih fun other member => all other (List.mem_cons_of_mem _ member))

theorem scanOnce_number {c : CodePoint} (numeral : isDigit c = true ∨ c = .ofChar '-') (s : Str)
    (constant : scanConstant (c :: s) = none) (nesting : Nat) :
    scanOnce nesting (c :: s) = scanNumber (c :: s) := by
  have other : ∀ x : Char, 57 < x.toNat ∨ x.toNat < 45 → c.is x = false := by
    intro x outside
    refine is_eq_false ?_
    rcases numeral with digit | rfl
    · rw [isDigit_iff] at digit
      omega
    · have value : (CodePoint.ofChar '-').val = 45 := rfl
      omega
  rw [scanOnce.eq_def]
  simp [other, constant]

theorem scanOnce_intRepr {n : Int} {text rest : Str} (written : intRepr n = some text)
    (stops : Stops rest) (nesting : Nat) : scanOnce nesting (text ++ rest) = .ok (.int n, rest) := by
  have number := scanNumber_intRepr written stops
  obtain ⟨c, s, eq, digit, -⟩ := natRepr_cons n.natAbs
  unfold intRepr at written
  split_ifs at written with long negative
  · cases written
    rw [eq] at number ⊢
    exact (scanOnce_number (.inr rfl) _ (scanConstant_minus digit _) nesting).trans number
  · cases written
    rw [eq] at number ⊢
    exact (scanOnce_number (.inl digit) _ (scanConstant_digit digit _) nesting).trans number

theorem scanString_encodeString {text : Str} (unsplit : Unsplit text) (rest : Str) :
    scanString (text.flatMap escape ++ .ofChar '"' :: rest) = .ok (text, rest) := by
  rw [← List.singleton_append, ← List.append_assoc]
  exact (spells_escaped unsplit).scanned rest

theorem scanOnce_encodeString {text : Str} (unsplit : Unsplit text) (rest : Str) (nesting : Nat) :
    scanOnce nesting (encodeString text ++ rest) = .ok (.str text, rest) := by
  rw [encodeString, List.cons_append, List.cons_append, List.append_assoc, scanOnce_quote,
    List.singleton_append, scanString_encodeString unsplit]
  rfl

/-- A text in ASCII that the scanner reads as this value, whatever stands behind it. -/
structure Reads {α : Type} (one : Str → Scan α) (value : α) (text : Str) : Prop where
  ascii : text.Ascii
  starts : ∃ c s, text = c :: s ∧ isSpace c = false ∧ c.is ']' = false ∧ c.is '}' = false
  scanned : ∀ rest, Stops rest → one (text ++ rest) = .ok (value, rest)

theorem skip_cons {c : CodePoint} (visible : isSpace c = false) (s : Str) : skip (c :: s) = c :: s := by
  rw [skip, List.dropWhile_cons_of_neg (by simp [visible])]

theorem skip_blanks {blanks : Str} (blank : ∀ c ∈ blanks, isSpace c = true) (s : Str) :
    skip (blanks ++ s) = skip s :=
  List.dropWhile_append_of_pos blank

theorem Reads.skip {α : Type} {one : Str → Scan α} {value : α} {text : Str}
    (reads : Reads one value text) (rest : Str) : skip (text ++ rest) = text ++ rest := by
  obtain ⟨c, s, rfl, visible, -⟩ := reads.starts
  exact skip_cons visible _

def Separates (x : Char) (separator : Str) : Prop :=
  ∃ blanks, separator = .ofChar x :: blanks ∧ ∀ c ∈ blanks, isSpace c = true

theorem Separates.ascii {x : Char} {separator : Str} (separates : Separates x separator)
    (ascii : 0 < x.toNat ∧ x.toNat < 128) : separator.Ascii := by
  obtain ⟨blanks, rfl, blank⟩ := separates
  refine Str.Ascii.append (s := [.ofChar x]) ?_ ?_
  · intro c member
    rw [List.mem_singleton.mp member]
    exact ascii
  · intro c member
    have space := blank c member
    simp only [isSpace, Bool.or_eq_true, is_iff] at space
    rcases space with ((rfl | rfl) | rfl) | rfl <;> decide

theorem intercalate_starts {α : Type} {one : Str → Scan α} {value : α} {text : Str}
    (reads : Reads one value text) (separator : Str) (texts : List Str) (rest : Str) :
    ∃ c s, separator.intercalate (text :: texts) ++ rest = c :: s ∧ isSpace c = false ∧
      c.is ']' = false ∧ c.is '}' = false := by
  obtain ⟨c, s, rfl, visible⟩ := reads.starts
  cases texts with
  | nil => exact ⟨c, s ++ rest, by rw [List.intercalate_singleton, List.cons_append], visible⟩
  | cons next texts =>
      exact ⟨c, _, by rw [List.intercalate_cons_cons_left, List.cons_append], visible⟩

section Containers

variable {α : Type} {one : Str → Scan α} {close : Char} {separator : Str} {values : List α} {texts : List Str}

theorem close_cases (closes : close = ']' ∨ close = '}') :
    isSpace (.ofChar close) = false ∧ continuesNumber (.ofChar close) = false ∧
      (CodePoint.ofChar ',').is close = false := by
  rcases closes with rfl | rfl <;> exact ⟨rfl, rfl, rfl⟩

theorem elements_intercalate (closes : close = ']' ∨ close = '}') (separates : Separates ',' separator)
    (all : List.Forall₂ (Reads one) values texts) (some : values ≠ []) (rest : Str) :
    Elements one close (separator.intercalate texts ++ .ofChar close :: rest) values rest := by
  obtain ⟨closeVisible, closeStops, -⟩ := close_cases closes
  obtain ⟨blanks, rfl, blank⟩ := separates
  induction all with
  | nil => exact absurd rfl some
  | @cons value text values texts reads all ih =>
      cases all with
      | nil =>
          rw [List.intercalate_singleton]
          exact .last (reads.scanned _ (stops_cons closeStops rest)) (skip_cons closeVisible rest)
      | @cons next nextText values texts nextReads all =>
          have others := ih (List.cons_ne_nil _ _)
          obtain ⟨c, s, eq, visible, -⟩ := intercalate_starts nextReads (.ofChar ',' :: blanks) texts
            (.ofChar close :: rest)
          rw [List.intercalate_cons_cons, List.append_assoc, List.append_assoc, List.cons_append]
          rw [eq] at others ⊢
          apply Elements.more
          · exact reads.scanned _ (stops_cons (c := .ofChar ',') rfl _)
          · exact skip_cons (c := .ofChar ',') rfl _
          · rw [skip_blanks blank, skip_cons visible]
            exact others

theorem scanContainer_intercalate (shortens : Shortens one) (closes : close = ']' ∨ close = '}')
    (separates : Separates ',' separator) (all : List.Forall₂ (Reads one) values texts) (rest : Str) :
    scanContainer one close (separator.intercalate texts ++ .ofChar close :: rest) = .ok (values, rest) := by
  obtain ⟨closeVisible, -, noComma⟩ := close_cases closes
  cases all with
  | nil =>
      rw [List.intercalate_nil, List.nil_append]
      exact scanContainer_of_close (skip_cons closeVisible rest)
  | @cons value text values texts reads all =>
      have elements := elements_intercalate closes separates (.cons reads all) (List.cons_ne_nil _ _) rest
      obtain ⟨c, s, eq, visible, notArray, notObject⟩ := intercalate_starts reads separator texts
        (.ofChar close :: rest)
      have other : c.is close = false := by
        rcases closes with rfl | rfl
        · exact notArray
        · exact notObject
      rw [eq] at elements ⊢
      exact scanContainer_of_elements shortens noComma (skip_cons visible s) other elements

end Containers

theorem setItem_new {key : Str} {value : Json} {members : List (Str × Json)}
    (new : key ∉ members.map Prod.fst) : setItem key value members = members ++ [(key, value)] := by
  induction members with
  | nil => rfl
  | cons member members ih =>
      rw [List.map_cons, List.mem_cons, not_or] at new
      rw [setItem, if_neg (Ne.symm new.1), ih new.2, List.cons_append]

theorem dict_of_nodup {members : List (Str × Json)} (distinct : (members.map Prod.fst).Nodup) :
    dict members = members := by
  have append : ∀ (later before : List (Str × Json)), ((before ++ later).map Prod.fst).Nodup →
      later.foldl (fun d member => setItem member.1 member.2 d) before = before ++ later := by
    intro later
    induction later with
    | nil => simp
    | cons member later ih =>
        intro before distinct
        have new : member.1 ∉ before.map Prod.fst := by
          rw [List.map_append, List.nodup_append] at distinct
          intro old
          exact distinct.2.2 _ old _ (by simp) rfl
        rw [List.foldl_cons, setItem_new new, ih _ (by simpa using distinct)]
        simp
  exact append members [] distinct

theorem reads_member {scan : Str → Scan Json} {key : Str} {value : Json} {separator text : Str}
    (unsplit : Unsplit key) (separates : Separates ':' separator) (reads : Reads scan value text) :
    Reads (scanMember scan) (key, value) (encodeString key ++ separator ++ text) := by
  refine ⟨?_, ⟨_, _, rfl, rfl, rfl, rfl⟩, fun rest stops => ?_⟩
  · exact ((ascii_encodeString key).append (separates.ascii (by decide))).append reads.ascii
  obtain ⟨blanks, rfl, blank⟩ := separates
  have colonVisible : isSpace (.ofChar ':') = false := rfl
  have assoc : encodeString key ++ .ofChar ':' :: blanks ++ text ++ rest =
      .ofChar '"' :: (key.flatMap escape ++ .ofChar '"' :: .ofChar ':' :: (blanks ++ (text ++ rest))) := by
    simp [encodeString]
  rw [assoc]
  simp only [scanMember, is_ofChar, scanString_encodeString unsplit, skip_cons colonVisible, Bool.not_true,
    Bool.false_eq_true, if_false, skip_blanks blank, reads.skip, reads.scanned rest stops]
  rfl

inductive Plain (sortKeys : Bool) : Nat → Json → Prop
  | null (nesting : Nat) : Plain sortKeys nesting .null
  | bool (nesting : Nat) (b : Bool) : Plain sortKeys nesting (.bool b)
  | int (nesting : Nat) {n : Int} (small : n.natAbs < 10 ^ maxStrDigits) :
      Plain sortKeys nesting (.int n)
  | str (nesting : Nat) {s : Str} (wellFormed : s.WellFormed) : Plain sortKeys nesting (.str s)
  | array {nesting : Nat} {items : List Json} (all : ∀ item ∈ items, Plain sortKeys nesting item) :
      Plain sortKeys (nesting + 1) (.array items)
  | object {nesting : Nat} {members : List (Str × Json)}
      (keys : ∀ member ∈ members, member.1.WellFormed)
      (distinct : (members.map Prod.fst).Nodup)
      (ordered : sortKeys = true → (members.map Prod.fst).Pairwise fun a b => lessOrEqual a b = true)
      (all : ∀ member ∈ members, Plain sortKeys nesting member.2) :
      Plain sortKeys (nesting + 1) (.object members)

/-- Read back without a loss. Lone surrogates may stand in the texts as long as no two of them are read as
one code point. -/
inductive Restorable (sortKeys : Bool) : Nat → Json → Prop
  | null (nesting : Nat) : Restorable sortKeys nesting .null
  | bool (nesting : Nat) (b : Bool) : Restorable sortKeys nesting (.bool b)
  | int (nesting : Nat) {n : Int} (small : n.natAbs < 10 ^ maxStrDigits) :
      Restorable sortKeys nesting (.int n)
  | str (nesting : Nat) {s : Str} (unsplit : Unsplit s) : Restorable sortKeys nesting (.str s)
  | array {nesting : Nat} {items : List Json} (all : ∀ item ∈ items, Restorable sortKeys nesting item) :
      Restorable sortKeys (nesting + 1) (.array items)
  | object {nesting : Nat} {members : List (Str × Json)}
      (keys : ∀ member ∈ members, Unsplit member.1)
      (distinct : (members.map Prod.fst).Nodup)
      (ordered : sortKeys = true → (members.map Prod.fst).Pairwise fun a b => lessOrEqual a b = true)
      (all : ∀ member ∈ members, Restorable sortKeys nesting member.2) :
      Restorable sortKeys (nesting + 1) (.object members)

theorem Plain.restorable {sortKeys : Bool} {nesting : Nat} {value : Json} (plain : Plain sortKeys nesting value) :
    Restorable sortKeys nesting value := by
  induction plain with
  | null nesting => exact .null nesting
  | bool nesting b => exact .bool nesting b
  | int nesting small => exact .int nesting small
  | str nesting wellFormed => exact .str nesting (.of_wellFormed wellFormed)
  | array all ih => exact .array ih
  | object keys distinct ordered all ih =>
      exact .object (fun member inside => .of_wellFormed (keys member inside)) distinct ordered ih

variable {floatRepr : BitVec 64 → Str} {fmt : Format}

theorem dumpsItems_of_forall {P : Json → Str → Prop} {items : List Json}
    (each : ∀ item ∈ items, ∃ text, dumps floatRepr fmt item = some text ∧ P item text) :
    ∃ texts, dumpsItems floatRepr fmt items = some texts ∧ List.Forall₂ P items texts := by
  induction items with
  | nil => exact ⟨[], rfl, .nil⟩
  | cons item items ih =>
      obtain ⟨text, written, first⟩ := each item (by simp)
      obtain ⟨texts, writtenAll, rest⟩ := ih fun other member => each other (List.mem_cons_of_mem _ member)
      exact ⟨text :: texts, by simp [dumpsItems, written, writtenAll], .cons first rest⟩

theorem dumpsMembers_of_forall {P : Str × Json → Str → Prop} {members : List (Str × Json)}
    (each : ∀ member ∈ members, ∃ text, dumps floatRepr fmt member.2 = some text ∧ P member text) :
    ∃ texts, dumpsMembers floatRepr fmt members = some texts ∧
      List.Forall₂ (fun member text => member.1 = text.1 ∧ P member text.2) members texts := by
  induction members with
  | nil => exact ⟨[], rfl, .nil⟩
  | cons member members ih =>
      obtain ⟨text, written, first⟩ := each member (by simp)
      obtain ⟨texts, writtenAll, rest⟩ := ih fun other inside => each other (List.mem_cons_of_mem _ inside)
      exact ⟨(member.1, text) :: texts, by
        rw [dumpsMembers, dumpsMember.eq_def]
        simp [written, writtenAll], .cons ⟨rfl, first⟩ rest⟩

theorem Format.sorted_of_ordered {texts : List (Str × Str)}
    (ordered : fmt.sortKeys = true →
      (texts.map Prod.fst).Pairwise fun a b => lessOrEqual a b = true) : fmt.sorted texts = texts := by
  unfold Format.sorted
  split_ifs with sort
  · exact (List.pairwise_map.mp (ordered sort)).insertionSort_eq
  · rfl

theorem reads_null (nesting : Nat) : Reads (scanOnce nesting) .null (Str.ofString "null") where
  ascii := by decide
  starts := ⟨.ofChar 'n', Str.ofString "ull", rfl, rfl, rfl, rfl⟩
  scanned rest _ := scanOnce_constant nesting rest ("null", .null) (by simp [constants])

theorem reads_true (nesting : Nat) : Reads (scanOnce nesting) (.bool true) (Str.ofString "true") where
  ascii := by decide
  starts := ⟨.ofChar 't', Str.ofString "rue", rfl, rfl, rfl, rfl⟩
  scanned rest _ := scanOnce_constant nesting rest ("true", .bool true) (by simp [constants])

theorem reads_false (nesting : Nat) : Reads (scanOnce nesting) (.bool false) (Str.ofString "false") where
  ascii := by decide
  starts := ⟨.ofChar 'f', Str.ofString "alse", rfl, rfl, rfl, rfl⟩
  scanned rest _ := scanOnce_constant nesting rest ("false", .bool false) (by simp [constants])

theorem reads_int {n : Int} {text : Str} (written : intRepr n = some text) (nesting : Nat) :
    Reads (scanOnce nesting) (.int n) text := by
  refine ⟨ascii_intRepr written, ?_, fun rest stops => scanOnce_intRepr written stops nesting⟩
  obtain ⟨c, s, eq, digit, -⟩ := natRepr_cons n.natAbs
  unfold intRepr at written
  split_ifs at written with long negative
  · cases written
    exact ⟨_, _, rfl, rfl, rfl, rfl⟩
  · cases written
    rw [isDigit_iff] at digit
    have other : ∀ x : Char, 57 < x.toNat ∨ x.toNat < 48 → c.is x = false := by
      intro x outside
      exact is_eq_false (by omega)
    exact ⟨c, s, eq, by simp [isSpace, other], other _ (by decide), other _ (by decide)⟩

theorem reads_string {s : Str} (unsplit : Unsplit s) (nesting : Nat) :
    Reads (scanOnce nesting) (.str s) (encodeString s) :=
  ⟨ascii_encodeString s, ⟨_, _, rfl, rfl, rfl, rfl⟩, fun rest _ =>
    scanOnce_encodeString unsplit rest nesting⟩

theorem ascii_container {α : Type} {one : Str → Scan α} {values : List α} {texts : List Str}
    {separator : Str} (opening closing : Str) (separates : Separates ',' separator) (opens : opening.Ascii)
    (closes : closing.Ascii) (reads : List.Forall₂ (Reads one) values texts) :
    Str.Ascii (opening ++ separator.intercalate texts ++ closing) := by
  have all : ∀ text ∈ texts, text.Ascii := by
    intro text member
    obtain ⟨i, inside, rfl⟩ := List.getElem_of_mem member
    exact (List.forall₂_iff_get.mp reads).2 i (by rwa [reads.length_eq]) inside |>.ascii
  exact (opens.append (ascii_intercalate (separates.ascii (by decide)) all)).append closes

theorem reads_array {nesting : Nat} {values : List Json} {texts : List Str} {separator : Str}
    (separates : Separates ',' separator) (reads : List.Forall₂ (Reads (scanOnce nesting)) values texts) :
    Reads (scanOnce (nesting + 1)) (.array values)
      (.ofChar '[' :: separator.intercalate texts ++ [.ofChar ']']) := by
  refine ⟨ascii_container [_] [_] separates (by decide) (by decide) reads, ⟨_, _, rfl, rfl, rfl, rfl⟩,
    fun rest _ => ?_⟩
  rw [List.cons_append, List.cons_append, List.append_assoc, List.singleton_append, scanOnce_bracket, scanArray,
    scanContainer_intercalate (scanOnce_shortens nesting) (.inl rfl) separates reads]
  rfl

theorem reads_object {nesting : Nat} {members : List (Str × Json)} {texts : List Str} {separator : Str}
    (separates : Separates ',' separator) (distinct : (members.map Prod.fst).Nodup)
    (reads : List.Forall₂ (Reads (scanMember (scanOnce nesting))) members texts) :
    Reads (scanOnce (nesting + 1)) (.object members)
      (.ofChar '{' :: separator.intercalate texts ++ [.ofChar '}']) := by
  refine ⟨ascii_container [_] [_] separates (by decide) (by decide) reads, ⟨_, _, rfl, rfl, rfl, rfl⟩,
    fun rest _ => ?_⟩
  have shortens := scanMember_shortens (scanOnce_shortens nesting)
  rw [List.cons_append, List.cons_append, List.append_assoc, List.singleton_append, scanOnce_brace, scanObject,
    scanContainer_intercalate shortens (.inr rfl) separates reads, Except.map, dict_of_nodup distinct]

theorem Restorable.reads (items : Separates ',' fmt.itemSeparator) (keys : Separates ':' fmt.keySeparator)
    {nesting : Nat} {value : Json} (restorable : Restorable fmt.sortKeys nesting value) :
    ∃ text, dumps floatRepr fmt value = some text ∧ Reads (scanOnce nesting) value text := by
  induction restorable with
  | null nesting => exact ⟨_, by rw [dumps], reads_null nesting⟩
  | bool nesting b =>
      cases b with
      | false => exact ⟨_, by rw [dumps]; rfl, reads_false nesting⟩
      | true => exact ⟨_, by rw [dumps]; rfl, reads_true nesting⟩
  | int nesting small =>
      obtain ⟨text, written⟩ := intRepr_isSome_iff.mpr small
      exact ⟨text, by rw [dumps, written], reads_int written nesting⟩
  | str nesting unsplit => exact ⟨_, by rw [dumps], reads_string unsplit nesting⟩
  | @array nesting values all ih =>
      obtain ⟨texts, written, reads⟩ := dumpsItems_of_forall ih
      exact ⟨_, by rw [dumps, written]; rfl, reads_array items reads⟩
  | @object nesting members unsplit distinct ordered all ih =>
      have each : ∀ member ∈ members, ∃ text, dumps floatRepr fmt member.2 = some text ∧
          Reads (scanMember (scanOnce nesting)) member
            (encodeString member.1 ++ fmt.keySeparator ++ text) := by
        intro member inside
        obtain ⟨text, written, reads⟩ := ih member inside
        exact ⟨text, written, reads_member (unsplit member inside) keys reads⟩
      obtain ⟨texts, written, reads⟩ := dumpsMembers_of_forall each
      have sameKeys : members.map Prod.fst = texts.map Prod.fst := by
        refine List.forall₂_eq_eq_eq ▸ ?_
        rw [List.forall₂_map_left_iff, List.forall₂_map_right_iff]
        exact reads.imp fun _ _ same => same.1
      have sorted : fmt.sorted texts = texts := Format.sorted_of_ordered (sameKeys ▸ ordered)
      refine ⟨_, by rw [dumps, written, Option.map_some, sorted], reads_object items distinct ?_⟩
      rw [List.forall₂_map_right_iff]
      exact reads.imp fun _ _ same => same.1 ▸ same.2

theorem reads_dumps (items : Separates ',' fmt.itemSeparator) (keys : Separates ':' fmt.keySeparator)
    {nesting : Nat} {value : Json} (plain : Plain fmt.sortKeys nesting value) :
    ∃ text, dumps floatRepr fmt value = some text ∧ Reads (scanOnce nesting) value text :=
  plain.restorable.reads items keys

theorem decode_of_reads {nesting : Nat} {value : Json} {text : Str}
    (reads : Reads (scanOnce nesting) value text) : decode nesting text = .ok value := by
  have scanned := reads.scanned [] stops_nil
  have skipped := reads.skip []
  rw [List.append_nil] at scanned skipped
  rw [decode, skipped, scanned]
  rfl

theorem detectEncoding_of_seven {b : List Nat} (seven : ∀ x ∈ b, 0 < x ∧ x < 128) :
    detectEncoding b = .utf8 := by
  have noMark : ∀ (x : Nat) (mark : List Nat), 128 ≤ x → x ∈ mark → ¬ mark <+: b := by
    intro x mark large member isPrefix
    have small := (seven x (isPrefix.subset member)).2
    omega
  have nonzero : ∀ x ∈ b, x ≠ 0 := fun x member => Nat.ne_of_gt (seven x member).1
  unfold detectEncoding
  rw [if_neg (not_or.mpr ⟨noMark 0xFE _ (by decide) (by decide), noMark 0xFF _ (by decide) (by decide)⟩),
    if_neg (not_or.mpr ⟨noMark 0xFE _ (by decide) (by decide), noMark 0xFF _ (by decide) (by decide)⟩),
    if_neg (noMark 0xEF _ (by decide) (by decide))]
  rcases b with _ | ⟨b₀, _ | ⟨b₁, _ | ⟨b₂, _ | ⟨b₃, b⟩⟩⟩⟩
  · rfl
  · rfl
  · simp [nonzero b₀ (by simp), nonzero b₁ (by simp)]
  · rfl
  · simp [nonzero b₀ (by simp), nonzero b₁ (by simp)]

theorem loads_of_reads {nesting : Nat} {value : Json} {text : Str} {bytes : List Byte}
    (reads : Reads (scanOnce nesting) value text) (encoded : encodeUtf8 text = some bytes) :
    loads nesting bytes = .ok value := by
  obtain ⟨same, rfl, seven⟩ := reads.ascii.exists_bytes
  have small : ∀ b ∈ same, b.val < 128 := fun b member => (seven b member).2
  rw [encodeUtf8_map_ofByte small] at encoded
  cases encoded
  have values : ∀ x ∈ bytes.map Fin.val, 0 < x ∧ x < 128 := by
    intro x member
    obtain ⟨b, inside, rfl⟩ := List.mem_map.mp member
    exact seven b inside
  rw [loads, detectEncoding_of_seven values, Encoding.decode, decodeUtf8_of_seven small]
  exact decode_of_reads reads

end DecisionMaker.Library.Json
