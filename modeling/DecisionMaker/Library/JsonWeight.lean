import DecisionMaker.Library.JsonText

namespace DecisionMaker.Library.Json

open Library

def ink (c : CodePoint) : Nat :=
  if isSpace c then 0 else if 0x20 ≤ c.val ∧ c.val ≤ 0x7E then 1 else 12

def weight (s : Str) : Nat := (s.map ink).sum

section Texts

variable {c : CodePoint} {s t : Str}

@[simp] theorem weight_nil : weight [] = 0 := rfl

@[simp] theorem weight_cons (c : CodePoint) (s : Str) : weight (c :: s) = ink c + weight s := rfl

@[simp] theorem weight_append (s t : Str) : weight (s ++ t) = weight s + weight t := by
  rw [weight, List.map_append, List.sum_append]
  rfl

theorem ink_blank (blank : isSpace c = true) : ink c = 0 := if_pos blank

theorem ink_visible (visible : isSpace c = false) (printable : 0x20 ≤ c.val ∧ c.val ≤ 0x7E) : ink c = 1 := by
  rw [ink, visible, if_neg Bool.false_ne_true, if_pos printable]

theorem ink_le (printable : 0x20 ≤ c.val ∧ c.val ≤ 0x7E) : ink c ≤ 1 := by
  unfold ink
  rw [if_pos printable]
  split_ifs
  · exact Nat.zero_le 1
  · exact Nat.le_refl 1

theorem weight_blanks (blank : ∀ c ∈ s, isSpace c = true) : weight s = 0 := by
  induction s with
  | nil => rfl
  | cons c s ih =>
      rw [weight_cons, ink_blank (blank c List.mem_cons_self),
        ih fun d member => blank d (List.mem_cons_of_mem _ member)]

@[simp] theorem weight_skip (s : Str) : weight (skip s) = weight s := by
  obtain ⟨blanks, same, blank⟩ := exists_blanks s
  calc
    weight (skip s) = weight blanks + weight (skip s) := by rw [weight_blanks blank, Nat.zero_add]
    _ = weight s := by rw [← weight_append, ← same]

theorem weight_le_of_isInfix (part : s <:+: t) : weight s ≤ weight t := by
  obtain ⟨front, back, rfl⟩ := part
  rw [weight_append, weight_append]
  omega

theorem weight_le_length (printable : s.Printable) : weight s ≤ s.length := by
  induction s with
  | nil => exact Nat.le_refl 0
  | cons c s ih =>
      have first := ink_le (printable c List.mem_cons_self)
      have rest := ih fun d member => printable d (List.mem_cons_of_mem _ member)
      rw [weight_cons, List.length_cons]
      omega

theorem ink_digit (digit : isDigit c = true) : ink c = 1 := by
  rw [isDigit_iff] at digit
  apply ink_visible
  · have other : ∀ x : Char, x.toNat < 48 → c.is x = false := fun x small => is_eq_false (by omega)
    simp [isSpace, other]
  · omega

theorem weight_digits (digits : ∀ c ∈ s, isDigit c = true) : weight s = s.length := by
  induction s with
  | nil => rfl
  | cons c s ih =>
      rw [weight_cons, ink_digit (digits c List.mem_cons_self), List.length_cons,
        ih fun d member => digits d (List.mem_cons_of_mem _ member), Nat.add_comm]

end Texts

theorem length_escape_le (c : CodePoint) : (escape c).length ≤ 12 := by
  unfold escape
  split_ifs <;> exact Nat.le_of_ble_eq_true rfl

theorem length_escape_unit {c : CodePoint} (unit : c.val < 65536) : (escape c).length ≤ 6 := by
  unfold escape
  split_ifs <;> exact Nat.le_of_ble_eq_true rfl

theorem ink_hexDigit {c : CodePoint} {d : Fin 16} (hex : hexDigit c = some d) : ink c = 1 := by
  have value : '0'.toNat ≤ c.val ∧ c.val ≤ 'f'.toNat := by
    unfold hexDigit at hex
    split_ifs at hex with decimal lower upper
    · exact ⟨decimal.1, decimal.2.trans (by decide)⟩
    · exact ⟨le_trans (by decide) lower.1, lower.2⟩
    · exact ⟨le_trans (by decide) upper.1, upper.2.trans (by decide)⟩
  have bounds : 48 ≤ c.val ∧ c.val ≤ 102 := value
  apply ink_visible
  · have other : ∀ x : Char, x.toNat < 48 → c.is x = false := fun x small => is_eq_false (by omega)
    simp [isSpace, other]
  · omega

theorem weight_hex4 {a b c d x : CodePoint} (hex : hex4 a b c d = some x) :
    weight [a, b, c, d] = 4 ∧ x.val < 65536 := by
  unfold hex4 at hex
  split at hex
  · rename_i i j k l first second third fourth
    cases hex
    rw [weight_cons, weight_cons, weight_cons, weight_cons, ink_hexDigit first, ink_hexDigit second,
      ink_hexDigit third, ink_hexDigit fourth]
    refine ⟨rfl, ?_⟩
    dsimp only
    omega
  · cases hex

theorem unescape_weight {e c : CodePoint} (known : unescape e = some c) :
    ink e = 1 ∧ (escape c).length ≤ 2 := by
  have each : escapeLetters.all (fun x => (unescape (.ofChar x)).all
      fun c => decide (ink (.ofChar x) = 1 ∧ (escape c).length ≤ 2)) = true := by
    decide
  have both := of_unescape (P := fun e c => decide (ink e = 1 ∧ (escape c).length ≤ 2)) each known
  exact of_decide_eq_true both

theorem weight_escape_le {c : CodePoint} {n : Nat} (short : (escape c).length ≤ n) : weight (escape c) ≤ n :=
  (weight_le_length (printable_escape c)).trans short

theorem weight_escape_plain {c : CodePoint} (quote : c.is '"' = false) (backslash : c.is '\\' = false)
    (printable : 0x1F < c.val) : weight (escape c) ≤ ink c := by
  by_cases small : c.val ≤ 0x7E
  · have written : escape c = [c] := by
      rw [escape, quote, backslash, Bool.or_self, if_neg Bool.false_ne_true, if_pos ⟨printable, small⟩]
    rw [written, weight_cons, weight_nil]
    exact Nat.le_refl _
  · have other : ∀ x : Char, x.toNat ≤ 0x7E → c.is x = false := fun x low => is_eq_false (by omega)
    have visible : isSpace c = false := by simp [isSpace, other]
    have full : ink c = 12 := by
      rw [ink, visible, if_neg Bool.false_ne_true, if_neg (fun both => small both.2)]
    rw [full]
    exact weight_escape_le (length_escape_le c)

theorem Spells.weight_le {text s : Str} (spells : Spells text s) :
    weight (s.flatMap Json.escape) + 1 ≤ weight text := by
  have backslash : ink (.ofChar '\\') = 1 := rfl
  have letter : ink (.ofChar 'u') = 1 := rfl
  induction spells with
  | close => exact Nat.le_refl 1
  | plain quote notBackslash printable spells ih =>
      have first := weight_escape_plain quote notBackslash printable
      rw [List.flatMap_cons, weight_append, weight_cons]
      omega
  | short notUnit known spells ih =>
      obtain ⟨visible, short⟩ := unescape_weight known
      have first := weight_escape_le short
      rw [List.flatMap_cons, weight_append, weight_cons, weight_cons]
      omega
  | unit hex single spells ih =>
      obtain ⟨digits, unit⟩ := weight_hex4 hex
      have first := weight_escape_le (length_escape_unit unit)
      simp only [weight_cons, weight_nil] at digits
      simp only [List.flatMap_cons, weight_append, weight_cons]
      omega
  | @pair _ _ _ _ high _ _ _ _ low _ _ hex isHigh hex' isLow spells ih =>
      obtain ⟨digits, -⟩ := weight_hex4 hex
      obtain ⟨digits', -⟩ := weight_hex4 hex'
      have first := weight_escape_le (length_escape_le (high.join low))
      simp only [weight_cons, weight_nil] at digits digits'
      simp only [List.flatMap_cons, weight_append, weight_cons]
      omega

theorem scanString_weight {t s rest : Str} (scanned : scanString t = .ok (s, rest)) :
    weight (encodeString s) + weight rest ≤ weight (.ofChar '"' :: t) := by
  obtain ⟨text, rfl, spells⟩ := exists_spells scanned
  have least := spells.weight_le
  have quote : ink (.ofChar '"') = 1 := rfl
  rw [encodeString]
  simp only [weight_append, weight_cons, weight_nil, quote]
  omega

theorem natOf_lt {digits : Str} (all : ∀ c ∈ digits, isDigit c = true) :
    natOf digits < 10 ^ digits.length := by
  have small : ∀ d ∈ digits.reverse.map fun c => c.val - '0'.toNat, d < 10 := by
    intro d member
    obtain ⟨c, inside, rfl⟩ := List.mem_map.mp member
    have bounds := isDigit_iff.mp (all c (List.mem_reverse.mp inside))
    have zero : '0'.toNat = 48 := rfl
    omega
  have bound := Nat.ofDigits_lt_base_pow_length (by decide) small
  rwa [List.length_map, List.length_reverse] at bound

theorem weight_natRepr (n : Nat) : weight (natRepr n) = (natRepr n).length :=
  weight_digits fun _ => isDigit_of_mem_natRepr

theorem natAbs_signedInt (negative : Bool) (n : Nat) : (signedInt negative n).natAbs = n := by
  unfold signedInt
  split_ifs <;> omega

theorem weight_intRepr_le (negative : Bool) (n : Nat) :
    (intRepr (signedInt negative n)).elim 0 weight ≤ weight (signText negative) + (natRepr n).length := by
  have minus : ink (.ofChar '-') = 1 := rfl
  unfold intRepr
  rw [natAbs_signedInt]
  split_ifs with long below
  · exact Nat.zero_le _
  · cases negative with
    | false =>
        rw [signedInt, if_neg Bool.false_ne_true] at below
        omega
    | true =>
        rw [Option.elim_some, weight_cons, weight_natRepr, minus]
        exact Nat.le_refl _
  · rw [Option.elim_some, weight_natRepr]
    exact Nat.le_add_left _ _

theorem numberRest_int {negative : Bool} {digits s rest : Str} {n : Int}
    (scanned : numberRest negative digits s = .ok (.int n, rest)) :
    n = signedInt negative (natOf digits) ∧ s = rest := by
  unfold numberRest at scanned
  split at scanned
  · cases scanned
  · cases scanned
  · split_ifs at scanned
    cases scanned
    exact ⟨rfl, rfl⟩

theorem scanNumber_int_weight {s rest : Str} {n : Int} (scanned : scanNumber s = .ok (.int n, rest)) :
    (intRepr n).elim 0 weight + weight rest ≤ weight s := by
  have halves : scanSign s = ((scanSign s).1, (scanSign s).2) := rfl
  obtain ⟨same, -⟩ := exists_sign halves
  cases integer : scanInteger (scanSign s).2 with
  | none =>
      unfold scanNumber at scanned
      dsimp only at scanned
      rw [integer] at scanned
      cases scanned
  | some read =>
      obtain ⟨digits, afterDigits⟩ := read
      obtain ⟨split, ⟨c, t, rfl⟩, all, -⟩ := exists_integer integer
      rw [scanNumber_eq halves integer] at scanned
      obtain ⟨rfl, rfl⟩ := numberRest_int scanned
      have least := weight_intRepr_le (scanSign s).1 (natOf (c :: t))
      have short := (length_natRepr_le (Nat.succ_pos t.length)).mpr (natOf_lt all)
      calc
        _ ≤ weight (signText (scanSign s).1) + (natRepr (natOf (c :: t))).length + weight afterDigits :=
          Nat.add_le_add_right least _
        _ ≤ weight (signText (scanSign s).1) + weight (c :: t) + weight afterDigits := by
          rw [weight_digits all]
          exact Nat.add_le_add_right (Nat.add_le_add_left short _) _
        _ = weight (signText (scanSign s).1 ++ (c :: t ++ afterDigits)) := by
          rw [weight_append, weight_append, Nat.add_assoc]
        _ = weight s := by
          rw [← split]
          exact congrArg weight same.symm

def Weighs {α : Type} (one : Str → Scan α) (bulk : α → Nat) : Prop :=
  ∀ s a rest, one s = .ok (a, rest) → bulk a + weight rest ≤ weight s

section Containers

variable {α : Type} {one : Str → Scan α} {bulk : α → Nat} {close : Char} {s rest : Str} {values : List α}

theorem elements_weight (weighs : Weighs one bulk) (closeInk : ink (.ofChar close) = 1)
    (elements : Elements one close s values rest) :
    1 ≤ (values.map fun a => bulk a + 1).sum ∧
      (values.map fun a => bulk a + 1).sum + weight rest ≤ weight s := by
  induction elements with
  | @last s after rest a read closed =>
      have least := weighs _ _ _ read
      have behind := weight_skip after
      rw [closed, weight_cons, closeInk] at behind
      rw [List.map_singleton, List.sum_singleton]
      omega
  | @more s after t rest a values read comma others ih =>
      have least := weighs _ _ _ read
      have behind := weight_skip after
      have skipped := weight_skip t
      have commaInk : ink (.ofChar ',') = 1 := rfl
      rw [comma, weight_cons, commaInk] at behind
      rw [List.map_cons, List.sum_cons]
      omega

theorem scanContainer_weight (weighs : Weighs one bulk) (closeInk : ink (.ofChar close) = 1)
    (scanned : scanContainer one close s = .ok (values, rest)) :
    max 1 (values.map fun a => bulk a + 1).sum + weight rest ≤ weight s := by
  have blanks := weight_skip s
  rcases scanContainer_cases scanned with ⟨rfl, closed⟩ | ⟨c, t, found, -, elements⟩
  · rw [closed, weight_cons, closeInk] at blanks
    exact blanks.le
  · obtain ⟨some, least⟩ := elements_weight weighs closeInk elements
    rw [max_eq_right some, ← blanks, found]
    exact least

theorem scanMember_weighs {scan : Str → Scan Json} {bulk : Json → Nat} (weighs : Weighs scan bulk) :
    Weighs (scanMember scan) fun member => weight (encodeString member.1) + 1 + bulk member.2 := by
  intro s member rest scanned
  obtain ⟨t, after, v, rfl, keyScanned, found, inner⟩ := scanMember_iff.mp scanned
  have key := scanString_weight keyScanned
  have behind := weight_skip after
  have skipped := weight_skip v
  have least := weighs _ _ _ inner
  have colonInk : ink (.ofChar ':') = 1 := rfl
  rw [found, weight_cons, colonInk] at behind
  dsimp only
  omega

end Containers

mutual

/-- The weight of what `json.dumps` writes. How it writes a float is left open. -/
def bulk : Json → Nat
  | .null => 4
  | .bool b => if b then 4 else 5
  | .int n => (intRepr n).elim 0 weight
  | .float _ => 0
  | .str s => weight (encodeString s)
  | .array items => 1 + max 1 (bulkItems items)
  | .object members => 1 + max 1 (bulkMembers members)

def bulkItems : List Json → Nat
  | [] => 0
  | item :: items => bulk item + 1 + bulkItems items

def bulkMembers : List (Str × Json) → Nat
  | [] => 0
  | member :: members => bulkMember member + 1 + bulkMembers members

def bulkMember : Str × Json → Nat
  | (key, value) => weight (encodeString key) + 1 + bulk value

end

theorem bulkItems_eq (items : List Json) : bulkItems items = (items.map fun item => bulk item + 1).sum := by
  induction items with
  | nil => rfl
  | cons item items ih => rw [bulkItems, List.map_cons, List.sum_cons, ih]

theorem bulkMember_eq (member : Str × Json) :
    bulkMember member = weight (encodeString member.1) + 1 + bulk member.2 := by
  rw [bulkMember.eq_def]

theorem bulkMembers_eq (members : List (Str × Json)) :
    bulkMembers members = (members.map fun member => bulkMember member + 1).sum := by
  induction members with
  | nil => rfl
  | cons member members ih => rw [bulkMembers, List.map_cons, List.sum_cons, ih]

theorem bulkMembers_setItem_le (key : Str) (value : Json) (members : List (Str × Json)) :
    bulkMembers (setItem key value members) ≤ bulkMembers members + (bulkMember (key, value) + 1) := by
  induction members with
  | nil => exact (Nat.add_comm _ _).le
  | cons member members ih =>
      obtain ⟨k, v⟩ := member
      rw [setItem]
      split_ifs with same
      · rw [same, bulkMembers, bulkMembers]
        omega
      · rw [bulkMembers, bulkMembers]
        omega

theorem bulkMembers_dict_le (members : List (Str × Json)) : bulkMembers (dict members) ≤ bulkMembers members := by
  have fold : ∀ (later before : List (Str × Json)),
      bulkMembers (later.foldl (fun d member => setItem member.1 member.2 d) before) ≤
        bulkMembers before + bulkMembers later := by
    intro later
    induction later with
    | nil => exact fun before => Nat.le_refl _
    | cons member later ih =>
        intro before
        have rest := ih (setItem member.1 member.2 before)
        have first : bulkMembers (setItem member.1 member.2 before) ≤ bulkMembers before + (bulkMember member + 1) :=
          bulkMembers_setItem_le member.1 member.2 before
        rw [List.foldl_cons, bulkMembers]
        omega
  have whole := fold members []
  rwa [bulkMembers, Nat.zero_add] at whole

theorem bulk_constant : ∀ c ∈ constants, bulk c.2 ≤ weight (Str.ofString c.1) := by
  intro c member
  simp only [constants, List.mem_cons, List.not_mem_nil, or_false] at member
  rcases member with rfl | rfl | rfl | rfl | rfl | rfl
  · exact Nat.le_refl 4
  · exact Nat.le_refl 4
  · exact Nat.le_refl 5
  · exact Nat.zero_le _
  · exact Nat.zero_le _
  · exact Nat.zero_le _

theorem scanNumber_weighs : Weighs scanNumber bulk := by
  intro s value rest scanned
  rcases scanNumber_cases scanned with ⟨n, rfl⟩ | ⟨bits, rfl⟩
  · exact scanNumber_int_weight scanned
  · obtain ⟨text, -, rfl, -⟩ := exists_number scanned
    rw [bulk, Nat.zero_add]
    exact weight_le_of_isInfix (List.suffix_append text rest).isInfix

theorem scanOnce_weighs (nesting : Nat) : Weighs (scanOnce nesting) bulk := by
  have brace : ink (.ofChar '{') = 1 := rfl
  have bracket : ink (.ofChar '[') = 1 := rfl
  refine scanOnce_induction (motive := fun _ s value rest => bulk value + weight rest ≤ weight s)
    ?string ?object ?array ?constant ?number nesting
  case string =>
    intro nesting t text rest read
    exact scanString_weight read
  case object =>
    intro nesting t members rest inside read
    have least := scanContainer_weight (scanMember_weighs inside) rfl read
    have fewer := bulkMembers_dict_le members
    simp only [bulkMembers_eq members, bulkMember_eq] at fewer
    rw [bulk, weight_cons, brace]
    omega
  case array =>
    intro nesting t items rest inside read
    have least := scanContainer_weight inside rfl read
    rw [bulk, bulkItems_eq, weight_cons, bracket]
    omega
  case constant =>
    intro nesting c member rest
    rw [weight_append]
    exact Nat.add_le_add_right (bulk_constant c member) _
  case number =>
    intro nesting s value rest read
    exact scanNumber_weighs _ _ _ read

end DecisionMaker.Library.Json
