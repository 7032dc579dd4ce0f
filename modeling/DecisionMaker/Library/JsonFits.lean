import DecisionMaker.Library.JsonWeight
import DecisionMaker.Library.Pattern

namespace DecisionMaker.Library.Json

open Library

/-- `json.dumps` writes it: no float, no integer over the digit limit, no key twice. -/
inductive Ordinary : Json → Prop
  | null : Ordinary .null
  | bool (b : Bool) : Ordinary (.bool b)
  | int {n : Int} (small : n.natAbs < 10 ^ maxStrDigits) : Ordinary (.int n)
  | str (s : Str) : Ordinary (.str s)
  | array {items : List Json} (all : ∀ item ∈ items, Ordinary item) : Ordinary (.array items)
  | object {members : List (Str × Json)} (distinct : (members.map Prod.fst).Nodup)
      (all : ∀ member ∈ members, Ordinary member.2) : Ordinary (.object members)

/-- At most `nesting` containers stand around each other, and no string has a high surrogate directly
before a low one. -/
inductive Fits : Nat → Json → Prop
  | null (nesting : Nat) : Fits nesting .null
  | bool (nesting : Nat) (b : Bool) : Fits nesting (.bool b)
  | int (nesting : Nat) (n : Int) : Fits nesting (.int n)
  | float (nesting : Nat) (bits : BitVec 64) : Fits nesting (.float bits)
  | str (nesting : Nat) {s : Str} (unsplit : Unsplit s) : Fits nesting (.str s)
  | array {nesting : Nat} {items : List Json} (all : ∀ item ∈ items, Fits nesting item) :
      Fits (nesting + 1) (.array items)
  | object {nesting : Nat} {members : List (Str × Json)} (keys : ∀ member ∈ members, Unsplit member.1)
      (all : ∀ member ∈ members, Fits nesting member.2) : Fits (nesting + 1) (.object members)

theorem Fits.restorable {nesting : Nat} {value : Json} (fits : Fits nesting value) (ordinary : Ordinary value) :
    Restorable false nesting value := by
  induction fits with
  | null nesting => exact .null nesting
  | bool nesting b => exact .bool nesting b
  | int nesting n =>
      cases ordinary with
      | int small => exact .int nesting small
  | float nesting bits => cases ordinary
  | str nesting unsplit => exact .str nesting unsplit
  | array all ih =>
      cases ordinary with
      | array each => exact .array fun item member => ih item member (each item member)
  | object keys all ih =>
      cases ordinary with
      | object distinct each =>
          apply Restorable.object keys distinct
          · intro sorted
            cases sorted
          · exact fun member inside => ih member inside (each member inside)

variable {floatRepr : BitVec 64 → Str} {fmt : Format}

theorem weight_intercalate {separator : Str} (light : weight separator = 1) (texts : List Str) :
    weight (separator.intercalate texts) + 1 = max 1 (texts.map fun text => weight text + 1).sum := by
  induction texts with
  | nil => rfl
  | cons text texts ih =>
      have some : 1 ≤ ((text :: texts).map fun text => weight text + 1).sum := by
        rw [List.map_cons, List.sum_cons]
        omega
      rw [max_eq_right some, List.map_cons, List.sum_cons]
      cases texts with
      | nil =>
          rw [List.intercalate_singleton]
          rfl
      | cons next texts =>
          have more : 1 ≤ ((next :: texts).map fun text => weight text + 1).sum := by
            rw [List.map_cons, List.sum_cons]
            omega
          rw [max_eq_right more] at ih
          rw [List.intercalate_cons_cons, weight_append, weight_append, light]
          omega

theorem Separates.weight {x : Char} {separator : Str} (separates : Separates x separator)
    (visible : ink (.ofChar x) = 1) : weight separator = 1 := by
  obtain ⟨blanks, rfl, blank⟩ := separates
  rw [weight_cons, visible, weight_blanks blank]

structure Written (heavy : Nat) (text : Str) : Prop where
  ascii : text.Ascii
  weight : weight text = heavy

theorem Written.container {α : Type} {bulk : α → Nat} {values : List α} {texts : List Str} {separator : Str}
    {opening closing : CodePoint} (separates : Separates ',' separator)
    (ends : Str.Ascii [opening, closing] ∧ ink opening = 1 ∧ ink closing = 1)
    (written : List.Forall₂ (fun value => Written (bulk value)) values texts) :
    Written (1 + max 1 (values.map fun value => bulk value + 1).sum)
      (opening :: separator.intercalate texts ++ [closing]) := by
  obtain ⟨ascii, openingInk, closingInk⟩ := ends
  have all : ∀ text ∈ texts, text.Ascii :=
    forall_of_forall₂ written fun _ _ _ each => each.ascii
  have sums : (texts.map fun text => Json.weight text + 1) = values.map fun value => bulk value + 1 := by
    symm
    rw [← List.forall₂_eq_eq_eq, List.forall₂_map_left_iff, List.forall₂_map_right_iff]
    exact written.imp fun value text written => by rw [written.weight]
  constructor
  · intro c member
    rw [List.mem_append, List.mem_cons, List.mem_singleton] at member
    rcases member with (rfl | inside) | rfl
    · exact ascii _ List.mem_cons_self
    · exact ascii_intercalate (separates.ascii (by decide)) all c inside
    · exact ascii _ (List.mem_cons_of_mem _ List.mem_cons_self)
  · have inner := weight_intercalate (separates.weight rfl) texts
    rw [sums] at inner
    rw [weight_append, weight_cons, weight_cons, weight_nil, openingInk, closingInk]
    omega

theorem written_intRepr {n : Int} {text : Str} (written : intRepr n = some text) :
    Written (bulk (.int n)) text where
  ascii := ascii_intRepr written
  weight := by rw [bulk, written, Option.elim_some]

theorem written_member {key : Str} {value : Json} {text : Str} (keys : Separates ':' fmt.keySeparator)
    (written : Written (bulk value) text) :
    Written (bulkMember (key, value)) (encodeString key ++ fmt.keySeparator ++ text) where
  ascii := ((ascii_encodeString key).append (keys.ascii (by decide))).append written.ascii
  weight := by
    rw [weight_append, weight_append, keys.weight rfl, written.weight, bulkMember_eq]

theorem Ordinary.written (items : Separates ',' fmt.itemSeparator) (keys : Separates ':' fmt.keySeparator)
    (unsorted : fmt.sortKeys = false) {value : Json} (ordinary : Ordinary value) :
    ∃ text, dumps floatRepr fmt value = some text ∧ Written (bulk value) text := by
  induction ordinary with
  | null => exact ⟨_, by rw [dumps], by decide, rfl⟩
  | bool b =>
      cases b with
      | false => exact ⟨_, by rw [dumps], by decide, rfl⟩
      | true => exact ⟨_, by rw [dumps], by decide, rfl⟩
  | int small =>
      obtain ⟨text, written⟩ := intRepr_isSome_iff.mpr small
      exact ⟨text, by rw [dumps, written], written_intRepr written⟩
  | str s => exact ⟨_, by rw [dumps], ascii_encodeString s, by rw [bulk]⟩
  | array all ih =>
      obtain ⟨texts, written, each⟩ := dumpsItems_of_forall ih
      refine ⟨_, by rw [dumps, written]; rfl, ?_⟩
      rw [bulk, bulkItems_eq]
      exact .container items ⟨by decide, rfl, rfl⟩ each
  | @object members distinct all ih =>
      have member_text : ∀ member ∈ members, ∃ text, dumps floatRepr fmt member.2 = some text ∧
          Written (bulkMember member) (encodeString member.1 ++ fmt.keySeparator ++ text) := by
        intro member inside
        obtain ⟨text, dumped, written⟩ := ih member inside
        exact ⟨text, dumped, written_member keys written⟩
      obtain ⟨texts, written, each⟩ := dumpsMembers_of_forall member_text
      have kept : fmt.sorted texts = texts := by rw [Format.sorted, unsorted, if_neg Bool.false_ne_true]
      refine ⟨_, by rw [dumps, written, Option.map_some, kept], ?_⟩
      rw [bulk, bulkMembers_eq]
      apply Written.container items ⟨by decide, rfl, rfl⟩
      rw [List.forall₂_map_right_iff]
      exact each.imp fun member text same => same.1 ▸ same.2

def Yields {α : Type} (one : Str → Scan α) (P : α → Prop) : Prop :=
  ∀ s a rest, one s = .ok (a, rest) → s.WellFormed → P a ∧ rest.WellFormed

section Yields

variable {α : Type} {one : Str → Scan α} {P : α → Prop} {close : Char}

theorem wellFormed_skip {s t : Str} {c : CodePoint} (wellFormed : s.WellFormed) (skipped : skip s = c :: t) :
    t.WellFormed := by
  have visible : Str.WellFormed (c :: t) := skipped ▸ wellFormed.of_isSuffix (List.dropWhile_suffix _)
  exact visible.of_isSuffix (List.suffix_cons c t)

theorem elements_yields (yields : Yields one P) {s rest : Str} {values : List α}
    (elements : Elements one close s values rest) (wellFormed : s.WellFormed) :
    (∀ a ∈ values, P a) ∧ rest.WellFormed := by
  induction elements with
  | last read closed =>
      obtain ⟨holds, behind⟩ := yields _ _ _ read wellFormed
      exact ⟨List.forall_mem_singleton.mpr holds, wellFormed_skip behind closed⟩
  | more read comma others ih =>
      obtain ⟨holds, behind⟩ := yields _ _ _ read wellFormed
      obtain ⟨all, last⟩ := ih ((wellFormed_skip behind comma).of_isSuffix (List.dropWhile_suffix _))
      exact ⟨List.forall_mem_cons.mpr ⟨holds, all⟩, last⟩

theorem scanContainer_yields (yields : Yields one P) :
    Yields (scanContainer one close) fun values => ∀ a ∈ values, P a := by
  intro s values rest scanned wellFormed
  rcases scanContainer_cases scanned with ⟨rfl, closed⟩ | ⟨c, t, found, -, elements⟩
  · exact ⟨List.forall_mem_nil P, wellFormed_skip wellFormed closed⟩
  · have visible : Str.WellFormed (c :: t) := found ▸ wellFormed.of_isSuffix (List.dropWhile_suffix _)
    exact elements_yields yields elements visible

end Yields

theorem scanString_yields : Yields scanString Unsplit := by
  intro s text rest scanned wellFormed
  obtain ⟨spelled, rfl, spells⟩ := exists_spells scanned
  have formed := wellFormed.of_isInfix (List.prefix_append spelled rest).isInfix
  exact ⟨(spells.unsplit formed).1, wellFormed.of_isSuffix (List.suffix_append spelled rest)⟩

theorem scanMember_yields {scan : Str → Scan Json} {P : Json → Prop} (yields : Yields scan P) :
    Yields (scanMember scan) fun member => Unsplit member.1 ∧ P member.2 := by
  intro s member rest scanned wellFormed
  obtain ⟨t, after, v, rfl, keyScanned, found, inner⟩ := scanMember_iff.mp scanned
  obtain ⟨unsplit, behind⟩ := scanString_yields _ _ _ keyScanned (wellFormed.of_isSuffix (List.suffix_cons _ _))
  have visible := (wellFormed_skip behind found).of_isSuffix (List.dropWhile_suffix isSpace)
  obtain ⟨holds, last⟩ := yields _ _ _ inner visible
  exact ⟨⟨unsplit, holds⟩, last⟩

theorem setItem_forall {P : Str × Json → Prop} {key : Str} {value : Json} {members : List (Str × Json)}
    (first : P (key, value)) (others : ∀ member ∈ members, P member) :
    ∀ member ∈ setItem key value members, P member := by
  induction members with
  | nil => exact List.forall_mem_singleton.mpr first
  | cons member members ih =>
      obtain ⟨k, v⟩ := member
      obtain ⟨here, rest⟩ := List.forall_mem_cons.mp others
      rw [setItem]
      split_ifs with same
      · exact List.forall_mem_cons.mpr ⟨same ▸ first, rest⟩
      · exact List.forall_mem_cons.mpr ⟨here, ih rest⟩

theorem dict_forall {P : Str × Json → Prop} {members : List (Str × Json)} (all : ∀ member ∈ members, P member) :
    ∀ member ∈ dict members, P member := by
  have fold : ∀ (later before : List (Str × Json)), (∀ member ∈ later, P member) → (∀ member ∈ before, P member) →
      ∀ member ∈ later.foldl (fun d member => setItem member.1 member.2 d) before, P member := by
    intro later
    induction later with
    | nil => exact fun before _ held => held
    | cons member later ih =>
        intro before all held
        obtain ⟨first, rest⟩ := List.forall_mem_cons.mp all
        exact ih _ rest (setItem_forall first held)
  exact fold members [] all fun _ member => absurd member List.not_mem_nil

theorem fits_constant (nesting : Nat) : ∀ c ∈ constants, Fits nesting c.2 := by
  intro c member
  simp only [constants, List.mem_cons, List.not_mem_nil, or_false] at member
  rcases member with rfl | rfl | rfl | rfl | rfl | rfl
  · exact .null nesting
  · exact .bool nesting true
  · exact .bool nesting false
  · exact .float nesting _
  · exact .float nesting _
  · exact .float nesting _

theorem scanOnce_yields (nesting : Nat) : Yields (scanOnce nesting) (Fits nesting) := by
  refine scanOnce_induction
    (motive := fun nesting s value rest => s.WellFormed → Fits nesting value ∧ rest.WellFormed)
    ?string ?object ?array ?constant ?number nesting
  case string =>
    intro nesting t text rest read wellFormed
    obtain ⟨unsplit, behind⟩ := scanString_yields _ _ _ read (wellFormed.of_isSuffix (List.suffix_cons _ _))
    exact ⟨.str nesting unsplit, behind⟩
  case object =>
    intro nesting t members rest inside read wellFormed
    obtain ⟨all, behind⟩ :=
      scanContainer_yields (scanMember_yields inside) _ _ _ read (wellFormed.of_isSuffix (List.suffix_cons _ _))
    have each := dict_forall all
    exact ⟨.object (fun member found => (each member found).1) fun member found => (each member found).2, behind⟩
  case array =>
    intro nesting t items rest inside read wellFormed
    obtain ⟨all, behind⟩ := scanContainer_yields inside _ _ _ read (wellFormed.of_isSuffix (List.suffix_cons _ _))
    exact ⟨.array all, behind⟩
  case constant =>
    intro nesting c member rest wellFormed
    exact ⟨fits_constant nesting c member, wellFormed.of_isSuffix (List.suffix_append _ rest)⟩
  case number =>
    intro nesting s value rest read wellFormed
    obtain ⟨text, -, rfl, -⟩ := exists_number read
    have behind := wellFormed.of_isSuffix (List.suffix_append text rest)
    rcases scanNumber_cases read with ⟨n, rfl⟩ | ⟨bits, rfl⟩
    · exact ⟨.int nesting n, behind⟩
    · exact ⟨.float nesting bits, behind⟩

end DecisionMaker.Library.Json
