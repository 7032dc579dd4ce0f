import DecisionMaker.Library.JsonScan
import Mathlib.Data.List.Chain

namespace DecisionMaker.Library.Json

open Library

theorem hexDigit_hexChar (d : Fin 16) : hexDigit (hexChar d) = some d := by
  revert d
  decide

theorem hex4_nibbles (n : Fin 65536) :
    hex4 (hexChar (nibble n 3)) (hexChar (nibble n 2)) (hexChar (nibble n 1)) (hexChar (nibble n 0)) =
      some (.ofUnit n) := by
  simp only [hex4, hexDigit_hexChar, Option.some.injEq, Fin.ext_iff, nibble, CodePoint.ofUnit]
  omega

theorem scanString_plain {c : CodePoint} (quote : c.is '"' = false) (backslash : c.is '\\' = false)
    (printable : 0x1F < c.val) (s : Str) : scanString (c :: s) = .push c (scanString s) := by
  rw [scanString.eq_def]
  dsimp only
  rw [quote, backslash, if_neg Bool.false_ne_true, Bool.not_false, if_pos rfl, if_neg (Nat.not_le.mpr printable)]

theorem scanString_unescape {e c : CodePoint} (short : e.is 'u' = false)
    (known : unescape e = some c) (s : Str) :
    scanString (.ofChar '\\' :: e :: s) = .push c (scanString s) := by
  rw [scanString.eq_def]
  dsimp only
  rw [if_neg (by decide), if_neg (by decide), short, Bool.not_false, if_pos rfl, known]

def scanBehind (x : CodePoint) (s : Str) : Scan Str :=
  if !x.isHighSurrogate then .push x (scanString s)
  else match s with
    | e :: f :: a :: b :: c :: d :: rest =>
        if e.is '\\' && f.is 'u' then
          match hex4 a b c d with
          | none => .error .jsonDecodeError
          | some low =>
              if low.isLowSurrogate then .push (x.join low) (scanString rest)
              else .push x (scanString (e :: f :: a :: b :: c :: d :: rest))
        else .push x (scanString (e :: f :: a :: b :: c :: d :: rest))
    | s => .push x (scanString s)

theorem scanString_unicode {a b c d x : CodePoint} (hex : hex4 a b c d = some x) (s : Str) :
    scanString (.ofChar '\\' :: .ofChar 'u' :: a :: b :: c :: d :: s) = scanBehind x s := by
  rw [scanString.eq_def]
  dsimp only
  rw [if_neg (by decide), if_neg (by decide), if_neg (by decide), hex]
  rfl

def StartsLow (text : Str) : Prop :=
  ∃ a b c d low rest, text = .ofChar '\\' :: .ofChar 'u' :: a :: b :: c :: d :: rest ∧
    hex4 a b c d = some low ∧ low.isLowSurrogate = true

/-- A text up to the closing quote, and the string that it spells. -/
inductive Spells : Str → Str → Prop
  | close : Spells [.ofChar '"'] []
  | plain {c : CodePoint} {text s : Str} (quote : c.is '"' = false) (backslash : c.is '\\' = false)
      (printable : 0x1F < c.val) (spells : Spells text s) : Spells (c :: text) (c :: s)
  | short {e c : CodePoint} {text s : Str} (notUnit : e.is 'u' = false) (known : unescape e = some c)
      (spells : Spells text s) : Spells (.ofChar '\\' :: e :: text) (c :: s)
  | unit {a b c d x : CodePoint} {text s : Str} (hex : hex4 a b c d = some x)
      (single : x.isHighSurrogate = true → ¬StartsLow text) (spells : Spells text s) :
      Spells (.ofChar '\\' :: .ofChar 'u' :: a :: b :: c :: d :: text) (x :: s)
  | pair {a b c d high a' b' c' d' low : CodePoint} {text s : Str} (hex : hex4 a b c d = some high)
      (isHigh : high.isHighSurrogate = true) (hex' : hex4 a' b' c' d' = some low)
      (isLow : low.isLowSurrogate = true) (spells : Spells text s) :
      Spells (.ofChar '\\' :: .ofChar 'u' :: a :: b :: c :: d ::
        .ofChar '\\' :: .ofChar 'u' :: a' :: b' :: c' :: d' :: text) (high.join low :: s)

theorem scanBehind_single {x : CodePoint} (notHigh : x.isHighSurrogate = false) (s : Str) :
    scanBehind x s = .push x (scanString s) := by
  rw [scanBehind.eq_def, notHigh]
  rfl

theorem scanBehind_pair {high a b c d low : CodePoint} (isHigh : high.isHighSurrogate = true)
    (hex : hex4 a b c d = some low) (isLow : low.isLowSurrogate = true) (s : Str) :
    scanBehind high (.ofChar '\\' :: .ofChar 'u' :: a :: b :: c :: d :: s) =
      .push (high.join low) (scanString s) := by
  rw [scanBehind.eq_def, isHigh, if_neg (by decide)]
  dsimp only
  rw [if_pos (by decide), hex]
  dsimp only
  rw [if_pos isLow]

theorem scanBehind_other {x : CodePoint} {s : Str} (other : ∀ t, s ≠ .ofChar '\\' :: .ofChar 'u' :: t) :
    scanBehind x s = .push x (scanString s) := by
  unfold scanBehind
  split_ifs
  · rfl
  · split
    · rename_i e f a b c d rest
      rw [if_neg]
      intro both
      rw [Bool.and_eq_true, is_iff, is_iff] at both
      rw [both.1, both.2] at other
      exact other _ rfl
    · rfl

theorem scanBehind_unit {x a b c d y : CodePoint} (hex : hex4 a b c d = some y) (notLow : y.isLowSurrogate = false)
    (s : Str) : scanBehind x (.ofChar '\\' :: .ofChar 'u' :: a :: b :: c :: d :: s) =
      .push x (scanString (.ofChar '\\' :: .ofChar 'u' :: a :: b :: c :: d :: s)) := by
  unfold scanBehind
  split_ifs
  · rfl
  · dsimp only
    rw [if_pos (by decide), hex]
    dsimp only
    rw [notLow, if_neg Bool.false_ne_true]

theorem Spells.scanBehind_high {text s : Str} (spells : Spells text s) (x : CodePoint) (alone : ¬StartsLow text)
    (rest : Str) : scanBehind x (text ++ rest) = .push x (scanString (text ++ rest)) := by
  cases spells with
  | close =>
      apply scanBehind_other
      intro t same
      cases (List.cons.inj same).1
  | plain quote backslash printable spells =>
      apply scanBehind_other
      intro t same
      rw [(List.cons.inj same).1, is_ofChar] at backslash
      cases backslash
  | short notUnit known spells =>
      apply scanBehind_other
      intro t same
      rw [(List.cons.inj (List.cons.inj same).2).1, is_ofChar] at notUnit
      cases notUnit
  | unit hex single spells =>
      apply scanBehind_unit hex
      rw [← Bool.not_eq_true]
      exact fun isLow => alone ⟨_, _, _, _, _, _, rfl, hex, isLow⟩
  | pair hex isHigh hex' isLow spells =>
      apply scanBehind_unit hex
      rw [← Bool.not_eq_true]
      intro isLow'
      simp only [CodePoint.isHighSurrogate, CodePoint.isLowSurrogate, decide_eq_true_eq] at isHigh isLow'
      omega

theorem Spells.scanned {text s : Str} (spells : Spells text s) (rest : Str) :
    scanString (text ++ rest) = .ok (s, rest) := by
  induction spells with
  | close =>
      rw [scanString.eq_def]
      rfl
  | plain quote backslash printable spells ih =>
      rw [List.cons_append, scanString_plain quote backslash printable, ih]
      rfl
  | short notUnit known spells ih =>
      rw [List.cons_append, List.cons_append, scanString_unescape notUnit known, ih]
      rfl
  | @unit a b c d x text s hex single spells ih =>
      simp only [List.cons_append]
      rw [scanString_unicode hex]
      cases isHigh : x.isHighSurrogate with
      | false => rw [scanBehind_single isHigh, ih]; rfl
      | true => rw [spells.scanBehind_high x (single isHigh), ih]; rfl
  | pair hex isHigh hex' isLow spells ih =>
      simp only [List.cons_append]
      rw [scanString_unicode hex, scanBehind_pair isHigh hex' isLow, ih]
      rfl

theorem exists_spells {t s rest : Str} (scanned : scanString t = .ok (s, rest)) :
    ∃ text, t = text ++ rest ∧ Spells text s := by
  fun_induction scanString t generalizing s with
  | case1 | case3 | case5 | case6 | case8 | case10 | case15 => cases scanned
  | case2 c t quote =>
      cases scanned
      rw [is_iff.mp quote]
      exact ⟨_, rfl, .close⟩
  | case4 c t quote backslash control ih =>
      obtain ⟨tail, inner, rfl⟩ := Scan.push_eq_ok_iff.mp scanned
      obtain ⟨text, rfl, spells⟩ := ih inner
      exact ⟨c :: text, rfl, .plain (Bool.not_eq_true _ ▸ quote) (by simpa using backslash) (by omega) spells⟩
  | case7 c _ backslash e t notUnit x known ih =>
      obtain ⟨tail, inner, rfl⟩ := Scan.push_eq_ok_iff.mp scanned
      obtain ⟨text, rfl, spells⟩ := ih inner
      rw [eq_ofChar backslash]
      exact ⟨_, rfl, .short (by simpa using notUnit) known spells⟩
  | case9 c₀ _ backslash e isUnit a b c d t x hex notHigh ih =>
      obtain ⟨tail, inner, rfl⟩ := Scan.push_eq_ok_iff.mp scanned
      obtain ⟨text, rfl, spells⟩ := ih inner
      rw [eq_ofChar backslash, eq_ofChar isUnit]
      exact ⟨_, rfl, .unit hex (fun isHigh => by simp [isHigh] at notHigh) spells⟩
  | case11 c₀ _ backslash e isUnit a b c d high hex isHigh e' f a' b' c' d' t both low hex' isLow ih =>
      obtain ⟨tail, inner, rfl⟩ := Scan.push_eq_ok_iff.mp scanned
      obtain ⟨text, rfl, spells⟩ := ih inner
      rw [Bool.and_eq_true, is_iff, is_iff] at both
      rw [eq_ofChar backslash, eq_ofChar isUnit, both.1, both.2]
      exact ⟨_, rfl, .pair hex (by simpa using isHigh) hex' isLow spells⟩
  | case12 c₀ _ backslash e isUnit a b c d high hex isHigh e' f a' b' c' d' t both x hex' notLow ih =>
      obtain ⟨tail, inner, rfl⟩ := Scan.push_eq_ok_iff.mp scanned
      obtain ⟨text, same, spells⟩ := ih inner
      rw [eq_ofChar backslash, eq_ofChar isUnit, same]
      refine ⟨_, rfl, .unit hex (fun _ => ?_) spells⟩
      rintro ⟨a'', b'', c'', d'', low, more, rfl, hex'', isLow⟩
      cases same
      rw [hex'] at hex''
      cases hex''
      exact notLow isLow
  | case13 c₀ _ backslash e isUnit a b c d high hex isHigh e' f a' b' c' d' t both ih =>
      obtain ⟨tail, inner, rfl⟩ := Scan.push_eq_ok_iff.mp scanned
      obtain ⟨text, same, spells⟩ := ih inner
      rw [eq_ofChar backslash, eq_ofChar isUnit, same]
      refine ⟨_, rfl, .unit hex (fun _ => ?_) spells⟩
      rintro ⟨a'', b'', c'', d'', low, more, rfl, -, -⟩
      cases same
      exact both (by simp [is_ofChar])
  | case14 c₀ _ backslash e isUnit a b c d high hex isHigh t other ih =>
      obtain ⟨tail, inner, rfl⟩ := Scan.push_eq_ok_iff.mp scanned
      obtain ⟨text, rfl, spells⟩ := ih inner
      rw [eq_ofChar backslash, eq_ofChar isUnit]
      refine ⟨_, rfl, .unit hex (fun _ => ?_) spells⟩
      rintro ⟨a', b', c', d', low, more, rfl, -, -⟩
      exact other _ _ _ _ _ _ _ rfl

def Unsplit (s : Str) : Prop := s.IsChain fun a b => ¬(a.isHighSurrogate = true ∧ b.isLowSurrogate = true)

theorem Unsplit.of_wellFormed {s : Str} (wellFormed : s.WellFormed) : Unsplit s := by
  induction s with
  | nil => exact .nil
  | cons c s ih =>
      refine List.isChain_cons.mpr ⟨fun d _ both => ?_, ih fun d member => wellFormed d (List.mem_cons_of_mem _ member)⟩
      have single := wellFormed c List.mem_cons_self
      rw [CodePoint.isSurrogate, both.1] at single
      cases single

theorem escape_cases (c : CodePoint) :
    (∃ e, escape c = [.ofChar '\\', e] ∧ e.is 'u' = false ∧ unescape e = some c) ∨
      (escape c = [c] ∧ c.is '"' = false ∧ c.is '\\' = false ∧ 0x1F < c.val) ∨
      (∃ n, escape c = unicodeEscape n ∧ c = .ofUnit n ∧ (c.val < 0x20 ∨ 0x7E < c.val)) ∨
      ∃ high low, escape c = unicodeEscape high ++ unicodeEscape low ∧
        (CodePoint.ofUnit high).isHighSurrogate = true ∧ (CodePoint.ofUnit low).isLowSurrogate = true ∧
          c = CodePoint.join (.ofUnit high) (.ofUnit low) := by
  generalize written : escape c = text
  unfold escape at written
  split_ifs at written with special printable newline return_ tab backspace formFeed bmp <;> subst written
  · rcases Bool.or_eq_true_iff.mp special with quote | backslash
    · rw [is_iff.mp quote]
      exact .inl ⟨_, rfl, rfl, rfl⟩
    · rw [is_iff.mp backslash]
      exact .inl ⟨_, rfl, rfl, rfl⟩
  · have ⟨quote, backslash⟩ := Bool.or_eq_false_iff.mp (Bool.not_eq_true _ ▸ special)
    exact .inr (.inl ⟨rfl, quote, backslash, by omega⟩)
  · rw [is_iff.mp newline]
    exact .inl ⟨.ofChar 'n', rfl, rfl, rfl⟩
  · rw [is_iff.mp return_]
    exact .inl ⟨.ofChar 'r', rfl, rfl, rfl⟩
  · rw [is_iff.mp tab]
    exact .inl ⟨.ofChar 't', rfl, rfl, rfl⟩
  · rw [show c = 0x08 from Fin.ext backspace]
    exact .inl ⟨.ofChar 'b', rfl, rfl, rfl⟩
  · rw [show c = 0x0C from Fin.ext formFeed]
    exact .inl ⟨.ofChar 'f', rfl, rfl, rfl⟩
  · exact .inr (.inr (.inl ⟨⟨c.val, bmp⟩, rfl, rfl, by omega⟩))
  · refine .inr (.inr (.inr ⟨_, _, rfl, decide_eq_true ?_, decide_eq_true ?_, ?_⟩))
    · dsimp only [CodePoint.ofUnit]
      omega
    · dsimp only [CodePoint.ofUnit]
      omega
    · simp only [CodePoint.join, CodePoint.ofUnit, Fin.ext_iff]
      omega

theorem Spells.low_of_startsLow {text s : Str} (spells : Spells text s) (starts : StartsLow text) :
    ∃ low ∈ s.head?, low.isLowSurrogate = true := by
  obtain ⟨a, b, c, d, low, rest, same, hex, isLow⟩ := starts
  cases spells with
  | close => cases (List.cons.inj same).1
  | plain quote backslash printable spells =>
      rw [(List.cons.inj same).1, is_ofChar] at backslash
      cases backslash
  | short notUnit known spells =>
      rw [(List.cons.inj (List.cons.inj same).2).1, is_ofChar] at notUnit
      cases notUnit
  | unit hex' single spells =>
      cases same
      rw [hex'] at hex
      cases hex
      exact ⟨low, rfl, isLow⟩
  | pair hex' isHigh hex'' isLow' spells =>
      cases same
      rw [hex'] at hex
      cases hex
      simp only [CodePoint.isHighSurrogate, CodePoint.isLowSurrogate, decide_eq_true_eq] at isHigh isLow
      omega

theorem Spells.escape {text s : Str} (spells : Spells text s) {c : CodePoint}
    (alone : ∀ d ∈ s.head?, ¬(c.isHighSurrogate = true ∧ d.isLowSurrogate = true)) :
    Spells (Json.escape c ++ text) (c :: s) := by
  rcases escape_cases c with ⟨e, written, notUnit, known⟩ | ⟨written, quote, backslash, printable⟩ |
    ⟨n, written, same, -⟩ | ⟨high, low, written, isHigh, isLow, same⟩
  · rw [written]
    exact .short notUnit known spells
  · rw [written]
    exact .plain quote backslash printable spells
  · rw [written, same]
    refine .unit (hex4_nibbles n) (fun isHigh starts => ?_) spells
    obtain ⟨low, member, isLow⟩ := spells.low_of_startsLow starts
    exact alone low member ⟨same ▸ isHigh, isLow⟩
  · rw [written, same]
    exact .pair (hex4_nibbles high) isHigh (hex4_nibbles low) isLow spells

theorem spells_escaped {s : Str} (unsplit : Unsplit s) :
    Spells (s.flatMap escape ++ [.ofChar '"']) s := by
  induction s with
  | nil => exact .close
  | cons c s ih =>
      obtain ⟨alone, rest⟩ := List.isChain_cons.mp unsplit
      rw [List.flatMap_cons, List.append_assoc]
      exact (ih rest).escape alone

theorem not_high_of_not_surrogate {c : CodePoint} (single : c.isSurrogate = false) :
    c.isHighSurrogate = false ∧ c.isLowSurrogate = false :=
  Bool.or_eq_false_iff.mp single

theorem join_not_surrogate (high low : CodePoint) : (high.join low).isSurrogate = false := by
  have value : (high.join low).val = 0x10000 + (high.val % 1024) * 1024 + low.val % 1024 := rfl
  rw [← Bool.not_eq_true]
  intro surrogate
  rcases Bool.or_eq_true_iff.mp surrogate with isHigh | isLow
  · have bounds := of_decide_eq_true isHigh
    omega
  · have bounds := of_decide_eq_true isLow
    omega

def escapeLetters : List Char := ['"', '\\', '/', 'b', 'f', 'n', 'r', 't']

theorem exists_escapeLetter {e c : CodePoint} (known : unescape e = some c) :
    ∃ x ∈ escapeLetters, e = .ofChar x := by
  unfold escapeLetters
  unfold unescape at known
  split_ifs at known with same b f n r t
  · rcases Bool.or_eq_true_iff.mp same with same | slash
    · rcases Bool.or_eq_true_iff.mp same with quote | backslash
      · exact ⟨'"', by simp, is_iff.mp quote⟩
      · exact ⟨'\\', by simp, is_iff.mp backslash⟩
    · exact ⟨'/', by simp, is_iff.mp slash⟩
  · exact ⟨'b', by simp, is_iff.mp b⟩
  · exact ⟨'f', by simp, is_iff.mp f⟩
  · exact ⟨'n', by simp, is_iff.mp n⟩
  · exact ⟨'r', by simp, is_iff.mp r⟩
  · exact ⟨'t', by simp, is_iff.mp t⟩

theorem of_unescape {P : CodePoint → CodePoint → Bool}
    (each : escapeLetters.all (fun x => (unescape (.ofChar x)).all (P (.ofChar x))) = true) {e c : CodePoint}
    (known : unescape e = some c) : P e c = true := by
  obtain ⟨x, member, rfl⟩ := exists_escapeLetter known
  have all := List.all_eq_true.mp each x member
  rwa [known] at all

theorem unescape_not_surrogate {e c : CodePoint} (known : unescape e = some c) : c.isSurrogate = false := by
  have each : escapeLetters.all (fun x => (unescape (.ofChar x)).all fun c => !c.isSurrogate) = true := by decide
  have single := of_unescape (P := fun _ c => !c.isSurrogate) each known
  rwa [Bool.not_eq_true'] at single

theorem Spells.unsplit {text s : Str} (spells : Spells text s) (wellFormed : text.WellFormed) :
    Unsplit s ∧ ∀ low ∈ s.head?, low.isLowSurrogate = true → StartsLow text := by
  have behind : ∀ {c : CodePoint} {s : Str}, c.isSurrogate = false → Unsplit s → Unsplit (c :: s) := by
    intro c s single rest
    refine List.isChain_cons.mpr ⟨fun d _ both => ?_, rest⟩
    rw [(not_high_of_not_surrogate single).1] at both
    cases both.1
  have notLow : ∀ {c : CodePoint} {s text : Str}, c.isSurrogate = false →
      ∀ low ∈ (c :: s).head?, low.isLowSurrogate = true → StartsLow text := by
    intro c s text single low member isLow
    cases member
    rw [(not_high_of_not_surrogate single).2] at isLow
    cases isLow
  induction spells with
  | close => exact ⟨.nil, fun low member => by cases member⟩
  | plain quote backslash printable spells ih =>
      have single := wellFormed _ List.mem_cons_self
      obtain ⟨rest, -⟩ := ih (wellFormed.of_isSuffix (List.suffix_cons _ _))
      exact ⟨behind single rest, notLow single⟩
  | short notUnit known spells ih =>
      have single := unescape_not_surrogate known
      obtain ⟨rest, -⟩ := ih (wellFormed.of_isSuffix ⟨[_, _], rfl⟩)
      exact ⟨behind single rest, notLow single⟩
  | @unit a b c d x text s hex alone spells ih =>
      obtain ⟨rest, starts⟩ := ih (wellFormed.of_isSuffix ⟨[_, _, _, _, _, _], rfl⟩)
      constructor
      · refine List.isChain_cons.mpr ⟨fun low member both => ?_, rest⟩
        exact alone both.1 (starts low member both.2)
      · intro low member isLow
        cases member
        exact ⟨a, b, c, d, _, text, rfl, hex, isLow⟩
  | @pair _ _ _ _ high _ _ _ _ low text s _ _ _ _ spells ih =>
      have single := join_not_surrogate high low
      obtain ⟨rest, -⟩ := ih (wellFormed.of_isSuffix ⟨[_, _, _, _, _, _, _, _, _, _, _, _], rfl⟩)
      exact ⟨behind single rest, notLow single⟩

end DecisionMaker.Library.Json
