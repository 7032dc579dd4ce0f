import DecisionMaker.Library.Base64

namespace DecisionMaker.Library.Base64

def unused : List (Fin 64) → Nat
  | [] => 0
  | [_] => 0
  | [_, b] => b.val % 16
  | [_, _, c] => c.val % 4
  | _ :: _ :: _ :: _ :: rest => unused rest

theorem unused_sextets (data : List Byte) : unused (sextets data) = 0 := by
  induction data using sextets.induct with
  | case1 => rfl
  | case2 a => simp [sextets, unused]
  | case3 a b => simp [sextets, unused]
  | case4 a b c rest ih => simpa [sextets, unused] using ih

theorem exists_sextets {digits : List (Fin 64)} (clean : unused digits = 0)
    (paired : digits.length % 4 ≠ 1) : ∃ data, sextets data = digits := by
  induction digits using unused.induct with
  | case1 => exact ⟨[], rfl⟩
  | case2 a => exact absurd rfl paired
  | case3 a b =>
      refine ⟨[⟨a.val * 4 + b.val / 16, by omega⟩], ?_⟩
      simp only [unused] at clean
      simp only [sextets, List.cons.injEq, Fin.ext_iff, and_true]
      omega
  | case4 a b c =>
      refine ⟨[⟨a.val * 4 + b.val / 16, by omega⟩, ⟨b.val % 16 * 16 + c.val / 4, by omega⟩], ?_⟩
      simp only [unused] at clean
      simp only [sextets, List.cons.injEq, Fin.ext_iff, and_true]
      omega
  | case5 a b c d rest ih =>
      simp only [unused] at clean
      simp only [List.length_cons] at paired
      obtain ⟨data, same⟩ := ih clean (by omega)
      refine ⟨⟨a.val * 4 + b.val / 16, by omega⟩ :: ⟨b.val % 16 * 16 + c.val / 4, by omega⟩ ::
        ⟨c.val % 4 * 64 + d.val, by omega⟩ :: data, ?_⟩
      simp only [sextets, same, List.cons.injEq, Fin.ext_iff, and_true]
      omega

theorem a2b_alone {digits : List (Fin 64)} (alone : digits.length % 4 = 1) (pads : Nat) :
    a2b (digits.map digit ++ List.replicate pads pad) = none := by
  induction digits using unused.induct with
  | case1 => cases alone
  | case2 a =>
      have padded (n k : Nat) : a2bFrom (.one a) k (List.replicate n pad) = none := by
        induction n generalizing k with
        | zero => rfl
        | succ n ih => simpa [a2bFrom, List.replicate_succ, Quad.pos] using ih k
      simp [a2b, a2bFrom_digit, Quad.next, padded]
  | case3 a b => cases alone
  | case4 a b c => cases alone
  | case5 a b c d rest ih =>
      simp only [List.length_cons] at alone
      have later := ih (by omega)
      rw [a2b] at later
      simp [a2b, a2bFrom_digit, Quad.next, later]

theorem a2bFrom_skip {b : Byte} (foreign : undigit b = none) (notPad : b ≠ pad) (q : Quad) (pads : Nat)
    (rest : List Byte) : a2bFrom q pads (b :: rest) = a2bFrom q pads rest := by
  simp [a2bFrom, notPad, foreign]

theorem upperHalf_lt (b : Byte) : b.val / 16 * 16 < 256 := by omega

theorem lowerHalf_lt (b : Byte) : b.val % 16 * 4 < 64 := by omega

def upperHalf (b : Byte) : Byte := ⟨b.val / 16 * 16, upperHalf_lt b⟩

def lowerHalf (b : Byte) : Fin 64 := ⟨b.val % 16 * 4, lowerHalf_lt b⟩

theorem lowerHalf_ne_one (b : Byte) : lowerHalf b ≠ 1 := by
  intro same
  have digits := congrArg Fin.val same
  simp only [lowerHalf, Fin.val_one] at digits
  omega

theorem lowerHalf_eq_zero {b : Byte} : lowerHalf b = 0 ↔ upperHalf b = b := by
  simp only [lowerHalf, upperHalf, Fin.ext_iff, Fin.val_zero]
  omega

def clearLast : List Byte → List Byte
  | [] => []
  | [b] => [upperHalf b]
  | b :: c :: rest => b :: clearLast (c :: rest)

theorem clearLast_cons (a : Byte) {rest : List Byte} (more : rest ≠ []) :
    clearLast (a :: rest) = a :: clearLast rest := by
  cases rest with
  | nil => exact absurd rfl more
  | cons b rest => rfl

theorem clearLast_append (front : List Byte) (b : Byte) :
    clearLast (front ++ [b]) = front ++ [upperHalf b] := by
  induction front with
  | nil => rfl
  | cons a front ih => rw [List.cons_append, clearLast_cons a (by simp), ih, List.cons_append]

theorem sextets_append {front : List Byte} (pair : front.length % 3 = 1) (b : Byte) :
    ∃ digits, sextets (front ++ [b]) = digits ++ [lowerHalf b] := by
  induction front using sextets.induct with
  | case1 => cases pair
  | case2 a => exact ⟨[_, _], rfl⟩
  | case3 a c => cases pair
  | case4 a c d rest ih =>
      simp only [List.length_cons] at pair
      obtain ⟨digits, same⟩ := ih (by omega)
      simp only [List.cons_append, sextets, same]
      exact ⟨_ :: _ :: _ :: _ :: digits, rfl⟩

theorem a2b_dropLast {data : List Byte} (pair : data.length % 3 = 2) {left : Fin 64} (small : left.val < 4) :
    a2b (((sextets data).dropLast ++ [left]).map digit ++ [pad]) = some (clearLast data) := by
  induction data using sextets.induct with
  | case1 | case2 a => cases pair
  | case3 a b =>
      have first : a.val / 4 * 4 + (a.val % 4 * 16 + b.val / 16) / 16 = a.val := by omega
      have second : (a.val % 4 * 16 + b.val / 16) % 16 * 16 + left.val / 4 = b.val / 16 * 16 := by omega
      simp only [a2b, sextets, List.dropLast_cons_cons, List.dropLast_singleton, List.cons_append,
        List.nil_append, List.map_cons, List.map_nil, a2bFrom_digit, Quad.next, Quad.emit,
        a2bFrom_three_padded, Option.map_some, clearLast, upperHalf, first, second]
  | case4 a b c rest ih =>
      simp only [List.length_cons] at pair
      have later := ih (by omega)
      have more : rest ≠ [] := by
        rintro rfl
        cases pair
      have digits : sextets rest ≠ [] := by
        cases rest with
        | nil => exact absurd rfl more
        | cons d rest => cases rest with
          | nil => simp [sextets]
          | cons e rest => cases rest <;> simp [sextets]
      have first : a.val / 4 * 4 + (a.val % 4 * 16 + b.val / 16) / 16 = a.val := by omega
      have second : (a.val % 4 * 16 + b.val / 16) % 16 * 16 + (b.val % 16 * 4 + c.val / 64) / 4 =
          b.val := by omega
      have third : (b.val % 16 * 4 + c.val / 64) % 4 * 64 + c.val % 64 = c.val := by omega
      rw [a2b] at later
      rw [clearLast_cons a (by simp), clearLast_cons b (by simp), clearLast_cons c more]
      simp only [a2b, sextets, List.dropLast_cons_of_ne_nil, ne_eq, reduceCtorEq, not_false_eq_true, digits,
        List.cons_append, List.map_cons, a2bFrom_digit, Quad.next, Quad.emit, later, Option.map_some,
        List.nil_append, first, second, third]

end DecisionMaker.Library.Base64
