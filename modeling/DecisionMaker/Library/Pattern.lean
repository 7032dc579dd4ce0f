import DecisionMaker.Library.Parts
import Mathlib.Algebra.GroupWithZero.Nat

namespace DecisionMaker.Library

/-- What is captured, and the text behind the match. -/
def Pattern (α β : Type) := List α → List (β × List α)

namespace Pattern

instance {α : Type} : Monad (Pattern α) where
  pure b := fun s => [(b, s)]
  bind m f := fun s => (m s).flatMap fun r => f r.1 r.2

variable {α β γ : Type}

def one (p : α → Bool) : Pattern α α
  | [] => []
  | c :: s => if p c then [(c, s)] else []

def word (like : γ → α → Bool) : List γ → Pattern α (List α)
  | [] => pure []
  | b :: bs => do
      let c ← one (like b)
      let cs ← word like bs
      pure (c :: cs)

def anyOf (patterns : List (Pattern α β)) : Pattern α β := fun s => patterns.flatMap fun m => m s

/-- `p*`, which would rather take more. -/
def greedy (p : α → Bool) : Pattern α (List α)
  | [] => [([], [])]
  | c :: s => (if p c then (greedy p s).map fun r => (c :: r.1, r.2) else []) ++ [([], c :: s)]

/-- `.*?`, which would rather take less. -/
def few : Pattern α (List α)
  | [] => [([], [])]
  | c :: s => ([], c :: s) :: (few s).map fun r => (c :: r.1, r.2)

def notBefore (p : α → Bool) : Pattern α Unit := fun s => if s.head?.any p then [] else [((), s)]

def Consumes (m : Pattern α β) : Prop :=
  ∀ s b rest, (b, rest) ∈ m s → ∃ text, text ≠ [] ∧ s = text ++ rest

inductive Piece (α β : Type)
  | kept (c : α)
  | matched (text : List α) (value : β)

def Piece.text : Piece α β → List α
  | .kept c => [c]
  | .matched text _ => text

def Piece.remaining : Piece α β → List α
  | .kept c => [c]
  | .matched _ _ => []

def Piece.value? : Piece α β → Option β
  | .kept _ => none
  | .matched _ value => some value

/-- The matches from left to right, each one behind the last, and what stands between them. The first
elements, as many as `skip` says, belong to the match before. -/
def piecesFrom (m : Pattern α β) (skip : Nat) : List α → List (Piece α β)
  | [] => []
  | c :: s =>
      match skip with
      | skip + 1 => piecesFrom m skip s
      | 0 =>
          match (m (c :: s)).head? with
          | none => .kept c :: piecesFrom m 0 s
          | some (value, rest) =>
              let taken := s.length - rest.length
              .matched (c :: s.take taken) value :: piecesFrom m taken s

def pieces (m : Pattern α β) (s : List α) : List (Piece α β) := piecesFrom m 0 s

def remaining (ps : List (Piece α β)) : List α := ps.flatMap Piece.remaining

def remove (m : Pattern α β) (s : List α) : List α := remaining (pieces m s)

def findall (m : Pattern α β) (s : List α) : List β := (pieces m s).filterMap Piece.value?

def search (m : Pattern α β) : List α → Option β
  | [] => (m []).head?.map Prod.fst
  | c :: s =>
      match (m (c :: s)).head? with
      | some r => some r.1
      | none => search m s

@[simp] theorem mem_pure {a b : β} {s rest : List α} :
    (b, rest) ∈ (pure a : Pattern α β) s ↔ b = a ∧ rest = s := by
  show (b, rest) ∈ [(a, s)] ↔ _
  rw [List.mem_singleton, Prod.mk.injEq]

@[simp] theorem mem_bind {m : Pattern α β} {f : β → Pattern α γ} {c : γ} {s rest : List α} :
    (c, rest) ∈ (m >>= f) s ↔ ∃ b mid, (b, mid) ∈ m s ∧ (c, rest) ∈ f b mid := by
  show (c, rest) ∈ (m s).flatMap _ ↔ _
  rw [List.mem_flatMap, Prod.exists]

@[simp] theorem mem_one {p : α → Bool} {c : α} {s rest : List α} :
    (c, rest) ∈ one p s ↔ p c = true ∧ s = c :: rest := by
  cases s with
  | nil => simp [one]
  | cons d s =>
      rw [one]
      split_ifs with taken
      · rw [List.mem_singleton, Prod.mk.injEq, List.cons.injEq]
        constructor
        · rintro ⟨rfl, rfl⟩
          exact ⟨taken, rfl, rfl⟩
        · rintro ⟨-, rfl, rfl⟩
          exact ⟨rfl, rfl⟩
      · refine iff_of_false List.not_mem_nil ?_
        rintro ⟨holds, same⟩
        cases same
        exact taken holds

@[simp] theorem mem_anyOf {patterns : List (Pattern α β)} {r : β × List α} {s : List α} :
    r ∈ anyOf patterns s ↔ ∃ m ∈ patterns, r ∈ m s :=
  List.mem_flatMap

@[simp] theorem mem_word {like : γ → α → Bool} {bs : List γ} {cs s rest : List α} :
    (cs, rest) ∈ word like bs s ↔ s = cs ++ rest ∧ List.Forall₂ (fun b c => like b c = true) bs cs := by
  induction bs generalizing cs s rest with
  | nil =>
      rw [word, mem_pure, List.forall₂_nil_left_iff]
      constructor
      · rintro ⟨rfl, rfl⟩
        exact ⟨rfl, rfl⟩
      · rintro ⟨rfl, rfl⟩
        exact ⟨rfl, rfl⟩
  | cons b bs ih =>
      simp only [word, mem_bind, mem_one, mem_pure, ih]
      constructor
      · rintro ⟨c, _, ⟨first, rfl⟩, tail, _, ⟨rfl, others⟩, rfl, rfl⟩
        exact ⟨rfl, .cons first others⟩
      · rintro ⟨rfl, all⟩
        cases all with
        | cons first others => exact ⟨_, _, ⟨first, rfl⟩, _, _, ⟨rfl, others⟩, rfl, rfl⟩

@[simp] theorem mem_greedy {p : α → Bool} {cs s rest : List α} :
    (cs, rest) ∈ greedy p s ↔ s = cs ++ rest ∧ ∀ c ∈ cs, p c = true := by
  induction s generalizing cs rest with
  | nil =>
      rw [greedy, List.mem_singleton, Prod.mk.injEq, eq_comm (a := []), List.append_eq_nil_iff]
      constructor
      · rintro ⟨rfl, rfl⟩
        exact ⟨⟨rfl, rfl⟩, fun _ member => absurd member List.not_mem_nil⟩
      · rintro ⟨same, -⟩
        exact same
  | cons d s ih =>
      cases cs with
      | nil =>
          rw [greedy]
          have stops : rest = d :: s ↔ d :: s = rest := eq_comm
          split_ifs <;> simp [stops]
      | cons c cs =>
          rw [greedy]
          split_ifs with taken
          · simp only [List.mem_append, List.mem_map, Prod.exists, ih, Prod.mk.injEq, List.cons.injEq,
              List.mem_singleton, reduceCtorEq, false_and, or_false, List.cons_append, List.forall_mem_cons]
            constructor
            · rintro ⟨_, _, ⟨rfl, all⟩, ⟨rfl, rfl⟩, rfl⟩
              exact ⟨⟨rfl, rfl⟩, taken, all⟩
            · rintro ⟨⟨rfl, rfl⟩, -, all⟩
              exact ⟨_, _, ⟨rfl, all⟩, ⟨rfl, rfl⟩, rfl⟩
          · simp only [List.nil_append, List.mem_singleton, Prod.mk.injEq, reduceCtorEq, false_and,
              List.cons_append, List.cons.injEq, List.forall_mem_cons, false_iff, not_and]
            rintro ⟨rfl, -⟩ holds
            exact absurd holds taken

@[simp] theorem mem_few {cs s rest : List α} : (cs, rest) ∈ few s ↔ s = cs ++ rest := by
  induction s generalizing cs rest with
  | nil => simp [few, eq_comm]
  | cons d s ih =>
      cases cs with
      | nil => simp [few, eq_comm]
      | cons c cs =>
          simp only [few, List.mem_cons, List.mem_map, Prod.exists, ih, Prod.mk.injEq, List.cons.injEq,
            reduceCtorEq, false_and, false_or, List.cons_append]
          constructor
          · rintro ⟨_, _, rfl, ⟨rfl, rfl⟩, rfl⟩
            exact ⟨rfl, rfl⟩
          · rintro ⟨rfl, rfl⟩
            exact ⟨_, _, rfl, ⟨rfl, rfl⟩, rfl⟩

@[simp] theorem mem_notBefore {p : α → Bool} {u : Unit} {s rest : List α} :
    (u, rest) ∈ notBefore p s ↔ rest = s ∧ s.head?.any p = false := by
  rw [notBefore]
  split_ifs with before <;> simp [before]

theorem bind_apply (m : Pattern α β) (f : β → Pattern α γ) (s : List α) :
    (m >>= f) s = (m s).flatMap fun r => f r.1 r.2 := rfl

theorem head?_of_unique {m : Pattern α β} {s : List α} {r : β × List α} (found : r ∈ m s)
    (unique : ∀ q ∈ m s, q = r) : (m s).head? = some r := by
  cases all : m s with
  | nil =>
      rw [all] at found
      cases found
  | cons q l => rw [List.head?_cons, unique q (all ▸ List.mem_cons_self)]

theorem head?_flatMap_of_all {q : β} {l : List β} {f : β → List γ} (found : l ≠ [])
    (all : ∀ r ∈ l, r = q) : (l.flatMap f).head? = (f q).head? := by
  induction l with
  | nil => exact absurd rfl found
  | cons r l ih =>
      rw [List.flatMap_cons, all r List.mem_cons_self, List.head?_append]
      cases first : (f q).head? with
      | some c => rfl
      | none =>
          rw [Option.none_or]
          by_cases more : l = []
          · rw [more, List.flatMap_nil, List.head?_nil]
          · rw [ih more fun r member => all r (List.mem_cons_of_mem _ member), first]

theorem head?_bind_of_unique {m : Pattern α β} {f : β → Pattern α γ} {s mid : List α} {b : β}
    (found : (b, mid) ∈ m s) (unique : ∀ r ∈ m s, r = (b, mid)) :
    ((m >>= f) s).head? = (f b mid).head? :=
  head?_flatMap_of_all (List.ne_nil_of_mem found) unique

theorem head?_bind_const {m : Pattern α β} {k : Pattern α γ} {s mid : List α} (found : m s ≠ [])
    (behind : ∀ r ∈ m s, r.2 = mid) : ((m >>= fun _ => k) s).head? = (k mid).head? := by
  rw [bind_apply, ← List.flatMap_map Prod.snd k]
  apply head?_flatMap_of_all (List.map_eq_nil_iff.not.mpr found)
  intro rest member
  obtain ⟨r, inside, rfl⟩ := List.mem_map.mp member
  exact behind r inside

theorem few_append_bind {f : List α → Pattern α γ} (before : List α) {s : List α}
    (none : ∀ cs mid, before ++ s = cs ++ mid → cs.length < before.length → f cs mid = []) :
    ((few >>= f) (before ++ s)).head? = ((few >>= fun cs => f (before ++ cs)) s).head? := by
  induction before generalizing f with
  | nil => rfl
  | cons c before ih =>
      have first : f [] (c :: (before ++ s)) = [] := none [] _ rfl (Nat.zero_lt_succ _)
      have later := ih (f := fun cs => f (c :: cs)) fun cs mid same shorter =>
        none (c :: cs) mid (congrArg (c :: ·) same) (Nat.succ_lt_succ shorter)
      calc
        _ = ((few >>= fun cs => f (c :: cs)) (before ++ s)).head? := by
          simp only [bind_apply, List.cons_append, few, List.flatMap_cons, first, List.nil_append,
            List.flatMap_map]
        _ = _ := later

theorem head?_few_bind {f : List α → Pattern α γ} (before : List α) {s : List α} {r : γ × List α}
    (none : ∀ cs mid, before ++ s = cs ++ mid → cs.length < before.length → f cs mid = [])
    (found : (f before s).head? = some r) : ((few >>= f) (before ++ s)).head? = some r := by
  rw [few_append_bind before none]
  cases s with
  | nil =>
      simp only [bind_apply, few, List.flatMap_cons, List.flatMap_nil, List.append_nil]
      exact found
  | cons c s =>
      simp only [bind_apply, few, List.flatMap_cons, List.append_nil, List.head?_append, found]
      rfl

theorem head?_greedy_nil {p : α → Bool} {f : List α → Pattern α γ} {s : List α} {r : γ × List α}
    (none : ∀ cs mid, s = cs ++ mid → cs ≠ [] → f cs mid = []) (found : (f [] s).head? = some r) :
    ((greedy p >>= f) s).head? = some r := by
  cases s with
  | nil =>
      simp only [bind_apply, greedy, List.flatMap_cons, List.flatMap_nil, List.append_nil]
      exact found
  | cons c s =>
      have longer : ((if p c then (greedy p s).map fun q => (c :: q.1, q.2) else []).flatMap
          fun q => f q.1 q.2) = [] := by
        rw [List.flatMap_eq_nil_iff]
        rintro ⟨cs, mid⟩ member
        split_ifs at member
        · obtain ⟨⟨cs', mid'⟩, inside, same⟩ := List.mem_map.mp member
          cases same
          exact none _ _ (congrArg (c :: ·) (mem_greedy.mp inside).1) (List.cons_ne_nil _ _)
        · cases member
      rw [bind_apply, greedy, List.flatMap_append, longer, List.nil_append, List.flatMap_singleton]
      exact found

theorem head?_greedy_bind {p : α → Bool} {f : List α → Pattern α γ} (before : List α) {s : List α}
    {r : γ × List α} (all : ∀ c ∈ before, p c = true)
    (none : ∀ cs mid, before ++ s = cs ++ mid → before.length < cs.length → f cs mid = [])
    (found : (f before s).head? = some r) : ((greedy p >>= f) (before ++ s)).head? = some r := by
  induction before generalizing f with
  | nil =>
      exact head?_greedy_nil (fun cs mid same some => none cs mid same (List.length_pos_iff.mpr some)) found
  | cons c before ih =>
      have later := ih (f := fun cs => f (c :: cs)) (fun d member => all d (List.mem_cons_of_mem _ member))
        (fun cs mid same longer => none (c :: cs) mid (congrArg (c :: ·) same) (Nat.succ_lt_succ longer)) found
      rw [bind_apply] at later
      rw [List.cons_append, bind_apply, greedy, if_pos (all c List.mem_cons_self), List.flatMap_append,
        List.flatMap_map, List.head?_append, later]
      rfl

theorem head?_greedy_stop {p : α → Bool} {f : List α → Pattern α γ} (before : List α) {c : α} {s : List α}
    {r : γ × List α} (all : ∀ c ∈ before, p c = true) (stops : p c = false)
    (found : (f before (c :: s)).head? = some r) : ((greedy p >>= f) (before ++ c :: s)).head? = some r := by
  induction before generalizing f with
  | nil =>
      rw [List.nil_append, bind_apply, greedy, if_neg (Bool.eq_false_iff.mp stops), List.nil_append,
        List.flatMap_singleton]
      exact found
  | cons d before ih =>
      have later := ih (f := fun cs => f (d :: cs)) (fun e member => all e (List.mem_cons_of_mem _ member)) found
      rw [bind_apply] at later
      rw [List.cons_append, bind_apply, greedy, if_pos (all d List.mem_cons_self), List.flatMap_append,
        List.flatMap_map, List.head?_append, later]
      rfl

theorem head?_word_bind {like : γ → α → Bool} {bs : List γ} {cs : List α} {f : List α → Pattern α β}
    (alike : List.Forall₂ (fun b c => like b c = true) bs cs) (s : List α) :
    ((word like bs >>= f) (cs ++ s)).head? = (f cs s).head? := by
  apply head?_bind_of_unique (mem_word.mpr ⟨rfl, alike⟩)
  rintro ⟨other, rest⟩ member
  obtain ⟨same, alike'⟩ := mem_word.mp member
  have lengths : cs.length = other.length := alike.length_eq.symm.trans alike'.length_eq
  obtain ⟨rfl, rfl⟩ := List.append_inj same lengths
  rfl

theorem of_head?_few_bind {f : List α → Pattern α γ} {s : List α} {r : γ × List α}
    (found : ((few >>= f) s).head? = some r) :
    ∃ before mid, s = before ++ mid ∧ (f before mid).head? = some r ∧
      ∀ cs other, s = cs ++ other → cs.length < before.length → f cs other = [] := by
  induction s generalizing f with
  | nil =>
      simp only [bind_apply, few, List.flatMap_cons, List.flatMap_nil, List.append_nil] at found
      exact ⟨[], [], rfl, found, fun _ _ _ shorter => absurd shorter (Nat.not_lt_zero _)⟩
  | cons c s ih =>
      cases first : (f [] (c :: s)).head? with
      | some q =>
          simp only [bind_apply, few, List.flatMap_cons, List.head?_append, first] at found
          exact ⟨[], c :: s, rfl, first.trans found, fun _ _ _ shorter => absurd shorter (Nat.not_lt_zero _)⟩
      | none =>
          have rest : ((few >>= fun cs => f (c :: cs)) s).head? = some r := by
            simp only [bind_apply, few, List.flatMap_cons, List.head?_append, first, Option.none_or,
              List.flatMap_map] at found
            exact found
          obtain ⟨before, mid, rfl, ends, shortest⟩ := ih rest
          refine ⟨c :: before, mid, rfl, ends, fun cs other same shorter => ?_⟩
          cases cs with
          | nil =>
              rw [List.nil_append] at same
              rw [← same]
              exact List.head?_eq_none_iff.mp first
          | cons d cs =>
              obtain ⟨rfl, others⟩ := List.cons.inj same
              exact shortest cs other others (Nat.lt_of_succ_lt_succ shorter)

variable {m : Pattern α β}

theorem piecesFrom_eq_drop (skip : Nat) (s : List α) :
    piecesFrom m skip s = pieces m (s.drop skip) := by
  induction s generalizing skip with
  | nil => rw [List.drop_nil, pieces, piecesFrom, piecesFrom]
  | cons c s ih =>
      cases skip with
      | zero => rfl
      | succ skip =>
          rw [List.drop_succ_cons, ← ih skip]
          rfl

theorem pieces_nil : pieces m [] = [] := rfl

theorem pieces_cons_of_eq_nil {c : α} {s : List α} (none : m (c :: s) = []) :
    pieces m (c :: s) = .kept c :: pieces m s := by
  rw [pieces, piecesFrom, none]
  rfl

theorem pieces_append_of_head? {text rest : List α} {value : β} (some : text ≠ [])
    (first : (m (text ++ rest)).head? = .some (value, rest)) :
    pieces m (text ++ rest) = .matched text value :: pieces m rest := by
  cases text with
  | nil => exact absurd rfl some
  | cons c text =>
      have taken : (text ++ rest).length - rest.length = text.length := by
        rw [List.length_append, Nat.add_sub_cancel]
      rw [List.cons_append] at first ⊢
      rw [pieces, piecesFrom, first]
      dsimp only
      rw [taken, List.take_left, piecesFrom_eq_drop, List.drop_left]

theorem pieces_induction (consumes : Consumes m) {motive : List α → Prop} (nil : motive [])
    (kept : ∀ c s, m (c :: s) = [] → motive s → motive (c :: s))
    (matched : ∀ text value rest, text ≠ [] → (m (text ++ rest)).head? = some (value, rest) →
      motive rest → motive (text ++ rest)) (s : List α) : motive s := by
  induction length : s.length using Nat.strongRecOn generalizing s with
  | ind n ih =>
      cases s with
      | nil => exact nil
      | cons c s =>
          cases first : (m (c :: s)).head? with
          | none =>
              apply kept c s (List.head?_eq_none_iff.mp first)
              exact ih _ (length ▸ Nat.lt_succ_self _) s rfl
          | some r =>
              obtain ⟨value, rest⟩ := r
              obtain ⟨text, taken, same⟩ := consumes _ _ _ (List.mem_of_head? first)
              rw [same] at first length ⊢
              apply matched text value rest taken first
              refine ih _ ?_ rest rfl
              have positive := List.length_pos_iff.mpr taken
              rw [List.length_append] at length
              omega

theorem flatMap_text_pieces (consumes : Consumes m) (s : List α) :
    (pieces m s).flatMap Piece.text = s := by
  induction s using pieces_induction consumes with
  | nil => rfl
  | kept c s none ih => rw [pieces_cons_of_eq_nil none, List.flatMap_cons, ih, Piece.text, List.singleton_append]
  | matched text value rest taken first ih =>
      rw [pieces_append_of_head? taken first, List.flatMap_cons, ih, Piece.text]

theorem eq_nil_of_kept (consumes : Consumes m) {s : List α} {before after : List (Piece α β)} {c : α}
    (split : pieces m s = before ++ .kept c :: after) :
    m (c :: after.flatMap Piece.text) = [] := by
  induction s using pieces_induction consumes generalizing before with
  | nil => simp [pieces_nil] at split
  | kept d s none ih =>
      rw [pieces_cons_of_eq_nil none] at split
      cases before with
      | nil =>
          cases split
          rwa [flatMap_text_pieces consumes]
      | cons piece before => exact ih (List.cons.inj split).2
  | matched text value rest taken first ih =>
      rw [pieces_append_of_head? taken first] at split
      cases before with
      | nil => cases split
      | cons piece before => exact ih (List.cons.inj split).2

theorem pieces_eq_kept {s : List α} (none : ∀ t, t <:+ s → m t = []) :
    pieces m s = s.map .kept := by
  induction s with
  | nil => rfl
  | cons c s ih =>
      rw [pieces_cons_of_eq_nil (none _ List.suffix_rfl), List.map_cons,
        ih fun t suffix => none t (suffix.trans (List.suffix_cons c s))]

theorem remove_eq_self {s : List α} (none : ∀ t, t <:+ s → m t = []) : remove m s = s := by
  rw [remove, remaining, pieces_eq_kept none, List.flatMap_map]
  exact List.flatMap_singleton' s

theorem findall_eq_nil {s : List α} (none : ∀ t, t <:+ s → m t = []) : findall m s = [] := by
  rw [findall, pieces_eq_kept none, List.filterMap_map]
  exact List.filterMap_eq_nil_iff.mpr fun _ _ => rfl

theorem remove_append {text rest : List α} {value : β} (some : text ≠ [])
    (first : (m (text ++ rest)).head? = .some (value, rest)) : remove m (text ++ rest) = remove m rest := by
  rw [remove, pieces_append_of_head? some first]
  rfl

theorem remove_cons_of_eq_nil {c : α} {s : List α} (none : m (c :: s) = []) :
    remove m (c :: s) = c :: remove m s := by
  rw [remove, pieces_cons_of_eq_nil none]
  rfl

theorem findall_cons_of_eq_nil {c : α} {s : List α} (none : m (c :: s) = []) :
    findall m (c :: s) = findall m s := by
  rw [findall, pieces_cons_of_eq_nil none]
  rfl

theorem findall_append {text rest : List α} {value : β} (some : text ≠ [])
    (first : (m (text ++ rest)).head? = .some (value, rest)) :
    findall m (text ++ rest) = value :: findall m rest := by
  rw [findall, pieces_append_of_head? some first]
  rfl

theorem remaining_append (ps qs : List (Piece α β)) : remaining (ps ++ qs) = remaining ps ++ remaining qs :=
  List.flatMap_append

theorem remaining_kept (c : α) (ps : List (Piece α β)) : remaining (.kept c :: ps) = c :: remaining ps := rfl

theorem exists_kept {ps : List (Piece α β)} {u v : List α} {c : α} (split : remaining ps = u ++ c :: v) :
    ∃ before after, ps = before ++ .kept c :: after ∧ remaining before = u ∧ remaining after = v := by
  induction ps generalizing u with
  | nil => simp [remaining] at split
  | cons piece ps ih =>
      cases piece with
      | matched text value =>
          obtain ⟨before, after, rfl, left, right⟩ := ih split
          exact ⟨.matched text value :: before, after, rfl, left, right⟩
      | kept d =>
          rw [remaining_kept] at split
          cases u with
          | nil =>
              obtain ⟨rfl, rest⟩ := List.cons.inj split
              exact ⟨[], ps, rfl, rfl, rest⟩
          | cons e u =>
              obtain ⟨rfl, rest⟩ := List.cons.inj split
              obtain ⟨before, after, rfl, left, right⟩ := ih rest
              exact ⟨.kept d :: before, after, rfl, congrArg (d :: ·) left, right⟩

theorem flatMap_text_eq_remaining {ps : List (Piece α β)}
    (all : ∀ text value, .matched text value ∉ ps) : ps.flatMap Piece.text = remaining ps := by
  apply List.flatMap_congr
  intro piece member
  cases piece with
  | kept c => rfl
  | matched text value => exact absurd member (all text value)

def nowhere (m : Pattern α β) (s : List α) : Bool := s.tails.all fun t => (m t).isEmpty

theorem nowhere_iff {s : List α} : nowhere m s = true ↔ ∀ t, t <:+ s → m t = [] := by
  simp only [nowhere, List.all_eq_true, List.mem_tails, List.isEmpty_iff]

theorem nowhere_cons {c : α} {s : List α} :
    nowhere m (c :: s) = true ↔ m (c :: s) = [] ∧ nowhere m s = true := by
  rw [nowhere, List.tails_cons, List.all_cons, Bool.and_eq_true, List.isEmpty_iff]
  rfl

theorem nowhere_or_sum_remove_lt (consumes : Consumes m) {weight : α → Nat}
    (heavy : ∀ text value rest, (value, rest) ∈ m (text ++ rest) → 0 < (text.map weight).sum) (s : List α) :
    nowhere m s = true ∨ ((remove m s).map weight).sum < (s.map weight).sum := by
  induction s using pieces_induction consumes with
  | nil =>
      refine .inl (nowhere_iff.mpr fun t suffix => List.eq_nil_iff_forall_not_mem.mpr ?_)
      rintro ⟨value, rest⟩ member
      obtain ⟨text, some, same⟩ := consumes _ _ _ member
      rw [List.suffix_nil.mp suffix] at same
      exact some (List.append_eq_nil_iff.mp same.symm).1
  | kept c s none ih =>
      rcases ih with nothing | lighter
      · exact .inl (nowhere_cons.mpr ⟨none, nothing⟩)
      · rw [remove_cons_of_eq_nil none, List.map_cons, List.map_cons, List.sum_cons, List.sum_cons]
        exact .inr (Nat.add_lt_add_left lighter _)
  | matched text value rest taken first ih =>
      have lost := heavy text value rest (List.mem_of_head? first)
      have fewer : ((remove m rest).map weight).sum ≤ (rest.map weight).sum := by
        rcases ih with nothing | lighter
        · rw [remove_eq_self (nowhere_iff.mp nothing)]
        · exact Nat.le_of_lt lighter
      rw [remove_append taken first, List.map_append, List.sum_append]
      exact .inr (by omega)

theorem not_infix_iff_nowhere {P : β → List α → Prop}
    (spec : ∀ b s rest, (b, rest) ∈ m s ↔ ∃ text, P b text ∧ s = text ++ rest) {s : List α} :
    (∀ b text, P b text → ¬text <:+: s) ↔ nowhere m s = true := by
  rw [nowhere_iff]
  constructor
  · intro absent t suffix
    rw [List.eq_nil_iff_forall_not_mem]
    rintro ⟨b, rest⟩ found
    obtain ⟨text, holds, rfl⟩ := (spec b t rest).mp found
    exact absent b text holds (List.infix_append_left.trans suffix.isInfix)
  · rintro none b text holds ⟨front, back, rfl⟩
    have member := (spec b _ back).mpr ⟨text, holds, rfl⟩
    rw [none _ ⟨front, by rw [List.append_assoc]⟩] at member
    cases member

theorem search_eq_none {s : List α} (none : ∀ t, t <:+ s → m t = []) : search m s = .none := by
  induction s with
  | nil => rw [search, none [] List.suffix_rfl]; rfl
  | cons c s ih =>
      rw [search, none _ List.suffix_rfl]
      exact ih fun t suffix => none t (suffix.trans (List.suffix_cons c s))

theorem mem_of_search {s : List α} {b : β} (found : search m s = some b) :
    ∃ t rest, t <:+ s ∧ (b, rest) ∈ m t := by
  induction s with
  | nil =>
      obtain ⟨⟨_, rest⟩, first, rfl⟩ := Option.map_eq_some_iff.mp found
      exact ⟨[], rest, List.suffix_rfl, List.mem_of_head? first⟩
  | cons c s ih =>
      rw [search] at found
      split at found
      · rename_i r first
        cases found
        exact ⟨c :: s, r.2, List.suffix_rfl, List.mem_of_head? first⟩
      · obtain ⟨t, rest, suffix, member⟩ := ih found
        exact ⟨t, rest, suffix.trans (List.suffix_cons c s), member⟩

theorem search_append {before s : List α} {r : β × List α}
    (none : ∀ t u, before = t ++ u → u ≠ [] → m (u ++ s) = []) (first : (m s).head? = some r) :
    search m (before ++ s) = some r.1 := by
  induction before with
  | nil =>
      cases s with
      | nil => rw [List.nil_append, search, first]; rfl
      | cons c s => rw [List.nil_append, search, first]
  | cons c before ih =>
      have here : m (c :: (before ++ s)) = [] := none [] (c :: before) rfl (List.cons_ne_nil _ _)
      rw [List.cons_append, search, here]
      exact ih fun t u same some => none (c :: t) u (congrArg (c :: ·) same) some

end Pattern

end DecisionMaker.Library
