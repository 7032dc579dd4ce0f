import Mathlib.Data.List.DropRight
import Mathlib.Data.List.Infix

namespace DecisionMaker.Library

variable {α : Type} {p : α → Bool}

def trim (p : α → Bool) (s : List α) : List α := (s.dropWhile p).rdropWhile p

structure Trimmed (p : α → Bool) (s : List α) : Prop where
  first : ∀ c ∈ s.head?, p c = false
  last : ∀ c ∈ s.getLast?, p c = false

theorem Trimmed.nil : Trimmed p [] where
  first _ member := by cases member
  last _ member := by cases member

theorem rdropWhile_append_of_all {back : List α} (all : ∀ c ∈ back, p c = true) (s : List α) :
    (s ++ back).rdropWhile p = s.rdropWhile p := by
  induction back using List.reverseRecOn with
  | nil => rw [List.append_nil]
  | append_singleton back c ih =>
      rw [← List.append_assoc, List.rdropWhile_concat_pos _ _ _ (all c (by simp))]
      exact ih fun d member => all d (List.mem_append_left _ member)

theorem Trimmed.eq_self {s : List α} (trimmed : Trimmed p s) : trim p s = s := by
  have left : s.dropWhile p = s := by
    cases s with
    | nil => rfl
    | cons c s => rw [List.dropWhile_cons, trimmed.first c rfl, if_neg Bool.false_ne_true]
  rw [trim, left, List.rdropWhile_eq_self_iff]
  intro some taken
  rw [trimmed.last _ (List.getLast_mem_getLast? some)] at taken
  cases taken

theorem trim_append {front back s : List α} (left : ∀ c ∈ front, p c = true)
    (right : ∀ c ∈ back, p c = true) (trimmed : Trimmed p s) : trim p (front ++ s ++ back) = s := by
  have whole := trimmed.eq_self
  rw [trim] at whole ⊢
  rw [List.append_assoc, List.dropWhile_append_of_pos left]
  cases s with
  | nil =>
      rw [List.nil_append, List.dropWhile_eq_nil_iff.mpr right, List.rdropWhile_nil]
  | cons c s =>
      have stays := trimmed.first c rfl
      rw [List.dropWhile_cons, stays, if_neg Bool.false_ne_true] at whole
      rw [List.cons_append, List.dropWhile_cons, stays, if_neg Bool.false_ne_true, ← List.cons_append,
        rdropWhile_append_of_all right, whole]

theorem trim_spec (p : α → Bool) (s : List α) :
    ∃ front back, s = front ++ trim p s ++ back ∧ (∀ c ∈ front, p c = true) ∧
      (∀ c ∈ back, p c = true) ∧ Trimmed p (trim p s) := by
  refine ⟨s.takeWhile p, (s.dropWhile p).rtakeWhile p, ?_, ?_, ?_, ?_, ?_⟩
  · rw [List.append_assoc, trim, List.rdropWhile_append_rtakeWhile, List.takeWhile_append_dropWhile]
  · intro c member
    exact List.mem_takeWhile_imp member
  · intro c member
    exact List.mem_rtakeWhile_imp member
  · intro c member
    have isPrefix : trim p s <+: s.dropWhile p := List.rdropWhile_prefix p _
    obtain ⟨tail, same⟩ := isPrefix
    have first : c ∈ (s.dropWhile p).head? := by
      rw [← same, List.head?_append, Option.mem_def.mp member]
      rfl
    have stays := List.head?_dropWhile_not p s
    rw [Option.mem_def.mp first] at stays
    exact stays
  · intro c member
    have some : trim p s ≠ [] := List.ne_nil_of_mem (List.mem_of_getLast? member)
    rw [Option.mem_def, List.getLast?_eq_getLast_of_ne_nil some, Option.some.injEq] at member
    rw [← member]
    exact Bool.not_eq_true _ ▸ List.rdropWhile_last_not p _ some

theorem trimmed_trim (s : List α) : Trimmed p (trim p s) := by
  obtain ⟨_, _, -, -, -, trimmed⟩ := trim_spec p s
  exact trimmed

theorem trim_trim (s : List α) : trim p (trim p s) = trim p s := (trimmed_trim s).eq_self

theorem trim_isInfix (s : List α) : trim p s <:+: s := by
  obtain ⟨front, back, same, -, -, -⟩ := trim_spec p s
  exact ⟨front, back, same.symm⟩

theorem Trimmed.append {s : List α} (trimmed : Trimmed p s) (some : s ≠ []) (front back : List α) :
    Trimmed p (front.dropWhile p ++ s ++ back.rdropWhile p) where
  first c member := by
    cases left : front.dropWhile p with
    | nil =>
        rw [left, List.nil_append, List.head?_append_of_ne_nil _ some] at member
        exact trimmed.first c member
    | cons d front' =>
        have stays := List.head?_dropWhile_not p front
        rw [left, List.cons_append, List.cons_append, List.head?_cons] at member
        cases member
        rwa [left] at stays
  last c member := by
    by_cases right : back.rdropWhile p = []
    · rw [right, List.append_nil, List.getLast?_append_of_ne_nil _ some] at member
      exact trimmed.last c member
    · rw [List.getLast?_append_of_ne_nil _ right, Option.mem_def,
        List.getLast?_eq_some_getLast right, Option.some.injEq] at member
      rw [← member]
      exact Bool.not_eq_true _ ▸ List.rdropWhile_last_not p _ right

theorem Trimmed.trim_append {s : List α} (trimmed : Trimmed p s) (some : s ≠ []) (front back : List α) :
    trim p (front ++ s ++ back) = front.dropWhile p ++ s ++ back.rdropWhile p := by
  have whole : front ++ s ++ back =
      front.takeWhile p ++ (front.dropWhile p ++ s ++ back.rdropWhile p) ++ back.rtakeWhile p := by
    simp only [List.append_assoc, List.rdropWhile_append_rtakeWhile]
    rw [← List.append_assoc (front.takeWhile p), List.takeWhile_append_dropWhile]
  rw [whole]
  apply Library.trim_append
  · intro c member
    exact List.mem_takeWhile_imp member
  · intro c member
    exact List.mem_rtakeWhile_imp member
  · exact trimmed.append some front back

end DecisionMaker.Library
