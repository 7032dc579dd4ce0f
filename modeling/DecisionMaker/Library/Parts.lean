import Mathlib.Data.List.Basic
import Mathlib.Data.List.Forall2
import Mathlib.Data.List.Infix

namespace DecisionMaker.Library

variable {α β : Type}

theorem forall_of_forall₂ {R : α → β → Prop} {P : β → Prop} {as : List α} {bs : List β}
    (related : List.Forall₂ R as bs) (each : ∀ a ∈ as, ∀ b, R a b → P b) : ∀ b ∈ bs, P b := by
  induction related with
  | nil => exact fun b member => absurd member List.not_mem_nil
  | cons first others ih =>
      intro b member
      rcases List.mem_cons.mp member with rfl | member
      · exact each _ List.mem_cons_self b first
      · exact ih (fun a inside => each a (List.mem_cons_of_mem _ inside)) b member

theorem eq_of_forall₂ {R : α → α → Prop} {as bs : List α} (related : List.Forall₂ R as bs)
    (each : ∀ a ∈ as, ∀ b, R a b → b = a) : bs = as := by
  induction related with
  | nil => rfl
  | cons first others ih =>
      rw [each _ List.mem_cons_self _ first, ih fun a inside => each a (List.mem_cons_of_mem _ inside)]

theorem append_cons_unique {x y : List α} {c : α} {s t : List α} (same : x ++ c :: s = y ++ c :: t)
    (left : c ∉ x) (right : c ∉ y) : x = y ∧ s = t := by
  induction x generalizing y with
  | nil =>
      cases y with
      | nil => exact ⟨rfl, (List.cons.inj same).2⟩
      | cons d y => exact absurd ((List.cons.inj same).1 ▸ List.mem_cons_self) right
  | cons d x ih =>
      cases y with
      | nil => exact absurd ((List.cons.inj same).1 ▸ List.mem_cons_self) left
      | cons e y =>
          obtain ⟨first, others⟩ := List.cons.inj same
          obtain ⟨parts, rests⟩ := ih others (fun member => left (List.mem_cons_of_mem _ member))
            fun member => right (List.mem_cons_of_mem _ member)
          exact ⟨by rw [first, parts], rests⟩

theorem append_cons_unique_last {x y : List α} {c : α} {s t : List α} (same : x ++ c :: s = y ++ c :: t)
    (left : c ∉ s) (right : c ∉ t) : x = y ∧ s = t := by
  have reversed : s.reverse ++ c :: x.reverse = t.reverse ++ c :: y.reverse := by
    simpa using congrArg List.reverse same
  obtain ⟨behind, before⟩ := append_cons_unique reversed (List.mem_reverse.not.mpr left)
    (List.mem_reverse.not.mpr right)
  exact ⟨List.reverse_injective before, List.reverse_injective behind⟩

theorem append_cons_append_cons_unique {x y z u v w : List α} {c : α}
    (same : x ++ c :: (y ++ c :: z) = u ++ c :: (v ++ c :: w)) (first : c ∉ x) (first' : c ∉ u)
    (last : c ∉ z) (last' : c ∉ w) : x = u ∧ y = v ∧ z = w := by
  obtain ⟨front, rest⟩ := append_cons_unique same first first'
  obtain ⟨middle, back⟩ := append_cons_unique_last rest last last'
  exact ⟨front, middle, back⟩

theorem isPrefix_of_notMem_tail {part u : List α} {c : α} {s t : List α}
    (same : part ++ s = u ++ c :: t) (some : u ≠ []) (other : c ∉ part.tail) : part <+: u := by
  rcases List.append_eq_append_iff.mp same with ⟨more, rfl, -⟩ | ⟨more, rfl, rest⟩
  · exact List.prefix_append _ _
  · cases more with
    | nil => rw [List.append_nil]
    | cons d more =>
        cases u with
        | nil => exact absurd rfl some
        | cons e u =>
            cases rest
            exact absurd (List.mem_append_right _ List.mem_cons_self) other

theorem isPrefix_of_append_eq_concat {x y z : List α} {c : α} (same : x ++ y = z ++ [c]) (some : y ≠ []) :
    x <+: z := by
  rcases List.prefix_concat_iff.mp ⟨y, same⟩ with whole | isPrefix
  · rw [whole, List.append_right_eq_self] at same
    exact absurd same some
  · exact isPrefix

theorem exists_append_of_notMem {a b before t : List α} {c : α} (same : a ++ b = before ++ c :: t)
    (absent : c ∉ a) : ∃ more, before = a ++ more ∧ b = more ++ c :: t := by
  rcases List.append_eq_append_iff.mp same with ⟨more, rfl, rest⟩ | ⟨more, rfl, rest⟩
  · exact ⟨more, rfl, rest⟩
  · cases more with
    | nil => exact ⟨[], by rw [List.append_nil, List.append_nil], rest.symm⟩
    | cons d more =>
        rw [(List.cons.inj rest).1] at absent
        exact absurd (List.mem_append_right _ List.mem_cons_self) absent

theorem isPrefix_of_notMem {part s t : List α} {c : α} (isPrefix : part ++ [c] <+: s ++ t)
    (other : c ∉ t) : part ++ [c] <+: s := by
  obtain ⟨rest, same⟩ := isPrefix
  rcases List.append_eq_append_iff.mp same with ⟨more, rfl, -⟩ | ⟨more, last, rfl⟩
  · exact List.prefix_append _ _
  · cases more using List.reverseRecOn with
    | nil => rw [List.append_nil] at last; rw [last]
    | append_singleton more d =>
        rw [← List.append_assoc] at last
        obtain ⟨-, rfl⟩ := List.append_inj' last rfl |>.imp_right List.singleton_inj.mp
        exact absurd (by simp) other

end DecisionMaker.Library
