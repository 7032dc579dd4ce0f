import Mathlib.Data.List.Basic
import Mathlib.Data.List.Forall2

namespace DecisionMaker.Library

variable {ε α β : Type}

theorem bind_eq_ok {x : Except ε α} {f : α → Except ε β} {b : β} :
    (x >>= f) = .ok b ↔ ∃ a, x = .ok a ∧ f a = .ok b := by
  cases x with
  | error e => exact ⟨fun h => (by cases h), fun ⟨_, h, _⟩ => (by cases h)⟩
  | ok a => exact ⟨fun h => ⟨a, rfl, h⟩, fun ⟨_, h, g⟩ => (by cases h; exact g)⟩

theorem bind_eq_error {x : Except ε α} {f : α → Except ε β} {e : ε} :
    (x >>= f) = .error e ↔ x = .error e ∨ ∃ a, x = .ok a ∧ f a = .error e := by
  cases x with
  | error d =>
      constructor
      · intro raised
        cases raised
        exact .inl rfl
      · rintro (raised | ⟨_, returned, -⟩)
        · cases raised
          rfl
        · cases returned
  | ok a =>
      constructor
      · exact fun raised => .inr ⟨a, rfl, raised⟩
      · rintro (raised | ⟨_, returned, raised⟩)
        · cases raised
        · cases returned
          exact raised

theorem mapM_ok_iff {f : α → Except ε β} {xs : List α} :
    (∃ ys, xs.mapM f = .ok ys) ↔ ∀ x ∈ xs, ∃ y, f x = .ok y := by
  induction xs with
  | nil => exact ⟨by simp, fun _ => ⟨[], rfl⟩⟩
  | cons x xs ih =>
      rw [List.forall_mem_cons, ← ih]
      simp only [List.mapM_cons, bind_eq_ok]
      constructor
      · intro mapped
        obtain ⟨ys, y, first, zs, rest, -⟩ := mapped
        exact ⟨⟨y, first⟩, zs, rest⟩
      · intro mapped
        obtain ⟨⟨y, first⟩, zs, rest⟩ := mapped
        exact ⟨y :: zs, y, first, zs, rest, rfl⟩

theorem map_of_mapM_ok {f : α → Except ε β} {xs : List α} {ys : List β} (mapped : xs.mapM f = .ok ys) :
    xs.map f = ys.map .ok := by
  induction xs generalizing ys with
  | nil =>
      cases mapped
      rfl
  | cons x xs ih =>
      rw [List.mapM_cons] at mapped
      obtain ⟨y, first, later⟩ := bind_eq_ok.mp mapped
      obtain ⟨zs, rest, same⟩ := bind_eq_ok.mp later
      cases same
      rw [List.map_cons, List.map_cons, first, ih rest]

theorem forall₂_of_mapM_ok {f : α → Except ε β} {xs : List α} {ys : List β} (mapped : xs.mapM f = .ok ys) :
    List.Forall₂ (fun x y => f x = .ok y) xs ys := by
  have same := map_of_mapM_ok mapped
  rw [← List.forall₂_eq_eq_eq] at same
  simpa only [List.forall₂_map_left_iff, List.forall₂_map_right_iff] using same

theorem exists_of_mem_mapM_ok {f : α → Except ε β} {xs : List α} {ys : List β} (mapped : xs.mapM f = .ok ys)
    {y : β} (member : y ∈ ys) : ∃ x ∈ xs, f x = .ok y := by
  have outcome : .ok y ∈ xs.map f := by
    rw [map_of_mapM_ok mapped]
    exact List.mem_map_of_mem member
  exact List.mem_map.mp outcome

end DecisionMaker.Library
