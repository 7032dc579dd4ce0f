import Mathlib.Data.List.Perm.Basic
import Mathlib.Data.List.Range

namespace DecisionMaker.Library

variable {ε α : Type}

/-- One slot for each task; the first exception settles the whole. -/
structure Gathering (ε α : Type) where
  slots : List (Option α)
  raised : Option ε := none

namespace Gathering

def pending (outcomes : List (Except ε α)) : Gathering ε α := ⟨outcomes.map fun _ => none, none⟩

def finish (outcomes : List (Except ε α)) (g : Gathering ε α) (task : Nat) : Gathering ε α :=
  match g.raised, outcomes[task]? with
  | none, some (.ok a) => { g with slots := g.slots.set task (some a) }
  | none, some (.error e) => { g with raised := some e }
  | _, _ => g

def result (g : Gathering ε α) : Option (Except ε (List α)) :=
  match g.raised with
  | some e => some (.error e)
  | none => (g.slots.mapM id).map .ok

end Gathering

def gather (outcomes : List (Except ε α)) (order : List Nat) : Option (Except ε (List α)) :=
  (order.foldl (Gathering.finish outcomes) (.pending outcomes)).result

def raisedBy (outcomes : List (Except ε α)) (task : Nat) : Option ε :=
  match outcomes[task]? with
  | some (.error e) => some e
  | _ => none

theorem raisedBy_eq_some {outcomes : List (Except ε α)} {task : Nat} {e : ε} :
    raisedBy outcomes task = some e ↔ outcomes[task]? = some (.error e) := by
  unfold raisedBy
  split
  · rename_i d raised
    simp [raised]
  · rename_i other
    simpa using other e

namespace Gathering
variable {g : Gathering ε α} {outcomes : List (Except ε α)} {order : List Nat}

theorem foldl_settled {e : ε} (settled : g.raised = some e) :
    order.foldl (finish outcomes) g = g := by
  induction order with
  | nil => rfl
  | cons task order ih =>
      have same : finish outcomes g task = g := by simp [finish, settled]
      rw [List.foldl_cons, same, ih]

theorem foldl_raised (running : g.raised = none) :
    (order.foldl (finish outcomes) g).raised = order.findSome? (raisedBy outcomes) := by
  induction order generalizing g with
  | nil => exact running
  | cons task order ih =>
      rw [List.foldl_cons, List.findSome?_cons]
      cases outcome : outcomes[task]? with
      | none => simp [raisedBy, finish, outcome, running, ih]
      | some result =>
          cases result with
          | ok a => simp [raisedBy, finish, outcome, running, ih]
          | error e =>
              have settled : (finish outcomes g task).raised = some e := by
                simp [finish, outcome, running]
              rw [foldl_settled settled, settled]
              simp [raisedBy, outcome]

def filled (results : List α) (returned : List Nat) : List (Option α) :=
  results.mapIdx fun task a => if task ∈ returned then some a else none

theorem filled_cons (results : List α) (returned : List Nat) (task : Nat) :
    filled results (task :: returned) =
      match results[task]? with
      | some a => (filled results returned).set task (some a)
      | none => filled results returned := by
  apply List.ext_getElem?
  intro i
  cases found : results[task]? with
  | none =>
      have beyond : results.length ≤ task := List.getElem?_eq_none_iff.mp found
      cases present : results[i]? with
      | none => simp [filled, List.getElem?_mapIdx, present]
      | some a =>
          obtain ⟨within, -⟩ := List.getElem?_eq_some_iff.mp present
          have other : i ≠ task := by omega
          simp [filled, List.getElem?_mapIdx, present, other]
  | some a =>
      obtain ⟨within, value⟩ := List.getElem?_eq_some_iff.mp found
      by_cases same : i = task
      · subst same
        simp [filled, within, value]
      · simp [filled, List.getElem?_mapIdx, same, Ne.symm same]

theorem finish_filled (results : List α) (returned : List Nat) (task : Nat) :
    finish (results.map (.ok : α → Except ε α)) ⟨filled results returned, none⟩ task =
      ⟨filled results (task :: returned), none⟩ := by
  rw [filled_cons]
  cases found : results[task]? with
  | none => simp [finish, found]
  | some a => simp [finish, found]

theorem foldl_filled (results : List α) (returned order : List Nat) :
    order.foldl (finish (results.map (.ok : α → Except ε α))) ⟨filled results returned, none⟩ =
      ⟨filled results (order.reverse ++ returned), none⟩ := by
  induction order generalizing returned with
  | nil => rfl
  | cons task order ih => simp [finish_filled, ih]

variable (order) in
theorem foldl_slots (fits : g.slots.length = outcomes.length)
    (correct : ∀ (task : Nat) (a : α), g.slots[task]? = some (some a) →
      outcomes[task]? = some (.ok a)) :
    (order.foldl (finish outcomes) g).slots.length = outcomes.length ∧
      ∀ (task : Nat) (a : α), (order.foldl (finish outcomes) g).slots[task]? = some (some a) →
        outcomes[task]? = some (.ok a) := by
  induction order generalizing g with
  | nil => exact ⟨fits, correct⟩
  | cons next order ih =>
      rw [List.foldl_cons]
      unfold finish
      split
      · rename_i value _ outcome
        apply ih
        · simpa using fits
        · intro task a found
          by_cases same : next = task
          · subst same
            have here : next < g.slots.length := by
              rw [fits]
              exact (List.getElem?_eq_some_iff.mp outcome).1
            have value : value = a := by simpa [List.getElem?_set, here] using found
            rw [outcome, value]
          · rw [List.getElem?_set_ne same] at found
            exact correct task a found
      · exact ih fits correct
      · exact ih fits correct

end Gathering

theorem mapM_some_id (results : List α) : (results.map some).mapM id = some results := by
  induction results with
  | nil => rfl
  | cons a results ih => simp [ih]

theorem mapM_id_eq_some {slots : List (Option α)} {results : List α} :
    slots.mapM id = some results ↔ slots = results.map some := by
  induction slots generalizing results with
  | nil => cases results <;> simp
  | cons slot slots ih =>
      cases slot with
      | none => cases results <;> simp
      | some a =>
          cases rest : slots.mapM id with
          | none =>
              have other (tail : List α) : slots ≠ tail.map some := by
                intro same
                rw [ih.mpr same] at rest
                cases rest
              cases results <;> simp [rest, other]
          | some tail =>
              cases results with
              | nil => simp [rest]
              | cons b results =>
                  have same : slots = results.map some ↔ tail = results := by
                    rw [← ih, rest, Option.some.injEq]
                  simp [rest, same]

theorem gather_returned {results : List α} {order : List Nat}
    (all : order.Perm (List.range results.length)) :
    gather (results.map (.ok : α → Except ε α)) order = some (.ok results) := by
  have empty : Gathering.pending (results.map (.ok : α → Except ε α)) =
      ⟨Gathering.filled results [], none⟩ := by
    rw [Gathering.pending]
    congr 1
    apply List.ext_getElem?
    intro i
    rw [List.map_map, List.getElem?_map, Gathering.filled, List.getElem?_mapIdx]
    cases results[i]? <;> rfl
  have full : Gathering.filled results (order.reverse ++ []) = results.map some := by
    apply List.ext_getElem?
    intro i
    cases present : results[i]? with
    | none => simp [Gathering.filled, List.getElem?_mapIdx, present]
    | some a =>
        obtain ⟨within, -⟩ := List.getElem?_eq_some_iff.mp present
        have returned : i ∈ order := all.mem_iff.mpr (List.mem_range.mpr within)
        simp [Gathering.filled, List.getElem?_mapIdx, present, returned]
  rw [gather, empty, Gathering.foldl_filled, full, Gathering.result, mapM_some_id]
  rfl

theorem outcomes_of_gather {outcomes : List (Except ε α)} {order : List Nat} {results : List α}
    (returned : gather outcomes order = some (.ok results)) : outcomes = results.map .ok := by
  have pending : ∀ (task : Nat) (a : α), (Gathering.pending outcomes).slots[task]? = some (some a) →
      outcomes[task]? = some (.ok a) := by
    intro task a found
    obtain ⟨outcome, -, value⟩ : ∃ outcome, outcomes[task]? = some outcome ∧ none = some a := by
      simpa only [Gathering.pending, List.getElem?_map, Option.map_eq_some_iff] using found
    cases value
  obtain ⟨length, correct⟩ := Gathering.foldl_slots order (List.length_map _) pending
  rw [gather, Gathering.result] at returned
  split at returned
  · simp at returned
  · obtain ⟨collected, slots, same⟩ := Option.map_eq_some_iff.mp returned
    cases same
    rw [mapM_id_eq_some] at slots
    rw [slots] at length correct
    apply List.ext_getElem?
    intro task
    cases present : results[task]? with
    | none =>
        have beyond : results.length ≤ task := List.getElem?_eq_none_iff.mp present
        simp only [List.length_map] at length
        simp [← length, beyond]
    | some a => simpa [present] using correct task a (by simp [present])

theorem gather_raised {outcomes : List (Except ε α)} {order : List Nat} {e : ε}
    (first : order.findSome? (raisedBy outcomes) = some e) :
    gather outcomes order = some (.error e) := by
  rw [gather, Gathering.result, Gathering.foldl_raised rfl, first]

end DecisionMaker.Library
