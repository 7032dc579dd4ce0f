import Mathlib.Data.List.Nodup

namespace DecisionMaker.Library

variable {κ ν : Type}

def setEntry [DecidableEq κ] (key : κ) (value : ν) : List (κ × ν) → List (κ × ν)
  | [] => [(key, value)]
  | entry :: d => if entry.1 = key then (key, value) :: d else entry :: setEntry key value d

def update [DecidableEq κ] (d e : List (κ × ν)) : List (κ × ν) :=
  e.foldl (fun d entry => setEntry entry.1 entry.2 d) d

def keys (d : List (κ × ν)) : List κ := d.map Prod.fst

def view (keep : κ → Bool) (shown : ν → ν) (d : List (κ × ν)) : List (κ × ν) :=
  (d.filter fun entry => keep entry.1).map fun entry => (entry.1, shown entry.2)

@[simp] theorem keys_nil : keys ([] : List (κ × ν)) = [] := rfl

theorem nodup_keys_nil : (keys ([] : List (κ × ν))).Nodup := List.nodup_nil

@[simp] theorem keys_cons (entry : κ × ν) (d : List (κ × ν)) : keys (entry :: d) = entry.1 :: keys d := rfl

theorem keys_view (keep : κ → Bool) (shown : ν → ν) (d : List (κ × ν)) :
    keys (view keep shown d) = (keys d).filter keep := by
  rw [keys, keys, view, List.map_map, List.filter_map]
  rfl

theorem mem_view {keep : κ → Bool} {shown : ν → ν} {d : List (κ × ν)} {entry : κ × ν}
    (member : entry ∈ view keep shown d) :
    keep entry.1 ∧ ∃ value, (entry.1, value) ∈ d ∧ entry.2 = shown value := by
  obtain ⟨raw, kept, same⟩ := List.mem_map.mp member
  obtain ⟨inside, shownKey⟩ := List.mem_filter.mp kept
  cases same
  exact ⟨shownKey, raw.2, inside, rfl⟩

theorem view_cons (keep : κ → Bool) (shown : ν → ν) (entry : κ × ν) (d : List (κ × ν)) :
    view keep shown (entry :: d) =
      if keep entry.1 then (entry.1, shown entry.2) :: view keep shown d else view keep shown d := by
  by_cases kept : keep entry.1 <;> simp [view, kept]

variable [DecidableEq κ]

@[simp] theorem update_nil (d : List (κ × ν)) : update d [] = d := rfl

@[simp] theorem update_cons (d e : List (κ × ν)) (entry : κ × ν) :
    update d (entry :: e) = update (setEntry entry.1 entry.2 d) e := rfl

section
variable {key other : κ} {value : ν} {d : List (κ × ν)}

theorem setEntry_head (key : κ) (value old : ν) (d : List (κ × ν)) :
    setEntry key value ((key, old) :: d) = (key, value) :: d := if_pos rfl

theorem setEntry_tail {entry : κ × ν} (different : entry.1 ≠ key) (value : ν) (d : List (κ × ν)) :
    setEntry key value (entry :: d) = entry :: setEntry key value d := if_neg different

theorem mem_keys_setEntry : other ∈ keys (setEntry key value d) ↔ other = key ∨ other ∈ keys d := by
  induction d with
  | nil => simp [setEntry]
  | cons entry d ih =>
      by_cases same : entry.1 = key
      · obtain ⟨_, old⟩ := entry
        cases same
        simp [setEntry_head]
      · rw [setEntry_tail same, keys_cons, List.mem_cons, ih, keys_cons, List.mem_cons, or_left_comm]

theorem mem_setEntry {entry : κ × ν} (member : entry ∈ setEntry key value d) :
    entry = (key, value) ∨ entry ∈ d := by
  induction d with
  | nil => exact .inl (List.mem_singleton.mp member)
  | cons head d ih =>
      obtain ⟨name, old⟩ := head
      by_cases same : name = key
      · cases same
        rw [setEntry_head] at member
        exact (List.mem_cons.mp member).imp id (List.mem_cons_of_mem _)
      · rw [setEntry_tail same] at member
        rcases List.mem_cons.mp member with first | later
        · exact .inr (first ▸ List.mem_cons_self)
        · exact (ih later).imp id (List.mem_cons_of_mem _)

theorem setEntry_nodup (distinct : (keys d).Nodup) : (keys (setEntry key value d)).Nodup := by
  induction d with
  | nil => simp [setEntry]
  | cons entry d ih =>
      obtain ⟨fresh, later⟩ := List.nodup_cons.mp distinct
      by_cases same : entry.1 = key
      · obtain ⟨_, old⟩ := entry
        cases same
        rwa [setEntry_head]
      · have stays : entry.1 ∉ keys (setEntry key value d) := by
          rw [mem_keys_setEntry]
          exact not_or.mpr ⟨same, fresh⟩
        rw [setEntry_tail same]
        exact List.nodup_cons.mpr ⟨stays, ih later⟩

theorem setEntry_setEntry (key : κ) (value old : ν) (d : List (κ × ν)) :
    setEntry key value (setEntry key old d) = setEntry key value d := by
  induction d with
  | nil => exact setEntry_head key value old []
  | cons entry d ih =>
      by_cases same : entry.1 = key
      · obtain ⟨_, older⟩ := entry
        cases same
        simp only [setEntry_head]
      · rw [setEntry_tail same, setEntry_tail same, setEntry_tail same, ih]

theorem setEntry_comm (there : key ∈ keys d) (different : key ≠ other) (value new : ν) :
    setEntry key value (setEntry other new d) = setEntry other new (setEntry key value d) := by
  induction d with
  | nil => cases there
  | cons entry d ih =>
      obtain ⟨name, old⟩ := entry
      by_cases first : name = key
      · cases first
        rw [setEntry_tail different, setEntry_head, setEntry_head, setEntry_tail different]
      · by_cases second : name = other
        · cases second
          rw [setEntry_head, setEntry_tail first, setEntry_tail first, setEntry_head]
        · have later : key ∈ keys d := (List.mem_cons.mp there).resolve_left (Ne.symm first)
          rw [setEntry_tail second, setEntry_tail first, setEntry_tail first, setEntry_tail second,
            ih later]

theorem setEntry_self {entry : κ × ν} (distinct : (keys d).Nodup) (member : entry ∈ d) :
    setEntry entry.1 entry.2 d = d := by
  induction d with
  | nil => cases member
  | cons head d ih =>
      obtain ⟨fresh, later⟩ := List.nodup_cons.mp distinct
      rcases List.mem_cons.mp member with same | inside
      · cases same
        exact setEntry_head _ _ _ _
      · have different : head.1 ≠ entry.1 := by
          intro same
          exact fresh (same ▸ List.mem_map_of_mem inside)
        rw [setEntry_tail different, ih later inside]

end

section
variable {d e : List (κ × ν)}

theorem mem_keys_update {key : κ} : key ∈ keys (update d e) ↔ key ∈ keys d ∨ key ∈ keys e := by
  induction e generalizing d with
  | nil => simp
  | cons entry e ih => rw [update_cons, ih, mem_keys_setEntry, keys_cons, List.mem_cons, or_left_comm, or_assoc]

theorem mem_update {entry : κ × ν} (member : entry ∈ update d e) : entry ∈ d ∨ entry ∈ e := by
  induction e generalizing d with
  | nil => exact .inl member
  | cons head e ih =>
      rcases ih member with before | later
      · rcases mem_setEntry before with same | old
        · exact .inr (same ▸ List.mem_cons_self)
        · exact .inl old
      · exact .inr (List.mem_cons_of_mem _ later)

theorem update_nodup (distinct : (keys d).Nodup) (e : List (κ × ν)) : (keys (update d e)).Nodup := by
  induction e generalizing d with
  | nil => exact distinct
  | cons entry e ih => exact ih (setEntry_nodup distinct)

theorem setEntry_update {key : κ} (there : key ∈ keys d) (fresh : key ∉ keys e) (value : ν) :
    setEntry key value (update d e) = update (setEntry key value d) e := by
  induction e generalizing d with
  | nil => rfl
  | cons entry e ih =>
      obtain ⟨different, later⟩ := not_or.mp (List.mem_cons.not.mp fresh)
      rw [update_cons, update_cons, ih (mem_keys_setEntry.mpr (.inr there)) later,
        setEntry_comm there different]

theorem update_setEntry (distinct : (keys e).Nodup) (d : List (κ × ν)) (key : κ) (value : ν) :
    update d (setEntry key value e) = setEntry key value (update d e) := by
  induction e generalizing d with
  | nil => rfl
  | cons entry e ih =>
      obtain ⟨name, old⟩ := entry
      obtain ⟨fresh, later⟩ := List.nodup_cons.mp distinct
      by_cases same : name = key
      · cases same
        rw [setEntry_head, update_cons, update_cons,
          setEntry_update (mem_keys_setEntry.mpr (.inl rfl)) fresh, setEntry_setEntry]
      · rw [setEntry_tail same, update_cons, update_cons, ih later]

theorem update_assoc (distinct : (keys e).Nodup) (d f : List (κ × ν)) :
    update d (update e f) = update (update d e) f := by
  induction f generalizing e with
  | nil => rfl
  | cons entry f ih => rw [update_cons, update_cons, ih (setEntry_nodup distinct), update_setEntry distinct]

theorem update_of_subset (distinct : (keys d).Nodup) (subset : ∀ entry ∈ e, entry ∈ d) : update d e = d := by
  induction e with
  | nil => rfl
  | cons entry e ih =>
      rw [update_cons, setEntry_self distinct (subset entry List.mem_cons_self)]
      exact ih fun other member => subset other (List.mem_cons_of_mem _ member)

theorem update_update_self (distinct : (keys e).Nodup) (d : List (κ × ν)) :
    update (update d e) e = update d e := by
  rw [← update_assoc distinct, update_of_subset distinct fun _ member => member]

theorem update_update_nil (d e : List (κ × ν)) : update d (update [] e) = update d e :=
  update_assoc nodup_keys_nil d e

end

section
variable {keep : κ → Bool} {shown : ν → ν}

theorem view_setEntry (key : κ) (value : ν) (d : List (κ × ν)) :
    view keep shown (setEntry key value d) =
      if keep key then setEntry key (shown value) (view keep shown d) else view keep shown d := by
  induction d with
  | nil => exact view_cons keep shown (key, value) []
  | cons entry d ih =>
      obtain ⟨name, old⟩ := entry
      by_cases same : name = key
      · cases same
        rw [setEntry_head, view_cons, view_cons]
        by_cases kept : keep key
        · simp only [kept, if_true, setEntry_head]
        · simp only [kept, Bool.false_eq_true, if_false]
      · rw [setEntry_tail same, view_cons, view_cons, ih]
        by_cases kept : keep key <;> by_cases other : keep name <;> simp [kept, other, setEntry, same]

theorem view_update (d e : List (κ × ν)) :
    view keep shown (update d e) = update (view keep shown d) (view keep shown e) := by
  induction e generalizing d with
  | nil => rfl
  | cons entry e ih =>
      rw [update_cons, ih, view_setEntry, view_cons]
      split
      · rw [update_cons]
      · rfl

theorem foldl_setEntry (d e : List (κ × ν)) :
    e.foldl (fun d entry => if keep entry.1 then setEntry entry.1 (shown entry.2) d else d) d =
      update d (view keep shown e) := by
  induction e generalizing d with
  | nil => rfl
  | cons entry e ih =>
      rw [List.foldl_cons, ih, view_cons]
      split <;> rfl

end

end DecisionMaker.Library
