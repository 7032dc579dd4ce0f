import DecisionMaker.Library.TtlCache
import Mathlib.Data.Finset.Card

namespace DecisionMaker.Library.TtlCache

section
variable {κ ν : Type*} {maxsize : Nat} {ttl : ℚ}

def Recent (c : TtlCache κ ν maxsize ttl) (e : CacheEntry κ ν) (used : Finset κ) : Prop :=
  ∃ before behind, c.entries = before ++ e :: behind ∧ ∀ x ∈ behind, x.key ∈ used

variable {c : TtlCache κ ν maxsize ttl} {e : CacheEntry κ ν} {used : Finset κ}

theorem Recent.mem (recent : c.Recent e used) : e ∈ c.entries := by
  obtain ⟨before, behind, entries, -⟩ := recent
  simp [entries]

variable [DecidableEq κ] {now : ℚ} {key : κ}

theorem Recent.peek (recent : c.Recent e used) (live : now < e.expires) :
    c.peek now e.key = some e.value :=
  peek_eq_some.mpr ⟨e, recent.mem, rfl, live, rfl⟩

theorem Recent.moveToEnd (recent : c.Recent e used) {hit : CacheEntry κ ν} (member : hit ∈ c.entries)
    (counted : hit.key = e.key ∨ hit.key ∈ used) : (c.moveToEnd hit member).Recent e used := by
  by_cases same : hit.key = e.key
  · obtain rfl := List.inj_on_of_nodup_map c.unique member recent.mem same
    exact ⟨_, [], rfl, by simp⟩
  · obtain ⟨before, behind, entries, among⟩ := recent
    refine ⟨before.filter fun x => x.key ≠ hit.key, (behind.filter fun x => x.key ≠ hit.key) ++ [hit],
      ?_, ?_⟩
    · simp [TtlCache.moveToEnd, entries, Ne.symm same]
    · intro x later
      rcases List.mem_append.mp later with kept | new
      · exact among x (List.mem_filter.mp kept).1
      · obtain rfl := List.mem_singleton.mp new
        exact counted.resolve_left same

theorem Recent.get (recent : c.Recent e used)
    (counted : (c.peek now key).isSome → key = e.key ∨ key ∈ used) : (c.get now key).2.Recent e used := by
  unfold TtlCache.get
  split
  · rename_i hit found
    obtain ⟨member, rfl, -⟩ := find_eq_some.mp found
    exact recent.moveToEnd member (counted (by simp [TtlCache.peek, found]))
  · exact recent

section
variable [NeZero maxsize]

theorem recent_set {value : ν} : (c.set now key value).Recent ⟨key, value, now + ttl⟩ used :=
  ⟨_, [], rfl, by simp⟩

theorem Recent.set {value : ν} (recent : c.Recent e used) (live : now < e.expires) (other : key ≠ e.key)
    (counted : key ∈ used) (few : used.card < maxsize) : (c.set now key value).Recent e used := by
  obtain ⟨before, behind, entries, among⟩ := recent
  let keeps (x : CacheEntry κ ν) : Bool := decide (x.key ≠ key) && decide (now < x.expires)
  have others : ((c.entries.filter fun x => now < x.expires).filter fun x => x.key ≠ key) =
      before.filter keeps ++ e :: behind.filter keeps := by
    simp [entries, keeps, List.filter_filter, live, Ne.symm other]
  have kept {x : CacheEntry κ ν} (member : x ∈ behind.filter keeps) : x.key ∈ used.erase key := by
    obtain ⟨later, keep⟩ := List.mem_filter.mp member
    refine Finset.mem_erase.mpr ⟨?_, among x later⟩
    simp only [keeps, Bool.and_eq_true, decide_eq_true_eq] at keep
    exact keep.1
  -- the keys behind the entry are different ones, and the new key is not among them
  have room : (behind.filter keeps).length + 1 < maxsize := by
    have distinct : ((behind.filter keeps).map CacheEntry.key).Nodup := by
      have sublist : List.Sublist (behind.filter keeps) c.entries := by
        rw [entries]
        exact List.filter_sublist.trans ((List.sublist_cons_self _ _).trans (List.sublist_append_right _ _))
      exact (sublist.map _).nodup c.unique
    have subset : ((behind.filter keeps).map CacheEntry.key).toFinset ⊆ used.erase key := by
      intro k member
      obtain ⟨x, later, rfl⟩ := List.mem_map.mp (List.mem_toFinset.mp member)
      exact kept later
    have count := Finset.card_le_card subset
    rw [List.toFinset_card_of_nodup distinct, List.length_map, Finset.card_erase_of_mem counted] at count
    have := Finset.card_pos.mpr ⟨key, counted⟩
    omega
  refine ⟨(before.filter keeps).drop ((before.filter keeps ++ e :: behind.filter keeps).length + 1 - maxsize),
    behind.filter keeps ++ [⟨key, value, now + ttl⟩], ?_, ?_⟩
  · simp only [TtlCache.set]
    rw [others, List.drop_append_of_le_length, List.append_assoc, List.cons_append]
    rw [List.length_append, List.length_cons]
    omega
  · intro x later
    rcases List.mem_append.mp later with former | new
    · exact Finset.mem_of_mem_erase (kept former)
    · obtain rfl := List.mem_singleton.mp new
      exact counted

end

end

end DecisionMaker.Library.TtlCache
