import Mathlib.Algebra.Order.Field.Rat
import Mathlib.Data.List.Nodup

namespace DecisionMaker.Library

structure CacheEntry (κ ν : Type*) where
  key : κ
  value : ν
  expires : ℚ

structure TtlCache (κ ν : Type*) (maxsize : Nat) (ttl : ℚ) where
  -- the least recently used comes first
  entries : List (CacheEntry κ ν)
  unique : (entries.map CacheEntry.key).Nodup
  bounded : entries.length ≤ maxsize

namespace TtlCache

section
variable {κ ν : Type*} {maxsize : Nat} {ttl : ℚ}

def empty : TtlCache κ ν maxsize ttl := ⟨[], List.nodup_nil, Nat.zero_le _⟩

def size (c : TtlCache κ ν maxsize ttl) (now : ℚ) : Nat :=
  (c.entries.filter fun e => now < e.expires).length

theorem size_le (c : TtlCache κ ν maxsize ttl) (now : ℚ) : c.size now ≤ c.entries.length :=
  List.length_filter_le ..

variable [DecidableEq κ]

theorem nodup_replace {entries : List (CacheEntry κ ν)} (unique : (entries.map CacheEntry.key).Nodup)
    (e : CacheEntry κ ν) :
    (((entries.filter fun x => x.key ≠ e.key) ++ [e]).map CacheEntry.key).Nodup := by
  rw [List.map_append, List.nodup_append]
  refine ⟨(List.filter_sublist.map _).nodup unique, by simp, ?_⟩
  simp only [List.mem_map, List.mem_filter, List.mem_singleton, decide_eq_true_eq]
  intro _ former _ new
  obtain ⟨x, ⟨-, other⟩, rfl⟩ := former
  obtain ⟨y, rfl, rfl⟩ := new
  exact other

def find (c : TtlCache κ ν maxsize ttl) (now : ℚ) (key : κ) : Option (CacheEntry κ ν) :=
  c.entries.find? fun e => e.key = key ∧ now < e.expires

theorem find_eq_some {c : TtlCache κ ν maxsize ttl} {now : ℚ} {key : κ} {e : CacheEntry κ ν} :
    c.find now key = some e ↔ e ∈ c.entries ∧ e.key = key ∧ now < e.expires := by
  constructor
  · intro found
    exact ⟨List.mem_of_find?_eq_some found, by simpa using List.find?_some found⟩
  · intro live
    obtain ⟨member, rfl, live⟩ := live
    cases found : c.find now e.key with
    | none =>
        have expired := List.find?_eq_none.mp found e member
        simp [live] at expired
    | some x =>
        have same : x.key = e.key := (by simpa using List.find?_some found : x.key = e.key ∧ _).1
        rw [List.inj_on_of_nodup_map c.unique (List.mem_of_find?_eq_some found) member same]

def peek (c : TtlCache κ ν maxsize ttl) (now : ℚ) (key : κ) : Option ν :=
  (c.find now key).map CacheEntry.value

def moveToEnd (c : TtlCache κ ν maxsize ttl) (e : CacheEntry κ ν) (member : e ∈ c.entries) :
    TtlCache κ ν maxsize ttl where
  entries := (c.entries.filter fun x => x.key ≠ e.key) ++ [e]
  unique := nodup_replace c.unique e
  bounded := by
    have fewer : (c.entries.filter fun x => x.key ≠ e.key).length < c.entries.length :=
      List.length_filter_lt_length_iff_exists.mpr ⟨e, member, by simp⟩
    have bounded := c.bounded
    simp only [List.length_append, List.length_singleton]
    omega

def get (c : TtlCache κ ν maxsize ttl) (now : ℚ) (key : κ) : Option ν × TtlCache κ ν maxsize ttl :=
  match found : c.find now key with
  | some e => (some e.value, c.moveToEnd e (find_eq_some.mp found).1)
  | none => (none, c)

/-- Drops what has expired and what was stored under the key, and then the least recently used
entries until there is room for the new one. -/
def set [NeZero maxsize] (c : TtlCache κ ν maxsize ttl) (now : ℚ) (key : κ) (value : ν) :
    TtlCache κ ν maxsize ttl :=
  let live := c.entries.filter fun e => now < e.expires
  let others := live.filter fun e => e.key ≠ key
  let kept := others.drop (others.length + 1 - maxsize)
  { entries := kept ++ [⟨key, value, now + ttl⟩]
    unique := by
      have unique : (live.map CacheEntry.key).Nodup := (List.filter_sublist.map _).nodup c.unique
      have replaced := nodup_replace unique ⟨key, value, now + ttl⟩
      apply List.Sublist.nodup _ replaced
      apply List.Sublist.map
      exact (List.drop_sublist _ _).append_right _
    bounded := by
      have positive := Nat.pos_of_ne_zero (NeZero.ne maxsize)
      simp only [List.length_append, List.length_singleton, kept, List.length_drop]
      omega }

variable {c : TtlCache κ ν maxsize ttl} {now t : ℚ} {key other : κ} {v : ν}

theorem peek_eq_some :
    c.peek now key = some v ↔ ∃ e ∈ c.entries, e.key = key ∧ now < e.expires ∧ e.value = v := by
  simp only [peek, Option.map_eq_some_iff, find_eq_some, and_assoc]

@[simp] theorem peek_empty : (empty : TtlCache κ ν maxsize ttl).peek now key = none := rfl

theorem get_fst : (c.get now key).1 = c.peek now key := by
  unfold get peek
  split <;> rename_i found <;> simp [found]

theorem peek_get : (c.get now key).2.peek t other = c.peek t other := by
  unfold get
  split
  · rename_i e found
    have member := (find_eq_some.mp found).1
    have same (x : CacheEntry κ ν) : x ∈ (c.moveToEnd e member).entries ↔ x ∈ c.entries := by
      simp only [moveToEnd, List.mem_append, List.mem_filter, List.mem_singleton,
        decide_eq_true_eq]
      constructor
      · intro moved
        rcases moved with ⟨kept, -⟩ | rfl
        · exact kept
        · exact member
      · intro kept
        by_cases hit : x.key = e.key
        · exact .inr (List.inj_on_of_nodup_map c.unique kept member hit)
        · exact .inl ⟨kept, hit⟩
    ext w
    simp only [peek_eq_some, same]
  · rfl

theorem peek_mono (le : now ≤ t) (later : c.peek t key = some v) : c.peek now key = some v := by
  obtain ⟨e, member, hit, live, value⟩ := peek_eq_some.mp later
  exact peek_eq_some.mpr ⟨e, member, hit, le.trans_lt live, value⟩

section
variable [NeZero maxsize]

theorem mem_set {value : ν} {e : CacheEntry κ ν} (member : e ∈ (c.set now key value).entries) :
    e = ⟨key, value, now + ttl⟩ ∨ (e ∈ c.entries ∧ e.key ≠ key) := by
  rcases List.mem_append.mp member with kept | new
  · have kept := List.mem_filter.mp (List.mem_of_mem_drop kept)
    exact .inr ⟨(List.mem_filter.mp kept.1).1, by simpa using kept.2⟩
  · exact .inl (List.mem_singleton.mp new)

theorem peek_set_self {value : ν} (live : t < now + ttl) :
    (c.set now key value).peek t key = some value :=
  peek_eq_some.mpr ⟨_, List.mem_append_right _ (List.mem_singleton_self _), rfl, live, rfl⟩

theorem peek_set_self_eq_some {value : ν} (answer : (c.set now key value).peek t key = some v) :
    v = value := by
  obtain ⟨e, member, hit, -, rfl⟩ := peek_eq_some.mp answer
  rcases mem_set member with rfl | ⟨-, miss⟩
  · rfl
  · exact absurd hit miss

theorem peek_of_peek_set {value : ν} (ne : other ≠ key)
    (answer : (c.set now key value).peek t other = some v) : c.peek t other = some v := by
  obtain ⟨e, member, hit, live, value⟩ := peek_eq_some.mp answer
  rcases mem_set member with rfl | ⟨kept, -⟩
  · exact absurd hit.symm ne
  · exact peek_eq_some.mpr ⟨e, kept, hit, live, value⟩

theorem peek_set_of_ne {value : ν} (room : c.size now < maxsize) (ne : other ≠ key) (le : now ≤ t)
    (answer : c.peek t other = some v) : (c.set now key value).peek t other = some v := by
  obtain ⟨e, member, hit, live, rfl⟩ := peek_eq_some.mp answer
  refine peek_eq_some.mpr ⟨e, List.mem_append_left _ ?_, hit, live, rfl⟩
  have others := List.length_filter_le (fun e => decide (e.key ≠ key))
    (c.entries.filter fun e => now < e.expires)
  have none_dropped : (List.filter (fun e => decide (e.key ≠ key))
      (c.entries.filter fun e => now < e.expires)).length + 1 - maxsize = 0 := by
    unfold size at room
    omega
  rw [none_dropped, List.drop_zero]
  simp [member, hit, ne, le.trans_lt live]

theorem peek_set {value : ν} (answer : (c.set now key value).peek t other = some v) :
    (other = key ∧ v = value) ∨ (other ≠ key ∧ c.peek t other = some v) := by
  by_cases same : other = key
  · subst same
    exact .inl ⟨rfl, peek_set_self_eq_some answer⟩
  · exact .inr ⟨same, peek_of_peek_set same answer⟩

end

end

section
variable {κ ν μ : Type*} {maxsize : Nat} {ttl : ℚ}

theorem ext_entries {c d : TtlCache κ ν maxsize ttl} (same : c.entries = d.entries) : c = d := by
  cases c
  cases d
  cases same
  rfl

def mapEntry (f : ν → μ) (e : CacheEntry κ ν) : CacheEntry κ μ := ⟨e.key, f e.value, e.expires⟩

def map (f : ν → μ) (c : TtlCache κ ν maxsize ttl) : TtlCache κ μ maxsize ttl where
  entries := c.entries.map (mapEntry f)
  unique := by
    rw [List.map_map]
    exact c.unique
  bounded := by
    rw [List.length_map]
    exact c.bounded

variable [DecidableEq κ] {f : ν → μ} {c : TtlCache κ ν maxsize ttl} {now : ℚ} {key : κ}

theorem find_map : (c.map f).find now key = (c.find now key).map (mapEntry f) := List.find?_map ..

theorem get_of_none (missed : c.find now key = none) : c.get now key = (none, c) := by
  unfold get
  split
  · rename_i e found
    cases missed.symm.trans found
  · rfl

theorem get_of_some {e : CacheEntry κ ν} (found : c.find now key = some e) :
    c.get now key = (some e.value, c.moveToEnd e (find_eq_some.mp found).1) := by
  unfold get
  split
  · rename_i x same
    cases found.symm.trans same
    rfl
  · rename_i none
    cases found.symm.trans none

theorem get_map : (c.map f).get now key = ((c.get now key).1.map f, (c.get now key).2.map f) := by
  cases old : c.find now key with
  | none =>
      have missed : (c.map f).find now key = none := by rw [find_map, old, Option.map_none]
      rw [get_of_none old, get_of_none missed, Option.map_none]
  | some e =>
      have found : (c.map f).find now key = some (mapEntry f e) := by rw [find_map, old, Option.map_some]
      rw [get_of_some old, get_of_some found, Option.map_some]
      refine Prod.ext rfl (ext_entries ?_)
      simp only [map, moveToEnd, List.map_append, List.filter_map, List.map_cons, List.map_nil]
      rfl

theorem set_map [NeZero maxsize] {value : ν} :
    (c.map f).set now key (f value) = (c.set now key value).map f := by
  apply ext_entries
  simp only [set, map, List.map_append, List.filter_map, List.map_drop, List.length_map, List.map_cons, List.map_nil]
  rfl

end

end TtlCache

end DecisionMaker.Library
