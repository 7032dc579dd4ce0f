import DecisionMaker.Library.Text
import Mathlib.InformationTheory.Coding.UniquelyDecodable

namespace DecisionMaker.Library

open InformationTheory

theorem uniquelyDecodable_of_prefixFree {β : Type} {S : Set (List β)} (some : [] ∉ S)
    (free : ∀ v ∈ S, ∀ w ∈ S, v <+: w → v = w) : UniquelyDecodable S := by
  intro words others inside inside' same
  induction words generalizing others with
  | nil =>
      cases others with
      | nil => rfl
      | cons w others =>
          have none : w = [] := (List.append_eq_nil_iff.mp (List.flatten_cons ▸ same).symm).1
          exact absurd (none ▸ inside' w List.mem_cons_self) some
  | cons v words ih =>
      obtain ⟨first, later⟩ := List.forall_mem_cons.mp inside
      cases others with
      | nil =>
          have none : v = [] := (List.append_eq_nil_iff.mp (List.flatten_cons ▸ same)).1
          exact absurd (none ▸ first) some
      | cons w others =>
          obtain ⟨first', later'⟩ := List.forall_mem_cons.mp inside'
          rw [List.flatten_cons, List.flatten_cons] at same
          have equal : v = w := by
            rcases List.prefix_or_prefix_of_prefix ⟨words.flatten, same⟩ (List.prefix_append w _) with
              shorter | longer
            · exact free v first w first' shorter
            · exact (free w first' v first longer).symm
          subst equal
          rw [ih others later later' (List.append_cancel_left same)]

theorem utf8Bytes_ne_nil (c : CodePoint) : utf8Bytes c ≠ [] := by
  unfold utf8Bytes
  split_ifs <;> exact List.cons_ne_nil _ _

theorem utf8Bytes_prefixFree {a b : CodePoint} (isPrefix : utf8Bytes a <+: utf8Bytes b) : a = b := by
  unfold utf8Bytes at isPrefix
  apply Fin.ext
  split_ifs at isPrefix <;>
    simp only [List.cons_prefix_cons, Fin.mk.injEq, List.prefix_nil, List.nil_prefix, and_true, reduceCtorEq,
      and_false] at isPrefix <;> omega

theorem uniquelyDecodable_utf8Bytes : UniquelyDecodable (Set.range utf8Bytes) := by
  apply uniquelyDecodable_of_prefixFree
  · rintro ⟨c, none⟩
    exact utf8Bytes_ne_nil c none
  · rintro _ ⟨a, rfl⟩ _ ⟨b, rfl⟩ isPrefix
    rw [utf8Bytes_prefixFree isPrefix]

theorem utf8Bytes_injective : Function.Injective utf8Bytes :=
  fun _ _ same => utf8Bytes_prefixFree (same ▸ List.prefix_rfl)

theorem flatMap_utf8Bytes_injective : Function.Injective fun s : Str => s.flatMap utf8Bytes := by
  intro s t same
  have words : s.map utf8Bytes = t.map utf8Bytes := by
    apply uniquelyDecodable_utf8Bytes
    · exact fun w member => (List.mem_map.mp member).imp fun _ => And.right
    · exact fun w member => (List.mem_map.mp member).imp fun _ => And.right
    · exact same
  exact utf8Bytes_injective.list_map words

theorem encodeUtf8_injective {s t : Str} {bytes : List Byte} (encoded : encodeUtf8 s = some bytes)
    (encoded' : encodeUtf8 t = some bytes) : s = t := by
  obtain ⟨-, spelled⟩ := encodeUtf8_eq_some_iff.mp encoded
  obtain ⟨-, spelled'⟩ := encodeUtf8_eq_some_iff.mp encoded'
  exact flatMap_utf8Bytes_injective (spelled.trans spelled'.symm)

end DecisionMaker.Library
