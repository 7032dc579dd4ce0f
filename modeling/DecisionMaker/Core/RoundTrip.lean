import DecisionMaker.Core.Payload
import DecisionMaker.Library.JsonFits

namespace DecisionMaker.Core

open Library

variable {alnum : CodePoint → Bool} {nesting : Nat} {s text : Str} {members : Dict}

def defaultFormat : Json.Format where
  itemSeparator := Str.ofString ", "
  keySeparator := Str.ofString ": "
  sortKeys := false

theorem separates_items : Json.Separates ',' defaultFormat.itemSeparator :=
  ⟨[.ofChar ' '], rfl, List.forall_mem_singleton.mpr rfl⟩

theorem separates_keys : Json.Separates ':' defaultFormat.keySeparator :=
  ⟨[.ofChar ' '], rfl, List.forall_mem_singleton.mpr rfl⟩

theorem exists_objectText_of_decode (decoded : Json.decode nesting text = .ok (.object members)) :
    ∃ object, Json.ObjectText nesting members object ∧ object <:+: text := by
  obtain ⟨front, object, back, rfl, -, reads, -⟩ := Json.decode_object_iff.mp decoded
  exact ⟨object, reads, front, back, rfl⟩

theorem exists_objectText_of_fenced {letter : CodePoint → CodePoint → Bool} {fence : String}
    (found : fenced nesting s (fenceRe letter fence) = some (.ok (.object members))) :
    ∃ object, Json.ObjectText nesting members object ∧ object <:+: s := by
  obtain ⟨inner, searched, decoded⟩ := Option.map_eq_some_iff.mp found
  obtain ⟨t, rest, suffix, member⟩ := Pattern.mem_of_search searched
  obtain ⟨opening, spaces, closing, rfl, -⟩ := mem_fenceRe.mp member
  obtain ⟨object, reads, part⟩ := exists_objectText_of_decode decoded
  have inside : inner <:+: opening ++ (spaces ++ (inner ++ (closing ++ rest))) :=
    ⟨opening ++ spaces, closing ++ rest, by simp⟩
  exact ⟨object, reads, part.trans ((trim_isInfix inner).trans (inside.trans suffix.isInfix))⟩

theorem exists_objectText_of_proseEmbedded (found : proseEmbedded nesting s = some (.ok (.object members))) :
    ∃ object, Json.ObjectText nesting members object ∧ object <:+: s := by
  obtain ⟨inner, searched, decoded⟩ := Option.map_eq_some_iff.mp found
  obtain ⟨t, rest, suffix, member⟩ := Pattern.mem_of_search searched
  obtain ⟨between, rfl, rfl⟩ := mem_braceRe.mp member
  obtain ⟨object, reads, part⟩ := exists_objectText_of_decode decoded
  exact ⟨object, reads, part.trans ((List.prefix_append _ rest).isInfix.trans suffix.isInfix)⟩

theorem exists_objectText_of_rawDecode (found : rawDecode nesting s = some (.ok (.object members))) :
    ∃ object, Json.ObjectText nesting members object ∧ object <:+: s := by
  rw [rawDecode] at found
  split at found
  · cases found
  · rename_i c t starts
    obtain ⟨⟨value, rest⟩, scanned, same⟩ := Json.map_eq_ok (Option.some.inj found)
    cases same
    obtain ⟨object, reads, split⟩ := Json.scanOnce_object_iff.mp scanned
    have suffix : c :: t <:+ s := starts ▸ List.dropWhile_suffix _
    exact ⟨object, reads, (List.prefix_append object rest).isInfix.trans (split ▸ suffix.isInfix)⟩

theorem exists_objectText (found : .ok (.object members) ∈ strategies nesting s) :
    ∃ object, Json.ObjectText nesting members object ∧ object <:+: s := by
  simp only [strategies, List.cons_append, List.mem_cons, List.mem_append, Option.mem_toList] at found
  rcases found with whole | ((tagged | bare) | prose) | raw
  · obtain ⟨object, reads, part⟩ := exists_objectText_of_decode whole.symm
    exact ⟨object, reads, part.trans (trim_isInfix s)⟩
  · exact exists_objectText_of_fenced tagged
  · exact exists_objectText_of_fenced bare
  · exact exists_objectText_of_proseEmbedded prose
  · exact exists_objectText_of_rawDecode raw

theorem exists_objectText_of_safeJsonParse (parsed : safeJsonParse alnum nesting s = .ok members) :
    ∃ object, Json.ObjectText nesting members object ∧ object <:+: Pattern.remove (reasoningTagRe alnum) s := by
  obtain ⟨object, reads, part⟩ := exists_objectText (mem_of_firstDict_ok parsed)
  exact ⟨object, reads, part.trans (trim_isInfix _)⟩

theorem weight_remove_lt (has : HasBlock alnum s) :
    Json.weight (Pattern.remove (reasoningTagRe alnum) s) < Json.weight s := by
  have heavy : ∀ block value rest, (value, rest) ∈ reasoningTagRe alnum (block ++ rest) →
      0 < (block.map Json.ink).sum := by
    intro block _ rest member
    obtain ⟨other, isBlock, same⟩ := mem_reasoningTagRe.mp member
    rw [List.append_cancel_right same]
    obtain ⟨inner, rfl⟩ := isBlock.shape
    exact Nat.lt_of_lt_of_le Nat.zero_lt_one (Nat.le_add_right 1 _)
  rcases Pattern.nowhere_or_sum_remove_lt consumes_reasoningTagRe heavy s with nothing | lighter
  · exact absurd has (not_hasBlock_iff.mpr nothing)
  · exact lighter

theorem weight_le_of_parsed (parsed : safeJsonParse alnum nesting s = .ok members) :
    Json.bulk (.object members) ≤ Json.weight (Pattern.remove (reasoningTagRe alnum) s) := by
  obtain ⟨object, reads, part⟩ := exists_objectText_of_safeJsonParse parsed
  have least := Json.scanOnce_weighs nesting _ _ _ (reads.2 [])
  rw [Json.weight_nil, Nat.add_zero, List.append_nil] at least
  exact least.trans (Json.weight_le_of_isInfix part)

theorem fits_of_parsed (noBlock : ¬HasBlock alnum s) (wellFormed : s.WellFormed)
    (parsed : safeJsonParse alnum nesting s = .ok members) : Json.Fits nesting (.object members) := by
  obtain ⟨object, reads, part⟩ := exists_objectText_of_safeJsonParse parsed
  rw [remove_of_not_hasBlock noBlock] at part
  have formed : Str.WellFormed (object ++ []) := by
    rw [List.append_nil]
    exact wellFormed.of_isInfix part
  exact (Json.scanOnce_yields nesting _ _ _ (reads.2 []) formed).1

theorem safeJsonParse_dumps_iff (floatRepr : BitVec 64 → Str) (ordinary : Json.Ordinary (.object members)) :
    ∃ text, Json.dumps floatRepr defaultFormat (.object members) = some text ∧
      (safeJsonParse alnum nesting text = .ok members ↔
        ¬HasBlock alnum text ∧ Json.Fits nesting (.object members)) := by
  obtain ⟨text, dumped, written⟩ := ordinary.written separates_items separates_keys rfl
  refine ⟨text, dumped, ?_, ?_⟩
  · intro parsed
    have noBlock : ¬HasBlock alnum text := by
      intro has
      have lighter := weight_remove_lt has
      have least := weight_le_of_parsed parsed
      rw [written.weight] at lighter
      exact Nat.not_le.mpr lighter least
    have wellFormed := Str.wellFormed_of_seven fun c member => (written.ascii c member).2
    exact ⟨noBlock, fits_of_parsed noBlock wellFormed parsed⟩
  · rintro ⟨noBlock, fits⟩
    have restored : ∃ same, Json.dumps floatRepr defaultFormat (.object members) = some same ∧
        Json.Reads (Json.scanOnce nesting) (.object members) same :=
      (fits.restorable ordinary).reads separates_items separates_keys
    obtain ⟨same, dumped', reads⟩ := restored
    rw [dumped] at dumped'
    cases dumped'
    exact safeJsonParse_of_decode noBlock (Json.decode_of_reads reads)

theorem safeJsonParse_dumps_iff_tag :
    ∃ text, Json.dumps (fun _ => []) defaultFormat (.object [(Str.ofString "<think>", .array [.null])]) = some text ∧
      (safeJsonParse (fun _ => false) 1000 text = .ok [(Str.ofString "<think>", .array [.null])] ↔
        ¬HasBlock (fun _ => false) text ∧
          Json.Fits 1000 (.object [(Str.ofString "<think>", .array [.null])])) :=
  safeJsonParse_dumps_iff _ <| .object (List.nodup_singleton _) <|
    List.forall_mem_singleton.mpr <| .array <| List.forall_mem_singleton.mpr .null

theorem string_loses_block :
    ¬∀ members : Dict, Json.Ordinary (.object members) →
      ∃ text, Json.dumps (fun _ => []) defaultFormat (.object members) = some text ∧
        safeJsonParse (fun _ => false) 1000 text = .ok members := by
  intro law
  obtain ⟨text, dumped, parsed⟩ := law [(Str.ofString "a", .str (Str.ofString "<think>b</think>"))]
    (.object (List.nodup_singleton _) (List.forall_mem_singleton.mpr (.str _)))
  have written : text = Str.ofString "\x7b\"a\": \"<think>b</think>\"\x7d" := by
    rw [Json.dumps] at dumped
    cases dumped
    rfl
  have light : (safeJsonParse (fun _ => false) 1000 text).toOption.map Json.bulkMembers = some 7 := by
    rw [written]
    decide +kernel
  rw [parsed] at light
  have heavy : Json.bulkMembers [(Str.ofString "a", .str (Str.ofString "<think>b</think>"))] ≠ 7 := by
    decide +kernel
  exact heavy (Option.some.inj light)

end DecisionMaker.Core
