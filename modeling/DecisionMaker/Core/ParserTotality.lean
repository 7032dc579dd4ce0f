import DecisionMaker.Core.JsonUtils
import DecisionMaker.Library.JsonRaises

namespace DecisionMaker.Core

open Library

variable {alnum : CodePoint → Bool} {nesting : Nat} {raw snippet : Str}

/-- A dict comes back, or the error that the nodes look out for. -/
def Settles (result : Except ParseFailure Dict) : Prop :=
  (∃ members, result = .ok members) ∨ ∃ snippet, result = .error (.jsonParseError snippet)

/-- Before a strategy that raises anything but a syntax error another one has found a dict. -/
def EscapesNothing (results : List (Except LoadsError Json)) : Prop :=
  ∀ before e after, results = before ++ .error e :: after → e ≠ .jsonDecodeError →
    ∃ members, .ok (.object members) ∈ before

theorem escapesNothing_cons_of_passes {result : Except LoadsError Json} {later : List (Except LoadsError Json)}
    (passes : Passes result) : EscapesNothing (result :: later) ↔ EscapesNothing later := by
  have noDict : ∀ members, result ≠ .ok (.object members) := by
    rintro members rfl
    rcases passes with same | ⟨value, same, other⟩
    · cases same
    · cases same
      exact other members rfl
  constructor
  · rintro escapes before e after rfl other
    obtain ⟨members, member⟩ := escapes (result :: before) e after rfl other
    rcases List.mem_cons.mp member with same | member
    · exact absurd same.symm (noDict members)
    · exact ⟨members, member⟩
  · intro escapes before e after same other
    cases before with
    | nil =>
        obtain ⟨rfl, -⟩ := List.cons.inj same
        rcases passes with same | ⟨value, same, -⟩
        · cases same
          exact absurd rfl other
        · cases same
    | cons first before =>
        obtain ⟨rfl, others⟩ := List.cons.inj same
        obtain ⟨members, member⟩ := escapes before e after others other
        exact ⟨members, List.mem_cons_of_mem _ member⟩

theorem settles_firstDict_iff {results : List (Except LoadsError Json)} :
    Settles (firstDict snippet results) ↔ EscapesNothing results := by
  induction results with
  | nil =>
      apply iff_of_true
      · exact .inr ⟨snippet, rfl⟩
      · intro before e after same
        simp at same
  | cons result results ih =>
      rcases result_cases result with passes | ⟨members, rfl⟩ | ⟨e, rfl, other⟩
      · rw [firstDict_of_passes passes, escapesNothing_cons_of_passes passes, ih]
      · apply iff_of_true
        · exact .inl ⟨members, rfl⟩
        · intro before e after same _
          cases before with
          | nil => cases same
          | cons first before =>
              obtain ⟨rfl, -⟩ := List.cons.inj same
              exact ⟨members, List.mem_cons_self⟩
      · rw [firstDict_escaped other]
        apply iff_of_false
        · rintro (⟨_, same⟩ | ⟨_, same⟩) <;> cases same
        · intro escapes
          obtain ⟨_, member⟩ := escapes [] e results rfl other
          exact List.not_mem_nil member

theorem safeJsonParse_escapesNothing_iff :
    Settles (safeJsonParse alnum nesting raw) ↔
      EscapesNothing (strategies nesting (stripReasoningBlocks alnum raw)) :=
  settles_firstDict_iff

section Slices

variable {normalized : Str}

/-- What the strategies before the last one hand to `json.loads`. -/
def loadedSlices (normalized : Str) : List Str :=
  Re.strip normalized :: ((Pattern.search fencedJsonRe normalized).map Re.strip).toList ++
    ((Pattern.search fencedBareRe normalized).map Re.strip).toList ++ (Pattern.search braceRe normalized).toList

/-- What the last strategy hands to `raw_decode`. -/
def rawSlice (normalized : Str) : Option Str :=
  match normalized.dropWhile fun c => !c.is '{' with
  | [] => none
  | c :: s => some (c :: s)

def slices (normalized : Str) : List Str := loadedSlices normalized ++ (rawSlice normalized).toList

theorem strategies_eq (nesting : Nat) (normalized : Str) :
    strategies nesting normalized = (loadedSlices normalized).map (Json.decode nesting) ++
      ((rawSlice normalized).map fun s => (Json.scanOnce nesting s).map Prod.fst).toList := by
  have raw : rawDecode nesting normalized =
      (rawSlice normalized).map fun s => (Json.scanOnce nesting s).map Prod.fst := by
    rw [rawDecode, rawSlice]
    cases normalized.dropWhile fun c => !c.is '{' <;> rfl
  rw [strategies, raw, plain, loadedSlices, fenced, fenced, proseEmbedded]
  cases Pattern.search fencedJsonRe normalized <;> cases Pattern.search fencedBareRe normalized <;>
    cases Pattern.search braceRe normalized <;> rfl

theorem skip_rawSlice (found : rawSlice normalized = some s) : Json.skip s = s := by
  rw [rawSlice] at found
  split at found
  · cases found
  · rename_i c t dropped
    cases found
    have brace : c.is '{' = true := by
      have stopped := List.head_dropWhile_not (p := fun c : CodePoint => !c.is '{')
        (l := normalized) (by rw [dropped]; exact List.cons_ne_nil c t)
      simpa only [dropped, List.head_cons, Bool.not_eq_false'] using stopped
    rw [Json.is_iff.mp brace]
    exact Json.skip_cons rfl t

/-- Where `json` runs into something else than a syntax error on a slice, an earlier slice is the text of a dict. -/
def Guarded (nesting : Nat) (normalized : Str) : Prop :=
  ∀ before s after e, slices normalized = before ++ s :: after → Json.RunsInto nesting (Json.skip s) e →
    ∃ earlier ∈ before, ∃ members, Json.decode nesting earlier = .ok (.object members)

theorem append_toList_eq_iff {α : Type} {front before after : List α} {last : Option α} {a : α} :
    front ++ last.toList = before ++ a :: after ↔
      (∃ more, front = before ++ a :: more ∧ after = more ++ last.toList) ∨
        (before = front ∧ last = some a ∧ after = []) := by
  constructor
  · intro same
    rcases List.append_eq_append_iff.mp same with ⟨between, rfl, rest⟩ | ⟨between, rfl, rest⟩
    · cases last with
      | none => simp at rest
      | some b =>
          obtain ⟨rfl, rfl, rfl⟩ : between = [] ∧ b = a ∧ after = [] := by
            cases between with
            | nil => simpa [eq_comm] using rest
            | cons c between => simp at rest
          exact .inr ⟨List.append_nil front, rfl, rfl⟩
    · cases between with
      | nil =>
          cases last with
          | none => cases rest
          | some b =>
              obtain ⟨rfl, rfl⟩ := List.cons.inj rest
              exact .inr ⟨(List.append_nil before).symm, rfl, rfl⟩
      | cons c between =>
          obtain ⟨rfl, rfl⟩ := List.cons.inj rest
          exact .inl ⟨between, rfl, rfl⟩
  · rintro (⟨more, rfl, rfl⟩ | ⟨rfl, rfl, rfl⟩)
    · simp
    · rfl

theorem mem_map_decode {before : List Str} {members : Dict} :
    .ok (.object members) ∈ before.map (Json.decode nesting) ↔
      ∃ earlier ∈ before, Json.decode nesting earlier = .ok (.object members) := List.mem_map

theorem escapesNothing_strategies_iff :
    EscapesNothing (strategies nesting normalized) ↔ Guarded nesting normalized := by
  rw [EscapesNothing, strategies_eq]
  constructor
  · intro escapes before s after e split runs
    have other := runs.ne_syntaxError
    rcases append_toList_eq_iff.mp split with ⟨more, front, -⟩ | ⟨rfl, raw, -⟩
    · have raised := (Json.decode_raises_iff other).mpr runs
      obtain ⟨members, member⟩ := escapes (before.map (Json.decode nesting)) e
        (more.map (Json.decode nesting) ++ _) (by rw [front, List.map_append, List.map_cons, raised]; simp; rfl) other
      obtain ⟨earlier, inside, read⟩ := mem_map_decode.mp member
      exact ⟨earlier, inside, members, read⟩
    · rw [skip_rawSlice raw] at runs
      have raised := (Json.scanOnce_raises_iff other).mpr runs
      obtain ⟨members, member⟩ := escapes _ e [] (by rw [raw, Option.map_some, raised]; rfl) other
      obtain ⟨earlier, inside, read⟩ := mem_map_decode.mp member
      exact ⟨earlier, inside, members, read⟩
  · intro guarded before e after split other
    rcases append_toList_eq_iff.mp split with ⟨more, front, -⟩ | ⟨rfl, raw, -⟩
    · obtain ⟨earlier, others, loaded, rfl, behind⟩ := List.map_eq_append_iff.mp front
      obtain ⟨s, later, rfl, raised, -⟩ := List.map_eq_cons_iff.mp behind
      obtain ⟨slice, inside, members, read⟩ := guarded earlier s (later ++ (rawSlice normalized).toList) e
        (by rw [slices, loaded, List.append_assoc, List.cons_append]) ((Json.decode_raises_iff other).mp raised)
      exact ⟨members, mem_map_decode.mpr ⟨slice, inside, read⟩⟩
    · obtain ⟨s, found, raised⟩ := Option.map_eq_some_iff.mp raw
      have runs := (Json.scanOnce_raises_iff other).mp (Json.map_eq_error.mp raised)
      obtain ⟨slice, inside, members, read⟩ := guarded (loadedSlices normalized) s [] e
        (by rw [slices, found]; rfl) ((skip_rawSlice found).symm ▸ runs)
      exact ⟨members, mem_map_decode.mpr ⟨slice, inside, read⟩⟩

theorem isInfix_of_fence {letter : CodePoint → CodePoint → Bool} {fence : String} {inner : Str}
    (found : Pattern.search (fenceRe letter fence) normalized = some inner) : Re.strip inner <:+: normalized := by
  obtain ⟨t, rest, suffix, member⟩ := Pattern.mem_of_search found
  obtain ⟨opening, spaces, closing, rfl, -⟩ := mem_fenceRe.mp member
  have within : inner <:+: opening ++ (spaces ++ (inner ++ (closing ++ rest))) :=
    ⟨opening ++ spaces, closing ++ rest, by simp only [List.append_assoc]⟩
  exact (trim_isInfix inner).trans (within.trans suffix.isInfix)

theorem isInfix_of_mem_slices {s : Str} (member : s ∈ slices normalized) : s <:+: normalized := by
  simp only [slices, loadedSlices, List.mem_append, List.mem_cons, Option.mem_toList,
    Option.map_eq_some_iff] at member
  rcases member with (((rfl | ⟨inner, found, rfl⟩) | ⟨inner, found, rfl⟩) | found) | found
  · exact trim_isInfix normalized
  · exact isInfix_of_fence found
  · exact isInfix_of_fence found
  · obtain ⟨t, rest, suffix, braces⟩ := Pattern.mem_of_search found
    obtain ⟨inner, -, rfl⟩ := mem_braceRe.mp braces
    exact (List.prefix_append s rest).isInfix.trans suffix.isInfix
  · rw [rawSlice] at found
    split at found
    · cases found
    · rename_i dropped
      cases found
      exact dropped ▸ (List.dropWhile_suffix _).isInfix

theorem safeJsonParse_settles_iff :
    Settles (safeJsonParse alnum nesting raw) ↔ Guarded nesting (stripReasoningBlocks alnum raw) :=
  safeJsonParse_escapesNothing_iff.trans escapesNothing_strategies_iff

theorem guarded_of_modest (short : ¬Json.LongRun normalized)
    (shallow : normalized.countP Json.opensContainer ≤ nesting) : Guarded nesting normalized := by
  intro before s after e split runs
  have inside := (Json.skip_isSuffix s).isInfix.trans
    (isInfix_of_mem_slices (split ▸ List.mem_append_right before List.mem_cons_self))
  have counted := inside.sublist.countP_le (p := Json.opensContainer)
  exact absurd runs (Json.not_runsInto (fun run => short (run.mono inside)) (Nat.le_trans counted shallow))

theorem safeJsonParse_settles_of_modest (short : ¬Json.LongRun (stripReasoningBlocks alnum raw))
    (shallow : (stripReasoningBlocks alnum raw).countP Json.opensContainer ≤ nesting) :
    Settles (safeJsonParse alnum nesting raw) :=
  safeJsonParse_escapesNothing_iff.mpr (escapesNothing_strategies_iff.mpr (guarded_of_modest short shallow))

end Slices

theorem scanOnce_brackets (nesting : Nat) :
    Json.scanOnce nesting (List.replicate (nesting + 1) (.ofChar '[')) = .error .recursionError := by
  induction nesting with
  | zero =>
      rw [Json.scanOnce.eq_def]
      rfl
  | succ nesting ih =>
      have skipped : Json.skip (List.replicate (nesting + 1) (.ofChar '[')) =
          .ofChar '[' :: List.replicate nesting (.ofChar '[') := Json.skip_cons rfl _
      have other : ¬(CodePoint.ofChar '[').is ']' = true := by decide
      rw [List.replicate_succ, Json.scanOnce_bracket, Json.scanArray, Json.scanContainer, skipped]
      dsimp only
      rw [if_neg other, Json.scanElements, ← List.replicate_succ, ih]
      rfl

theorem trimmed_brackets (n : Nat) : Trimmed Re.isSpace (List.replicate n (CodePoint.ofChar '[')) := by
  have stays : ∀ c ∈ List.replicate n (CodePoint.ofChar '['), Re.isSpace c = false := by
    intro c member
    rw [List.eq_of_mem_replicate member]
    rfl
  exact ⟨fun c member => stays c (List.mem_of_head? member), fun c member => stays c (List.mem_of_getLast? member)⟩

theorem safeJsonParse_brackets (alnum : CodePoint → Bool) (nesting : Nat) :
    safeJsonParse alnum nesting (List.replicate (nesting + 1) (.ofChar '[')) =
      .error (.escaped .recursionError) := by
  have stripped : Re.strip (List.replicate (nesting + 1) (.ofChar '[')) =
      List.replicate (nesting + 1) (.ofChar '[') := (trimmed_brackets _).eq_self
  have skipped : Json.skip (List.replicate (nesting + 1) (.ofChar '[')) =
      List.replicate (nesting + 1) (.ofChar '[') := Json.skip_cons rfl _
  have first : plain nesting (List.replicate (nesting + 1) (.ofChar '[')) = .error .recursionError := by
    rw [plain, stripped, Json.decode, skipped, scanOnce_brackets]
  have noBlock : ¬HasBlock alnum (List.replicate (nesting + 1) (.ofChar '[')) := by
    apply not_hasBlock_of_notMem
    intro member
    exact absurd (List.eq_of_mem_replicate member) (by decide)
  rw [safeJsonParse, stripReasoningBlocks_of_not_hasBlock noBlock, stripped, strategies, first]
  rfl

theorem brackets_escape :
    ¬Settles (safeJsonParse (fun _ => false) 1000 (List.replicate 1001 (.ofChar '['))) := by
  rw [safeJsonParse_brackets _ 1000]
  rintro (⟨_, same⟩ | ⟨_, same⟩) <;> cases same

end DecisionMaker.Core
