import DecisionMaker.Library.Builtins
import DecisionMaker.Library.Except
import DecisionMaker.Library.JsonRoundTrip
import DecisionMaker.Library.Utf8
import DecisionMaker.Server.Idempotency

namespace DecisionMaker.Server

open Library

def nul : CodePoint := .ofChar '\x00'

def hashedInput (sessionId message : Str) (turnN : Nat) : Except PyException (List Byte) :=
  match Json.intRepr turnN with
  | none => .error .valueError
  | some number =>
      let rawInput := sessionId ++ nul :: (message ++ nul :: number)
      match encodeUtf8 rawInput with
      | none => .error .unicodeEncodeError
      | some bytes => .ok bytes

def IdempotencyCache.makeKeyFromTuple (sha256Hex : List Byte → String) (sessionId message : Str)
    (turnN : Nat) : Except PyException String := do
  let bytes ← hashedInput sessionId message turnN
  .ok (String.ofList ((sha256Hex bytes).toList.take 32))

section
variable {sessionId message : Str} {turnN : Nat} {bytes : List Byte}

theorem hashedInput_ok_iff : hashedInput sessionId message turnN = .ok bytes ↔
    turnN < 10 ^ Json.maxStrDigits ∧
      encodeUtf8 (sessionId ++ nul :: (message ++ nul :: Json.natRepr turnN)) = some bytes := by
  rw [hashedInput, Json.intRepr_natCast]
  by_cases small : turnN < 10 ^ Json.maxStrDigits
  · rw [if_pos small]
    dsimp only
    cases encodeUtf8 (sessionId ++ nul :: (message ++ nul :: Json.natRepr turnN)) <;> simp [small]
  · rw [if_neg small]
    simp [small]

theorem makeKeyFromTuple_ofString (sha256Hex : List Byte → String) (sessionId message : String) {turnN : Nat}
    (small : turnN < 10 ^ Json.maxStrDigits) :
    IdempotencyCache.makeKeyFromTuple sha256Hex (.ofString sessionId) (.ofString message) turnN =
      .ok (makeKeyFromTuple (fun text => sha256Hex ((Str.ofString text).flatMap utf8Bytes)) sessionId message
        turnN) := by
  have spelled : Str.ofString (rawInput sessionId message turnN) =
      Str.ofString sessionId ++ nul :: (Str.ofString message ++ nul :: Json.natRepr turnN) := by
    rw [rawInput, Str.ofString_append, Str.ofString_append, Str.ofString_append, Str.ofString_append,
      Json.ofString_toString]
    simp only [List.append_assoc]
    rfl
  have hashed : hashedInput (.ofString sessionId) (.ofString message) turnN =
      .ok ((Str.ofString (rawInput sessionId message turnN)).flatMap utf8Bytes) := by
    rw [hashedInput_ok_iff, ← spelled]
    exact ⟨small, encodeUtf8_eq_some_iff.mpr ⟨Str.ofString_wellFormed _, rfl⟩⟩
  rw [IdempotencyCache.makeKeyFromTuple, hashed]
  rfl

theorem nul_not_mem_natRepr (n : Nat) : nul ∉ Json.natRepr n := by
  intro member
  exact absurd (Json.ascii_natRepr n nul member).1 (by decide)

theorem eq_of_hashedInput {sessionId' message' : Str} {turnN' : Nat} (free : nul ∉ sessionId)
    (free' : nul ∉ sessionId') (hashed : hashedInput sessionId message turnN = .ok bytes)
    (hashed' : hashedInput sessionId' message' turnN' = .ok bytes) :
    sessionId = sessionId' ∧ message = message' ∧ turnN = turnN' := by
  obtain ⟨-, encoded⟩ := hashedInput_ok_iff.mp hashed
  obtain ⟨-, encoded'⟩ := hashedInput_ok_iff.mp hashed'
  obtain ⟨session, middle, number⟩ := append_cons_append_cons_unique (encodeUtf8_injective encoded encoded')
    free free' (nul_not_mem_natRepr turnN) (nul_not_mem_natRepr turnN')
  have turn : turnN = turnN' := by
    rw [← Json.natOf_natRepr turnN, number, Json.natOf_natRepr]
  exact ⟨session, middle, turn⟩

theorem eq_or_collision_of_makeKeyFromTuple {sha256Hex : List Byte → String} {sessionId' message' : Str}
    {turnN' : Nat} {key : String} (free : nul ∉ sessionId) (free' : nul ∉ sessionId')
    (made : IdempotencyCache.makeKeyFromTuple sha256Hex sessionId message turnN = .ok key)
    (made' : IdempotencyCache.makeKeyFromTuple sha256Hex sessionId' message' turnN' = .ok key) :
    (sessionId = sessionId' ∧ message = message' ∧ turnN = turnN') ∨
      ∃ bytes bytes', bytes ≠ bytes' ∧
        (sha256Hex bytes).toList.take 32 = (sha256Hex bytes').toList.take 32 := by
  obtain ⟨bytes, hashed, digest⟩ := bind_eq_ok.mp made
  obtain ⟨bytes', hashed', digest'⟩ := bind_eq_ok.mp made'
  by_cases same : bytes = bytes'
  · subst same
    exact .inl (eq_of_hashedInput free free' hashed hashed')
  · have digests := (Except.ok.inj digest).trans (Except.ok.inj digest').symm
    exact .inr ⟨bytes, bytes', same, String.ofList_inj.mp digests⟩

/-- The bytes tell the session, the message and the number. -/
theorem hashedInput_injective (free : nul ∉ sessionId)
    (hashed : hashedInput sessionId message turnN = .ok bytes) :
    ∀ (sessionId' message' : Str) (turnN' : Nat), nul ∉ sessionId' →
      hashedInput sessionId' message' turnN' = .ok bytes →
        (sessionId, message, turnN) = (sessionId', message', turnN') := by
  intro sessionId' message' turnN' free' hashed'
  obtain ⟨rfl, rfl, rfl⟩ := eq_of_hashedInput free free' hashed hashed'
  rfl

theorem hashedInput_injective_nul :
    hashedInput (.ofString "3f") (.ofString "a\x00b") 12 =
        .ok [0x33, 0x66, 0, 0x61, 0, 0x62, 0, 0x31, 0x32] ∧
      ∀ (sessionId' message' : Str) (turnN' : Nat), nul ∉ sessionId' →
        hashedInput sessionId' message' turnN' = .ok [0x33, 0x66, 0, 0x61, 0, 0x62, 0, 0x31, 0x32] →
          (Str.ofString "3f", Str.ofString "a\x00b", 12) = (sessionId', message', turnN') := by
  have hashed : hashedInput (.ofString "3f") (.ofString "a\x00b") 12 =
      .ok [0x33, 0x66, 0, 0x61, 0, 0x62, 0, 0x31, 0x32] := by
    decide +kernel
  exact ⟨hashed, hashedInput_injective (by decide) hashed⟩

-- a session id with a NUL would not do
example : hashedInput (.ofString "a\x00b") (.ofString "c") 0 =
    hashedInput (.ofString "a") (.ofString "b\x00c") 0 := by
  decide +kernel

end

end DecisionMaker.Server
