import DecisionMaker.Library.JsonRoundTrip
import DecisionMaker.Server.TokenSoundness

namespace DecisionMaker.Server

open Library

theorem urlsafe_digit (d : Fin 64) :
    (Base64.toUrlsafe (Base64.digit d)).val < 128 ∧ Base64.toUrlsafe (Base64.digit d) ≠ 46 := by
  revert d
  decide

theorem b64urlEncode_eq (data : List Byte) :
    b64urlEncode data = (Base64.unpadded data).map CodePoint.ofByte := by
  rw [b64urlEncode, Base64.rstrip_urlsafeB64encode]

theorem b64urlDecode_encode (data : List Byte) : b64urlDecode (b64urlEncode data) = some data := by
  have seven : ∀ b ∈ Base64.unpadded data, b.val < 128 := by
    intro b member
    obtain ⟨d, -, rfl⟩ := List.mem_map.mp member
    exact (urlsafe_digit d).1
  rw [b64urlEncode_eq, b64urlDecode, encodeAscii_map_ofByte seven, Option.bind_some,
    Base64.padding_repaired, ← Base64.urlsafeB64encode_eq, Base64.urlsafeB64decode_encode]

theorem dot_not_mem_b64urlEncode (data : List Byte) : .ofChar '.' ∉ b64urlEncode data := by
  rw [b64urlEncode_eq]
  intro member
  obtain ⟨b, inside, same⟩ := List.mem_map.mp member
  obtain ⟨d, -, rfl⟩ := List.mem_map.mp inside
  have dot : (Base64.toUrlsafe (Base64.digit d)).val = 46 := congrArg Fin.val same
  exact (urlsafe_digit d).2 (Fin.ext dot)

theorem presents_encoded (py : Runtime) (secret payloadBytes : List Byte) :
    Presents py secret
      (some (Str.ofString "Bearer " ++ (Str.ofString "v1." ++ b64urlEncode payloadBytes ++
        Str.ofString "." ++ b64urlEncode (py.hmacSha256 secret payloadBytes)))) payloadBytes := by
  refine ⟨b64urlEncode payloadBytes, b64urlEncode (py.hmacSha256 secret payloadBytes), ?_,
    dot_not_mem_b64urlEncode _, dot_not_mem_b64urlEncode _, b64urlDecode_encode _, b64urlDecode_encode _⟩
  have version : Str.ofString "v1." = Str.ofString "v1" ++ [.ofChar '.'] := rfl
  have dot : Str.ofString "." = [.ofChar '.'] := rfl
  simp [version, dot]

theorem plain_payloadDict {serviceId sessionId : Str} {exp : Int} (service : serviceId.WellFormed)
    (session : sessionId.WellFormed) (limit : exp.natAbs < 10 ^ Json.maxStrDigits) (nesting : Nat) :
    Json.Plain compact.sortKeys (nesting + 1) (payloadDict serviceId sessionId exp) := by
  have keys : ∀ key ∈ ["exp", "service_id", "session_id"], (Str.ofString key).Ascii := by decide
  have distinct : [Str.ofString "exp", Str.ofString "service_id", Str.ofString "session_id"].Nodup := by
    decide
  have ordered : [Str.ofString "exp", Str.ofString "service_id", Str.ofString "session_id"].Pairwise
      fun a b => Json.lessOrEqual a b = true := by decide
  refine .object ?_ distinct (fun _ => ordered) ?_
  · intro member inside
    simp only [List.mem_cons, List.not_mem_nil, or_false] at inside
    refine Str.wellFormed_of_seven fun c char => ?_
    rcases inside with rfl | rfl | rfl
    · exact (keys "exp" (by simp) c char).2
    · exact (keys "service_id" (by simp) c char).2
    · exact (keys "session_id" (by simp) c char).2
  · intro member inside
    simp only [List.mem_cons, List.not_mem_nil, or_false] at inside
    rcases inside with rfl | rfl | rfl
    · exact .int nesting limit
    · exact .str nesting service
    · exact .str nesting session

theorem carries_payloadDict (py : Runtime) (serviceId sessionId : Str) (exp : Int) :
    Carries py [(Str.ofString "exp", .int exp), (Str.ofString "service_id", .str serviceId),
      (Str.ofString "session_id", .str sessionId)] serviceId sessionId exp :=
  ⟨⟨_, rfl, rfl⟩, ⟨_, rfl, rfl⟩, ⟨_, rfl, rfl⟩⟩

theorem mintSessionToken_ok (py : Runtime) (secret : List Byte) {serviceId sessionId : Str} {exp : Int}
    (service : serviceId.WellFormed) (session : IsUuid4 sessionId)
    (limit : exp.natAbs < 10 ^ Json.maxStrDigits) :
    ∃ token payloadBytes, mintSessionToken py secret serviceId sessionId exp = .ok token ∧
      Json.loads py.nesting payloadBytes = .ok (payloadDict serviceId sessionId exp) ∧
      Presents py secret (some (Str.ofString "Bearer " ++ token)) payloadBytes := by
  obtain ⟨nesting, deep⟩ : ∃ nesting, py.nesting = nesting + 1 :=
    Nat.exists_eq_succ_of_ne_zero (Nat.ne_of_gt py.nesting_pos)
  have plain := plain_payloadDict service (Str.wellFormed_of_seven session.ascii) limit nesting
  have comma : Json.Separates ',' compact.itemSeparator := ⟨[], rfl, by simp⟩
  have colon : Json.Separates ':' compact.keySeparator := ⟨[], rfl, by simp⟩
  have written : ∃ text, Json.dumps (fun _ => []) compact (payloadDict serviceId sessionId exp) = some text ∧
      Json.Reads (Json.scanOnce (nesting + 1)) (payloadDict serviceId sessionId exp) text :=
    Json.reads_dumps comma colon plain
  obtain ⟨payloadJson, dumped, reads⟩ := written
  have encoded := encodeUtf8_of_seven fun c member => (reads.ascii c member).2
  have loaded := Json.loads_of_reads reads encoded
  rw [← deep] at loaded
  refine ⟨_, _, ?_, loaded, presents_encoded py secret _⟩
  have shown := formatInt_ok_iff.mpr (Json.intRepr_isSome_iff.mpr limit)
  simp only [mintSessionToken, dumped, encoded, tokenFp_of_ascii session.ascii, shown]
  rfl

theorem verifySessionToken_mint (py : Runtime) (secret : List Byte) (serviceId sessionId : Str)
    (exp now : Int) (service : serviceId.WellFormed) (session : IsUuid4 sessionId) (fresh : now < exp)
    (limit : exp.natAbs < 10 ^ Json.maxStrDigits)
    (deltaLimit : (exp - now).natAbs < 10 ^ Json.maxStrDigits) :
    ∃ token, mintSessionToken py secret serviceId sessionId exp = .ok token ∧
      verifySessionToken py (some (Str.ofString "Bearer " ++ token)) serviceId now secret =
        .ok ⟨serviceId, sessionId, exp⟩ := by
  obtain ⟨token, payloadBytes, minted, loaded, presents⟩ := mintSessionToken_ok py secret service session limit
  refine ⟨token, minted, verifySessionToken_ok_iff.mpr ⟨payloadBytes, _, presents, loaded,
    carries_payloadDict py serviceId sessionId exp, rfl, ?_, fresh, Json.intRepr_isSome_iff.mpr deltaLimit⟩⟩
  exact uuid4Match_iff.mpr (.inl session)

def sampleService : Str := Str.ofString "brainstorm"

def sampleSession : Str := Str.ofString "3F2504E0-4f89-41d3-9a0c-0305e82c3301"

theorem sampleService_wellFormed : sampleService.WellFormed := by
  have ascii : sampleService.Ascii := by decide
  exact Str.wellFormed_of_seven fun c member => (ascii c member).2

theorem verifySessionToken_mint_sample :
    ∃ token, mintSessionToken lineFeedRuntime lineFeedSecret sampleService sampleSession 2000000000 =
        .ok token ∧
      verifySessionToken lineFeedRuntime (some (Str.ofString "Bearer " ++ token)) sampleService
        1700000000 lineFeedSecret = .ok ⟨sampleService, sampleSession, 2000000000⟩ :=
  verifySessionToken_mint lineFeedRuntime lineFeedSecret sampleService sampleSession 2000000000 1700000000
    sampleService_wellFormed (by decide) (by decide) (by decide +kernel) (by decide +kernel)

theorem delta_over_limit :
    ¬ ∀ (py : Runtime) (secret : List Byte) (serviceId sessionId : Str) (exp now : Int),
      serviceId.WellFormed → IsUuid4 sessionId → now < exp → exp.natAbs < 10 ^ Json.maxStrDigits →
        ∃ token, mintSessionToken py secret serviceId sessionId exp = .ok token ∧
          verifySessionToken py (some (Str.ofString "Bearer " ++ token)) serviceId now secret =
            .ok ⟨serviceId, sessionId, exp⟩ := by
  intro roundTrip
  have positive : 0 < 10 ^ Json.maxStrDigits := Nat.pow_pos (by decide)
  obtain ⟨token, -, returned⟩ := roundTrip lineFeedRuntime lineFeedSecret sampleService
    sampleSession ((10 ^ Json.maxStrDigits : Nat) - 1) (-1) sampleService_wellFormed (by decide)
    (by omega) (by omega)
  obtain ⟨-, -, -, -, -, -, -, -, formats⟩ := verifySessionToken_ok_iff.mp returned
  have small := Json.intRepr_isSome_iff.mp formats
  dsimp only at small
  omega

end DecisionMaker.Server
