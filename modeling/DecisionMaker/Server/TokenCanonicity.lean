import DecisionMaker.Library.Base64Canonical
import DecisionMaker.Server.TokenRoundTrip

namespace DecisionMaker.Server

open Library

def urlDigit (c : CodePoint) : Option (Fin 64) :=
  if h : 65 ≤ c.val ∧ c.val < 91 then some ⟨c.val - 65, by omega⟩
  else if h : 97 ≤ c.val ∧ c.val < 123 then some ⟨c.val - 71, by omega⟩
  else if h : 48 ≤ c.val ∧ c.val < 58 then some ⟨c.val + 4, by omega⟩
  else if c.val = 45 then some ⟨62, by omega⟩
  else if c.val = 95 then some ⟨63, by omega⟩
  else none

/-- Digits only, and no bits left over by the last of them. -/
structure Canonical (s : Str) : Prop where
  alphabet : ∀ c ∈ s, (urlDigit c).isSome = true
  clean : Base64.unused (s.filterMap urlDigit) = 0

def tokenOf (payload signature : Str) : Str :=
  Str.ofString "v1" ++ .ofChar '.' :: payload ++ .ofChar '.' :: signature

def urlChar (d : Fin 64) : CodePoint := .ofByte (Base64.toUrlsafe (Base64.digit d))

theorem urlChar_val (d : Fin 64) : (urlChar d).val =
    if d.val < 26 then 65 + d.val else if d.val < 52 then 71 + d.val
    else if d.val < 62 then d.val - 4 else if d.val = 62 then 45 else 95 := by
  revert d
  decide

theorem urlDigit_urlChar (d : Fin 64) : urlDigit (urlChar d) = some d := by
  revert d
  decide

theorem urlChar_of_urlDigit {c : CodePoint} {d : Fin 64} (read : urlDigit c = some d) :
    c = urlChar d := by
  apply Fin.ext
  rw [urlChar_val]
  unfold urlDigit at read
  split_ifs at read with upper lower number minus underscore
  · cases read
    dsimp only
    split_ifs <;> omega
  · cases read
    dsimp only
    split_ifs <;> omega
  · cases read
    dsimp only
    split_ifs <;> omega
  · cases read
    exact minus
  · cases read
    exact underscore

theorem b64urlEncode_digits (data : List Byte) :
    b64urlEncode data = (Base64.sextets data).map urlChar := by
  rw [b64urlEncode_eq, Base64.unpadded, List.map_map]
  rfl

theorem filterMap_urlChar (digits : List (Fin 64)) :
    (digits.map urlChar).filterMap urlDigit = digits := by
  rw [List.filterMap_map]
  have same : urlDigit ∘ urlChar = some := funext urlDigit_urlChar
  rw [same, List.filterMap_some]

theorem canonical_encode (data : List Byte) : Canonical (b64urlEncode data) where
  alphabet c member := by
    rw [b64urlEncode_digits] at member
    obtain ⟨d, -, rfl⟩ := List.mem_map.mp member
    simp [urlDigit_urlChar]
  clean := by rw [b64urlEncode_digits, filterMap_urlChar, Base64.unused_sextets]

theorem Canonical.digits {s : Str} (canonical : Canonical s) :
    s = (s.filterMap urlDigit).map urlChar := by
  have alphabet := canonical.alphabet
  clear canonical
  induction s with
  | nil => rfl
  | cons c s ih =>
      obtain ⟨here, later⟩ := List.forall_mem_cons.mp alphabet
      obtain ⟨d, read⟩ := Option.isSome_iff_exists.mp here
      rw [List.filterMap_cons_some read, List.map_cons, ← urlChar_of_urlDigit read, ← ih later]

theorem b64urlDecode_digits (digits : List (Fin 64)) :
    b64urlDecode (digits.map urlChar) =
      Base64.a2b (digits.map Base64.digit ++
        List.replicate ((4 - digits.length % 4) % 4) Base64.pad) := by
  have ascii : encodeAscii (digits.map urlChar) =
      some (digits.map fun d => Base64.toUrlsafe (Base64.digit d)) := by
    have spelled : digits.map urlChar =
        (digits.map fun d => Base64.toUrlsafe (Base64.digit d)).map CodePoint.ofByte := by
      rw [List.map_map]
      rfl
    rw [spelled]
    apply encodeAscii_map_ofByte
    intro b member
    obtain ⟨d, -, rfl⟩ := List.mem_map.mp member
    exact (urlsafe_digit d).1
  have padded : Base64.ofUrlsafe Base64.pad = Base64.pad := rfl
  rw [b64urlDecode, ascii, Option.bind_some, Base64.urlsafeB64decode, List.map_append, List.map_map,
    List.map_replicate, List.length_map, padded]
  congr 2
  exact List.map_congr_left fun d _ => Base64.ofUrlsafe_toUrlsafe_digit d

theorem Canonical.encode {s : Str} {data : List Byte} (canonical : Canonical s)
    (decoded : b64urlDecode s = some data) : b64urlEncode data = s := by
  generalize digits : s.filterMap urlDigit = ds at *
  have clean := canonical.clean
  have spelled := canonical.digits
  rw [digits] at clean spelled
  by_cases alone : ds.length % 4 = 1
  · rw [spelled, b64urlDecode_digits, Base64.a2b_alone alone] at decoded
    cases decoded
  · obtain ⟨bytes, same⟩ := Base64.exists_sextets clean alone
    have encoded : b64urlEncode bytes = s := by rw [b64urlEncode_digits, same, ← spelled]
    rw [← encoded, b64urlDecode_encode] at decoded
    rw [← Option.some.inj decoded, encoded]

theorem canonical_iff {s : Str} {data : List Byte} (decoded : b64urlDecode s = some data) :
    b64urlEncode data = s ↔ Canonical s := by
  constructor
  · intro same
    rw [← same]
    exact canonical_encode data
  · exact fun canonical => canonical.encode decoded

theorem splitOn_tokenOf {payload signature : Str} (inPayload : .ofChar '.' ∉ payload)
    (inSignature : .ofChar '.' ∉ signature) :
    (tokenOf payload signature).splitOn (.ofChar '.') = [Str.ofString "v1", payload, signature] :=
  splitOn_eq_three.mpr
    ⟨rfl, (by decide : CodePoint.ofChar '.' ∉ Str.ofString "v1"), inPayload, inSignature⟩

theorem tokenOf_inj {payload signature payload' signature' : Str} (inPayload : .ofChar '.' ∉ payload)
    (inSignature : .ofChar '.' ∉ signature) (inPayload' : .ofChar '.' ∉ payload')
    (inSignature' : .ofChar '.' ∉ signature')
    (same : tokenOf payload signature = tokenOf payload' signature') :
    payload = payload' ∧ signature = signature' := by
  have parts := congrArg (fun token => List.splitOn (.ofChar '.') token) same
  simp only [splitOn_tokenOf inPayload inSignature, splitOn_tokenOf inPayload' inSignature',
    List.cons.injEq, and_true, true_and] at parts
  exact parts

def skipped : Str := List.replicate 4 (.ofChar '!')

theorem b64urlDecode_skipped (s : Str) : b64urlDecode (skipped ++ s) = b64urlDecode s := by
  have ascii : encodeAscii (skipped ++ s) =
      (encodeAscii s).map (List.replicate 4 (33 : Byte) ++ ·) := by
    cases encoded : encodeAscii s with
    | none => simp [skipped, List.replicate, encodeAscii, encoded]
    | some bytes =>
        simp only [skipped, List.replicate, List.cons_append, List.nil_append, encodeAscii, encoded]
        rfl
  rw [b64urlDecode, b64urlDecode, ascii, Option.bind_map]
  congr 1
  funext bytes
  have length : (List.replicate 4 (33 : Byte) ++ bytes).length % 4 = bytes.length % 4 := by
    rw [List.length_append, List.length_replicate, Nat.add_mod_left]
  have foreign (rest : List Byte) : Base64.a2b (33 :: rest) = Base64.a2b rest :=
    Base64.a2bFrom_skip (by decide) (by decide) .start 0 rest
  have kept : Base64.ofUrlsafe 33 = 33 := by decide
  rw [Function.comp_apply, length]
  simp only [Base64.urlsafeB64decode, List.replicate, List.cons_append, List.nil_append,
    List.map_cons, kept, foreign]

theorem dot_not_mem_skipped : CodePoint.ofChar '.' ∉ skipped := by decide

section
variable {py : Runtime} {requiredServiceId : Str} {now : Int} {secret : List Byte} {rawToken : Str}
  {claims : TokenClaims}

theorem second_spelling {payload signature : Str} {payloadBytes : List Byte}
    (inPayload : .ofChar '.' ∉ payload) (inSignature : .ofChar '.' ∉ signature)
    (payloadDecoded : b64urlDecode payload = some payloadBytes)
    (sigDecoded : b64urlDecode signature = some (py.hmacSha256 secret payloadBytes))
    (accepted : verifyToken py requiredServiceId now secret (tokenOf payload signature) = .ok claims) :
    tokenOf (skipped ++ payload) signature ≠ tokenOf payload signature ∧
      b64urlDecode (skipped ++ payload) = some payloadBytes ∧
      verifyToken py requiredServiceId now secret (tokenOf (skipped ++ payload) signature) = .ok claims := by
  have inOther : CodePoint.ofChar '.' ∉ skipped ++ payload := by
    rw [List.mem_append, not_or]
    exact ⟨dot_not_mem_skipped, inPayload⟩
  have otherDecoded : b64urlDecode (skipped ++ payload) = some payloadBytes := by
    rw [b64urlDecode_skipped, payloadDecoded]
  refine ⟨fun same => ?_, otherDecoded, ?_⟩
  · have parts := (tokenOf_inj inOther inSignature inPayload inSignature same).1
    have lengths := congrArg List.length parts
    rw [List.length_append, skipped, List.length_replicate] at lengths
    omega
  · rw [tokenOf, verifyToken_of_parts inPayload inSignature payloadDecoded sigDecoded,
      verifyPayload_ok_iff (ascii_of_parts payloadDecoded sigDecoded)] at accepted
    rw [tokenOf, verifyToken_of_parts inOther inSignature otherDecoded sigDecoded]
    exact (verifyPayload_ok_iff (ascii_of_parts otherDecoded sigDecoded)).mpr accepted

theorem minted_iff {payload signature : Str} {payloadBytes sigBytes : List Byte}
    (inPayload : .ofChar '.' ∉ payload) (inSignature : .ofChar '.' ∉ signature)
    (payloadDecoded : b64urlDecode payload = some payloadBytes)
    (sigDecoded : b64urlDecode signature = some sigBytes) :
    tokenOf payload signature = tokenOf (b64urlEncode payloadBytes) (b64urlEncode sigBytes) ↔
      Canonical payload ∧ Canonical signature := by
  rw [← canonical_iff payloadDecoded, ← canonical_iff sigDecoded]
  constructor
  · intro minted
    obtain ⟨first, second⟩ := tokenOf_inj inPayload inSignature (dot_not_mem_b64urlEncode _)
      (dot_not_mem_b64urlEncode _) minted
    exact ⟨first.symm, second.symm⟩
  · intro parts
    obtain ⟨first, second⟩ := parts
    rw [first, second]

end

/-- What is decoded comes back as it was exactly when it is canonical. An accepted token is the one
that its payload and the secret give exactly when both parts are canonical, and it is never the only
one that is accepted for the bytes of its payload. -/
theorem b64url_canonical_iff (s : Str) (data : List Byte) (py : Runtime) (requiredServiceId : Str)
    (now : Int) (secret : List Byte) (rawToken : Str) (claims : TokenClaims) :
    (b64urlDecode s = some data → (b64urlEncode data = s ↔ Canonical s)) ∧
    (verifyToken py requiredServiceId now secret rawToken = .ok claims →
      ∃ payload signature payloadBytes, rawToken = tokenOf payload signature ∧
        b64urlDecode payload = some payloadBytes ∧
        (rawToken = tokenOf (b64urlEncode payloadBytes)
            (b64urlEncode (py.hmacSha256 secret payloadBytes)) ↔
          Canonical payload ∧ Canonical signature) ∧
        ∃ other, tokenOf other signature ≠ rawToken ∧ b64urlDecode other = some payloadBytes ∧
          verifyToken py requiredServiceId now secret (tokenOf other signature) = .ok claims) := by
  refine ⟨canonical_iff, fun accepted => ?_⟩
  obtain ⟨payload, signature, payloadBytes, rfl, inPayload, inSignature, payloadDecoded, sigDecoded, -⟩ :=
    verifyToken_ok accepted
  exact ⟨payload, signature, payloadBytes, rfl, payloadDecoded,
    minted_iff inPayload inSignature payloadDecoded sigDecoded, skipped ++ payload,
    second_spelling inPayload inSignature payloadDecoded sigDecoded accepted⟩

theorem leftover_bits_not_canonical :
    b64urlDecode (Str.ofString "QR") = some [0x41] ∧
      b64urlEncode [0x41] = Str.ofString "QQ" ∧
      ¬ ∀ s data, b64urlDecode s = some data → b64urlEncode data = s := by
  have decoded : b64urlDecode (Str.ofString "QR") = some [0x41] := by decide
  have encoded : b64urlEncode [0x41] = Str.ofString "QQ" := by decide
  refine ⟨decoded, encoded, fun inverse => ?_⟩
  have same := inverse _ _ decoded
  rw [encoded] at same
  exact absurd same (by decide)

end DecisionMaker.Server
