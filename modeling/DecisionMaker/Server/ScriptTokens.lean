import DecisionMaker.Server.TokenCanonicity

namespace DecisionMaker.Server

open Library

structure MintArgs where
  serviceId : Str := Str.ofString "brainstorm"
  sessionId : Option Str := none
  ttl : Int
  secretEnv : Str := Str.ofString "BRAINSTORM_HMAC_SECRET"

inductive MintError
  -- `sys.exit(1)` behind a message
  | exit
  | raised (e : VerifyError)

def loadSecret (environ : Str → Option Str) (secretEnv : Str) : Except MintError (List Byte) :=
  match environ secretEnv with
  | none | some [] => .error .exit
  | some rawSecret =>
      match encodeUtf8 rawSecret with
      | none => .error (.raised (.escaped .unicodeEncodeError))
      | some secretBytes => if secretBytes.length < 16 then .error .exit else .ok secretBytes

def MintArgs.resolveSessionId (args : MintArgs) (uuid : Str) : Str :=
  match args.sessionId with
  | none | some [] => uuid
  | some sessionId => sessionId

/-- `main` of `mint_token.py`, up to what it prints to `stdout`. -/
def mintMain (py : Runtime) (environ : Str → Option Str) (args : MintArgs) (uuid : Str) (now : Int) :
    Except MintError Str :=
  if args.ttl ≤ 0 then .error .exit
  else do
    let secretBytes ← loadSecret environ args.secretEnv
    match mintSessionToken py secretBytes args.serviceId (args.resolveSessionId uuid) (now + args.ttl) with
    | .error e => .error (.raised e)
    | .ok token => .ok (Str.ofString "Bearer " ++ token)

/-- The minter of the smoke test, which does not import that of the server. -/
def mintBearerInline (py : Runtime) (serviceId sessionId : Str) (exp : Int) (secret : List Byte) :
    Except VerifyError Str :=
  match Json.dumps (fun _ => []) compact (payloadDict serviceId sessionId exp) with
  | none => .error (.escaped .valueError)
  | some payloadJson =>
      match encodeUtf8 payloadJson with
      | none => .error (.escaped .unicodeEncodeError)
      | some payloadBytes =>
          .ok (Str.ofString "Bearer v1." ++ b64urlEncode payloadBytes ++ Str.ofString "." ++
            b64urlEncode (py.hmacSha256 secret payloadBytes))

/-- The forged bearer of `check_5_bad_signature`; an empty signature has no last character. -/
def forgedBearer (validBearer : Str) : Option Str :=
  match validBearer.splitOn (.ofChar '.') with
  | [version, payload, signature] =>
      signature.getLast?.map fun lastChar =>
        let replacement : CodePoint := if lastChar ≠ .ofChar 'B' then .ofChar 'B' else .ofChar 'A'
        version ++ .ofChar '.' :: payload ++ .ofChar '.' :: (signature.dropLast ++ [replacement])
  | _ => some (validBearer ++ Str.ofString "FORGED")

section
variable {py : Runtime} {requiredServiceId : Str} {now : Int} {secret : List Byte}

theorem fail_of_ascii {α : Type} {rawToken : Str} (ascii : ∀ c ∈ rawToken, c.val < 128) (reason : AuthReason) :
    (fail reason rawToken : Except VerifyError α) = .error (.authError reason) := by
  rw [fail, tokenFp_of_ascii ascii]
  rfl

def answer (requiredServiceId : Str) (now : Int) (claims : TokenClaims) : AuthAnswer :=
  if claims.serviceId ≠ requiredServiceId then .httpException 403 .wrongService
  else if uuid4Match claims.sessionId = false then .httpException 401 .missingSession
  else if claims.exp ≤ now then .httpException 401 .expired
  else .authenticated claims

theorem answer_authenticated {claims : TokenClaims} (session : IsUuid4 claims.sessionId)
    (fresh : now < claims.exp) : answer claims.serviceId now claims = .authenticated claims := by
  have matched : ¬ uuid4Match claims.sessionId = false := by simp [uuid4Match_iff.mpr (.inl session)]
  rw [answer, if_neg (fun other => other rfl), if_neg matched, if_neg (not_le.mpr fresh)]

theorem uuid4Match_nil : uuid4Match [] = false := rfl

theorem requireService_presented (claims : TokenClaims) {header : Option Str} {payloadBytes : List Byte}
    {raw : List (Str × Json)} (presents : Presents py secret header payloadBytes)
    (loaded : Json.loads py.nesting payloadBytes = .ok (.object raw))
    (carries : Carries py raw claims.serviceId claims.sessionId claims.exp)
    (wellFormed : claims.sessionId.WellFormed) (expFormats : Formats claims.exp) (nowFormats : Formats now)
    (early : Formats (claims.exp - now)) (late : Formats (now - claims.exp)) :
    requireService py requiredServiceId header now secret = answer requiredServiceId now claims := by
  obtain ⟨payload, signature, rfl, inPayload, inSignature, payloadDecoded, sigDecoded⟩ := presents
  have ascii := ascii_of_parts payloadDecoded sigDecoded
  generalize rawToken : Str.ofString "v1" ++ .ofChar '.' :: payload ++ .ofChar '.' :: signature = token at ascii
  have constructed := claimsOf_ok_iff.mpr (carries_pop.mpr carries)
  have verified : verifySessionToken py (some (Str.ofString "Bearer " ++ token)) requiredServiceId now secret =
      validate requiredServiceId now token claims := by
    have read : verifyPayload py requiredServiceId now token payloadBytes =
        validate requiredServiceId now token claims := by
      simp only [verifyPayload, loaded, reducePayload, constructed]
    rw [← read, ← rawToken, ← verifyToken_of_parts inPayload inSignature payloadDecoded sigDecoded]
    simp only [verifySessionToken]
    rfl
  have shown : tokenFp claims.sessionId = .ok () := by
    rw [tokenFp, encodeUtf8_eq_some_iff.mpr ⟨wellFormed, rfl⟩]
  rw [requireService, verified]
  unfold validate answer
  by_cases service : claims.serviceId = requiredServiceId
  · rw [if_neg (not_not.mpr service), if_neg (not_not.mpr service)]
    by_cases session : uuid4Match claims.sessionId = true
    · have present : ¬ (claims.sessionId = [] ∨ ¬ uuid4Match claims.sessionId = true) := by
        rintro (none | other)
        · rw [none, uuid4Match_nil] at session
          cases session
        · exact other session
      rw [if_neg present, if_neg (show ¬ uuid4Match claims.sessionId = false by simp [session])]
      by_cases expired : claims.exp ≤ now
      · rw [if_pos expired, if_pos expired, tokenFp_of_ascii ascii, formatInt_ok_iff.mpr expFormats,
          formatInt_ok_iff.mpr nowFormats, formatInt_ok_iff.mpr late]
        rfl
      · rw [if_neg expired, if_neg expired, shown, tokenFp_of_ascii ascii, formatInt_ok_iff.mpr early]
        rfl
    · rw [if_pos (.inr session), if_pos (show uuid4Match claims.sessionId = false by simpa using session), shown,
        fail_of_ascii ascii]
      rfl
  · rw [if_pos service, if_pos service, fail_of_ascii ascii]
    rfl

theorem formats_sub {a b : Int} (nonneg : 0 ≤ a) (nonneg' : 0 ≤ b) (formats : Formats a)
    (formats' : Formats b) : Formats (a - b) := by
  have first := Json.intRepr_isSome_iff.mp formats
  have second := Json.intRepr_isSome_iff.mp formats'
  exact Json.intRepr_isSome_iff.mpr (by omega)

theorem requireService_minted {serviceId sessionId : Str} {exp : Int} {header : Option Str}
    {payloadBytes : List Byte} (presents : Presents py secret header payloadBytes)
    (read : Json.loads py.nesting payloadBytes = .ok (payloadDict serviceId sessionId exp))
    (session : IsUuid4 sessionId) (started : 0 ≤ now) (fresh : now < exp) (formats : Formats exp) :
    requireService py serviceId header now secret = .authenticated ⟨serviceId, sessionId, exp⟩ := by
  have limit := Json.intRepr_isSome_iff.mp formats
  have nowFormats : Formats now := Json.intRepr_isSome_iff.mpr (by omega)
  have positive : 0 ≤ exp := started.trans fresh.le
  have early := formats_sub positive started formats nowFormats
  have late := formats_sub started positive nowFormats formats
  rw [requireService_presented ⟨_, sessionId, exp⟩ presents read (carries_payloadDict py _ _ _)
    (Str.wellFormed_of_seven session.ascii) formats nowFormats early late]
  exact answer_authenticated session fresh

theorem wellFormed_of_tokenFp {s : Str} (shown : tokenFp s = .ok ()) : s.WellFormed := by
  by_contra lone
  rw [tokenFp, encodeUtf8_eq_none_iff.mpr lone] at shown
  cases shown

theorem payloadDict_read {serviceId sessionId : Str} {exp : Int} (service : serviceId.WellFormed)
    (session : sessionId.WellFormed) (formats : Formats exp) :
    ∃ payloadJson payloadBytes,
      Json.dumps (fun _ => []) compact (payloadDict serviceId sessionId exp) = some payloadJson ∧
        encodeUtf8 payloadJson = some payloadBytes ∧
        Json.loads py.nesting payloadBytes = .ok (payloadDict serviceId sessionId exp) := by
  obtain ⟨nesting, deep⟩ : ∃ nesting, py.nesting = nesting + 1 :=
    Nat.exists_eq_succ_of_ne_zero (Nat.ne_of_gt py.nesting_pos)
  have plain := plain_payloadDict service session (Json.intRepr_isSome_iff.mp formats) nesting
  have comma : Json.Separates ',' compact.itemSeparator := ⟨[], rfl, by simp⟩
  have colon : Json.Separates ':' compact.keySeparator := ⟨[], rfl, by simp⟩
  have written : ∃ text, Json.dumps (fun _ => []) compact (payloadDict serviceId sessionId exp) = some text ∧
      Json.Reads (Json.scanOnce (nesting + 1)) (payloadDict serviceId sessionId exp) text :=
    Json.reads_dumps comma colon plain
  obtain ⟨payloadJson, dumped, reads⟩ := written
  have encoded := encodeUtf8_of_seven fun c member => (reads.ascii c member).2
  refine ⟨payloadJson, _, dumped, encoded, ?_⟩
  rw [deep]
  exact Json.loads_of_reads reads encoded

theorem mintSessionToken_presents {serviceId sessionId token : Str} {exp : Int} (service : serviceId.WellFormed)
    (minted : mintSessionToken py secret serviceId sessionId exp = .ok token) :
    sessionId.WellFormed ∧ Formats exp ∧ ∃ payloadBytes,
      token = Str.ofString "v1." ++ b64urlEncode payloadBytes ++ Str.ofString "." ++
        b64urlEncode (py.hmacSha256 secret payloadBytes) ∧
      Json.loads py.nesting payloadBytes = .ok (payloadDict serviceId sessionId exp) := by
  unfold mintSessionToken at minted
  split at minted
  · cases minted
  · rename_i payloadJson dumped
    split at minted
    · cases minted
    · rename_i payloadBytes encoded
      obtain ⟨⟨⟩, shown, minted⟩ := bind_eq_ok.mp minted
      obtain ⟨⟨⟩, formatted, minted⟩ := bind_eq_ok.mp minted
      have session := wellFormed_of_tokenFp shown
      have formats := formatInt_ok_iff.mp formatted
      refine ⟨session, formats, payloadBytes, (Except.ok.inj minted).symm, ?_⟩
      obtain ⟨payloadJson', payloadBytes', dumped', encoded', read⟩ :=
        @payloadDict_read py _ _ _ service session formats
      cases dumped.symm.trans dumped'
      cases encoded.symm.trans encoded'
      exact read

/-- Whatever bearer the script prints, the server whose secret it was given answers to it by what the
arguments say: it is let in from when it was minted until its time to live is over, if the session id has
the form of one. -/
theorem mintMain_answer {environ : Str → Option Str} {args : MintArgs} {uuid bearer : Str} {issued : Int}
    (printed : mintMain py environ args uuid issued = .ok bearer) (service : args.serviceId.WellFormed)
    (started : 0 ≤ issued) (later : 0 ≤ now) (shown : Formats now) :
    ∃ secret, loadSecret environ args.secretEnv = .ok secret ∧
      requireService py requiredServiceId (some bearer) now secret =
        answer requiredServiceId now ⟨args.serviceId, args.resolveSessionId uuid, issued + args.ttl⟩ := by
  unfold mintMain at printed
  split at printed
  · cases printed
  · rename_i positive
    obtain ⟨secret, loaded, printed⟩ := bind_eq_ok.mp printed
    refine ⟨secret, loaded, ?_⟩
    split at printed
    · cases printed
    · rename_i token minted
      cases printed
      obtain ⟨session, formats, payloadBytes, rfl, read⟩ := mintSessionToken_presents service minted
      have future : 0 ≤ issued + args.ttl := by omega
      exact requireService_presented ⟨_, _, _⟩ (presents_encoded py secret payloadBytes) read
        (carries_payloadDict py _ _ _) session formats shown (formats_sub future later formats shown)
        (formats_sub later future shown formats)

def scriptSecret : Str := Str.ofString "mysupersecretkey0"

theorem mintMain_answer_sample :
    ∃ bearer secret, mintMain lineFeedRuntime (fun _ => some scriptSecret)
        { sessionId := some sampleSession, ttl := 300 } [] 1700000000 = .ok bearer ∧
      requireService lineFeedRuntime sampleService (some bearer) 1700000299 secret =
        .authenticated ⟨sampleService, sampleSession, 1700000300⟩ := by
  obtain ⟨secret, loaded⟩ : ∃ secret, loadSecret (fun _ => some scriptSecret)
      (Str.ofString "BRAINSTORM_HMAC_SECRET") = .ok secret := ⟨_, rfl⟩
  obtain ⟨token, -, minted, -⟩ := mintSessionToken_ok lineFeedRuntime secret sampleService_wellFormed
    (by decide : IsUuid4 sampleSession) (by decide +kernel : (1700000300 : Int).natAbs < _)
  have printed : mintMain lineFeedRuntime (fun _ => some scriptSecret)
      { sessionId := some sampleSession, ttl := 300 } [] 1700000000 = .ok (Str.ofString "Bearer " ++ token) := by
    rw [mintMain, if_neg (by decide), loaded]
    change (match mintSessionToken lineFeedRuntime secret sampleService sampleSession 1700000300 with
      | .error e => Except.error (MintError.raised e)
      | .ok token => .ok (Str.ofString "Bearer " ++ token)) = _
    rw [minted]
  obtain ⟨secret', -, answered⟩ := mintMain_answer printed sampleService_wellFormed (by decide) (by decide)
    (Json.intRepr_isSome_iff.mpr (by decide +kernel : (1700000299 : Int).natAbs < _))
  exact ⟨_, secret', printed, answered.trans (answer_authenticated (by decide) (by decide))⟩

theorem mintBearerInline_eq {serviceId sessionId token : Str} {exp : Int}
    (minted : mintSessionToken py secret serviceId sessionId exp = .ok token) :
    mintBearerInline py serviceId sessionId exp secret = .ok (Str.ofString "Bearer " ++ token) := by
  unfold mintSessionToken at minted
  split at minted
  · cases minted
  · rename_i payloadJson dumped
    split at minted
    · cases minted
    · rename_i payloadBytes encoded
      obtain ⟨⟨⟩, -, minted⟩ := bind_eq_ok.mp minted
      obtain ⟨⟨⟩, -, minted⟩ := bind_eq_ok.mp minted
      have prefixed : Str.ofString "Bearer v1." = Str.ofString "Bearer " ++ Str.ofString "v1." := rfl
      simp only [mintBearerInline, dumped, encoded, ← Except.ok.inj minted, prefixed, List.append_assoc]

theorem b64urlDecode_replaced {digest : List Byte} (long : digest.length % 3 = 2) :
    b64urlDecode ((b64urlEncode digest).dropLast ++ [.ofChar 'B']) = some (Base64.clearLast digest) := by
  have one : CodePoint.ofChar 'B' = urlChar 1 := by decide
  have length : ((Base64.sextets digest).dropLast ++ [1]).length % 4 = 3 := by
    have padded := congrArg List.length (Base64.padding_repaired digest)
    simp only [Base64.padding, Base64.unpadded, List.length_replicate, List.length_map] at padded
    simp only [List.length_append, List.length_dropLast, List.length_singleton]
    omega
  rw [b64urlEncode_digits, one, ← List.map_dropLast, ← List.map_singleton, ← List.map_append,
    b64urlDecode_digits, length]
  exact Base64.a2b_dropLast long (by decide)

theorem requireService_badSignature {payload signature : Str} {payloadBytes sigBytes : List Byte}
    (inPayload : .ofChar '.' ∉ payload) (inSignature : .ofChar '.' ∉ signature)
    (payloadDecoded : b64urlDecode payload = some payloadBytes)
    (sigDecoded : b64urlDecode signature = some sigBytes) (wrong : py.hmacSha256 secret payloadBytes ≠ sigBytes) :
    requireService py requiredServiceId (some (Str.ofString "Bearer " ++ tokenOf payload signature)) now secret =
      .httpException 401 .badSignature := by
  have ascii := ascii_of_parts payloadDecoded sigDecoded
  have refused : verifyToken py requiredServiceId now secret (tokenOf payload signature) =
      .error (.authError .badSignature) := by
    rw [verifyToken, splitOn_tokenOf inPayload inSignature]
    simp only [ne_eq, not_true_eq_false, if_false, payloadDecoded, sigDecoded, wrong, not_false_eq_true,
      if_true]
    exact fail_of_ascii ascii _
  have verified : verifySessionToken py (some (Str.ofString "Bearer " ++ tokenOf payload signature))
      requiredServiceId now secret = .error (.authError .badSignature) := by
    rw [← refused]
    simp only [verifySessionToken]
    rfl
  rw [requireService, verified]
  rfl

theorem urlChar_inj {d e : Fin 64} (same : urlChar d = urlChar e) : d = e := by
  have digits := congrArg urlDigit same
  rw [urlDigit_urlChar, urlDigit_urlChar] at digits
  exact Option.some.inj digits

theorem b64urlEncode_digest {digest : List Byte} (length : digest.length = 32) :
    ∃ front b characters, digest = front ++ [b] ∧
      b64urlEncode digest = characters ++ [urlChar (Base64.lowerHalf b)] := by
  rcases List.eq_nil_or_concat digest with rfl | ⟨front, b, rfl⟩
  · cases length
  · rw [List.concat_eq_append] at length ⊢
    rw [List.length_append, List.length_singleton] at length
    obtain ⟨digits, same⟩ := Base64.sextets_append (by omega : front.length % 3 = 1) b
    refine ⟨front, b, digits.map urlChar, rfl, ?_⟩
    rw [b64urlEncode_digits, same, List.map_append, List.map_singleton]

theorem forgedBearer_eq {payload characters : Str} {last : CodePoint} (inPayload : .ofChar '.' ∉ payload)
    (inSignature : .ofChar '.' ∉ characters ++ [last]) (other : last ≠ .ofChar 'B') :
    forgedBearer (Str.ofString "Bearer " ++ tokenOf payload (characters ++ [last])) =
      some (Str.ofString "Bearer " ++ tokenOf payload (characters ++ [.ofChar 'B'])) := by
  have bearer : Str.ofString "Bearer " ++ Str.ofString "v1" = Str.ofString "Bearer v1" := rfl
  have parts : (Str.ofString "Bearer " ++ tokenOf payload (characters ++ [last])).splitOn (.ofChar '.') =
      [Str.ofString "Bearer v1", payload, characters ++ [last]] := by
    refine splitOn_eq_three.mpr ⟨?_, by decide, inPayload, inSignature⟩
    simp [tokenOf, ← bearer]
  simp only [forgedBearer, parts, List.getLast?_concat, Option.map_some, List.dropLast_concat, other, ne_eq,
    not_false_eq_true, if_true]
  simp [tokenOf, ← bearer]

theorem token_eq_tokenOf (payload signature : Str) :
    Str.ofString "v1." ++ payload ++ Str.ofString "." ++ signature = tokenOf payload signature := by
  have version : Str.ofString "v1." = Str.ofString "v1" ++ [.ofChar '.'] := rfl
  have dot : Str.ofString "." = [.ofChar '.'] := rfl
  simp [tokenOf, version, dot]

theorem last_ne_B (b : Byte) : urlChar (Base64.lowerHalf b) ≠ .ofChar 'B' := by
  have upperB : CodePoint.ofChar 'B' = urlChar 1 := by decide
  rw [upperB]
  exact fun same => Base64.lowerHalf_ne_one b (urlChar_inj same)

theorem last_eq_A {b : Byte} : urlChar (Base64.lowerHalf b) = .ofChar 'A' ↔ Base64.upperHalf b = b := by
  have upperA : CodePoint.ofChar 'A' = urlChar 0 := by decide
  rw [upperA, ← Base64.lowerHalf_eq_zero]
  exact ⟨urlChar_inj, congrArg urlChar⟩

theorem bearer_getLast? (payload characters : Str) (last : CodePoint) :
    (Str.ofString "Bearer " ++ tokenOf payload (characters ++ [last])).getLast? = some last := by
  have apart : Str.ofString "Bearer " ++ tokenOf payload (characters ++ [last]) =
      (Str.ofString "Bearer " ++ tokenOf payload characters) ++ [last] := by
    simp [tokenOf]
  rw [apart, List.getLast?_concat]

theorem requireService_forged {serviceId sessionId characters : Str} {exp : Int} {payloadBytes front : List Byte}
    {b : Byte} (read : Json.loads py.nesting payloadBytes = .ok (payloadDict serviceId sessionId exp))
    (session : IsUuid4 sessionId) (started : 0 ≤ now) (fresh : now < exp) (formats : Formats exp)
    (whole : py.hmacSha256 secret payloadBytes = front ++ [b])
    (replaced : b64urlDecode (characters ++ [.ofChar 'B']) = some (front ++ [Base64.upperHalf b]))
    (inForged : .ofChar '.' ∉ characters ++ [CodePoint.ofChar 'B']) :
    requireService py serviceId (some (Str.ofString "Bearer " ++
        tokenOf (b64urlEncode payloadBytes) (characters ++ [.ofChar 'B']))) now secret =
      if Base64.upperHalf b = b then .authenticated ⟨serviceId, sessionId, exp⟩
      else .httpException 401 .badSignature := by
  have inPayload := dot_not_mem_b64urlEncode payloadBytes
  by_cases kept : Base64.upperHalf b = b
  · rw [if_pos kept]
    have presents : Presents py secret (some (Str.ofString "Bearer " ++
        tokenOf (b64urlEncode payloadBytes) (characters ++ [.ofChar 'B']))) payloadBytes := by
      refine ⟨_, _, rfl, inPayload, inForged, b64urlDecode_encode _, ?_⟩
      rw [replaced, whole, kept]
    exact requireService_minted presents read session started fresh formats
  · rw [if_neg kept]
    refine requireService_badSignature inPayload inForged (b64urlDecode_encode _) replaced ?_
    rw [whole]
    intro same
    exact kept (List.singleton_inj.mp (List.append_cancel_left same)).symm

theorem forgedBearer_answer {sessionId : Str} {exp : Int} (session : IsUuid4 sessionId) (started : 0 ≤ now)
    (fresh : now < exp) (formats : Formats exp)
    (digest : ∀ bytes, (py.hmacSha256 secret bytes).length = 32) :
    ∃ bearer forged, mintBearerInline py (Str.ofString "brainstorm") sessionId exp secret = .ok bearer ∧
      forgedBearer bearer = some forged ∧ forged ≠ bearer ∧
      requireService py (Str.ofString "brainstorm") (some forged) now secret =
        if bearer.getLast? = some (.ofChar 'A') then
          .authenticated ⟨Str.ofString "brainstorm", sessionId, exp⟩
        else .httpException 401 .badSignature := by
  have service := Str.ofString_wellFormed "brainstorm"
  generalize Str.ofString "brainstorm" = serviceId at service ⊢
  obtain ⟨token, -, minted, -⟩ :=
    mintSessionToken_ok py secret service session (Json.intRepr_isSome_iff.mp formats)
  have bearer := mintBearerInline_eq minted
  obtain ⟨-, -, payloadBytes, rfl, read⟩ := mintSessionToken_presents service minted
  obtain ⟨front, b, characters, whole, signature⟩ := b64urlEncode_digest (digest payloadBytes)
  have inPayload := dot_not_mem_b64urlEncode payloadBytes
  have inSignature := dot_not_mem_b64urlEncode (py.hmacSha256 secret payloadBytes)
  have replaced := b64urlDecode_replaced (show (py.hmacSha256 secret payloadBytes).length % 3 = 2 by rw [digest])
  rw [token_eq_tokenOf] at bearer
  rw [signature] at bearer inSignature replaced
  rw [List.dropLast_concat, whole, Base64.clearLast_append] at replaced
  have inForged : .ofChar '.' ∉ characters ++ [CodePoint.ofChar 'B'] := by
    rw [List.mem_append, not_or] at inSignature ⊢
    exact ⟨inSignature.1, by decide⟩
  have answered := requireService_forged read session started fresh formats whole replaced inForged
  refine ⟨_, _, bearer, forgedBearer_eq inPayload inSignature (last_ne_B b), ?_, ?_⟩
  · intro same
    have lasts := congrArg List.getLast? same
    rw [bearer_getLast?, bearer_getLast?, Option.some.injEq] at lasts
    exact last_ne_B b lasts.symm
  · rw [bearer_getLast?]
    by_cases kept : Base64.upperHalf b = b
    · rw [answered, if_pos kept, if_pos (congrArg some (last_eq_A.mpr kept))]
    · rw [answered, if_neg kept, if_neg fun same => kept (last_eq_A.mp (Option.some.inj same))]

/-- The bearer that the smoke test forges is another one, and the server refuses it unless the character
that is replaced is an `A`: then only leftover bits of the signature are changed, and the server lets the
forged bearer in. -/
theorem forgedBearer_refused_iff (py : Runtime) (secret : List Byte) (sessionId : Str) (exp now : Int)
    (session : IsUuid4 sessionId) (started : 0 ≤ now) (fresh : now < exp) (formats : Formats exp)
    (digest : ∀ bytes, (py.hmacSha256 secret bytes).length = 32) :
    ∃ bearer forged, mintBearerInline py (Str.ofString "brainstorm") sessionId exp secret = .ok bearer ∧
      forgedBearer bearer = some forged ∧ forged ≠ bearer ∧
      (requireService py (Str.ofString "brainstorm") (some forged) now secret =
          .httpException 401 .badSignature ↔ bearer.getLast? ≠ some (.ofChar 'A')) ∧
      (bearer.getLast? = some (.ofChar 'A') →
        requireService py (Str.ofString "brainstorm") (some forged) now secret =
          .authenticated ⟨Str.ofString "brainstorm", sessionId, exp⟩) := by
  obtain ⟨bearer, forged, minted, replaced, other, answered⟩ :=
    @forgedBearer_answer py now secret _ _ session started fresh formats digest
  refine ⟨bearer, forged, minted, replaced, other, ?_, fun last => by rw [answered, if_pos last]⟩
  rw [answered]
  by_cases last : bearer.getLast? = some (.ofChar 'A')
  · simp [last]
  · simp [last]

theorem forgedBearer_refused_sample :
    ∃ bearer forged, mintBearerInline lineFeedRuntime (Str.ofString "brainstorm") sampleSession 2000000000
        lineFeedSecret = .ok bearer ∧ forgedBearer bearer = some forged ∧ forged ≠ bearer ∧
      (requireService lineFeedRuntime (Str.ofString "brainstorm") (some forged) 1700000000 lineFeedSecret =
        .httpException 401 .badSignature ↔ bearer.getLast? ≠ some (.ofChar 'A')) := by
  obtain ⟨bearer, forged, minted, replaced, other, refused, -⟩ :=
    forgedBearer_refused_iff lineFeedRuntime lineFeedSecret sampleSession 2000000000 1700000000 (by decide)
      (by decide) (by decide) (Json.intRepr_isSome_iff.mpr (by decide +kernel))
      (lineFeedRuntime_digest lineFeedSecret)
  exact ⟨bearer, forged, minted, replaced, other, refused⟩

end

end DecisionMaker.Server
