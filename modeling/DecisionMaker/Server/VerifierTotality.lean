import DecisionMaker.Server.TokenSoundness

namespace DecisionMaker.Server

open Library

variable {py : Runtime} {header : Option Str} {requiredServiceId : Str} {now : Int}
  {secret : List Byte} {claims : TokenClaims}

/-- The verifier returns claims or raises an `AuthError`, and the dependency answers with 401 or 403
where it does not let the request in. -/
structure ErrorTotal (py : Runtime) (header : Option Str) (requiredServiceId : Str) (now : Int)
    (secret : List Byte) : Prop where
  verifier : (∃ claims, verifySessionToken py header requiredServiceId now secret = .ok claims) ∨
    ∃ reason, verifySessionToken py header requiredServiceId now secret = .error (.authError reason)
  dependency : ∀ status,
    (requireService py requiredServiceId header now secret).statusCode = some status →
      status = 401 ∨ status = 403

def Misreads {α : Type} (read : Json → Except PyException α) (key : String) (raw : List (Str × Json)) :
    Prop :=
  ∃ value e, raw.lookup (Str.ofString key) = some value ∧ read value = .error e ∧ isCaught e = false

def Gives {α : Type} (read : Json → Except PyException α) (key : String) (raw : List (Str × Json))
    (a : α) : Prop :=
  ∃ value, raw.lookup (Str.ofString key) = some value ∧ read value = .ok a

/-- The kinds of object on which building or checking the claims raises something else than an
`AuthError`. -/
inductive EscapingClaims (py : Runtime) (requiredServiceId : Str) (now : Int)
    (raw : List (Str × Json)) : Prop
  | serviceId (misreads : Misreads (Json.toStr py.str) "service_id" raw)
  | sessionId (serviceId : Str) (service : Gives (Json.toStr py.str) "service_id" raw serviceId)
      (misreads : Misreads (Json.toStr py.str) "session_id" raw)
  | exp (serviceId sessionId : Str) (service : Gives (Json.toStr py.str) "service_id" raw serviceId)
      (session : Gives (Json.toStr py.str) "session_id" raw sessionId)
      (misreads : Misreads Json.toInt "exp" raw)
  -- the fingerprint of a lone surrogate
  | surrogate (sessionId : Str) (exp : Int) (carries : Carries py raw requiredServiceId sessionId exp)
      (lone : ¬ sessionId.WellFormed)
  -- the log lines show numbers
  | expired (sessionId : Str) (exp : Int) (carries : Carries py raw requiredServiceId sessionId exp)
      (session : uuid4Match sessionId = true) (elapsed : exp ≤ now)
      (long : ¬ Formats exp ∨ ¬ Formats now ∨ ¬ Formats (now - exp))
  | fresh (sessionId : Str) (exp : Int) (carries : Carries py raw requiredServiceId sessionId exp)
      (session : uuid4Match sessionId = true) (valid : now < exp) (long : ¬ Formats (exp - now))

inductive EscapingPayload (py : Runtime) (requiredServiceId : Str) (now : Int) (payloadBytes : List Byte) :
    Prop
  | undecodable (e : LoadsError) (raises : Json.loads py.nesting payloadBytes = .error e)
      (other : e ≠ .jsonDecodeError)
  | noObject (payload : Json) (loaded : Json.loads py.nesting payloadBytes = .ok payload)
      (other : ∀ raw, payload ≠ .object raw)
  | object (raw : List (Str × Json)) (loaded : Json.loads py.nesting payloadBytes = .ok (.object raw))
      (claims : EscapingClaims py requiredServiceId now raw)

def PresentsEscaping (py : Runtime) (header : Option Str) (requiredServiceId : Str) (now : Int)
    (secret : List Byte) : Prop :=
  ∃ payloadBytes, Presents py secret header payloadBytes ∧
    EscapingPayload py requiredServiceId now payloadBytes

def Escapes {α : Type} (x : Except VerifyError α) : Prop := ∃ e, x = .error (.escaped e)

section
variable {α β : Type}

theorem escapes_bind {x : Except VerifyError α} {f : α → Except VerifyError β} :
    Escapes (x >>= f) ↔ Escapes x ∨ ∃ a, x = .ok a ∧ Escapes (f a) := by
  constructor
  · rintro ⟨e, raised⟩
    rcases bind_eq_error.mp raised with first | ⟨a, returned, second⟩
    · exact .inl ⟨e, first⟩
    · exact .inr ⟨a, returned, e, second⟩
  · rintro (⟨e, first⟩ | ⟨a, returned, e, second⟩)
    · exact ⟨e, bind_eq_error.mpr (.inl first)⟩
    · exact ⟨e, bind_eq_error.mpr (.inr ⟨a, returned, second⟩)⟩

theorem not_escapes_ok {a : α} : ¬ Escapes (.ok a : Except VerifyError α) := by
  rintro ⟨e, raised⟩
  cases raised

theorem not_escapes_authError {reason : AuthReason} :
    ¬ Escapes (.error (.authError reason) : Except VerifyError α) := by
  rintro ⟨e, raised⟩
  cases raised

theorem escapes_escaped (e : PyException) : Escapes (.error (.escaped e) : Except VerifyError α) :=
  ⟨e, rfl⟩

theorem not_escapes_fail {reason : AuthReason} {rawToken : Str} (ascii : ∀ c ∈ rawToken, c.val < 128) :
    ¬ Escapes (fail reason rawToken : Except VerifyError α) := by
  rw [fail, tokenFp_of_ascii ascii]
  exact not_escapes_authError

end

theorem escapes_tokenFp {s : Str} : Escapes (tokenFp s) ↔ ¬ s.WellFormed := by
  unfold tokenFp
  cases encoded : encodeUtf8 s with
  | none => exact iff_of_true (escapes_escaped _) (encodeUtf8_eq_none_iff.mp encoded)
  | some bytes => exact iff_of_false not_escapes_ok (not_not_intro (encodeUtf8_eq_some_iff.mp encoded).1)

theorem escapes_formatInt {n : Int} : Escapes (formatInt n) ↔ ¬ Formats n := by
  rw [← formatInt_ok_iff, formatInt]
  cases Json.intRepr n with
  | none => exact iff_of_true (escapes_escaped _) (by simp)
  | some text => exact iff_of_false not_escapes_ok (by simp)

theorem escapes_formatInt_bind {α : Type} {n : Int} {f : Unit → Except VerifyError α} :
    Escapes (formatInt n >>= f) ↔ ¬ Formats n ∨ Escapes (f ()) := by
  rw [escapes_bind, escapes_formatInt]
  constructor
  · rintro (long | ⟨_, -, escapes⟩)
    · exact .inl long
    · exact .inr escapes
  · rintro (long | escapes)
    · exact .inl long
    · by_cases formats : Formats n
      · exact .inr ⟨(), formatInt_ok_iff.mpr formats, escapes⟩
      · exact .inl formats

theorem escapes_tokenFp_bind {α : Type} {s : Str} {f : Unit → Except VerifyError α}
    (ascii : ∀ c ∈ s, c.val < 128) : Escapes (tokenFp s >>= f) ↔ Escapes (f ()) := by
  rw [tokenFp_of_ascii ascii]
  rfl

theorem wellFormed_of_uuid4Match {s : Str} (matched : uuid4Match s = true) : s.WellFormed :=
  Str.wellFormed_of_seven (ascii_of_uuid4Match matched)

theorem escapes_validate {rawToken : Str} (ascii : ∀ c ∈ rawToken, c.val < 128) :
    Escapes (validate requiredServiceId now rawToken claims) ↔ claims.serviceId = requiredServiceId ∧
      (¬ claims.sessionId.WellFormed ∨ uuid4Match claims.sessionId = true ∧
        (claims.exp ≤ now ∧ (¬ Formats claims.exp ∨ ¬ Formats now ∨ ¬ Formats (now - claims.exp)) ∨
          now < claims.exp ∧ ¬ Formats (claims.exp - now))) := by
  unfold validate
  split_ifs with service session expired
  · exact iff_of_false (not_escapes_fail ascii) fun escapes => service escapes.1
  · have unmatched : uuid4Match claims.sessionId ≠ true := by
      rcases session with empty | unmatched
      · rw [empty]
        decide
      · exact unmatched
    rw [escapes_bind, escapes_tokenFp]
    constructor
    · rintro (lone | ⟨-, -, escapes⟩)
      · exact ⟨not_not.mp service, .inl lone⟩
      · exact absurd escapes (not_escapes_fail ascii)
    · rintro ⟨-, lone | ⟨matched, -⟩⟩
      · exact .inl lone
      · exact absurd matched unmatched
  · rw [not_or, not_not] at session
    have wellFormed := wellFormed_of_uuid4Match session.2
    rw [escapes_tokenFp_bind ascii, escapes_formatInt_bind, escapes_formatInt_bind,
      escapes_formatInt_bind]
    constructor
    · rintro (long | long | long | escapes)
      · exact ⟨not_not.mp service, .inr ⟨session.2, .inl ⟨expired, .inl long⟩⟩⟩
      · exact ⟨not_not.mp service, .inr ⟨session.2, .inl ⟨expired, .inr (.inl long)⟩⟩⟩
      · exact ⟨not_not.mp service, .inr ⟨session.2, .inl ⟨expired, .inr (.inr long)⟩⟩⟩
      · exact absurd escapes not_escapes_authError
    · rintro ⟨-, lone | ⟨-, ⟨-, long⟩ | ⟨valid, -⟩⟩⟩
      · exact absurd wellFormed lone
      · rcases long with long | long | long
        · exact .inl long
        · exact .inr (.inl long)
        · exact .inr (.inr (.inl long))
      · exact absurd expired (Int.not_le.mpr valid)
  · rw [not_or, not_not] at session
    have wellFormed := wellFormed_of_uuid4Match session.2
    rw [escapes_tokenFp_bind (ascii_of_uuid4Match session.2), escapes_tokenFp_bind ascii,
      escapes_formatInt_bind]
    constructor
    · rintro (long | escapes)
      · exact ⟨not_not.mp service, .inr ⟨session.2, .inr ⟨Int.not_le.mp expired, long⟩⟩⟩
      · exact absurd escapes not_escapes_ok
    · rintro ⟨-, lone | ⟨-, ⟨elapsed, -⟩ | ⟨-, long⟩⟩⟩
      · exact absurd wellFormed lone
      · exact absurd elapsed expired
      · exact .inl long

def Uncaught {α : Type} (x : Except PyException α) : Prop := ∃ e, x = .error e ∧ isCaught e = false

theorem uncaught_bind {α β : Type} {x : Except PyException α} {f : α → Except PyException β} :
    Uncaught (x >>= f) ↔ Uncaught x ∨ ∃ a, x = .ok a ∧ Uncaught (f a) := by
  constructor
  · rintro ⟨e, raised, uncaught⟩
    rcases bind_eq_error.mp raised with first | ⟨a, returned, second⟩
    · exact .inl ⟨e, first, uncaught⟩
    · exact .inr ⟨a, returned, e, second, uncaught⟩
  · rintro (⟨e, first, uncaught⟩ | ⟨a, returned, e, second, uncaught⟩)
    · exact ⟨e, bind_eq_error.mpr (.inl first), uncaught⟩
    · exact ⟨e, bind_eq_error.mpr (.inr ⟨a, returned, second⟩), uncaught⟩

theorem not_uncaught_getItem (key : String) (raw : List (Str × Json)) : ¬ Uncaught (getItem key raw) := by
  rintro ⟨e, raised, uncaught⟩
  unfold getItem at raised
  split at raised <;> cases raised
  cases uncaught

theorem uncaught_read {α β : Type} {read : Json → Except PyException α} {key : String}
    {raw : List (Str × Json)} {f : α → Except PyException β} :
    Uncaught (getItem key raw >>= fun value => read value >>= f) ↔
      Misreads read key raw ∨ ∃ a, Gives read key raw a ∧ Uncaught (f a) := by
  rw [uncaught_bind]
  simp only [not_uncaught_getItem, false_or, uncaught_bind, getItem_ok_iff]
  constructor
  · rintro ⟨value, found, ⟨e, raised, uncaught⟩ | ⟨a, returned, uncaught⟩⟩
    · exact .inl ⟨value, e, found, raised, uncaught⟩
    · exact .inr ⟨a, ⟨value, found, returned⟩, uncaught⟩
  · rintro (⟨value, e, found, raised, uncaught⟩ | ⟨a, ⟨value, found, returned⟩, uncaught⟩)
    · exact ⟨value, found, .inl ⟨e, raised, uncaught⟩⟩
    · exact ⟨value, found, .inr ⟨a, returned, uncaught⟩⟩

theorem uncaught_claimsOf {raw : List (Str × Json)} :
    Uncaught (claimsOf py raw) ↔ Misreads (Json.toStr py.str) "service_id" raw ∨
      ∃ serviceId, Gives (Json.toStr py.str) "service_id" raw serviceId ∧
        (Misreads (Json.toStr py.str) "session_id" raw ∨
          ∃ sessionId, Gives (Json.toStr py.str) "session_id" raw sessionId ∧
            Misreads Json.toInt "exp" raw) := by
  have built (serviceId sessionId : Str) (exp : Int) :
      ¬ Uncaught (.ok (⟨serviceId, sessionId, exp⟩ : TokenClaims)) := by
    rintro ⟨e, raised, -⟩
    cases raised
  rw [claimsOf, uncaught_read]
  simp only [uncaught_read, built, and_false, exists_false, or_false]

theorem gives_pop {α : Type} {read : Json → Except PyException α} (key : String)
    (kept : key ∈ ["service_id", "session_id", "exp"]) {raw : List (Str × Json)} {a : α} :
    Gives read key (pop "iat" (pop "user_id" raw)) a ↔ Gives read key raw a := by
  simp only [Gives, lookup_claim kept]

theorem misreads_pop {α : Type} {read : Json → Except PyException α} (key : String)
    (kept : key ∈ ["service_id", "session_id", "exp"]) {raw : List (Str × Json)} :
    Misreads read key (pop "iat" (pop "user_id" raw)) ↔ Misreads read key raw := by
  simp only [Misreads, lookup_claim kept]

theorem escapingClaims_iff {raw : List (Str × Json)} {rawToken : Str}
    (ascii : ∀ c ∈ rawToken, c.val < 128) :
    EscapingClaims py requiredServiceId now raw ↔
      Uncaught (claimsOf py (pop "iat" (pop "user_id" raw))) ∨
        ∃ claims, claimsOf py (pop "iat" (pop "user_id" raw)) = .ok claims ∧
          Escapes (validate requiredServiceId now rawToken claims) := by
  simp only [uncaught_claimsOf, claimsOf_ok_iff, carries_pop, escapes_validate ascii,
    misreads_pop "service_id" (by simp), misreads_pop "session_id" (by simp),
    misreads_pop "exp" (by simp), gives_pop "service_id" (by simp),
    gives_pop "session_id" (by simp)]
  constructor
  · intro escapes
    cases escapes with
    | serviceId misreads => exact .inl (.inl misreads)
    | sessionId serviceId service misreads => exact .inl (.inr ⟨serviceId, service, .inl misreads⟩)
    | exp serviceId sessionId service session misreads =>
        exact .inl (.inr ⟨serviceId, service, .inr ⟨sessionId, session, misreads⟩⟩)
    | surrogate sessionId exp carries lone => exact .inr ⟨⟨_, sessionId, exp⟩, carries, rfl, .inl lone⟩
    | expired sessionId exp carries session elapsed long =>
        exact .inr ⟨⟨_, sessionId, exp⟩, carries, rfl, .inr ⟨session, .inl ⟨elapsed, long⟩⟩⟩
    | fresh sessionId exp carries session valid long =>
        exact .inr ⟨⟨_, sessionId, exp⟩, carries, rfl, .inr ⟨session, .inr ⟨valid, long⟩⟩⟩
  · rintro ((misreads | ⟨serviceId, service, misreads | ⟨sessionId, session, misreads⟩⟩) |
      ⟨⟨_, sessionId, exp⟩, carries, rfl, lone | ⟨session, ⟨elapsed, long⟩ | ⟨valid, long⟩⟩⟩)
    · exact .serviceId misreads
    · exact .sessionId serviceId service misreads
    · exact .exp serviceId sessionId service session misreads
    · exact .surrogate sessionId exp carries lone
    · exact .expired sessionId exp carries session elapsed long
    · exact .fresh sessionId exp carries session valid long

theorem escapes_verifyPayload {rawToken : Str} (ascii : ∀ c ∈ rawToken, c.val < 128)
    {payloadBytes : List Byte} :
    Escapes (verifyPayload py requiredServiceId now rawToken payloadBytes) ↔
      EscapingPayload py requiredServiceId now payloadBytes := by
  unfold verifyPayload
  split
  · rename_i raised
    refine iff_of_false (not_escapes_fail ascii) fun escaping => ?_
    cases escaping with
    | undecodable e raises other => exact other (Except.error.inj (raises.symm.trans raised))
    | noObject payload loaded _ => cases loaded.symm.trans raised
    | object raw loaded _ => cases loaded.symm.trans raised
  · rename_i e other raised
    exact iff_of_true (escapes_escaped _) (.undecodable e raised other)
  · rename_i payload loaded
    split
    · rename_i e raised
      refine iff_of_true (escapes_escaped _) (.noObject payload loaded ?_)
      rintro raw rfl
      cases raised
    · rename_i raw reduced
      obtain ⟨members, rfl, rfl⟩ := reducePayload_ok_iff.mp reduced
      have kinds : EscapingPayload py requiredServiceId now payloadBytes ↔
          EscapingClaims py requiredServiceId now members := by
        constructor
        · intro escaping
          cases escaping with
          | undecodable e raises _ => cases raises.symm.trans loaded
          | noObject payload found other =>
              cases found.symm.trans loaded
              exact absurd rfl (other members)
          | object raw found claims =>
              cases found.symm.trans loaded
              exact claims
        · exact .object members loaded
      rw [kinds, escapingClaims_iff ascii]
      cases built : claimsOf py (pop "iat" (pop "user_id" members)) with
      | error e =>
          dsimp only
          split_ifs with caught
          · refine iff_of_false (not_escapes_fail ascii) ?_
            rintro (⟨_, same, uncaught⟩ | ⟨_, same, -⟩)
            · cases same
              rw [caught] at uncaught
              cases uncaught
            · cases same
          · exact iff_of_true (escapes_escaped _) (.inl ⟨e, rfl, by simpa using caught⟩)
      | ok claims =>
          constructor
          · exact fun escapes => .inr ⟨claims, rfl, escapes⟩
          · rintro (⟨_, same, -⟩ | ⟨_, same, escapes⟩)
            · cases same
            · cases same
              exact escapes

theorem escapes_verifyToken {rawToken : Str} (ascii : ∀ c ∈ rawToken, c.val < 128) :
    Escapes (verifyToken py requiredServiceId now secret rawToken) ↔
      ∃ payload signature payloadBytes,
        rawToken = Str.ofString "v1" ++ .ofChar '.' :: payload ++ .ofChar '.' :: signature ∧
        .ofChar '.' ∉ payload ∧ .ofChar '.' ∉ signature ∧
        b64urlDecode payload = some payloadBytes ∧
        b64urlDecode signature = some (py.hmacSha256 secret payloadBytes) ∧
        EscapingPayload py requiredServiceId now payloadBytes := by
  constructor
  · intro escapes
    unfold verifyToken at escapes
    split at escapes
    · rename_i version payload signature parts
      obtain ⟨joined, -, inPayload, inSignature⟩ := splitOn_eq_three.mp parts
      split_ifs at escapes with wrongVersion
      · exact absurd escapes (not_escapes_fail ascii)
      · split at escapes
        · exact absurd escapes (not_escapes_fail ascii)
        · rename_i payloadBytes payloadDecoded
          split at escapes
          · exact absurd escapes (not_escapes_fail ascii)
          · rename_i sigBytes sigDecoded
            split_ifs at escapes with mismatch
            · exact absurd escapes (not_escapes_fail ascii)
            · rw [not_not] at wrongVersion mismatch
              exact ⟨payload, signature, payloadBytes, wrongVersion ▸ joined, inPayload, inSignature,
                payloadDecoded, mismatch ▸ sigDecoded, (escapes_verifyPayload ascii).mp escapes⟩
    · exact absurd escapes (not_escapes_fail ascii)
  · rintro ⟨payload, signature, payloadBytes, rfl, inPayload, inSignature, payloadDecoded, sigDecoded,
      escaping⟩
    rw [verifyToken_of_parts inPayload inSignature payloadDecoded sigDecoded]
    exact (escapes_verifyPayload ascii).mpr escaping

theorem escapes_verifySessionToken (ascii : ∀ text ∈ header, ∀ c ∈ text, c.val < 128) :
    Escapes (verifySessionToken py header requiredServiceId now secret) ↔
      PresentsEscaping py header requiredServiceId now secret := by
  constructor
  · intro escapes
    unfold verifySessionToken at escapes
    split at escapes
    · exact absurd escapes not_escapes_authError
    · exact absurd escapes not_escapes_authError
    · rename_i text _
      have small := ascii text rfl
      split at escapes
      · exact absurd escapes (not_escapes_fail fun c member => small c (List.mem_of_mem_take member))
      · rename_i rawToken stripped
        obtain ⟨bearer, same, isBearer⟩ := List.dropPrefix?_eq_some_iff.mp stripped
        have tokenAscii : ∀ c ∈ rawToken, c.val < 128 := fun c member =>
          small c (same ▸ List.mem_append_right bearer member)
        obtain ⟨payload, signature, payloadBytes, rfl, inPayload, inSignature, payloadDecoded, sigDecoded,
          escaping⟩ := (escapes_verifyToken tokenAscii).mp escapes
        rw [beq_iff_eq.mp isBearer] at same
        exact ⟨payloadBytes, ⟨payload, signature, congrArg some same, inPayload, inSignature,
          payloadDecoded, sigDecoded⟩, escaping⟩
  · rintro ⟨payloadBytes, ⟨payload, signature, rfl, inPayload, inSignature, payloadDecoded, sigDecoded⟩,
      escaping⟩
    have tokenAscii := ascii_of_parts payloadDecoded sigDecoded
    exact (escapes_verifyToken tokenAscii).mpr ⟨payload, signature, payloadBytes, rfl, inPayload,
      inSignature, payloadDecoded, sigDecoded, escaping⟩

theorem errorTotal_iff_not_escapes : ErrorTotal py header requiredServiceId now secret ↔
    ¬ Escapes (verifySessionToken py header requiredServiceId now secret) := by
  constructor
  · rintro ⟨⟨claims, returned⟩ | ⟨reason, raised⟩, -⟩
    · rw [returned]
      exact not_escapes_ok
    · rw [raised]
      exact not_escapes_authError
  · intro total
    rcases verified : verifySessionToken py header requiredServiceId now secret with (reason | e) | claims
    · refine ⟨.inr ⟨reason, verified⟩, fun status answered => ?_⟩
      rw [requireService, verified] at answered
      cases answered
      split_ifs
      · exact .inr rfl
      · exact .inl rfl
    · rw [verified] at total
      exact absurd (escapes_escaped e) total
    · refine ⟨.inl ⟨claims, verified⟩, fun status answered => ?_⟩
      rw [requireService, verified] at answered
      cases answered

theorem verifySessionToken_total_iff (py : Runtime) (header : Option Str) (requiredServiceId : Str)
    (now : Int) (secret : List Byte) (ascii : ∀ text ∈ header, ∀ c ∈ text, c.val < 128) :
    ErrorTotal py header requiredServiceId now secret ↔
      ¬ PresentsEscaping py header requiredServiceId now secret := by
  rw [errorTotal_iff_not_escapes, escapes_verifySessionToken ascii]

def listMac : List Byte :=
  (b64urlDecode (Str.ofString "UzZKB_zFY-cS9Cz8neHijh4tOfI2zuQw8RIgPlV66j8")).getD []

def listRuntime : Runtime := { lineFeedRuntime with hmacSha256 := fun _ _ => listMac }

def listHeader : Option Str :=
  some (Str.ofString "Bearer v1.W10.UzZKB_zFY-cS9Cz8neHijh4tOfI2zuQw8RIgPlV66j8")

theorem verifySessionToken_total_list :
    ErrorTotal listRuntime listHeader (Str.ofString "brainstorm") 1700000000 lineFeedSecret ↔
      ¬ PresentsEscaping listRuntime listHeader (Str.ofString "brainstorm") 1700000000 lineFeedSecret := by
  apply verifySessionToken_total_iff
  rintro text ⟨⟩
  exact fun c member => ((by decide +kernel : Str.Ascii _) c member).2

theorem signed_list_escapes :
    verifySessionToken listRuntime listHeader (Str.ofString "brainstorm") 1700000000 lineFeedSecret =
        .error (.escaped .typeError) ∧
      ¬ ErrorTotal listRuntime listHeader (Str.ofString "brainstorm") 1700000000 lineFeedSecret := by
  have escaped : verifySessionToken listRuntime listHeader (Str.ofString "brainstorm") 1700000000
      lineFeedSecret = .error (.escaped .typeError) := by decide +kernel
  refine ⟨escaped, fun total => ?_⟩
  rcases total.verifier with ⟨claims, returned⟩ | ⟨reason, raised⟩
  · cases escaped.symm.trans returned
  · cases escaped.symm.trans raised

end DecisionMaker.Server
