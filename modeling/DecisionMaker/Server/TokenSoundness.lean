import DecisionMaker.Library.Except
import DecisionMaker.Server.Auth

namespace DecisionMaker.Server

open Library

variable {py : Runtime} {header : Option Str} {requiredServiceId : Str} {now : Int}
  {secret : List Byte} {claims : TokenClaims}

def Presents (py : Runtime) (secret : List Byte) (header : Option Str) (payloadBytes : List Byte) :
    Prop :=
  ∃ payload signature : Str,
    header = some (Str.ofString "Bearer " ++
      (Str.ofString "v1" ++ .ofChar '.' :: payload ++ .ofChar '.' :: signature)) ∧
    .ofChar '.' ∉ payload ∧ .ofChar '.' ∉ signature ∧
    b64urlDecode payload = some payloadBytes ∧
    b64urlDecode signature = some (py.hmacSha256 secret payloadBytes)

structure Carries (py : Runtime) (raw : List (Str × Json)) (serviceId sessionId : Str) (exp : Int) :
    Prop where
  service : ∃ value, raw.lookup (Str.ofString "service_id") = some value ∧
    value.toStr py.str = .ok serviceId
  session : ∃ value, raw.lookup (Str.ofString "session_id") = some value ∧
    value.toStr py.str = .ok sessionId
  expiry : ∃ value, raw.lookup (Str.ofString "exp") = some value ∧ value.toInt = .ok exp

theorem matchFrom_eq_some {pattern : List (CodePoint → Bool)} {s rest : Str} :
    matchFrom pattern s = some rest ↔
      ∃ id, List.Forall₂ (fun p c => p c = true) pattern id ∧ s = id ++ rest := by
  induction pattern generalizing s with
  | nil =>
      constructor
      · intro matched
        cases matched
        exact ⟨[], .nil, rfl⟩
      · rintro ⟨id, forms, rfl⟩
        cases forms
        rfl
  | cons p pattern ih =>
      cases s with
      | nil =>
          constructor
          · intro matched
            cases matched
          · rintro ⟨id, forms, eq⟩
            cases forms
            cases eq
      | cons c s =>
          rw [matchFrom]
          constructor
          · intro matched
            split_ifs at matched with holds
            obtain ⟨id, forms, rfl⟩ := ih.mp matched
            exact ⟨c :: id, .cons holds forms, rfl⟩
          · rintro ⟨id, forms, eq⟩
            cases forms with
            | cons holds forms =>
                cases eq
                rw [if_pos holds]
                exact ih.mpr ⟨_, forms, rfl⟩

theorem uuid4Match_iff {s : Str} :
    uuid4Match s = true ↔ IsUuid4 s ∨ ∃ id, IsUuid4 id ∧ s = id ++ [.ofChar '\n'] := by
  constructor
  · intro matched
    unfold uuid4Match at matched
    split at matched
    · cases matched
    · rename_i rest found
      obtain ⟨id, forms, rfl⟩ := matchFrom_eq_some.mp found
      rcases of_decide_eq_true matched with rfl | rfl
      · exact .inl (by rwa [List.append_nil])
      · exact .inr ⟨id, forms, rfl⟩
  · intro form
    have found : ∃ rest, matchFrom uuid4 s = some rest ∧ (rest = [] ∨ rest = [.ofChar '\n']) := by
      rcases form with form | ⟨id, form, rfl⟩
      · exact ⟨[], matchFrom_eq_some.mpr ⟨s, form, (List.append_nil s).symm⟩, .inl rfl⟩
      · exact ⟨_, matchFrom_eq_some.mpr ⟨id, form, rfl⟩, .inr rfl⟩
    obtain ⟨rest, matched, ends⟩ := found
    rw [uuid4Match, matched]
    exact decide_eq_true ends

theorem IsUuid4.length {s : Str} (form : IsUuid4 s) : s.length = 36 :=
  form.length_eq.symm

theorem ascii_of_mem_uuid4 {p : CodePoint → Bool} (member : p ∈ uuid4) {c : CodePoint}
    (holds : p c = true) : c.val < 128 := by
  have classes : p = isHexDigit ∨ p = isDash ∨ p = isVersion ∨ p = isVariant := by
    simp only [uuid4, List.mem_append, List.mem_cons, List.mem_replicate] at member
    grind
  rcases classes with rfl | rfl | rfl | rfl
  · rw [isHexDigit, Json.hexDigit] at holds
    have lower : 'f'.toNat = 102 := rfl
    have upper : 'F'.toNat = 70 := rfl
    have nine : '9'.toNat = 57 := rfl
    split_ifs at holds
    · omega
    · omega
    · omega
    · cases holds
  · rw [Json.is_iff.mp holds]
    decide
  · rw [Json.is_iff.mp holds]
    decide
  · simp only [isVariant, Bool.or_eq_true, Json.is_iff] at holds
    rcases holds with ((((rfl | rfl) | rfl) | rfl) | rfl) | rfl <;> decide

theorem IsUuid4.ascii {s : Str} (form : IsUuid4 s) : ∀ c ∈ s, c.val < 128 := by
  intro c member
  obtain ⟨i, inside, rfl⟩ := List.getElem_of_mem member
  have shape : i < uuid4.length := by rwa [form.length_eq]
  exact ascii_of_mem_uuid4 (List.getElem_mem shape) ((List.forall₂_iff_get.mp form).2 i shape inside)

theorem ascii_of_uuid4Match {s : Str} (matched : uuid4Match s = true) : ∀ c ∈ s, c.val < 128 := by
  rcases uuid4Match_iff.mp matched with form | ⟨id, form, rfl⟩
  · exact form.ascii
  · intro c member
    rcases List.mem_append.mp member with inside | last
    · exact form.ascii c inside
    · rw [List.mem_singleton.mp last]
      decide

theorem tokenFp_of_ascii {s : Str} (ascii : ∀ c ∈ s, c.val < 128) : tokenFp s = .ok () := by
  rw [tokenFp, encodeUtf8_of_seven ascii]

theorem fail_ne_ok {α : Type} {reason : AuthReason} {rawToken : Str} {a : α} :
    fail reason rawToken ≠ .ok a := by
  unfold fail
  cases tokenFp rawToken <;> simp [bind, Except.bind]

theorem formatInt_ok_iff {n : Int} : formatInt n = .ok () ↔ Formats n := by
  unfold formatInt Formats
  cases Json.intRepr n <;> simp

theorem validate_ok_iff {rawToken : Str} (ascii : ∀ c ∈ rawToken, c.val < 128) {verified : TokenClaims} :
    validate requiredServiceId now rawToken claims = .ok verified ↔
      claims = verified ∧ verified.serviceId = requiredServiceId ∧
        uuid4Match verified.sessionId = true ∧ now < verified.exp ∧ Formats (verified.exp - now) := by
  constructor
  · intro returned
    unfold validate at returned
    split_ifs at returned with service session expired
    · exact absurd returned fail_ne_ok
    · obtain ⟨-, -, failed⟩ := bind_eq_ok.mp returned
      exact absurd failed fail_ne_ok
    · simp [bind_eq_ok] at returned
    · obtain ⟨-, -, tokenShown⟩ := bind_eq_ok.mp returned
      obtain ⟨-, -, formatted⟩ := bind_eq_ok.mp tokenShown
      obtain ⟨⟨⟩, shown, same⟩ := bind_eq_ok.mp formatted
      cases same
      rw [not_or, not_not] at session
      exact ⟨rfl, not_not.mp service, session.2, Int.not_le.mp expired,
        formatInt_ok_iff.mp shown⟩
  · rintro ⟨rfl, service, session, fresh, formats⟩
    have notEmpty : claims.sessionId ≠ [] := by
      intro empty
      rw [empty] at session
      cases session
    have shown := tokenFp_of_ascii (ascii_of_uuid4Match session)
    unfold validate
    rw [if_neg (not_not.mpr service), if_neg (not_or.mpr ⟨notEmpty, not_not.mpr session⟩),
      if_neg (Int.not_le.mpr fresh), shown, tokenFp_of_ascii ascii]
    exact bind_eq_ok.mpr ⟨(), rfl, bind_eq_ok.mpr ⟨(), rfl, bind_eq_ok.mpr
      ⟨(), formatInt_ok_iff.mpr formats, rfl⟩⟩⟩

theorem getItem_ok_iff {key : String} {raw : List (Str × Json)} {value : Json} :
    getItem key raw = .ok value ↔ raw.lookup (Str.ofString key) = some value := by
  unfold getItem
  cases raw.lookup (Str.ofString key) <;> simp

theorem claimsOf_ok_iff {raw : List (Str × Json)} :
    claimsOf py raw = .ok claims ↔ Carries py raw claims.serviceId claims.sessionId claims.exp := by
  simp only [claimsOf, bind_eq_ok, getItem_ok_iff]
  constructor
  · rintro ⟨service, foundService, serviceId, readService, session, foundSession, sessionId, readSession,
      expiry, foundExpiry, exp, readExpiry, same⟩
    cases same
    exact ⟨⟨service, foundService, readService⟩, ⟨session, foundSession, readSession⟩,
      ⟨expiry, foundExpiry, readExpiry⟩⟩
  · rintro ⟨⟨service, foundService, readService⟩, ⟨session, foundSession, readSession⟩,
      ⟨expiry, foundExpiry, readExpiry⟩⟩
    exact ⟨service, foundService, _, readService, session, foundSession, _, readSession, expiry,
      foundExpiry, _, readExpiry, rfl⟩

theorem lookup_pop {key other : String} (different : Str.ofString key ≠ Str.ofString other)
    (raw : List (Str × Json)) :
    (pop other raw).lookup (Str.ofString key) = raw.lookup (Str.ofString key) := by
  induction raw with
  | nil => rfl
  | cons member raw ih =>
      rw [pop] at ih ⊢
      by_cases popped : member.1 = Str.ofString other
      · have skipped : (Str.ofString key == member.1) = false :=
          beq_false_of_ne fun same => different (same.trans popped)
        rw [List.filter_cons_of_neg (by simp [popped]), ih, List.lookup_cons, skipped]
      · rw [List.filter_cons_of_pos (by simp [popped]), List.lookup_cons, List.lookup_cons, ih]

theorem lookup_pop_self (key : String) (raw : List (Str × Json)) :
    (pop key raw).lookup (Str.ofString key) = none := by
  rw [List.lookup_eq_none_iff]
  intro member inside
  obtain ⟨-, kept⟩ := List.mem_filter.mp inside
  exact bne_iff_ne.mpr (Ne.symm (of_decide_eq_true kept))

theorem reducePayload_ok_iff {payload : Json} {raw : List (Str × Json)} :
    reducePayload payload = .ok raw ↔
      ∃ members, payload = .object members ∧ raw = pop "iat" (pop "user_id" members) := by
  cases payload <;> simp [reducePayload, eq_comm]

theorem reducePayload_asserts {payload : Json} {raw : List (Str × Json)}
    (reduced : reducePayload payload = .ok raw) :
    raw.lookup (Str.ofString "user_id") = none ∧ raw.lookup (Str.ofString "iat") = none := by
  obtain ⟨members, -, rfl⟩ := reducePayload_ok_iff.mp reduced
  refine ⟨?_, lookup_pop_self "iat" _⟩
  rw [lookup_pop (by decide), lookup_pop_self]

theorem lookup_claim {key : String} (kept : key ∈ ["service_id", "session_id", "exp"])
    {raw : List (Str × Json)} :
    (pop "iat" (pop "user_id" raw)).lookup (Str.ofString key) = raw.lookup (Str.ofString key) := by
  have others : Str.ofString key ≠ Str.ofString "iat" ∧ Str.ofString key ≠ Str.ofString "user_id" := by
    simp only [List.mem_cons, List.not_mem_nil, or_false] at kept
    rcases kept with rfl | rfl | rfl <;> decide
  rw [lookup_pop others.1, lookup_pop others.2]

theorem carries_pop {raw : List (Str × Json)} {serviceId sessionId : Str} {exp : Int} :
    Carries py (pop "iat" (pop "user_id" raw)) serviceId sessionId exp ↔
      Carries py raw serviceId sessionId exp := by
  constructor
  · rintro ⟨service, session, expiry⟩
    rw [lookup_claim (by simp)] at service session expiry
    exact ⟨service, session, expiry⟩
  · rintro ⟨service, session, expiry⟩
    refine ⟨?_, ?_, ?_⟩
    all_goals rw [lookup_claim (by simp)]
    · exact service
    · exact session
    · exact expiry

theorem verifyPayload_ok_iff {rawToken : Str} (ascii : ∀ c ∈ rawToken, c.val < 128)
    {payloadBytes : List Byte} :
    verifyPayload py requiredServiceId now rawToken payloadBytes = .ok claims ↔
      ∃ raw, Json.loads py.nesting payloadBytes = .ok (.object raw) ∧
        Carries py raw claims.serviceId claims.sessionId claims.exp ∧
        claims.serviceId = requiredServiceId ∧ uuid4Match claims.sessionId = true ∧
        now < claims.exp ∧ Formats (claims.exp - now) := by
  constructor
  · intro returned
    unfold verifyPayload at returned
    split at returned
    · exact absurd returned fail_ne_ok
    · cases returned
    · rename_i payload loaded
      split at returned
      · cases returned
      · rename_i reduced popped
        obtain ⟨raw, rfl, rfl⟩ := reducePayload_ok_iff.mp popped
        split at returned
        · split at returned
          · exact absurd returned fail_ne_ok
          · cases returned
        · rename_i read constructed
          obtain ⟨rfl, valid⟩ := (validate_ok_iff ascii).mp returned
          exact ⟨raw, loaded, carries_pop.mp (claimsOf_ok_iff.mp constructed), valid⟩
  · rintro ⟨raw, loaded, carries, valid⟩
    have constructed := claimsOf_ok_iff.mpr (carries_pop.mpr carries)
    have returned := (validate_ok_iff ascii).mpr ⟨rfl, valid⟩
    simp only [verifyPayload, loaded, reducePayload, constructed, returned]

theorem not_mem_of_mem_splitOn {x : CodePoint} {s part : Str} (member : part ∈ s.splitOn x) :
    x ∉ part := by
  induction s generalizing part with
  | nil =>
      rw [List.splitOn_nil, List.mem_singleton] at member
      simp [member]
  | cons c s ih =>
      rw [List.splitOn_cons_eq_if_modifyHead] at member
      split_ifs at member with isSeparator
      · rcases List.mem_cons.mp member with rfl | later
        · exact List.not_mem_nil
        · exact ih later
      · cases parts : s.splitOn x with
        | nil => exact absurd parts (List.splitOn_ne_nil x s)
        | cons head tail =>
            rw [parts] at ih member
            rcases List.mem_cons.mp member with rfl | later
            · have other : x ≠ c := fun same => isSeparator (beq_iff_eq.mpr same.symm)
              exact List.not_mem_cons_of_ne_of_not_mem other (ih (by simp))
            · exact ih (List.mem_cons_of_mem _ later)

theorem splitOn_eq_three {x : CodePoint} {s first second third : Str} :
    s.splitOn x = [first, second, third] ↔
      s = first ++ x :: second ++ x :: third ∧ x ∉ first ∧ x ∉ second ∧ x ∉ third := by
  constructor
  · intro parts
    have joined : [x].intercalate (s.splitOn x) = s := List.intercalate_splitOn x
    rw [parts] at joined
    refine ⟨by simpa [List.intercalate_cons_cons, List.intercalate_singleton] using joined.symm, ?_⟩
    refine ⟨?_, ?_, ?_⟩ <;> exact not_mem_of_mem_splitOn (s := s) (by simp [parts])
  · rintro ⟨rfl, notFirst, notSecond, notThird⟩
    rw [List.append_assoc, List.cons_append, List.splitOn_append_cons_self,
      List.splitOn_eq_singleton notFirst, List.splitOn_append_cons_self,
      List.splitOn_eq_singleton notSecond, List.splitOn_eq_singleton notThird]
    rfl

theorem ascii_of_b64urlDecode {s : Str} {data : List Byte} (decoded : b64urlDecode s = some data) :
    ∀ c ∈ s, c.val < 128 := by
  obtain ⟨bytes, encoded, -⟩ := Option.bind_eq_some_iff.mp decoded
  exact lt_of_encodeAscii encoded

theorem ascii_of_parts {payload signature : Str} {payloadBytes sigBytes : List Byte}
    (first : b64urlDecode payload = some payloadBytes) (second : b64urlDecode signature = some sigBytes) :
    ∀ c ∈ Str.ofString "v1" ++ .ofChar '.' :: payload ++ .ofChar '.' :: signature, c.val < 128 := by
  intro c member
  simp only [List.mem_append, List.mem_cons] at member
  rcases member with (version | rfl | inside) | rfl | inside
  · exact (by decide : (Str.ofString "v1").Ascii) c version |>.2
  · decide
  · exact ascii_of_b64urlDecode first c inside
  · decide
  · exact ascii_of_b64urlDecode second c inside

theorem verifyToken_ok {rawToken : Str}
    (returned : verifyToken py requiredServiceId now secret rawToken = .ok claims) :
    ∃ payload signature payloadBytes,
      rawToken = Str.ofString "v1" ++ .ofChar '.' :: payload ++ .ofChar '.' :: signature ∧
      .ofChar '.' ∉ payload ∧ .ofChar '.' ∉ signature ∧
      b64urlDecode payload = some payloadBytes ∧
      b64urlDecode signature = some (py.hmacSha256 secret payloadBytes) ∧
      verifyPayload py requiredServiceId now rawToken payloadBytes = .ok claims := by
  unfold verifyToken at returned
  split at returned
  · rename_i version payload signature parts
    obtain ⟨joined, -, inPayload, inSignature⟩ := splitOn_eq_three.mp parts
    split_ifs at returned with wrongVersion
    · exact absurd returned fail_ne_ok
    · split at returned
      · exact absurd returned fail_ne_ok
      · rename_i payloadBytes payloadDecoded
        split at returned
        · exact absurd returned fail_ne_ok
        · rename_i sigBytes sigDecoded
          split_ifs at returned with mismatch
          · exact absurd returned fail_ne_ok
          · rw [not_not] at wrongVersion mismatch
            exact ⟨payload, signature, payloadBytes, wrongVersion ▸ joined, inPayload, inSignature,
              payloadDecoded, mismatch ▸ sigDecoded, returned⟩
  · exact absurd returned fail_ne_ok

theorem verifyToken_of_parts {payload signature : Str} {payloadBytes : List Byte}
    (inPayload : .ofChar '.' ∉ payload) (inSignature : .ofChar '.' ∉ signature)
    (payloadDecoded : b64urlDecode payload = some payloadBytes)
    (sigDecoded : b64urlDecode signature = some (py.hmacSha256 secret payloadBytes)) :
    verifyToken py requiredServiceId now secret
        (Str.ofString "v1" ++ .ofChar '.' :: payload ++ .ofChar '.' :: signature) =
      verifyPayload py requiredServiceId now
        (Str.ofString "v1" ++ .ofChar '.' :: payload ++ .ofChar '.' :: signature) payloadBytes := by
  have parts := splitOn_eq_three.mpr
    ⟨rfl, (by decide : CodePoint.ofChar '.' ∉ Str.ofString "v1"), inPayload, inSignature⟩
  simp only [verifyToken, parts, payloadDecoded, sigDecoded, ne_eq, not_true_eq_false, if_false]

theorem verifySessionToken_ok_iff :
    verifySessionToken py header requiredServiceId now secret = .ok claims ↔
      ∃ payloadBytes raw, Presents py secret header payloadBytes ∧
        Json.loads py.nesting payloadBytes = .ok (.object raw) ∧
        Carries py raw claims.serviceId claims.sessionId claims.exp ∧
        claims.serviceId = requiredServiceId ∧ uuid4Match claims.sessionId = true ∧
        now < claims.exp ∧ Formats (claims.exp - now) := by
  constructor
  · intro returned
    unfold verifySessionToken at returned
    split at returned
    · cases returned
    · cases returned
    · rename_i text _
      split at returned
      · exact absurd returned fail_ne_ok
      · rename_i rawToken stripped
        obtain ⟨payload, signature, payloadBytes, rfl, inPayload, inSignature, payloadDecoded, sigDecoded,
          verified⟩ := verifyToken_ok returned
        obtain ⟨raw, rest⟩ := (verifyPayload_ok_iff (ascii_of_parts payloadDecoded sigDecoded)).mp verified
        have same : text = Str.ofString "Bearer " ++
            (Str.ofString "v1" ++ .ofChar '.' :: payload ++ .ofChar '.' :: signature) := by
          obtain ⟨bearer, eq, isBearer⟩ := List.dropPrefix?_eq_some_iff.mp stripped
          rw [eq, beq_iff_eq.mp isBearer]
        exact ⟨payloadBytes, raw, ⟨payload, signature, congrArg some same, inPayload, inSignature,
          payloadDecoded, sigDecoded⟩, rest⟩
  · rintro ⟨payloadBytes, raw, ⟨payload, signature, rfl, inPayload, inSignature, payloadDecoded,
      sigDecoded⟩, rest⟩
    have verified := (verifyPayload_ok_iff (ascii_of_parts payloadDecoded sigDecoded)).mpr ⟨raw, rest⟩
    rw [← verifyToken_of_parts inPayload inSignature payloadDecoded sigDecoded] at verified
    rw [← verified]
    simp only [verifySessionToken]
    rfl

structure Sound (py : Runtime) (header : Option Str) (requiredServiceId : Str) (now : Int)
    (secret : List Byte) (claims : TokenClaims) : Prop where
  carried : ∃ payloadBytes raw, Presents py secret header payloadBytes ∧
    Json.loads py.nesting payloadBytes = .ok (.object raw) ∧
    Carries py raw claims.serviceId claims.sessionId claims.exp
  service : claims.serviceId = requiredServiceId
  session : IsUuid4 claims.sessionId
  fresh : now < claims.exp

/-- The header presents an object that is in order but for a line feed behind the session id. -/
def EndsInLineFeed (py : Runtime) (header : Option Str) (requiredServiceId : Str) (now : Int)
    (secret : List Byte) : Prop :=
  ∃ payloadBytes raw id exp, Presents py secret header payloadBytes ∧
    Json.loads py.nesting payloadBytes = .ok (.object raw) ∧
    Carries py raw requiredServiceId (id ++ [.ofChar '\n']) exp ∧ IsUuid4 id ∧
    now < exp ∧ Formats (exp - now)

theorem not_isUuid4_lineFeed {id : Str} (form : IsUuid4 id) : ¬ IsUuid4 (id ++ [.ofChar '\n']) := by
  intro longer
  have lengths := longer.length
  rw [List.length_append, form.length] at lengths
  exact absurd lengths (by decide)

theorem verifySessionToken_sound_iff (py : Runtime) (header : Option Str) (requiredServiceId : Str)
    (now : Int) (secret : List Byte) :
    (∀ claims, verifySessionToken py header requiredServiceId now secret = .ok claims →
        Sound py header requiredServiceId now secret claims) ↔
      ¬ EndsInLineFeed py header requiredServiceId now secret := by
  constructor
  · rintro sound ⟨payloadBytes, raw, id, exp, presents, loaded, carries, form, fresh, formats⟩
    have matched : uuid4Match (id ++ [.ofChar '\n']) = true := uuid4Match_iff.mpr (.inr ⟨id, form, rfl⟩)
    have returned : verifySessionToken py header requiredServiceId now secret =
        .ok ⟨requiredServiceId, id ++ [.ofChar '\n'], exp⟩ :=
      verifySessionToken_ok_iff.mpr
        ⟨payloadBytes, raw, presents, loaded, carries, rfl, matched, fresh, formats⟩
    exact not_isUuid4_lineFeed form (sound _ returned).session
  · intro clean claims returned
    obtain ⟨payloadBytes, raw, presents, loaded, carries, service, matched, fresh, formats⟩ :=
      verifySessionToken_ok_iff.mp returned
    refine ⟨⟨payloadBytes, raw, presents, loaded, carries⟩, service, ?_, fresh⟩
    rcases uuid4Match_iff.mp matched with form | ⟨id, form, eq⟩
    · exact form
    · rw [service, eq] at carries
      exact absurd ⟨payloadBytes, raw, id, claims.exp, presents, loaded, carries, form, fresh, formats⟩ clean

def lineFeedSecret : List Byte := (encodeAscii (Str.ofString "secret")).getD []

/-- Secrets, and payloads with the signatures that they have under them. -/
def signedPayloads : List (String × String × String) :=
  [("secret",
      "eyJleHAiOjIwMDAwMDAwMDAsInNlcnZpY2VfaWQiOiJicmFpbnN0b3JtIiwic2Vzc2lvbl9pZCI6IjExMTExMTExLTExMTEtNDEx" ++
        "MS04MTExLTExMTExMTExMTExMVxuIn0",
      "keVkndZFkSZMHIQLCk6HfD9TOX4DnKGVjXXt6Ttw_pU"),
    ("secret",
      "eyJleHAiOjIwMDAwMDAwMDAsInNlcnZpY2VfaWQiOiJicmFpbnN0b3JtIiwic2Vzc2lvbl9pZCI6IjNGMjUwNEUwLTRmODktNDFk" ++
        "My05YTBjLTAzMDVlODJjMzMwMSJ9",
      "B2LenoGfobmK7jb0DrMxPpVPxatczoGvxMHzeO0skqE"),
    ("secret",
      "eyJleHAiOjE3MDAwMDAzMDAsInNlcnZpY2VfaWQiOiJicmFpbnN0b3JtIiwic2Vzc2lvbl9pZCI6IjNGMjUwNEUwLTRmODktNDFk" ++
        "My05YTBjLTAzMDVlODJjMzMwMSJ9",
      "OedQGbFyZfxmv4Pii9VgN6iUhH96nWrDW0A5O12z1XQ"),
    ("secret",
      "eyJleHAiOjE3MDAwMDAzMDAsInNlcnZpY2VfaWQiOiJicmFpbnN0b3JtIiwic2Vzc2lvbl9pZCI6IjExMTExMTExMTExMTExMTEx" ++
        "MTExMTExMTExMTExMTExIn0",
      "t2wVLzQvV0sWsGFvMmVDo78QEq1LkeU9IMd1Gcxvu18"),
    ("mysupersecretkey0",
      "eyJleHAiOjE3MDAwMDAzMDAsInNlcnZpY2VfaWQiOiJicmFpbnN0b3JtIiwic2Vzc2lvbl9pZCI6IjNGMjUwNEUwLTRmODktNDFk" ++
        "My05YTBjLTAzMDVlODJjMzMwMSJ9",
      "ZI8XkM_DZTLu-Z9-4Tlnm3_X_dZ4gaaGBaLh53FreMA")]

def signatureOf (secret payload : List Byte) : Option (List Byte) :=
  (signedPayloads.find? fun signed => encodeAscii (Str.ofString signed.1) = some secret &&
    b64urlDecode (Str.ofString signed.2.1) = some payload).bind fun signed => b64urlDecode (Str.ofString signed.2.2)

def tableHmac (secret payload : List Byte) : List Byte :=
  (signatureOf secret payload).getD (List.replicate 32 ⟨0, Nat.zero_lt_succ 255⟩)

theorem tableHmac_length (secret payload : List Byte) : (tableHmac secret payload).length = 32 := by
  have digests : ∀ signed ∈ signedPayloads, ∀ bytes, b64urlDecode (Str.ofString signed.2.2) = some bytes →
      bytes.length = 32 := by
    have each : ∀ signed ∈ signedPayloads,
        (b64urlDecode (Str.ofString signed.2.2)).all (fun bytes => bytes.length == 32) = true := by
      decide +kernel
    intro signed listed bytes decoded
    have checked := each signed listed
    rw [decoded] at checked
    exact beq_iff_eq.mp checked
  rw [tableHmac]
  cases found : signatureOf secret payload with
  | none => exact List.length_replicate
  | some bytes =>
      obtain ⟨signed, first, decoded⟩ := Option.bind_eq_some_iff.mp found
      exact digests signed (List.mem_of_find?_eq_some first) bytes decoded

def lineFeedRuntime : Runtime where
  hmacSha256 := tableHmac
  str := fun _ => .error .recursionError
  nesting := 900
  nesting_pos := by decide

theorem lineFeedRuntime_digest (secret bytes : List Byte) :
    (lineFeedRuntime.hmacSha256 secret bytes).length = 32 :=
  tableHmac_length secret bytes

def lineFeedHeader : Option Str :=
  some (Str.ofString ("Bearer v1.eyJleHAiOjIwMDAwMDAwMDAsInNlcnZpY2VfaWQiOiJicmFpbnN0b3JtIiwic2Vzc2lvbl9" ++
    "pZCI6IjExMTExMTExLTExMTEtNDExMS04MTExLTExMTExMTExMTExMVxuIn0" ++
    ".keVkndZFkSZMHIQLCk6HfD9TOX4DnKGVjXXt6Ttw_pU"))

def lineFeedClaims : TokenClaims where
  serviceId := Str.ofString "brainstorm"
  sessionId := Str.ofString "11111111-1111-4111-8111-111111111111\n"
  exp := 2000000000

theorem lineFeed_verified :
    verifySessionToken lineFeedRuntime lineFeedHeader (Str.ofString "brainstorm") 1700000000
        lineFeedSecret = .ok lineFeedClaims ∧
      ¬ Sound lineFeedRuntime lineFeedHeader (Str.ofString "brainstorm") 1700000000 lineFeedSecret
        lineFeedClaims := by
  constructor
  · decide +kernel
  · intro sound
    have length : lineFeedClaims.sessionId.length = 37 := by decide +kernel
    exact absurd (sound.session.length.symm.trans length) (by decide)

end DecisionMaker.Server
