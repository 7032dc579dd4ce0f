import DecisionMaker.Server.Dialogue
import DecisionMaker.Server.ScriptTokens

/-!
# The smoke test against the server

`scripts/smoke_brainstorm.py` asks a server that runs for its probes, for turns and for the end of a
session. Others may use the server meanwhile: each of its requests meets the server in some state.
-/

namespace DecisionMaker.Server

open Library DecisionMaker.Graph

/-- What becomes of a request of the script: `httpx` raises where it gets no answer in time. -/
inductive Fate
  | answered (rttMs : ℚ)
  | raised

def Fate.read (fate : Fate) (response : Response) : Option Response :=
  match fate with
  | .answered _ => some response
  | .raised => none

def occursIn (part text : String) : Bool := decide (part.toList <:+: text.toList)

/-- `resp.json()`: the plain texts of the server are no JSON. -/
def Response.json (response : Response) : Option Json :=
  match response.content with
  | .json value => some value
  | .text _ | .empty => none

structure ProbeArrival where
  fate : Fate
  uuid4Hex : String

/-- A turn that the script asks for, in the state in which the server is then; the token is minted just
before. -/
structure TurnArrival where
  fate : Fate
  b : Backend
  w : Surroundings
  time : Int

structure DoneArrival where
  fate : Fate
  b : Backend
  w : DoneSurroundings
  time : Int

def REQUIRED_METRIC_FAMILIES : List String :=
  ["brainstorm_turns_total", "brainstorm_turn_duration_seconds", "brainstorm_llm_roundtrip_seconds",
    "brainstorm_active_sessions", "brainstorm_done_total", "brainstorm_token_verify_failures_total",
    "brainstorm_idempotent_hits_total", "brainstorm_sweeper_runs_total", "brainstorm_sweeper_deleted_total",
    "brainstorm_readyz_checks_total"]

def ping : TurnRequest := { message := "ping", minLength := by decide, maxLength := by decide }

/-- The bearer that a check mints, valid for five minutes; else the name of what is raised. -/
def mintBearer (app : App) (secret : List Byte) (sessionId : String) (time : Int) : Except String Str :=
  match mintBearerInline app.py (Str.ofString "brainstorm") (Str.ofString sessionId) (time + 300) secret with
  | .ok bearer => .ok bearer
  | .error (.escaped e) => .error (exceptionName e)
  | .error (.authError _) => .error "AuthError"

structure SmokeRun where
  healthz : ProbeArrival
  readyz : ProbeArrival
  ping : Option String
  gateway : Except String Nat
  metrics : ProbeArrival
  exposition : String
  missing : TurnArrival
  forgedSession : String
  forged : TurnArrival
  sessionId : String
  idempotencyKey : String
  first : TurnArrival
  second : TurnArrival
  done1 : DoneArrival
  done2 : DoneArrival

section
variable {r : Rendering} {uuid4Hex : String} {rawCid : Option String}

end

structure ThreadId.IsHex (threadId : ThreadId) : Prop where
  length : threadId.id.length = 32
  digits : ∀ c ∈ threadId.id.toList, c ∈ "0123456789abcdef".toList

theorem ofString_length (s : String) : (Str.ofString s).length = s.length := by
  simp [Str.ofString, String.length_toList]

theorem uuid4Match_hex {threadId : ThreadId} (hex : threadId.IsHex) :
    uuid4Match (Str.ofString threadId.id) = false := by
  rw [← Bool.not_eq_true, uuid4Match_iff]
  have length := ofString_length threadId.id
  rw [hex.length] at length
  rintro (form | ⟨id, form, same⟩)
  · have dashed := form.length
    omega
  · have dashed := form.length
    rw [same, List.length_append, List.length_singleton] at length
    omega

def HttpEvent.IsHex : HttpEvent → Prop
  | .turn _ w => w.uuid.IsHex
  | _ => True

namespace Backend

theorem Moves.isHex {b b' : Backend} {e : HttpEvent} (moves : b.Moves e b') (sessions : b.Sessions)
    (hexes : ∀ threadId ∈ b.issued, threadId.IsHex) (hex : e.IsHex) :
    ∀ threadId ∈ b'.issued, threadId.IsHex := by
  cases moves with
  | fades threads turns issued => exact issued ▸ hexes
  | @runs request w body threadId cache rows fresh routed =>
      intro other member
      rcases List.mem_cons.mp member with rfl | earlier
      · rcases routed with ⟨-, rfl⟩ | ⟨-, t, stored⟩
        · exact hex
        · exact hexes _ (sessions.issued _ (sessions.stored _ t stored).1)
      · exact hexes other earlier

theorem verified_of_authenticate {app : App} {authorization : Option Str} {now : Int} {claims : TokenClaims}
    (admitted : app.authenticate authorization now = .ok claims) :
    verifySessionToken app.py authorization (Str.ofString "brainstorm") now app.secret = .ok claims := by
  unfold App.authenticate at admitted
  split at admitted
  · rename_i answered
    cases admitted
    unfold requireService at answered
    split at answered
    · rename_i verified
      cases answered
      exact verified
    · cases answered
    · cases answered
  · cases admitted
  · cases admitted

/-- Whoever is let in, the session of the token is none that the server has opened: the claim that a token
makes about its session is about no session of the server, whatever session the body names. -/
theorem claims_name_no_session (app : App) (es : List HttpEvent) (b : Backend)
    (taken : run (Backend.step app) {} es = some b)
    (hexes : EachStep (Backend.step app) (fun _ e => e.IsHex) {} es) (authorization : Option Str) (now : Int)
    (claims : TokenClaims) (admitted : app.authenticate authorization now = .ok claims) (threadId : ThreadId)
    (opened : threadId ∈ b.issued) : claims.sessionId ≠ Str.ofString threadId.id := by
  have invariant : b.Sessions ∧ ∀ threadId ∈ b.issued, threadId.IsHex := by
    refine run_invariant_of (I := fun b => b.Sessions ∧ ∀ threadId ∈ b.issued, threadId.IsHex)
      (fun _ _ _ both hex taken => ⟨both.1.step taken, (step_moves taken).isHex both.1 both.2 hex⟩) ?_ hexes taken
    exact ⟨⟨by simp, by simp [Begun], by simp⟩, by simp⟩
  obtain ⟨-, -, -, -, -, -, matched, -⟩ := verifySessionToken_ok_iff.mp (verified_of_authenticate admitted)
  intro same
  rw [same, uuid4Match_hex (invariant.2 threadId opened)] at matched
  cases matched

end Backend

section
variable (app : App) {now time : Int}

end

def firstRecord (w : Surroundings) : CallRecord :=
  ({} : Thread).record ⟨.start Process.hello.message, w.worlds, w.delivered⟩

/-- Neither a node nor anything but the timeout ends the leg of a first turn, and it does not end of
itself; or it comes to nothing before that. -/
structure TimesOut (w : Surroundings) : Prop where
  silent : w.written = true → ∀ e, (firstRecord w).status ≠ .raised e
  unended : w.written = true → (firstRecord w).sentinel = none
  timeout : w.stopped = none

section
variable {app : App} {sessionId idempotencyKey : String} {first second : TurnArrival} {bearer : Str}

end

def DoneArrival.Acknowledges (a : DoneArrival) : Prop := a.fate ≠ .raised ∧ ∃ nowUnix, a.w.lookup = .returned nowUnix

structure SmokeRun.Passes (app : App) (r : SmokeRun) : Prop where
  healthz : ∃ rttMs ≤ 2000, r.healthz.fate = .answered rttMs
  readyz : r.readyz.fate ≠ .raised ∧ r.ping = none ∧ r.gateway = .ok 200
  metrics : r.metrics.fate ≠ .raised ∧
    ∀ family ∈ REQUIRED_METRIC_FAMILIES, occursIn family r.exposition = true
  missing : r.missing.fate ≠ .raised
  forged : r.forged.fate ≠ .raised ∧ ∀ bearer,
    mintBearer app app.secret r.forgedSession r.forged.time = .ok bearer → bearer.getLast? ≠ some (.ofChar 'A')
  -- the model does not answer in time
  first : r.first.fate ≠ .raised ∧ TimesOut r.first.w
  done : r.done1.Acknowledges ∧ r.done2.Acknowledges

theorem firstId_isHex : Process.firstId.IsHex := ⟨by decide, by simp [Process.firstId]⟩

theorem claims_name_no_session_opened : ∃ es b bearer claims, run (Backend.step sampleApp) {} es = some b ∧
    Process.firstId ∈ b.issued ∧ sampleApp.authenticate (some bearer) 1700000000 = .ok claims ∧
    claims.sessionId ≠ Str.ofString Process.firstId.id := by
  obtain ⟨bearer, authenticated⟩ := sampleApp.authenticate_minted (by decide : IsUuid4 sampleSession)
    (by decide : (0 : Int) ≤ 1700000000) (by decide : (1700000000 : Int) < 2000000000)
    (Json.intRepr_isSome_iff.mpr (by decide +kernel))
  have admits (body : TurnBody) : sampleApp.resolve ⟨none, some bearer, .valid body⟩ 1700000000 = .ok body := by
    rw [App.resolve, authenticated]
    rfl
  have opened : Process.firstId ∈ openedBackend.issued := by decide +kernel
  have taken := run_opening admits
  exact ⟨_, openedBackend, bearer, _, taken, opened, authenticated,
    Backend.claims_name_no_session sampleApp _ openedBackend taken ⟨firstId_isHex, fun _ _ => trivial⟩
      (some bearer)
      1700000000 _ authenticated Process.firstId opened⟩

end DecisionMaker.Server
