import DecisionMaker.Library.Parts
import DecisionMaker.Library.TtlCache

namespace DecisionMaker.Server

open Library

abbrev IdempotencyCache (ν : Type*) := TtlCache String ν 10000 600

def isKeyChar (c : Char) : Bool := c.isAlphanum || c = '_' || c = '-'

def idempotencyKeyMatches (value : String) : Bool :=
  let chars := value.toList
  -- the `$` of the pattern also matches before a newline at the end
  let body := if chars.getLast? = some '\n' then chars.dropLast else chars
  8 ≤ body.length && body.length ≤ 128 && body.all isKeyChar

def makeKeyFromHeader (headerValue : Option String) : Option String :=
  headerValue.filter idempotencyKeyMatches

def rawInput (sessionId message : String) (turnN : Nat) : String :=
  sessionId ++ "\x00" ++ message ++ "\x00" ++ toString turnN

/-- `sha256Hex` is `hashlib.sha256(...).hexdigest()` of the UTF-8 encoding. -/
def makeKeyFromTuple (sha256Hex : String → String) (sessionId message : String) (turnN : Nat) :
    String :=
  String.ofList ((sha256Hex (rawInput sessionId message turnN)).toList.take 32)

theorem rawInput_session_message {session session' message message' : String} {turnN : Nat}
    (free : Char.ofNat 0 ∉ session.toList) (free' : Char.ofNat 0 ∉ session'.toList)
    (same : rawInput session message turnN = rawInput session' message' turnN) :
    session = session' ∧ message = message' := by
  have chars := congrArg String.toList same
  simp only [rawInput, String.toList_append, List.append_assoc] at chars
  obtain ⟨sessions, rest⟩ := append_cons_unique chars free free'
  exact ⟨String.toList_inj.mp sessions, String.toList_inj.mp (List.append_cancel_right rest)⟩

end DecisionMaker.Server
