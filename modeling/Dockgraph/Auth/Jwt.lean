import Dockgraph.Library.Base64
import Dockgraph.Library.Text
import Mathlib.Algebra.Order.Group.Int

/-!
# Session tokens (`auth/jwt.go`)

Times are nanoseconds since the Unix epoch. A token carries them in seconds.
-/
namespace Dockgraph.Auth

open Text

def second : Int := 10 ^ 9

/-- `time.Time.Unix`. -/
def unix (t : Int) : Int := t / second

structure Claims where
  issuedAt : Int
  expiresAt : Int
  jti : String
  deriving DecidableEq

/-- The claims as the token's JSON has them. -/
structure Payload where
  iat : Int
  exp : Int
  jti : String

/-- The JSON `{"alg":"HS256","typ":"JWT"}` in bytes. -/
def jwtHeaderJSON : List UInt8 :=
  "\x7b\"alg\":\"HS256\",\"typ\":\"JWT\"\x7d".toList.map fun c => .ofNat c.toNat

def jwtHeader : String := Base64.encode jwtHeaderJSON

/-- JSON and HMAC. What is marshalled is read back, and the header names its algorithm. -/
structure Codec where
  marshal : Payload → List UInt8
  unmarshal : List UInt8 → Option Payload
  algorithm : List UInt8 → Option String
  hmac : List UInt8 → String → List UInt8
  unmarshal_marshal : ∀ p, unmarshal (marshal p) = some p
  algorithm_header : algorithm jwtHeaderJSON = some "HS256"

def signToken (codec : Codec) (c : Claims) (key : List UInt8) : String :=
  let payload := codec.marshal { iat := unix c.issuedAt, exp := unix c.expiresAt, jti := c.jti }
  let body := jwtHeader ++ "." ++ Base64.encode payload
  body ++ "." ++ Base64.encode (codec.hmac key body)

inductive TokenError
  | invalidFormat
  | decodeHeader
  | parseHeader
  | unsupportedAlgorithm (alg : String)
  | decodeSignature
  | invalidSignature
  | decodePayload
  | parseClaims
  | expired

/-- `strings.SplitN(token, ".", 3)`, when it gives three parts. -/
def tokenParts (token : String) : Option (String × String × String) := do
  let (header, rest) ← cut '.' token.toList
  let (payload, sig) ← cut '.' rest
  return (.ofList header, .ofList payload, .ofList sig)

def verifyToken (codec : Codec) (token : String) (key : List UInt8) (now : Int) :
    Except TokenError Claims := do
  let (header, payload, sig) ← (tokenParts token).elim (throw .invalidFormat) pure
  let headerJSON ← (Base64.decode header).elim (throw .decodeHeader) pure
  let alg ← (codec.algorithm headerJSON).elim (throw .parseHeader) pure
  if alg ≠ "HS256" then throw (.unsupportedAlgorithm alg)
  let expectedSig := codec.hmac key (header ++ "." ++ payload)
  let actualSig ← (Base64.decode sig).elim (throw .decodeSignature) pure
  if expectedSig ≠ actualSig then throw .invalidSignature
  let payloadJSON ← (Base64.decode payload).elim (throw .decodePayload) pure
  let raw ← (codec.unmarshal payloadJSON).elim (throw .parseClaims) pure
  let claims : Claims :=
    { issuedAt := raw.iat * second, expiresAt := raw.exp * second, jti := raw.jti }
  if now > claims.expiresAt then throw .expired
  return claims

/-! ## Round trip -/

theorem unix_mul_second_le (t : Int) : unix t * second ≤ t := Int.ediv_mul_le t (by decide)

theorem dot_not_mem_encode (bs : List UInt8) : '.' ∉ (Base64.encode bs).toList :=
  fun member => Base64.forall_mem_encode (p := fun c => c ≠ '.') (by decide +kernel) bs '.' member rfl

theorem tokenParts_encode (header payload sig : List UInt8) :
    tokenParts (Base64.encode header ++ "." ++ Base64.encode payload ++ "." ++ Base64.encode sig) =
      some (Base64.encode header, Base64.encode payload, Base64.encode sig) := by
  have text : (Base64.encode header ++ "." ++ Base64.encode payload ++ "." ++
      Base64.encode sig).toList = (Base64.encode header).toList ++ '.' ::
        ((Base64.encode payload).toList ++ '.' :: (Base64.encode sig).toList) := by
    simp [String.toList_append]
  rw [tokenParts, text, cut_append (dot_not_mem_encode header)]
  simp [cut_append (dot_not_mem_encode payload)]

/-- A token is read back with its times cut to the second. -/
theorem verifyToken_signToken (codec : Codec) (c : Claims) (key : List UInt8) (now : Int) :
    verifyToken codec (signToken codec c key) key now =
      if now > unix c.expiresAt * second then .error .expired
      else .ok { issuedAt := unix c.issuedAt * second, expiresAt := unix c.expiresAt * second, jti := c.jti } := by
  unfold verifyToken signToken jwtHeader
  dsimp only
  rw [tokenParts_encode]
  simp only [Option.elim_some, pure_bind, Base64.decode_encode, codec.algorithm_header,
    codec.unmarshal_marshal, ne_eq, not_true_eq_false, if_false]
  rfl

end Dockgraph.Auth
