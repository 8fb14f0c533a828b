import Dockgraph.Library.Base64
import Dockgraph.Library.Text
import Mathlib.Data.List.AList

/-!
# Request signatures (`agentauth/agentauth.go`, `agentauth/verify.go`)

What a signature covers, the header that carries it, and how the header is read back.
-/
namespace Dockgraph.AgentAuth

open Text

/-- What the verifier reads of a request; `signature` is its header, empty when absent. -/
structure Request where
  method : String
  host : String
  requestURI : String
  signature : String
  deriving DecidableEq

def nonceSize : Nat := 16

/-- `ed25519.SignatureSize`. -/
def signatureSize : Nat := 64

def signingContext : String := "dockgraph-agent-request-v1"

/-- What a signature covers, one field a line. -/
def payload (method host requestURI : String) (ts : Int) (nonce : String) : String :=
  String.join ([signingContext, method, host, requestURI, toString ts, nonce].map (· ++ "\n"))

/-! ## Signing -/

/-- An outgoing request; `urlHost` and `requestURI` are what its URL says. -/
structure ClientRequest where
  method : String
  host : String
  urlHost : String
  requestURI : String

def requestHost (r : ClientRequest) : String := if r.host ≠ "" then r.host else r.urlHost

def signatureHeader (ts : Int) (n : String) (sig : List UInt8) : String :=
  "t=" ++ toString ts ++ ", n=" ++ n ++ ", s=" ++ Base64.encode sig

/-- The request as the agent receives it, signed with a key at a time in seconds and with random
bytes for its nonce. -/
def authorize (sign : String → List UInt8) (ts : Int) (nonce : List UInt8) (r : ClientRequest) :
    Request :=
  let n := Base64.encode nonce
  let sig := sign (payload r.method (requestHost r) r.requestURI ts n)
  ⟨r.method, requestHost r, r.requestURI, signatureHeader ts n sig⟩

/-! ## Reading -/

abbrev Fields := AList (fun _ : String => String)

/-- Body of the loop over the parts of a header. -/
def parseField (fields : Fields) (part : List Char) : Option Fields :=
  match cut '=' (trimSpace part) with
  | none => none
  | some (k, val) =>
    if String.ofList k ∈ fields then none
    else some (fields.insert (String.ofList k) (String.ofList val))

/-- The timestamp, nonce and signature of the fields `t`, `n` and `s`. -/
def readFields (t n s : String) : Option (Int × String × List UInt8) := do
  let ts ← parseInt t
  let raw ← Base64.decode n
  if raw.length ≠ nonceSize then none
  else
    let sig ← Base64.decode s
    if sig.length ≠ signatureSize then none
    else some (ts, n, sig)

def parseSignature (header : String) : Option (Int × String × List UInt8) := do
  let fields ← (split ',' header.toList).foldlM parseField ∅
  if fields.entries.length ≠ 3 then none
  else
    let field (k : String) : String := (fields.lookup k).getD ""
    readFields (field "t") (field "n") (field "s")

/-! ## Round trip -/

theorem parseField_new {fields : Fields} {k : Char} {part val : List Char}
    (trimmed : trimSpace part = k :: '=' :: val) (key : k ≠ '=')
    (new : String.ofList [k] ∉ fields) :
    parseField fields part = some (fields.insert (String.ofList [k]) (String.ofList val)) := by
  have absent : '=' ∉ [k] := fun member => key (List.mem_singleton.mp member).symm
  have found : cut '=' (k :: '=' :: val) = some ([k], val) := cut_append absent val
  unfold parseField
  rw [trimmed, found]
  exact if_neg new

/-- A character no header is split or trimmed at. -/
def Plain (c : Char) : Prop := c ≠ ',' ∧ isSpace c = false

instance (c : Char) : Decidable (Plain c) := inferInstanceAs (Decidable (_ ∧ _))

theorem plain_encode (bs : List UInt8) : ∀ c ∈ (Base64.encode bs).toList, Plain c :=
  Base64.forall_mem_encode (by decide +kernel) bs

theorem plain_isDigit (c : Char) (digit : c.isDigit) : Plain c := by
  rw [Char.isDigit_iff_toNat] at digit
  constructor
  · rintro rfl
    revert digit
    decide
  · have bounds : 48 ≤ c.toNat ∧ c.toNat ≤ 57 := digit
    simp only [isSpace, List.mem_cons, List.not_mem_nil, or_false, decide_eq_false_iff_not]
    omega

theorem plain_toString (n : Int) : ∀ c ∈ (toString n).toList, Plain c :=
  forall_mem_toString plain_isDigit (by decide) n

theorem trimSpace_field {k : Char} {val : List Char} (key : Plain k) (plain : ∀ c ∈ val, Plain c) :
    trimSpace (k :: '=' :: val) = k :: '=' :: val := by
  apply trimSpace_of_solid
  rintro c (_ | ⟨_, _ | ⟨_, member⟩⟩)
  · exact key.2
  · decide
  · exact (plain c member).2

theorem readFields_encode {ts : Int} {nonce sig : List UInt8} (low : -2 ^ 63 ≤ ts)
    (high : ts < 2 ^ 63) (sized : nonce.length = nonceSize) (signed : sig.length = signatureSize) :
    readFields (toString ts) (Base64.encode nonce) (Base64.encode sig) =
      some (ts, Base64.encode nonce, sig) := by
  rw [readFields, parseInt_toString low high, Base64.decode_encode, Base64.decode_encode]
  simp only [Option.bind_eq_bind, Option.bind_some, sized, signed, ne_eq, not_true_eq_false,
    if_false]

theorem split_signatureHeader (ts : Int) (nonce sig : List UInt8) :
    split ',' (signatureHeader ts (Base64.encode nonce) sig).toList =
      ['t' :: '=' :: (toString ts).toList, ' ' :: 'n' :: '=' :: (Base64.encode nonce).toList,
        ' ' :: 's' :: '=' :: (Base64.encode sig).toList] := by
  have comma {cs : List Char} (plain : ∀ c ∈ cs, Plain c) : ',' ∉ cs :=
    fun member => (plain ',' member).1 rfl
  have text : (signatureHeader ts (Base64.encode nonce) sig).toList =
      ('t' :: '=' :: (toString ts).toList) ++ ',' ::
        ((' ' :: 'n' :: '=' :: (Base64.encode nonce).toList) ++ ',' ::
          (' ' :: 's' :: '=' :: (Base64.encode sig).toList)) := by
    simp [signatureHeader, String.toList_append]
  rw [text, split_append (by simpa using comma (plain_toString ts)),
    split_append (by simpa using comma (plain_encode nonce)), split_of_not_mem (by simpa using comma (plain_encode sig))]

/-- The fields of a header that was signed. -/
theorem fields_signatureHeader (ts : Int) (nonce sig : List UInt8) : ∃ s : Fields,
    (split ',' (signatureHeader ts (Base64.encode nonce) sig).toList).foldlM parseField ∅ = some s ∧
      s.entries.length = 3 ∧ s.lookup "t" = some (toString ts) ∧ s.lookup "n" = some (Base64.encode nonce) ∧
      s.lookup "s" = some (Base64.encode sig) := by
  -- the three parts are three new fields
  let t : Fields := AList.insert "t" (toString ts) ∅
  let n : Fields := t.insert "n" (Base64.encode nonce)
  let s : Fields := n.insert "s" (Base64.encode sig)
  have newN : "n" ∉ t := by simp [t, AList.mem_insert, -AList.insert_empty]
  have newS : "s" ∉ n := by simp [t, n, AList.mem_insert, -AList.insert_empty]
  have first : parseField ∅ ('t' :: '=' :: (toString ts).toList) = some t := by
    rw [parseField_new (trimSpace_field (by decide) (plain_toString ts)) (by decide) (AList.notMem_empty _),
      String.ofList_toList]
  have second : parseField t (' ' :: 'n' :: '=' :: (Base64.encode nonce).toList) = some n := by
    have trimmed := (trimSpace_cons_space _).trans (trimSpace_field (k := 'n') (by decide) (plain_encode nonce))
    rw [parseField_new trimmed (by decide) newN, String.ofList_toList]
  have third : parseField n (' ' :: 's' :: '=' :: (Base64.encode sig).toList) = some s := by
    have trimmed := (trimSpace_cons_space _).trans (trimSpace_field (k := 's') (by decide) (plain_encode sig))
    rw [parseField_new trimmed (by decide) newS, String.ofList_toList]
  refine ⟨s, ?_, ?_, ?_, ?_, AList.lookup_insert n⟩
  · simp only [split_signatureHeader, List.foldlM_cons, List.foldlM_nil, first, second, third, Option.bind_eq_bind,
      Option.bind_some, Option.pure_def]
  · rw [AList.entries_insert_of_notMem newS, AList.entries_insert_of_notMem newN,
      AList.entries_insert_of_notMem (AList.notMem_empty _)]
    rfl
  · rw [AList.lookup_insert_ne (by decide), AList.lookup_insert_ne (by decide), AList.lookup_insert]
  · rw [AList.lookup_insert_ne (by decide), AList.lookup_insert]

/-- A header that was signed is read back as it was signed. -/
theorem parseSignature_signatureHeader {ts : Int} {nonce sig : List UInt8} (low : -2 ^ 63 ≤ ts)
    (high : ts < 2 ^ 63) (sized : nonce.length = nonceSize) (signed : sig.length = signatureSize) :
    parseSignature (signatureHeader ts (Base64.encode nonce) sig) =
      some (ts, Base64.encode nonce, sig) := by
  obtain ⟨s, fields, size, number, word, tail⟩ := fields_signatureHeader ts nonce sig
  rw [parseSignature, fields, Option.bind_eq_bind, Option.bind_some, if_neg (not_not.mpr size)]
  dsimp only
  rw [number, word, tail]
  exact readFields_encode low high sized signed

end Dockgraph.AgentAuth
