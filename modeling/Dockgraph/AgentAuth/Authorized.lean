import Dockgraph.AgentAuth.Replay
import Mathlib.Data.Set.Defs

/-!
# What an accepted request was signed for

A signature is over one text, and the text has one reading: an accepted request is the one that was
signed, and the nonce in the cache the one that was drawn.
-/
namespace Dockgraph.AgentAuth

open Transition

/-! ## The signed text -/

/-- Nothing ends a line early. -/
def OneLine (s : String) : Prop := '\n' ∉ s.toList

theorem oneLine_toString (n : Int) : OneLine (toString n) := fun member =>
  Text.forall_mem_toString (p := fun c => c ≠ '\n') (fun _ digit same => by subst same; cases digit)
    (by decide) n '\n' member rfl

theorem payload_toList (method host requestURI : String) (ts : Int) (nonce : String) :
    (payload method host requestURI ts nonce).toList =
      signingContext.toList ++ '\n' :: (method.toList ++ '\n' :: (host.toList ++ '\n' ::
        (requestURI.toList ++ '\n' :: ((toString ts).toList ++ '\n' :: (nonce.toList ++ ['\n']))))) := by
  simp [payload, String.toList_append]

/-- The text tells every field, whatever characters the nonce has. -/
theorem payload_inj {m m' h h' u u' n n' : String} {ts ts' : Int} (method : OneLine m)
    (method' : OneLine m') (host : OneLine h) (host' : OneLine h') (uri : OneLine u)
    (uri' : OneLine u') (same : payload m h u ts n = payload m' h' u' ts' n') :
    m = m' ∧ h = h' ∧ u = u' ∧ ts = ts' ∧ n = n' := by
  have text := congrArg String.toList same
  rw [payload_toList, payload_toList] at text
  have text := (List.cons.inj (List.append_cancel_left text)).2
  obtain ⟨sameMethod, text⟩ := Text.split_at_first method method' text
  obtain ⟨sameHost, text⟩ := Text.split_at_first host host' text
  obtain ⟨sameURI, text⟩ := Text.split_at_first uri uri' text
  obtain ⟨sameTime, text⟩ := Text.split_at_first (oneLine_toString ts) (oneLine_toString ts') text
  have sameNonce := List.append_cancel_right text
  exact ⟨String.toList_inj.mp sameMethod, String.toList_inj.mp sameHost,
    String.toList_inj.mp sameURI, Text.toString_inj (String.toList_inj.mp sameTime),
    String.toList_inj.mp sameNonce⟩

variable {Key Addr : Type}

/-- A call of `Authorize` by the holder of a public key's private key. -/
structure Authorized (Key : Type) where
  key : Key
  request : ClientRequest
  /-- The signer's clock in seconds. -/
  ts : Int
  nonce : List UInt8
  low : -2 ^ 63 ≤ ts
  high : ts < 2 ^ 63
  sized : nonce.length = nonceSize

namespace Authorized

def nonceText (k : Authorized Key) : String := Base64.encode k.nonce

def message (k : Authorized Key) : String :=
  payload k.request.method (requestHost k.request) k.request.requestURI k.ts k.nonceText

/-- The request as it is sent. -/
def sent (sign : Key → String → List UInt8) (k : Authorized Key) : Request :=
  authorize (sign k.key) k.ts k.nonce k.request

/-- What HTTP rejects in a request is in none of its parts. -/
def OneLine (k : Authorized Key) : Prop :=
  AgentAuth.OneLine k.request.method ∧ AgentAuth.OneLine (requestHost k.request) ∧
    AgentAuth.OneLine k.request.requestURI

/-- The signature is for this method, host and request target. -/
def For (k : Authorized Key) (r : Request) : Prop :=
  k.request.method = r.method ∧ requestHost k.request = r.host ∧ k.request.requestURI = r.requestURI

theorem parseSignature_sent {sign : Key → String → List UInt8}
    (sized : ∀ key msg, (sign key msg).length = signatureSize) (k : Authorized Key) :
    parseSignature (k.sent sign).signature = some (k.ts, k.nonceText, sign k.key k.message) :=
  parseSignature_signatureHeader k.low k.high k.sized (sized k.key k.message)

end Authorized

/-! ## Calls of a run -/

variable {env : Env Key Addr} {a b : Agent Addr}

theorem checkSignature_verified {now ts : Int} {r : Request} {nonce : String}
    (passed : checkSignature env now r = .ok (ts, nonce)) :
    -maxClockSkew ≤ now - ts * second ∧ now - ts * second ≤ maxClockSkew ∧
      ∃ key ∈ env.keys, ∃ sig, env.verify key (payload r.method r.host r.requestURI ts nonce) sig := by
  unfold checkSignature at passed
  split at passed
  · cases passed
  · split at passed
    · cases passed
    next t n sig parsed =>
      dsimp only at passed
      split at passed
      · cases passed
      next fresh =>
        split at passed
        · cases passed
        next known =>
          cases passed
          rw [Bool.not_eq_true, Bool.not_eq_false', signedByKnownKey, List.any_eq_true] at known
          obtain ⟨key, listed, verified⟩ := known
          exact ⟨by omega, by omega, key, listed, sig, verified⟩

variable [DecidableEq Addr]

/-- A call under way was there before, or it arrived with this step. -/
theorem mem_calls_step {s : Step Addr} (next : a.step env s = some b) {c : Call}
    (member : c ∈ b.calls) :
    (∃ o ∈ a.calls, c.request = o.request ∧ c.ts = o.ts ∧ c.nonce = o.nonce ∧ c.now = o.now) ∨
      (s = .arrive c.request ∧ c.now = a.clock ∧
        checkSignature env a.clock c.request = .ok (c.ts, c.nonce)) := by
  cases s with
  | tick d =>
    cases next
    exact .inl ⟨c, member, rfl, rfl, rfl, rfl⟩
  | arrive r =>
    cases next
    unfold Agent.arrive at member
    split at member
    · exact .inl ⟨c, member, rfl, rfl, rfl, rfl⟩
    next passed =>
      rcases List.mem_append.mp member with old | new
      · exact .inl ⟨c, old, rfl, rfl, rfl, rfl⟩
      · cases List.mem_singleton.mp new
        exact .inr ⟨rfl, rfl, passed⟩
  | checkHost id addrs =>
    left
    change a.checkHost env id addrs = some b at next
    unfold Agent.checkHost at next
    split at next
    · cases next
    · dsimp only at next
      split at next
      · cases next
        obtain ⟨o, old, rfl⟩ := List.mem_map.mp member
        refine ⟨o, old, ?_⟩
        split <;> exact ⟨rfl, rfl, rfl, rfl⟩
      · cases next
        exact ⟨c, (List.mem_filter.mp member).1, rfl, rfl, rfl, rfl⟩
  | remember id =>
    left
    change a.remember id = some b at next
    unfold Agent.remember at next
    split at next
    · cases next
    · cases next
      exact ⟨c, (List.mem_filter.mp member).1, rfl, rfl, rfl, rfl⟩

/-- A call under way arrived in the run, and its signature was checked against the clock then. -/
theorem call_arrived {clock : Int} {steps : List (Step Addr)}
    (run : exec (Agent.step env) (newAgent clock) steps = some a) :
    ∀ c ∈ a.calls, ∃ earlier later at_, steps = earlier ++ .arrive c.request :: later ∧
      exec (Agent.step env) (newAgent clock) earlier = some at_ ∧
      checkSignature env at_.clock c.request = .ok (c.ts, c.nonce) := by
  induction steps using List.reverseRecOn generalizing a with
  | nil =>
    cases run
    exact nofun
  | append_singleton steps s ih =>
    obtain ⟨before, first, last⟩ := exec_append.mp run
    obtain ⟨after, next, done⟩ := exec_cons.mp last
    cases done
    intro c member
    rcases mem_calls_step next member with ⟨o, old, request, ts, nonce, -⟩ | ⟨rfl, -, passed⟩
    · obtain ⟨earlier, later, at_, parts, reached, passed⟩ := ih first o old
      rw [request, ts, nonce]
      exact ⟨earlier, later ++ [s], at_, by rw [parts, List.append_assoc, List.cons_append], reached, passed⟩
    · exact ⟨steps, [], before, rfl, first, passed⟩

/-- The step records this nonce in the cache, and no other. -/
def Records (a b : Agent Addr) (nonce : String) (expiry : Int) : Prop :=
  nonce ∉ a.verifier.seen ∧ b.verifier.seen.lookup nonce = some expiry ∧
    ∀ n ∈ b.verifier.seen, n ∈ a.verifier.seen ∨ n = nonce

omit [DecidableEq Addr] in
theorem records_insert {a : Agent Addr} {w : Verifier Addr} {c : Call} {now : Int}
    (absent : c.nonce ∉ a.verifier.seen) (left : w = a.verifier ∨ w = a.verifier.prune now)
    (inserted : b.verifier.seen = w.seen.insert c.nonce c.expiry) :
    Records a b c.nonce c.expiry := by
  refine ⟨absent, by rw [inserted, AList.lookup_insert], fun n member => ?_⟩
  rw [inserted, AList.mem_insert] at member
  refine member.symm.imp_left fun kept => ?_
  rcases left with rfl | rfl
  · exact kept
  · exact mem_of_mem_prune kept

/-- Only the last part of a call accepts its request. -/
theorem step_accepts {s : Step Addr} {r : Request} (next : a.step env s = some b)
    (accepted : b.outcomes = a.outcomes ++ [⟨r, none⟩]) :
    ∃ c ∈ a.calls, c.request = r ∧ Records a b c.nonce c.expiry := by
  cases s with
  | tick d =>
    cases next
    simp at accepted
  | arrive q =>
    cases next
    unfold Agent.arrive at accepted
    split at accepted
    · cases List.append_cancel_left accepted
    · simp at accepted
  | checkHost id addrs =>
    change a.checkHost env id addrs = some b at next
    unfold Agent.checkHost at next
    split at next
    · cases next
    · dsimp only at next
      split at next
      · cases next
        simp at accepted
      · cases next
        cases List.append_cancel_left accepted
  | remember id =>
    change a.remember id = some b at next
    unfold Agent.remember at next
    split at next
    · cases next
    next c found =>
      have member := List.mem_of_find?_eq_some found
      rcases remember_cases a.verifier c.nonce c.expiry c.now with
        ⟨-, answer⟩ | ⟨absent, w, pruned, answer | answer⟩
      · rw [answer] at next
        cases next
        cases List.append_cancel_left accepted
      · rw [answer] at next
        cases next
        cases List.append_cancel_left accepted
      · rw [answer] at next
        cases next
        cases List.append_cancel_left accepted
        exact ⟨c, member, rfl, records_insert absent (pruned.imp_right And.right) rfl⟩

/-! ## Agreement -/

/-- Whoever made the request, some `Authorize` call signed this very one, lately, and the nonce it
drew is the one recorded. -/
theorem accepted_authorized (env : Env Key Addr) (sign : Key → String → List UInt8)
    (signed : Set (Authorized Key)) (sized : ∀ key msg, (sign key msg).length = signatureSize)
    (unforged : ∀ key ∈ env.keys, ∀ msg sig, env.verify key msg sig = true →
      ∃ k ∈ signed, k.key = key ∧ k.message = msg)
    (lines : ∀ k ∈ signed, k.OneLine) :
    (∀ m h u ts n m' h' u' ts' n', OneLine m → OneLine h → OneLine u → OneLine m' → OneLine h' →
      OneLine u' → payload m h u ts n = payload m' h' u' ts' n' →
      m = m' ∧ h = h' ∧ u = u' ∧ ts = ts' ∧ n = n') ∧
    (∀ k : Authorized Key,
      parseSignature (k.sent sign).signature = some (k.ts, k.nonceText, sign k.key k.message)) ∧
    ∀ clock steps a s b r, exec (Agent.step env) (newAgent clock) steps = some a →
      a.step env s = some b → b.outcomes = a.outcomes ++ [⟨r, none⟩] →
      OneLine r.method → OneLine r.host → OneLine r.requestURI →
      ∃ k ∈ signed, k.key ∈ env.keys ∧ k.For r ∧
        Records a b k.nonceText (k.ts * second + maxClockSkew) ∧
        ∃ earlier later at_, steps = earlier ++ .arrive r :: later ∧
          exec (Agent.step env) (newAgent clock) earlier = some at_ ∧
          -maxClockSkew ≤ at_.clock - k.ts * second ∧ at_.clock - k.ts * second ≤ maxClockSkew := by
  refine ⟨fun m h u ts n m' h' u' ts' n' one two three four five six =>
    payload_inj one four two five three six, Authorized.parseSignature_sent sized, ?_⟩
  intro clock steps a s b r run next accepted method host uri
  obtain ⟨c, under, request, records⟩ := step_accepts next accepted
  obtain ⟨earlier, later, at_, parts, reached, passed⟩ := call_arrived run c under
  obtain ⟨low, high, key, listed, sig, verified⟩ := checkSignature_verified passed
  obtain ⟨k, member, holder, message⟩ := unforged key listed _ sig verified
  obtain ⟨oneMethod, oneHost, oneURI⟩ := lines k member
  rw [request] at message parts
  -- one text, one reading
  obtain ⟨sameMethod, sameHost, sameURI, sameTime, sameNonce⟩ :=
    payload_inj oneMethod method oneHost host oneURI uri message
  rw [Call.expiry, ← sameTime, ← sameNonce] at records
  rw [← sameTime] at low high
  exact ⟨k, member, holder ▸ listed, ⟨sameMethod, sameHost, sameURI⟩, records, earlier, later, at_,
    parts, reached, low, high⟩

/-- The `k`-th request of the run of replays, as it was signed. -/
def runAuthorized (k : Nat) : Authorized Unit where
  key := ()
  request := runRequest
  ts := runTime k
  nonce := runNonce k
  low := by
    unfold runTime
    split <;> decide
  high := by
    unfold runTime
    split <;> decide
  sized := rfl

/-- One request on a new agent. -/
theorem accepted_authorized_first :
    ∃ k : Authorized Unit, k.key ∈ runEnv.keys ∧ k.For (received 0) := by
  have passed := checkSignature_received (k := 0) (n := 0) (by decide) (by decide) (by decide)
  let c : Call := { id := 0, request := received 0, ts := 0, nonce := Base64.encode (runNonce 0), now := 0 }
  let a : Agent String := { clock := 0, calls := [c], nextID := 1 }
  have arrived : (newAgent 0).step runEnv (.arrive (received 0)) = some a := step_arrive passed
  have checked := step_checkHost (show a.calls = [] ++ [c] from rfl) nofun rfl first_isLocal
  have answer := remember_new (v := runVerifier)
    (AList.notMem_empty (Base64.encode (runNonce 0))) (by decide) (by decide)
    (0 * second + maxClockSkew) 0
  have served := step_remember (e := runEnv)
    (a := { a with verifier := runVerifier, calls := [] ++ [{ c with isLocal := true }] }) rfl nofun rfl answer
  have lines (k : Nat) : (runAuthorized k).OneLine :=
    ⟨(by decide : '\n' ∉ "GET".toList), (by decide : '\n' ∉ "10.0.0.7:7800".toList),
      (by decide : '\n' ∉ "/v1/stats".toList)⟩
  have signed : ∀ key ∈ runEnv.keys, ∀ msg sig, runEnv.verify key msg sig = true →
      ∃ k ∈ {k | ∃ j, k = runAuthorized j}, k.key = key ∧ k.message = msg := by
    intro key _ msg sig verified
    simp only [runEnv, decide_eq_true_eq] at verified
    obtain ⟨s, logged, rfl⟩ := List.mem_map.mp verified
    obtain ⟨j, -, rfl⟩ := List.mem_map.mp logged
    exact ⟨runAuthorized j, ⟨j, rfl⟩, rfl, rfl⟩
  obtain ⟨-, -, agreed⟩ := accepted_authorized runEnv (fun _ _ => List.replicate 64 0)
    {k | ∃ j, k = runAuthorized j} (fun _ _ => rfl) signed (by rintro _ ⟨j, rfl⟩; exact lines j)
  obtain ⟨k, -, holder, same, -⟩ := agreed 0 [.arrive (received 0), .checkHost 0 runAddrs] _ _ _
    (received 0) (exec_cons.mpr ⟨a, arrived, exec_cons.mpr ⟨_, checked, rfl⟩⟩) served rfl (lines 0).1
    (lines 0).2.1 (lines 0).2.2
  exact ⟨k, holder, same⟩

end Dockgraph.AgentAuth
