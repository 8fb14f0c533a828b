import Dockgraph.AgentAuth.Guarded

/-!
# Replays

A timestamp and nonce are accepted once as long as no prune takes the nonce of a call under way,
and twice in a run where one does.
-/
namespace Dockgraph.AgentAuth

open Transition

variable {Key Addr : Type}

/-- A call that no other interrupts spares the calls under way, if what it prunes is none of theirs. -/
theorem along_serveSteps [DecidableEq Addr] {env : Env Key Addr} {a : Agent Addr} {r : Request}
    {ts : Int} {nonce : String} {addrs : Option (List Addr)} {v : Verifier Addr}
    (last : ∀ d ∈ a.calls, d.id ≠ a.nextID) (passed : checkSignature env a.clock r = .ok (ts, nonce))
    (here : a.verifier.isLocal env a.clock r.host addrs = (true, v))
    (spares : v.Pruning → ∀ d ∈ a.calls, ∀ expiry, v.seen.lookup d.nonce = some expiry → a.clock ≤ expiry) :
    Along (Agent.step env) Agent.Spares a (serveSteps a.nextID r addrs) := by
  let c : Call := { id := a.nextID, request := r, ts, nonce, now := a.clock }
  let a1 : Agent Addr := { a with calls := a.calls ++ [c], nextID := a.nextID + 1 }
  have second := step_checkHost (e := env) (show a1.calls = a.calls ++ [c] from rfl) last rfl here
  refine along_cons trivial (step_arrive passed) (along_cons trivial second ⟨?_, fun _ _ => trivial⟩)
  intro d member same _ full e other differs expiry found
  rcases List.mem_append.mp member with old | new
  · exact absurd same (last d old)
  rcases List.mem_append.mp other with old | new'
  · rw [List.mem_singleton.mp new]
    exact spares full e old expiry found
  · rw [List.mem_singleton.mp new'] at differs
    exact absurd rfl differs

/-- What a key holder signed. -/
structure Signed where
  method : String
  host : String
  requestURI : String
  ts : Int
  nonce : String

def Signed.message (s : Signed) : String := payload s.method s.host s.requestURI s.ts s.nonce

/-! ## A prune that takes the nonce of a call under way -/

/-- The nonce of the `k`-th request of the run. -/
def runNonce (k : Nat) : List UInt8 := List.replicate 14 0 ++ [.ofNat (k / 256), .ofNat k]

/-- The last request is signed two minutes and a second after the others. -/
def runTime (k : Nat) : Int := if k = 1024 then 121 else 0

def runRequest : ClientRequest :=
  { method := "GET", host := "", urlHost := "10.0.0.7:7800", requestURI := "/v1/stats" }

def runSigned (k : Nat) : Signed :=
  { method := "GET", host := "10.0.0.7:7800", requestURI := "/v1/stats", ts := runTime k,
    nonce := Base64.encode (runNonce k) }

def runLog : List Signed := (List.range 1025).map runSigned

/-- The `k`-th request as the agent receives it; any 64 bytes stand for its signature. -/
def received (k : Nat) : Request :=
  authorize (fun _ => List.replicate 64 0) (runTime k) (runNonce k) runRequest

def runEnv : Env Unit String where
  keys := [()]
  verify := fun _ msg _ => msg ∈ runLog.map Signed.message
  hostAddr := fun hostport => if hostport = "10.0.0.7:7800" then some "10.0.0.7" else none

def runAddrs : Option (List String) := some ["10.0.0.7"]

/-- The first request twice, the second time up to `remember`, then so many others. -/
def fillSteps (k : Nat) : List (Step String) :=
  serveSteps 0 (received 0) runAddrs ++ [.arrive (received 0), .checkHost 1 runAddrs] ++
    (List.range k).flatMap fun k => serveSteps (k + 2) (received (k + 1)) runAddrs

/-- Enough requests to fill the cache, and after a while one that prunes it before the second call goes on. -/
def runSteps (wait : Nat) : List (Step String) :=
  fillSteps 1023 ++ ([.tick wait] ++ serveSteps 1025 (received 1024) runAddrs ++ [.remember 1])

theorem runNonce_inj {j k : Nat} (smallJ : j < 65536) (smallK : k < 65536)
    (same : Base64.encode (runNonce j) = Base64.encode (runNonce k)) : j = k := by
  have bytes := List.append_cancel_left (Base64.encode_injective same)
  simp only [List.cons.injEq, and_true] at bytes
  have high := congrArg UInt8.toNat bytes.1
  have low := congrArg UInt8.toNat bytes.2
  rw [UInt8.toNat_ofNat', UInt8.toNat_ofNat'] at high low
  omega

/-- A request whose text verifies gets past the signature while its time is acceptable. -/
theorem checkSignature_known {env : Env Unit String} {k : Nat}
    (known : signedByKnownKey env (runSigned k).message (List.replicate 64 0) = true) {n : Int}
    (early : -maxClockSkew ≤ n - runTime k * second)
    (late : n - runTime k * second ≤ maxClockSkew) :
    checkSignature env n (received k) = .ok (runTime k, Base64.encode (runNonce k)) := by
  refine checkSignature_authorize ?_ ?_ rfl (fun _ => rfl) ?_ early late
  · unfold runTime
    split <;> decide
  · unfold runTime
    split <;> decide
  · rintro _ rfl
    exact known

theorem checkSignature_received {k : Nat} (listed : k < 1025) {n : Int}
    (early : -maxClockSkew ≤ n - runTime k * second)
    (late : n - runTime k * second ≤ maxClockSkew) :
    checkSignature runEnv n (received k) = .ok (runTime k, Base64.encode (runNonce k)) := by
  refine checkSignature_known ?_ early late
  have member : (runSigned k).message ∈ runLog.map Signed.message :=
    List.mem_map_of_mem (List.mem_map_of_mem (List.mem_range.mpr listed))
  rw [signedByKnownKey]
  simp only [runEnv, List.any_cons, member, decide_true, Bool.true_or]

theorem runEnv_isLocal {v : Verifier String} (listed : "10.0.0.7" ∈ v.localAddrs) (k : Nat)
    (now : Int) (addrs : Option (List String)) :
    v.isLocal runEnv now (received k).host addrs = (true, v) := by
  have addr : runEnv.hostAddr (received k).host = some "10.0.0.7" := rfl
  rw [Verifier.isLocal, addr]
  exact if_pos listed

/-- The second call of the first request, past the address check. -/
def runPending : Call :=
  { id := 1, request := received 0, ts := 0, nonce := Base64.encode (runNonce 0), now := 0,
    isLocal := true }

/-- The agent once the first request was accepted and `k` others after it. -/
structure Filled (k : Nat) (a : Agent String) : Prop where
  clock : a.clock = 0
  calls : a.calls = [runPending]
  nextID : a.nextID = k + 2
  listed : "10.0.0.7" ∈ a.verifier.localAddrs
  pruneAt : a.verifier.pruneAt = seenPruneSize
  size : a.verifier.seen.entries.length = k + 1
  first : Base64.encode (runNonce 0) ∈ a.verifier.seen
  expiries : ∀ nonce expiry, a.verifier.seen.lookup nonce = some expiry → expiry = maxClockSkew
  unused : ∀ j, k < j → j < 1025 → Base64.encode (runNonce j) ∉ a.verifier.seen
  accepts : ⟨received 0, none⟩ ∈ a.outcomes

theorem expiries_insert {seen : AList fun _ : String => Int}
    (expiries : ∀ nonce expiry, seen.lookup nonce = some expiry → expiry = maxClockSkew)
    (new nonce : String) (expiry : Int)
    (found : (seen.insert new (0 * second + maxClockSkew)).lookup nonce = some expiry) :
    expiry = maxClockSkew := by
  by_cases same : nonce = new
  · rw [same, AList.lookup_insert] at found
    exact (Option.some.inj found).symm.trans (by decide)
  · rw [AList.lookup_insert_ne same] at found
    exact expiries nonce expiry found

theorem unused_insert {seen : AList fun _ : String => Int} {k : Nat}
    (unused : ∀ j, k < j → j < 1025 → Base64.encode (runNonce j) ∉ seen) (expiry : Int) (j : Nat)
    (later : k < j) (listed : j < 1025) :
    Base64.encode (runNonce j) ∉ seen.insert (Base64.encode (runNonce k)) expiry := by
  intro member
  rcases (AList.mem_insert _).mp member with same | old
  · have := runNonce_inj (by omega) (by omega) same
    omega
  · exact unused j later listed old

/-- The verifier once the first request made it read its addresses. -/
def runVerifier : Verifier String := { localAddrs := ["10.0.0.7"], localRead := 0 }

theorem first_isLocal :
    ({} : Verifier String).isLocal runEnv 0 (received 0).host runAddrs = (true, runVerifier) := by
  have addr : runEnv.hostAddr (received 0).host = some "10.0.0.7" := rfl
  rw [Verifier.isLocal, addr]
  rfl

/-- The agent once the first request was accepted. -/
def runServed : Agent String where
  clock := 0
  verifier := { runVerifier with
    seen := runVerifier.seen.insert (Base64.encode (runNonce 0)) (0 * second + maxClockSkew) }
  nextID := 1
  outcomes := [⟨received 0, none⟩]

theorem first_served :
    exec (Agent.step runEnv) (newAgent 0) (serveSteps 0 (received 0) runAddrs) = some runServed :=
  have passed := checkSignature_received (k := 0) (n := 0) (by decide) (by decide) (by decide)
  have answer := remember_new (v := runVerifier)
    (AList.notMem_empty (Base64.encode (runNonce 0))) (by decide) (by decide)
    (0 * second + maxClockSkew) 0
  exec_serveSteps (a := newAgent 0) nofun passed first_isLocal answer

theorem filled_start : ∃ a, exec (Agent.step runEnv) (newAgent 0) (fillSteps 0) = some a ∧
    Along (Agent.step runEnv) Agent.Spares (newAgent 0) (fillSteps 0) ∧ Filled 0 a := by
  have passed := checkSignature_received (k := 0) (n := 0) (by decide) (by decide) (by decide)
  -- the second call goes up to `remember`
  let c : Call := { runPending with isLocal := false }
  let a : Agent String := { runServed with calls := [c], nextID := 2 }
  have arrived : runServed.step runEnv (.arrive (received 0)) = some a := step_arrive passed
  have checked := step_checkHost (show a.calls = [] ++ [c] from rfl) nofun rfl
    (runEnv_isLocal (v := a.verifier) (List.mem_singleton_self _) 0 0 runAddrs)
  have spared := along_serveSteps (a := newAgent 0) nofun passed first_isLocal nofun
  have steps : fillSteps 0 = serveSteps 0 (received 0) runAddrs ++ [.arrive (received 0), .checkHost 1 runAddrs] :=
    List.append_nil _
  rw [steps]
  refine ⟨_, exec_append.mpr ⟨_, first_served, exec_cons.mpr ⟨a, arrived, exec_cons.mpr
    ⟨_, checked, rfl⟩⟩⟩, along_append spared first_served (along_cons trivial arrived (along_cons trivial checked trivial)),
    rfl, rfl, rfl, List.mem_singleton_self _, rfl, rfl, ?_, ?_, ?_, List.mem_singleton_self _⟩
  · exact (AList.mem_insert _).mpr (.inl rfl)
  · exact expiries_insert (fun nonce _ found => nomatch (AList.lookup_empty nonce).symm.trans found) _
  · exact unused_insert (fun _ _ _ => AList.notMem_empty _) _

theorem filled_succ {k : Nat} {a : Agent String} (filled : Filled k a) (room : k < 1023) :
    ∃ b, exec (Agent.step runEnv) a (serveSteps (k + 2) (received (k + 1)) runAddrs) = some b ∧
      Along (Agent.step runEnv) Agent.Spares a (serveSteps (k + 2) (received (k + 1)) runAddrs) ∧
      Filled (k + 1) b := by
  have passed : checkSignature runEnv a.clock (received (k + 1)) =
      .ok (0, Base64.encode (runNonce (k + 1))) := by
    have zero : runTime (k + 1) = 0 := if_neg (by omega)
    have := checkSignature_received (k := k + 1) (n := a.clock) (by omega)
    rw [zero, filled.clock] at this
    rw [filled.clock]
    exact this (by decide) (by decide)
  have roomy : ¬a.verifier.Pruning := by
    rw [Verifier.Pruning, filled.size, filled.pruneAt, seenPruneSize]
    omega
  have below : a.verifier.seen.entries.length < maxSeenNonces := by
    rw [filled.size, maxSeenNonces]
    omega
  have last : ∀ d ∈ a.calls, d.id ≠ a.nextID := by
    rw [filled.calls, filled.nextID, List.forall_mem_singleton]
    change 1 ≠ k + 2
    omega
  have absent := filled.unused (k + 1) (by omega) (by omega)
  have here := runEnv_isLocal filled.listed (k + 1) a.clock runAddrs
  have run := exec_serveSteps last passed here (remember_new absent roomy below (0 * second + maxClockSkew) a.clock)
  have spared := along_serveSteps last passed here fun full => absurd full roomy
  rw [filled.nextID] at run spared
  refine ⟨_, run, spared, filled.clock, filled.calls, rfl, filled.listed, filled.pruneAt, ?_, ?_, ?_, ?_, ?_⟩
  · change (a.verifier.seen.insert _ _).entries.length = _
    rw [AList.entries_insert_of_notMem absent, List.length_cons, filled.size]
  · exact (AList.mem_insert _).mpr (.inr filled.first)
  · exact expiries_insert filled.expiries _
  · exact unused_insert (fun j later => filled.unused j (by omega)) _
  · exact List.mem_append_left _ filled.accepts

theorem filled_run {k : Nat} (room : k ≤ 1023) :
    ∃ a, exec (Agent.step runEnv) (newAgent 0) (fillSteps k) = some a ∧
      Along (Agent.step runEnv) Agent.Spares (newAgent 0) (fillSteps k) ∧ Filled k a := by
  induction k with
  | zero => exact filled_start
  | succ k ih =>
    obtain ⟨b, run, spared, full⟩ := ih (by omega)
    obtain ⟨c, more, spares, fuller⟩ := filled_succ full (by omega)
    have steps : fillSteps (k + 1) = fillSteps k ++ serveSteps (k + 2) (received (k + 1)) runAddrs := by
      simp only [fillSteps, List.range_succ, List.flatMap_append, List.flatMap_singleton, List.append_assoc]
    rw [steps]
    exact ⟨c, exec_append.mpr ⟨b, run, more⟩, along_append spared run spares, fuller⟩

section Emptied

/-- The verifier that has pruned all and keeps the last nonce. -/
def emptied (v : Verifier String) (now : Int) : Verifier String :=
  { v.prune now with
    seen := (v.prune now).seen.insert (Base64.encode (runNonce 1024)) (121 * second + maxClockSkew) }

variable {a : Agent String} (filled : Filled 1023 a)
include filled

theorem prune_seen : (a.verifier.prune (121 * 10 ^ 9)).seen = ∅ := by
  apply prune_expired
  intro nonce expiry found
  rw [filled.expiries nonce expiry found]
  decide

/-- The last request empties the cache before its nonce goes in. -/
theorem remember_last : a.verifier.remember (Base64.encode (runNonce 1024)) (121 * second + maxClockSkew)
    (121 * 10 ^ 9) = (true, emptied a.verifier (121 * 10 ^ 9)) := by
  have full : a.verifier.Pruning := by
    rw [Verifier.Pruning, filled.size, filled.pruneAt]
    decide
  rw [Verifier.remember, if_neg (filled.unused 1024 (by decide) (by decide)), if_pos full]
  dsimp only
  have roomy : ¬(a.verifier.prune (121 * 10 ^ 9)).seen.entries.length ≥ maxSeenNonces := by
    rw [prune_seen filled]
    decide
  exact if_neg roomy

/-- The first nonce is new again. -/
theorem remember_again : ∃ v, (emptied a.verifier (121 * 10 ^ 9)).remember runPending.nonce runPending.expiry
    runPending.now = (true, v) := by
  have absent : Base64.encode (runNonce 0) ∉ (emptied a.verifier (121 * 10 ^ 9)).seen := by
    change _ ∉ (a.verifier.prune (121 * 10 ^ 9)).seen.insert _ _
    rw [AList.mem_insert, prune_seen filled, not_or]
    exact ⟨fun same => absurd (runNonce_inj (by decide) (by decide) same) (by decide),
      AList.notMem_empty _⟩
  have single : (emptied a.verifier (121 * 10 ^ 9)).seen.entries.length = 1 := by
    change ((a.verifier.prune (121 * 10 ^ 9)).seen.insert _ _).entries.length = 1
    rw [prune_seen filled]
    rfl
  have pruneAt : (emptied a.verifier (121 * 10 ^ 9)).pruneAt = 1024 := by
    change min maxSeenNonces (max seenPruneSize (2 * (a.verifier.prune (121 * 10 ^ 9)).seen.entries.length)) = 1024
    rw [prune_seen filled]
    rfl
  exact ⟨_, remember_new absent (by rw [Verifier.Pruning, single, pruneAt]; decide) (by rw [single]; decide)
    runPending.expiry runPending.now⟩

end Emptied

/-- The last request empties the cache, and the second call finds its nonce gone. -/
theorem filled_end {a : Agent String} (filled : Filled 1023 a) :
    ∃ b o, exec (Agent.step runEnv) a
      ([.tick (121 * 10 ^ 9)] ++ serveSteps 1025 (received 1024) runAddrs ++ [.remember 1]) = some b ∧
        b.outcomes = a.outcomes ++ [o] ++ [⟨received 0, none⟩] := by
  let a1 : Agent String := { a with clock := a.clock + 121 * 10 ^ 9 }
  have clock : a1.clock = 121 * 10 ^ 9 := by
    change a.clock + _ = _
    rw [filled.clock]
    rfl
  have passed : checkSignature runEnv a1.clock (received 1024) =
      .ok (121, Base64.encode (runNonce 1024)) := by
    rw [clock]
    exact checkSignature_received (by decide) (by decide) (by decide)
  have last : ∀ d ∈ a1.calls, d.id ≠ a1.nextID := by
    change ∀ d ∈ a.calls, d.id ≠ a.nextID
    rw [filled.calls, filled.nextID, List.forall_mem_singleton]
    decide
  have answer := remember_last filled
  rw [← clock] at answer
  have served := exec_serveSteps last passed
    (runEnv_isLocal filled.listed 1024 a1.clock runAddrs) answer
  -- the second call goes on with the verifier that was emptied
  let a2 : Agent String := { a1 with
    clock := 121 * 10 ^ 9, verifier := emptied a.verifier (121 * 10 ^ 9), nextID := 1026,
    outcomes := a.outcomes ++ [⟨received 1024, none⟩] }
  have under : a2.calls = [] ++ [runPending] := filled.calls
  obtain ⟨v, again⟩ := remember_again filled
  have resumed := step_remember (e := runEnv) under (List.forall_mem_nil _) rfl again
  have id : a1.nextID = 1025 := filled.nextID
  rw [id, clock] at served
  exact ⟨_, _, exec_append.mpr ⟨a2, exec_cons.mpr ⟨a1, rfl, served⟩,
    exec_cons.mpr ⟨_, resumed, rfl⟩⟩, rfl⟩

section Live

/-- The verifier that has pruned nothing and keeps the last nonce, too. -/
def kept (v : Verifier String) (now : Int) : Verifier String :=
  { v.prune now with
    seen := (v.prune now).seen.insert (Base64.encode (runNonce 1024)) (121 * second + maxClockSkew) }

variable {a : Agent String} (filled : Filled 1023 a)
include filled

/-- Two minutes later the nonces are at their expiry and not past it. -/
theorem prune_seen_live : (a.verifier.prune (120 * 10 ^ 9)).seen = a.verifier.seen := by
  refine prune_live fun e member => ?_
  rw [filled.expiries e.1 e.2 (AList.mem_lookup_iff.mpr member)]
  decide

theorem remember_live : a.verifier.remember (Base64.encode (runNonce 1024)) (121 * second + maxClockSkew)
    (120 * 10 ^ 9) = (true, kept a.verifier (120 * 10 ^ 9)) := by
  have full : a.verifier.Pruning := by
    rw [Verifier.Pruning, filled.size, filled.pruneAt]
    decide
  have roomy : ¬(a.verifier.prune (120 * 10 ^ 9)).seen.entries.length ≥ maxSeenNonces := by
    rw [prune_seen_live filled, filled.size]
    decide
  rw [Verifier.remember, if_neg (filled.unused 1024 (by decide) (by decide)), if_pos full]
  exact if_neg roomy

/-- The last request prunes the cache, and the second call still finds its nonce. -/
theorem filled_end_live :
    ∃ b, exec (Agent.step runEnv) a
      ([.tick (120 * 10 ^ 9)] ++ serveSteps 1025 (received 1024) runAddrs ++ [.remember 1]) = some b ∧
      Along (Agent.step runEnv) Agent.Spares a
        ([.tick (120 * 10 ^ 9)] ++ serveSteps 1025 (received 1024) runAddrs ++ [.remember 1]) ∧
      ⟨received 0, some .replayed⟩ ∈ b.outcomes := by
  let a1 : Agent String := { a with clock := 120 * 10 ^ 9 }
  have ticked : a.step runEnv (.tick (120 * 10 ^ 9)) = some a1 := by
    change some { a with clock := a.clock + (120 * 10 ^ 9 : Nat) } = _
    rw [filled.clock]
    rfl
  have passed : checkSignature runEnv a1.clock (received 1024) = .ok (121, Base64.encode (runNonce 1024)) :=
    checkSignature_received (k := 1024) (n := 120 * 10 ^ 9) (by decide) (by decide) (by decide)
  have last : ∀ d ∈ a1.calls, d.id ≠ a1.nextID := by
    change ∀ d ∈ a.calls, d.id ≠ a.nextID
    rw [filled.calls, filled.nextID, List.forall_mem_singleton]
    decide
  have here := runEnv_isLocal (v := a1.verifier) filled.listed 1024 a1.clock runAddrs
  have answer : a1.verifier.remember (Base64.encode (runNonce 1024)) (121 * second + maxClockSkew) a1.clock =
      (true, kept a.verifier (120 * 10 ^ 9)) := remember_live (a := a) filled
  have served := exec_serveSteps last passed here answer
  have spared := along_serveSteps last passed here fun _ d _ expiry found => by
    rw [filled.expiries d.nonce expiry found]
    exact (by decide : (120 * 10 ^ 9 : Int) ≤ maxClockSkew)
  let a2 : Agent String := { a1 with
    verifier := kept a.verifier (120 * 10 ^ 9), nextID := 1026, outcomes := a.outcomes ++ [⟨received 1024, none⟩] }
  have id : a1.nextID = 1025 := filled.nextID
  rw [id] at served spared
  have present : runPending.nonce ∈ (kept a.verifier (120 * 10 ^ 9)).seen := by
    refine (AList.mem_insert _).mpr (.inr ?_)
    rw [prune_seen_live filled]
    exact filled.first
  have refused := step_remember (e := runEnv) (show a2.calls = [] ++ [runPending] from filled.calls)
    (List.forall_mem_nil _) rfl (remember_seen present runPending.expiry runPending.now)
  have permitted : a2.Spares (.remember 1) := by
    intro c member _ _ _ d other differs
    rw [show a2.calls = [runPending] from filled.calls, List.mem_singleton] at member other
    exact absurd (other ▸ rfl) differs
  refine ⟨_, exec_append.mpr ⟨a2, exec_cons.mpr ⟨a1, ticked, served⟩, exec_cons.mpr ⟨_, refused, rfl⟩⟩, ?_,
    List.mem_append_right _ (List.mem_singleton_self _)⟩
  exact along_append (along_cons trivial ticked spared) (exec_cons.mpr ⟨a1, ticked, served⟩)
    (along_cons permitted refused trivial)

end Live

/-! ## Runs -/

/-- A timestamp and nonce are accepted at most once, in any interleaving of calls in which no
prune takes the nonce of a call under way. -/
theorem accepted_once [DecidableEq Addr] (env : Env Key Addr) (clock : Int) (steps : List (Step Addr))
    (a : Agent Addr) (spared : Along (Agent.step env) Agent.Spares (newAgent clock) steps)
    (run : exec (Agent.step env) (newAgent clock) steps = some a) (ts : Int) (nonce : String) :
    (accepted a ts nonce).length ≤ 1 :=
  have guarded := exec_invariant (fun _ _ _ => guarded_step) (guarded_newAgent clock) spared run
  guarded.once ts nonce

/-- The second delivery waits while another call prunes a full cache, and is refused. -/
theorem accepted_once_pruned :
    ∃ a, exec (Agent.step runEnv) (newAgent 0) (runSteps (120 * 10 ^ 9)) = some a ∧
      ⟨received 0, some .replayed⟩ ∈ a.outcomes ∧ (accepted a 0 (Base64.encode (runNonce 0))).length ≤ 1 := by
  obtain ⟨a, fill, spared, filled⟩ := filled_run (le_refl 1023)
  obtain ⟨b, finish, kept, refused⟩ := filled_end_live filled
  have run : exec (Agent.step runEnv) (newAgent 0) (runSteps (120 * 10 ^ 9)) = some b :=
    exec_append.mpr ⟨a, fill, finish⟩
  exact ⟨b, run, refused, accepted_once runEnv 0 _ _ (along_append spared fill kept) run 0 _⟩

/-- An agent can accept one signed request twice: not every run accepts a timestamp and nonce once,
even when signatures verify only on signed messages and no nonce is signed twice. -/
theorem accepted_again :
    ¬∀ (env : Env Unit String) (signed : List Signed),
      (∀ key msg sig, env.verify key msg sig = true → ∃ s ∈ signed, s.message = msg) →
      (signed.map Signed.nonce).Nodup →
      ∀ (clock : Int) (steps : List (Step String)) (a : Agent String),
        exec (Agent.step env) (newAgent clock) steps = some a →
        ∀ ts nonce, (accepted a ts nonce).length ≤ 1 := by
  intro all
  have verified (key : Unit) (msg : String) (sig : List UInt8)
      (good : runEnv.verify key msg sig = true) : ∃ s ∈ runLog, s.message = msg := by
    simp only [runEnv, decide_eq_true_eq] at good
    exact List.mem_map.mp good
  have distinct : (runLog.map Signed.nonce).Nodup := by
    rw [runLog, List.map_map]
    refine List.Nodup.map_on (fun j small k smaller same => ?_) List.nodup_range
    rw [List.mem_range] at small smaller
    exact runNonce_inj (by omega) (by omega) same
  obtain ⟨b, fill, -, filled⟩ := filled_run (le_refl 1023)
  obtain ⟨c, o, finish, outcomes⟩ := filled_end filled
  have run : exec (Agent.step runEnv) (newAgent 0) (runSteps (121 * 10 ^ 9)) = some c :=
    exec_append.mpr ⟨b, fill, finish⟩
  have once := all runEnv runLog verified distinct 0 (runSteps (121 * 10 ^ 9)) c run 0 (Base64.encode (runNonce 0))
  have accepts : (⟨received 0, none⟩ : Outcome).Accepts 0 (Base64.encode (runNonce 0)) := by
    have parsed : parseSignature (received 0).signature =
        some (0, Base64.encode (runNonce 0), List.replicate 64 0) :=
      parseSignature_signatureHeader (by decide) (by decide) rfl rfl
    exact ⟨rfl, by rw [parsed]; rfl⟩
  have before : 0 < (b.outcomes.filter fun o => o.Accepts 0 (Base64.encode (runNonce 0))).length :=
    List.length_filter_pos_iff.mpr ⟨_, filled.accepts, decide_eq_true accepts⟩
  have after : ([⟨received 0, none⟩] : List Outcome).filter
      (fun o => o.Accepts 0 (Base64.encode (runNonce 0))) = [⟨received 0, none⟩] :=
    List.filter_cons_of_pos (decide_eq_true accepts)
  rw [accepted, outcomes, List.filter_append, after, List.filter_append, List.length_append,
    List.length_append, List.length_singleton] at once
  omega

end Dockgraph.AgentAuth
