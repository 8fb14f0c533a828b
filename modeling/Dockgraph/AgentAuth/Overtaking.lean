import Dockgraph.AgentAuth.CacheRoom
import Mathlib.Data.Int.Interval

/-!
# Calls that overtake each other

Calls that come to the cache in the reverse of the order in which they read the clock fill it: no prune has a time
past an expiry, and the first request of all is refused, though its nonce is new and its time acceptable.
-/
namespace Dockgraph.AgentAuth

open Transition

/-! ## More requests than the cache has room for -/

/-- A little more than the 110th part of a second. -/
def crowdGap : Int := 9_100_000

/-- The last request has the number `maxSeenNonces`. -/
def crowdTime (k : Nat) : Int := min k maxSeenNonces * crowdGap

def crowdNonce (k : Nat) : List UInt8 := List.replicate 13 0 ++ [.ofNat (k / 65536), .ofNat (k / 256), .ofNat k]

theorem length_crowdNonce (k : Nat) : (crowdNonce k).length = 16 := rfl

theorem crowdSecond_range (k : Nat) : -2 ^ 63 ≤ crowdTime k / second ∧ crowdTime k / second < 2 ^ 63 := by
  simp only [crowdTime, crowdGap, second, maxSeenNonces]
  omega

def crowdSigning (k : Nat) : Signing Unit where
  key := ()
  request := runRequest
  ts := crowdTime k / second
  nonce := crowdNonce k
  low := (crowdSecond_range k).1
  high := (crowdSecond_range k).2
  sized := length_crowdNonce k
  time := crowdTime k
  ts_eq := rfl

def crowdSigned : Set (Signing Unit) := {s | ∃ k ≤ maxSeenNonces, s = crowdSigning k}

def crowdMessages (n : Nat) : List String := (List.range (n + 1)).map fun k => (crowdSigning k).message

/-- The agent whose server has signed these requests; any 64 bytes stand for a signature. -/
def crowdEnv : Env Unit String := { runEnv with verify := fun _ msg _ => msg ∈ crowdMessages maxSeenNonces }

def crowdRequest (k : Nat) : Request :=
  authorize (fun _ => List.replicate 64 0) (crowdTime k / second) (crowdNonce k) runRequest

theorem crowdNonce_inj {j k : Nat} (smallJ : j ≤ maxSeenNonces) (smallK : k ≤ maxSeenNonces)
    (same : (crowdSigning j).nonceText = (crowdSigning k).nonceText) : j = k := by
  have bytes := List.append_cancel_left (Base64.encode_injective same)
  simp only [List.cons.injEq, and_true] at bytes
  obtain ⟨top, middle, low⟩ := bytes
  replace top := congrArg UInt8.toNat top
  replace middle := congrArg UInt8.toNat middle
  replace low := congrArg UInt8.toNat low
  rw [UInt8.toNat_ofNat', UInt8.toNat_ofNat'] at top middle low
  rw [maxSeenNonces] at smallJ smallK
  omega

theorem mem_crowdMessages {msg : String} {n : Nat} :
    msg ∈ crowdMessages n ↔ ∃ k ≤ n, (crowdSigning k).message = msg := by
  simp only [crowdMessages, List.mem_map, List.mem_range, Nat.lt_succ_iff]

theorem unforged_crowd : Unforged crowdEnv crowdSigned where
  signed_of_verify key _ msg sig verified := by
    simp only [crowdEnv, decide_eq_true_eq] at verified
    obtain ⟨k, small, message⟩ := mem_crowdMessages.mp verified
    exact ⟨crowdSigning k, ⟨k, small, rfl⟩, rfl, message⟩
  lines := by
    rintro _ ⟨k, -, rfl⟩
    exact ⟨(by decide : '\n' ∉ "GET".toList), (by decide : '\n' ∉ "10.0.0.7:7800".toList),
      (by decide : '\n' ∉ "/v1/stats".toList)⟩

theorem exists_numbers {ks : List (Signing Unit)} (all : ∀ k ∈ ks, k ∈ crowdSigned) :
    ∃ ns : List Nat, ns.map crowdSigning = ks ∧ ∀ n ∈ ns, n ≤ maxSeenNonces := by
  induction ks with
  | nil => exact ⟨[], rfl, nofun⟩
  | cons k ks ih =>
    obtain ⟨n, small, rfl⟩ := all k List.mem_cons_self
    obtain ⟨ns, rfl, rest⟩ := ih fun j member => all j (List.mem_cons_of_mem _ member)
    exact ⟨n :: ns, rfl, List.forall_mem_cons.mpr ⟨small, rest⟩⟩

/-- There are fewer of them in any interval than 110 a second. -/
theorem paced_crowd : Paced crowdSigned := by
  intro start span ks nonneg distinct all
  obtain ⟨ns, rfl, small⟩ := exists_numbers fun k member => (all k member).1
  have inside (n : Nat) (member : n ∈ ns) : start ≤ n * crowdGap ∧ n * crowdGap ≤ start + span := by
    obtain ⟨-, early, late⟩ := all _ (List.mem_map_of_mem member)
    have number := small n member
    change start ≤ crowdTime n at early
    change crowdTime n ≤ start + span at late
    simp only [crowdTime, maxSeenNonces, crowdGap] at early late number ⊢
    omega
  have indices : (ns.map ((↑) : Nat → Int)).Nodup := distinct.of_map.map Nat.cast_injective
  have few : (ns.map ((↑) : Nat → Int)).toFinset ⊆
      Finset.Icc ((start + crowdGap - 1) / crowdGap) ((start + span) / crowdGap) := by
    intro i member
    obtain ⟨n, listed, rfl⟩ := List.mem_map.mp (List.mem_toFinset.mp member)
    have bounds := inside n listed
    simp only [Finset.mem_Icc, crowdGap] at bounds ⊢
    omega
  have count := Finset.card_le_card few
  rw [List.toFinset_card_of_nodup indices, Int.card_Icc, List.length_map] at count
  simp only [List.length_map, crowdGap, second] at count ⊢
  omega

theorem checkSignature_crowd {k : Nat} (small : k ≤ maxSeenNonces) :
    checkSignature crowdEnv (crowdTime k) (crowdRequest k) =
      .ok (crowdTime k / second, (crowdSigning k).nonceText) := by
  refine checkSignature_authorize (crowdSigning k).low (crowdSigning k).high rfl (fun _ => rfl) ?_ ?_ ?_
  · rintro _ rfl
    have known : (crowdSigning k).message ∈ crowdMessages maxSeenNonces := mem_crowdMessages.mpr ⟨k, small, rfl⟩
    rw [signedByKnownKey]
    simp only [crowdEnv, runEnv, List.any_cons, Bool.or_eq_true, decide_eq_true_eq]
    exact .inl known
  · change -maxClockSkew ≤ crowdTime k - crowdTime k / second * second
    simp only [second, maxClockSkew]
    omega
  · change crowdTime k - crowdTime k / second * second ≤ maxClockSkew
    simp only [second, maxClockSkew]
    omega

/-! ## They arrive in order -/

/-- The server's clock when it signs is near the agent's when the request arrives. -/
def Agent.InSkew (signed : Set (Signing Key)) (a : Agent Addr) : Step Addr → Prop
  | .arrive r => ∀ k ∈ signed, (parseSignature r.signature).map (fun p => (p.1, p.2.1)) = some (k.ts, k.nonceText) →
    -maxClockSkew ≤ k.time - a.clock ∧ k.time - a.clock ≤ maxClockSkew
  | _ => True

def crowdCall (k : Nat) : Call :=
  { id := k, request := crowdRequest k, ts := crowdTime k / second, nonce := (crowdSigning k).nonceText
    now := crowdTime k, isLocal := true }

def arrivals (n : Nat) : List (Step String) :=
  (List.range n).flatMap fun k => [.arrive (crowdRequest k), .checkHost k runAddrs, .tick 9_100_000]

/-- So many calls are past their checks, and none has come to the cache. -/
structure Waiting (n : Nat) (a : Agent String) : Prop where
  clock : a.clock = n * crowdGap
  calls : a.calls = (List.range n).map crowdCall
  nextID : a.nextID = n
  outcomes : a.outcomes = []
  seen : a.verifier.seen = ∅
  pruneAt : a.verifier.pruneAt = seenPruneSize
  listed : a.verifier.localAddrs = ["10.0.0.7"] ∨ a = newAgent 0

theorem crowd_isLocal {n : Nat} {a : Agent String} (waiting : Waiting n a) (k : Nat) :
    ∃ v, a.verifier.isLocal crowdEnv a.clock (crowdRequest k).host runAddrs = (true, v) ∧
      v.seen = ∅ ∧ v.pruneAt = seenPruneSize ∧ v.localAddrs = ["10.0.0.7"] := by
  have addr : crowdEnv.hostAddr (crowdRequest k).host = some "10.0.0.7" := rfl
  rcases waiting.listed with listed | rfl
  · refine ⟨a.verifier, ?_, waiting.seen, waiting.pruneAt, listed⟩
    rw [Verifier.isLocal, addr, listed]
    exact if_pos (List.mem_singleton_self _)
  · refine ⟨runVerifier, ?_, rfl, rfl, rfl⟩
    rw [Verifier.isLocal, addr]
    rfl

theorem waiting_succ {n : Nat} {a : Agent String} (waiting : Waiting n a) (room : n ≤ maxSeenNonces) :
    ∃ b, exec (Agent.step crowdEnv) a [.arrive (crowdRequest n), .checkHost n runAddrs, .tick 9_100_000] = some b ∧
      Along (Agent.step crowdEnv) (Agent.InSkew crowdSigned) a
        [.arrive (crowdRequest n), .checkHost n runAddrs, .tick 9_100_000] ∧ Waiting (n + 1) b := by
  have clock : a.clock = crowdTime n := by
    rw [waiting.clock, crowdTime]
    simp only [maxSeenNonces] at room ⊢
    congr 1
    omega
  have passed : checkSignature crowdEnv a.clock (crowdRequest n) =
      .ok (crowdTime n / second, (crowdSigning n).nonceText) := by
    rw [clock]
    exact checkSignature_crowd room
  let c : Call := { crowdCall n with now := a.clock, isLocal := false }
  let a1 : Agent String := { a with calls := a.calls ++ [c], nextID := n + 1 }
  have arrived : a.step crowdEnv (.arrive (crowdRequest n)) = some a1 := by
    rw [step_arrive passed, waiting.nextID]
    rfl
  have last : ∀ d ∈ a.calls, d.id ≠ c.id := by
    intro d member
    rw [waiting.calls] at member
    obtain ⟨k, earlier, rfl⟩ := List.mem_map.mp member
    exact Nat.ne_of_lt (List.mem_range.mp earlier)
  obtain ⟨v, here, seen, pruneAt, listed⟩ := crowd_isLocal waiting n
  have checked := step_checkHost (a := a1) rfl last rfl here
  have timely : a.InSkew crowdSigned (.arrive (crowdRequest n)) := by
    rintro _ ⟨k, small, rfl⟩ parsed
    rw [(checkSignature_ok passed).2, Option.some_inj, Prod.mk.injEq] at parsed
    obtain rfl := crowdNonce_inj room small parsed.2
    change -maxClockSkew ≤ crowdTime n - a.clock ∧ crowdTime n - a.clock ≤ maxClockSkew
    rw [clock, sub_self]
    decide
  refine ⟨_, exec_cons.mpr ⟨a1, arrived, exec_cons.mpr ⟨_, checked, rfl⟩⟩,
    along_cons timely arrived (along_cons trivial checked (along_cons trivial rfl trivial)), ?_, ?_, rfl,
    waiting.outcomes, seen, pruneAt, .inl listed⟩
  · change a.clock + ((9_100_000 : Nat) : Int) = _
    rw [waiting.clock, crowdGap]
    push_cast
    omega
  · have same : ({ c with isLocal := true } : Call) = crowdCall n := by
      change ({ crowdCall n with now := a.clock } : Call) = crowdCall n
      rw [clock]
      rfl
    change a.calls ++ [{ c with isLocal := true }] = _
    rw [same, List.range_succ, List.map_append, waiting.calls, List.map_singleton]

theorem waiting_arrivals {n : Nat} (room : n ≤ maxSeenNonces + 1) :
    ∃ a, exec (Agent.step crowdEnv) (newAgent 0) (arrivals n) = some a ∧
      Along (Agent.step crowdEnv) (Agent.InSkew crowdSigned) (newAgent 0) (arrivals n) ∧ Waiting n a := by
  induction n with
  | zero => exact ⟨newAgent 0, rfl, trivial, by simp [newAgent], rfl, rfl, rfl, rfl, rfl, .inr rfl⟩
  | succ n ih =>
    obtain ⟨a, run, timely, waiting⟩ := ih (by omega)
    obtain ⟨b, more, timely', next⟩ := waiting_succ waiting (by omega)
    rw [arrivals, List.range_succ, List.flatMap_append, List.flatMap_singleton]
    exact ⟨b, exec_append.mpr ⟨a, run, more⟩, along_append timely run timely', next⟩

/-! ## They come to the cache in reverse -/

/-- So many calls have yet to come to the cache, which has room for one fewer. -/
structure Draining (n : Nat) (a : Agent String) : Prop where
  calls : a.calls = (List.range n).map crowdCall
  size : a.verifier.seen.entries.length + n = maxSeenNonces + 1
  pruneAt : a.verifier.pruneAt ≤ maxSeenNonces
  absent : ∀ k < n, (crowdSigning k).nonceText ∉ a.verifier.seen
  live : ∀ e ∈ a.verifier.seen.entries, ∀ k < n, crowdTime k ≤ e.2
  outcomes : ∀ o ∈ a.outcomes, ∃ k, n ≤ k ∧ k ≤ maxSeenNonces ∧ o.request = crowdRequest k

theorem Waiting.draining {a : Agent String} (waiting : Waiting (maxSeenNonces + 1) a) :
    Draining (maxSeenNonces + 1) a where
  calls := waiting.calls
  size := by simp [waiting.seen]
  pruneAt := waiting.pruneAt.trans_le (by decide)
  absent k _ := by simp [waiting.seen]
  live e member := by simp [waiting.seen] at member
  outcomes o member := by simp [waiting.outcomes] at member

theorem crowdTime_mono {j k : Nat} (le : j ≤ k) : crowdTime j ≤ crowdTime k := by
  simp only [crowdTime, crowdGap]
  omega

theorem crowdTime_le_expiry {j k : Nat} (le : j ≤ k) : crowdTime j ≤ (crowdCall k).expiry := by
  have before := crowdTime_mono le
  change crowdTime j ≤ crowdTime k / second * second + maxClockSkew
  simp only [second, maxClockSkew] at before ⊢
  omega

/-- The prune of the last call drops nothing. -/
theorem Draining.beforeInsert {n : Nat} {a : Agent String} (draining : Draining (n + 1) a) :
    (a.verifier.beforeInsert (crowdTime n)).seen = a.verifier.seen ∧
      (a.verifier.beforeInsert (crowdTime n)).pruneAt ≤ maxSeenNonces := by
  unfold Verifier.beforeInsert
  split
  · exact ⟨prune_live fun e member => draining.live e member n (Nat.lt_succ_self n), Nat.min_le_left _ _⟩
  · exact ⟨rfl, draining.pruneAt⟩

theorem Draining.under {n : Nat} {a : Agent String} (draining : Draining (n + 1) a) :
    a.calls = (List.range n).map crowdCall ++ [crowdCall n] ∧
      ∀ d ∈ (List.range n).map crowdCall, d.id ≠ (crowdCall n).id := by
  refine ⟨by rw [draining.calls, List.range_succ, List.map_append, List.map_singleton], fun d member => ?_⟩
  obtain ⟨k, earlier, rfl⟩ := List.mem_map.mp member
  exact Nat.ne_of_lt (List.mem_range.mp earlier)

/-- While there is room the last call is accepted. -/
theorem draining_step {n : Nat} {a : Agent String} (draining : Draining (n + 1) a) (more : 0 < n) :
    ∃ b, a.step crowdEnv (.remember n) = some b ∧ Draining n b := by
  obtain ⟨under, last⟩ := draining.under
  obtain ⟨seen, pruneAt⟩ := draining.beforeInsert
  have size := draining.size
  have absent := draining.absent n (Nat.lt_succ_self n)
  have answer := remember_absent absent (crowdCall n).expiry (crowdTime n)
  rw [if_neg (by rw [seen]; omega), seen] at answer
  refine ⟨_, step_remember under last rfl answer, rfl, ?_, pruneAt, ?_, ?_, ?_⟩
  · change (a.verifier.seen.insert _ _).entries.length + n = _
    rw [AList.entries_insert_of_notMem absent, List.length_cons]
    omega
  · intro k earlier member
    rcases (AList.mem_insert _).mp member with same | old
    · have := crowdNonce_inj (by omega) (by omega) same
      omega
    · exact draining.absent k (by omega) old
  · intro e member k earlier
    change e ∈ (a.verifier.seen.insert (crowdSigning n).nonceText (crowdCall n).expiry).entries at member
    rw [AList.entries_insert_of_notMem absent] at member
    rcases List.mem_cons.mp member with rfl | old
    · exact crowdTime_le_expiry earlier.le
    · exact draining.live e old k (by omega)
  · intro o member
    rcases List.mem_append.mp member with old | new
    · obtain ⟨k, late, small, request⟩ := draining.outcomes o old
      exact ⟨k, by omega, small, request⟩
    · rw [List.mem_singleton.mp new]
      exact ⟨n, le_rfl, by omega, rfl⟩

/-- The first call finds the cache full of nonces that its own time is not past. -/
theorem draining_refused {a : Agent String} (draining : Draining 1 a) :
    ∃ b, a.step crowdEnv (.remember 0) = some b ∧ b.outcomes = a.outcomes ++ [⟨crowdRequest 0, some .replayed⟩] := by
  obtain ⟨under, last⟩ := draining.under
  obtain ⟨seen, -⟩ := draining.beforeInsert
  have size := draining.size
  have answer := remember_absent (draining.absent 0 Nat.one_pos) (crowdCall 0).expiry (crowdTime 0)
  rw [if_pos (by rw [seen]; omega)] at answer
  exact ⟨_, step_remember under last rfl answer, rfl⟩

def departures (n : Nat) : List (Step String) := (List.range n).map fun i => .remember (maxSeenNonces - i)

theorem draining_departures {a : Agent String} (draining : Draining (maxSeenNonces + 1) a) {n : Nat}
    (some_ : n ≤ maxSeenNonces) :
    ∃ b, exec (Agent.step crowdEnv) a (departures n) = some b ∧
      Along (Agent.step crowdEnv) (Agent.InSkew crowdSigned) a (departures n) ∧
      Draining (maxSeenNonces + 1 - n) b := by
  induction n with
  | zero => exact ⟨a, rfl, trivial, draining⟩
  | succ n ih =>
    obtain ⟨b, run, timely, fewer⟩ := ih (by omega)
    have number : maxSeenNonces + 1 - n = maxSeenNonces - n + 1 := by omega
    rw [number] at fewer
    obtain ⟨c, next, fewest⟩ := draining_step fewer (by omega)
    rw [departures, List.range_succ, List.map_append, List.map_singleton]
    refine ⟨c, exec_append.mpr ⟨b, run, exec_cons.mpr ⟨c, next, rfl⟩⟩,
      along_append timely run (along_cons trivial next trivial), ?_⟩
    rwa [Nat.add_sub_add_right]

theorem crowd_run {n m : Nat} (all : n = maxSeenNonces + 1) (allButOne : m = maxSeenNonces) :
    ∃ steps a, exec (Agent.step crowdEnv) (newAgent 0) steps = some a ∧
      Along (Agent.step crowdEnv) (Agent.InSkew crowdSigned) (newAgent 0) steps ∧ Draining 1 a := by
  obtain ⟨a, arrived, timely, waiting⟩ := waiting_arrivals all.le
  obtain ⟨b, left, later, draining⟩ := draining_departures (all ▸ waiting).draining allButOne.le
  rw [allButOne, Nat.add_sub_cancel_left] at draining
  exact ⟨_, b, exec_append.mpr ⟨a, arrived, left⟩, along_append timely arrived later, draining⟩

theorem parseSignature_crowd (k : Nat) : (parseSignature (crowdRequest k).signature).map (fun p => (p.1, p.2.1)) =
    some (crowdTime k / second, (crowdSigning k).nonceText) := by
  have parsed : parseSignature (crowdRequest k).signature = some (crowdTime k / second, Base64.encode (crowdNonce k), _) :=
    parseSignature_signatureHeader (crowdSigning k).low (crowdSigning k).high rfl rfl
  rw [parsed]
  rfl

/-- Within the server's rate a new nonce can be refused for want of room. -/
theorem cache_refuses_new :
    ¬∀ (env : Env Unit String) (signed : Set (Signing Unit)), Unforged env signed → Paced signed →
      ∀ clock steps a s b r, exec (Agent.step env) (newAgent clock) steps = some a →
        Along (Agent.step env) (Agent.InSkew signed) (newAgent clock) steps →
        a.step env s = some b → b.outcomes = a.outcomes ++ [⟨r, some .replayed⟩] →
        ∃ ts nonce, (parseSignature r.signature).map (fun p => (p.1, p.2.1)) = some (ts, nonce) ∧
          ∃ o ∈ a.outcomes, ∃ earlier, o.Accepts earlier nonce := by
  intro all
  obtain ⟨steps, a, run, timely, draining⟩ := crowd_run rfl rfl
  obtain ⟨b, next, refused⟩ := draining_refused draining
  obtain ⟨ts, nonce, parsed, o, before, earlier, accepts⟩ :=
    all crowdEnv crowdSigned unforged_crowd paced_crowd 0 steps a _ b _ run timely next refused
  obtain ⟨k, late, small, request⟩ := draining.outcomes o before
  rw [Outcome.Accepts, request, parseSignature_crowd] at accepts
  rw [parseSignature_crowd] at parsed
  simp only [Option.some.injEq, Prod.mk.injEq] at accepts parsed
  have same := crowdNonce_inj small (Nat.zero_le _) (accepts.2.2.trans parsed.2.symm)
  omega

end Dockgraph.AgentAuth
