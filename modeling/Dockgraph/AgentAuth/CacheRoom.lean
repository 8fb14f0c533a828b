import Dockgraph.AgentAuth.Authorized

/-!
# Room in the nonce cache

The cache is bounded whatever the agent's clock does, and it keeps every nonce until the time of
some call is past its expiry. A prune leaves the nonces a call can still meet, and while the server
signs no faster than it does there are too few of them to fill the cache.
-/
namespace Dockgraph.AgentAuth

open Transition

variable {Key Addr : Type}

/-! ## Bounds -/

structure Verifier.Bounded (v : Verifier Addr) : Prop where
  size : v.seen.entries.length ≤ maxSeenNonces
  low : seenPruneSize ≤ v.pruneAt
  high : v.pruneAt ≤ maxSeenNonces

theorem bounded_new : ({} : Verifier Addr).Bounded := ⟨by simp, le_rfl, (by decide : seenPruneSize ≤ maxSeenNonces)⟩

theorem Verifier.Bounded.prune {v : Verifier Addr} (bounded : v.Bounded) (now : Int) : (v.prune now).Bounded := by
  refine ⟨(length_prune v now).trans bounded.size, ?_, ?_⟩
  · simp only [Verifier.prune, seenPruneSize, maxSeenNonces]
    omega
  · exact Nat.min_le_left _ _

/-- The cache a new nonce meets. -/
def Verifier.beforeInsert (v : Verifier Addr) (now : Int) : Verifier Addr :=
  if v.Pruning then v.prune now else v

theorem remember_absent {v : Verifier Addr} {nonce : String} (absent : nonce ∉ v.seen) (expiry now : Int) :
    v.remember nonce expiry now =
      if (v.beforeInsert now).seen.entries.length ≥ maxSeenNonces then (false, v.beforeInsert now)
      else
        (true, { v.beforeInsert now with seen := (v.beforeInsert now).seen.insert nonce expiry }) :=
  if_neg absent

theorem lookup_beforeInsert {v : Verifier Addr} {nonce : String} {expiry now : Int}
    (found : (v.beforeInsert now).seen.lookup nonce = some expiry) :
    v.seen.lookup nonce = some expiry := by
  unfold Verifier.beforeInsert at found
  split at found
  · rw [lookup_prune, Option.filter_eq_some_iff] at found
    exact found.1
  · exact found

theorem notMem_beforeInsert {v : Verifier Addr} {nonce : String} (absent : nonce ∉ v.seen) (now : Int) :
    nonce ∉ (v.beforeInsert now).seen := by
  intro member
  obtain ⟨expiry, found⟩ := Keyed.mem_iff_lookup.mp member
  exact absent (Keyed.mem_iff_lookup.mpr ⟨expiry, lookup_beforeInsert found⟩)

theorem Verifier.Bounded.remember {v : Verifier Addr} (bounded : v.Bounded) (nonce : String) (expiry now : Int) :
    (v.remember nonce expiry now).2.Bounded := by
  by_cases present : nonce ∈ v.seen
  · rwa [remember_seen present]
  · have before : (v.beforeInsert now).Bounded := by
      unfold Verifier.beforeInsert
      split
      · exact bounded.prune now
      · exact bounded
    rw [remember_absent present]
    split
    · exact before
    next room =>
      refine ⟨?_, before.low, before.high⟩
      rw [AList.entries_insert_of_notMem (notMem_beforeInsert present now), List.length_cons]
      omega

/-- A nonce goes only once the call's time is past its expiry. -/
theorem lookup_remember {v : Verifier Addr} {nonce : String} {expiry : Int}
    (found : v.seen.lookup nonce = some expiry) (new : String) (until_ now : Int) :
    (v.remember new until_ now).2.seen.lookup nonce = some expiry ∨ expiry < now := by
  by_cases present : new ∈ v.seen
  · left
    rwa [remember_seen present]
  · by_cases late : expiry < now
    · exact .inr late
    · left
      have kept : (v.beforeInsert now).seen.lookup nonce = some expiry := by
        unfold Verifier.beforeInsert
        split
        · rw [lookup_prune, found, Option.filter_some, if_pos (by simpa using late)]
        · exact found
      have other : nonce ≠ new := by
        rintro rfl
        exact present (Keyed.mem_iff_lookup.mpr ⟨expiry, found⟩)
      rw [remember_absent present]
      split
      · exact kept
      · exact (AList.lookup_insert_ne other).trans kept

/-- What the cache holds was there before, or is recorded by this call. -/
theorem of_lookup_remember {v : Verifier Addr} {nonce new : String} {expiry until_ now : Int}
    (found : (v.remember new until_ now).2.seen.lookup nonce = some expiry) :
    v.seen.lookup nonce = some expiry ∨
      nonce = new ∧ expiry = until_ ∧ (v.remember new until_ now).1 = true := by
  by_cases present : new ∈ v.seen
  · rw [remember_seen present] at found
    exact .inl found
  · rw [remember_absent present] at found ⊢
    split at found
    · exact .inl (lookup_beforeInsert found)
    next room =>
      rw [if_neg room]
      by_cases same : nonce = new
      · rw [same, AList.lookup_insert] at found
        exact .inr ⟨same, (Option.some.inj found).symm, rfl⟩
      · rw [AList.lookup_insert_ne same] at found
        exact .inl (lookup_beforeInsert found)

/-! ## Signed requests -/

/-- A call of `Authorize` and the time of the server's clock, in nanoseconds. -/
structure Signing (Key : Type) extends Authorized Key where
  time : Int
  ts_eq : ts = time / second

/-- The requests signed in an interval are at most 100 and 110 a second. -/
def Paced (signed : Set (Signing Key)) : Prop :=
  ∀ (start span : Int) (ks : List (Signing Key)), 0 ≤ span → ks.Nodup →
    (∀ k ∈ ks, k ∈ signed ∧ start ≤ k.time ∧ k.time ≤ start + span) →
    ks.length * second ≤ 100 * second + 110 * span

theorem exists_signings {p : Signing Key → Prop} {ns : List String}
    (each : ∀ n ∈ ns, ∃ k, p k ∧ k.nonceText = n) :
    ∃ ks : List (Signing Key), ks.map (fun k => k.nonceText) = ns ∧ ∀ k ∈ ks, p k := by
  induction ns with
  | nil => exact ⟨[], rfl, by simp⟩
  | cons n ns ih =>
    obtain ⟨k, holds, text⟩ := each n List.mem_cons_self
    obtain ⟨ks, texts, all⟩ := ih fun m member => each m (List.mem_cons_of_mem n member)
    refine ⟨k :: ks, by rw [List.map_cons, text, texts], ?_⟩
    intro l member
    rcases List.mem_cons.mp member with rfl | member
    · exact holds
    · exact all l member

/-- There are no more nonces than requests signed in the interval they were signed in. -/
theorem Paced.length_le {signed : Set (Signing Key)} (paced : Paced signed) (seen : AList fun _ : String => Int)
    (start : Int) {span : Int} (nonneg : 0 ≤ span)
    (each : ∀ n ∈ seen.keys, ∃ k, (k ∈ signed ∧ start ≤ k.time ∧ k.time ≤ start + span) ∧ k.nonceText = n) :
    seen.entries.length * second ≤ 100 * second + 110 * span := by
  obtain ⟨ks, texts, all⟩ := exists_signings each
  have distinct : ks.Nodup := .of_map _ (texts ▸ seen.keys_nodup)
  have length : ks.length = seen.entries.length := by
    rw [← Keyed.length_keys, ← texts, List.length_map]
  rw [← length]
  exact paced start span ks nonneg distinct all

/-- A request was signed with the nonce and timestamp, no later than a clock allows for. -/
def Vouched (signed : Set (Signing Key)) (nonce : String) (ts now : Int) : Prop :=
  ∃ k ∈ signed, k.nonceText = nonce ∧ k.ts = ts ∧ ts * second - maxClockSkew ≤ now

theorem Vouched.mono {signed : Set (Signing Key)} {nonce : String} {ts now later : Int}
    (vouched : Vouched signed nonce ts now) (le : now ≤ later) : Vouched signed nonce ts later := by
  obtain ⟨k, member, text, time, reached⟩ := vouched
  exact ⟨k, member, text, time, reached.trans le⟩

/-- What HTTP rejects in a request is in none of its parts. -/
def Request.OneLine (r : Request) : Prop :=
  AgentAuth.OneLine r.method ∧ AgentAuth.OneLine r.host ∧ AgentAuth.OneLine r.requestURI

/-- Signatures verify only on what the holders of the agent's keys signed, which HTTP could carry. -/
structure Unforged (env : Env Key Addr) (signed : Set (Signing Key)) : Prop where
  signed_of_verify : ∀ key ∈ env.keys, ∀ msg sig, env.verify key msg sig = true →
    ∃ k ∈ signed, k.key = key ∧ k.message = msg
  lines : ∀ k ∈ signed, k.OneLine

/-- A verified signature vouches for what it is over. -/
theorem Unforged.vouched {env : Env Key Addr} {signed : Set (Signing Key)} (unforged : Unforged env signed)
    {r : Request} (oneLine : r.OneLine) {now ts : Int} {nonce : String}
    (passed : checkSignature env now r = .ok (ts, nonce)) : Vouched signed nonce ts now := by
  obtain ⟨low, -, key, listed, sig, verified⟩ := checkSignature_verified passed
  obtain ⟨k, member, -, message⟩ := unforged.signed_of_verify key listed _ sig verified
  obtain ⟨method, host, uri⟩ := unforged.lines k member
  obtain ⟨-, -, -, time, text⟩ := payload_inj method oneLine.1 host oneLine.2.1 uri oneLine.2.2 message
  exact ⟨k, member, text, time, by omega⟩

/-! ## Room -/

/-- How much later one call may have read the clock than another that it overtakes on the way to the cache. -/
def maxOvertaking : Int := 300 * second

/-- Requests are HTTP's, and calls come to the cache nearly in the order in which they read the clock. -/
def Agent.Orderly (a : Agent Addr) : Step Addr → Prop
  | .arrive r => r.OneLine
  | .remember id => ∀ c ∈ a.calls, c.id = id → ∀ d ∈ a.calls, c.now ≤ d.now + maxOvertaking
  | _ => True

/-- Requests are HTTP's, and each call ends before the next arrives. -/
def Agent.InTurn (a : Agent Addr) : Step Addr → Prop
  | .arrive r => r.OneLine ∧ a.calls = []
  | _ => True

structure Roomy (signed : Set (Signing Key)) (a : Agent Addr) : Prop where
  bounded : a.verifier.Bounded
  sampled : ∀ c ∈ a.calls, c.now ≤ a.clock
  vouched : ∀ c ∈ a.calls, Vouched signed c.nonce c.ts c.now
  parsed : ∀ c ∈ a.calls,
    (parseSignature c.request.signature).map (fun p => (p.1, p.2.1)) = some (c.ts, c.nonce)
  /-- The timestamp of a nonce in the cache is near the clock of every call under way and to come. -/
  held : ∀ nonce expiry, a.verifier.seen.lookup nonce = some expiry → ∃ ts, expiry = ts * second + maxClockSkew ∧
    Vouched signed nonce ts a.clock ∧ ∀ d ∈ a.calls, Vouched signed nonce ts (d.now + maxOvertaking)
  known : ∀ nonce ∈ a.verifier.seen, ∃ o ∈ a.outcomes, ∃ ts, o.Accepts ts nonce

variable {signed : Set (Signing Key)} {a b : Agent Addr}

/-- The prune of a call leaves room. -/
theorem Roomy.length_prune (roomy : Roomy signed a) (paced : Paced signed) {c : Call} (under : c ∈ a.calls) :
    (a.verifier.prune c.now).seen.entries.length < maxSeenNonces := by
  have few := paced.length_le (a.verifier.prune c.now).seen (c.now - maxClockSkew)
    (by decide : 0 ≤ 541 * second) ?_
  · simp only [second, maxSeenNonces] at few ⊢
    omega
  · intro n member
    obtain ⟨expiry, found⟩ := Keyed.mem_iff_lookup.mp (AList.mem_keys.mpr member)
    rw [lookup_prune, Option.filter_eq_some_iff] at found
    obtain ⟨ts, expires, -, met⟩ := roomy.held n expiry found.1
    obtain ⟨k, listed, text, time, reached⟩ := met c under
    have live : c.now ≤ expiry := of_decide_eq_true found.2
    have clock := k.ts_eq
    refine ⟨k, ⟨listed, ?_, ?_⟩, text⟩
    · simp only [second, maxClockSkew, maxOvertaking] at *
      omega
    · simp only [second, maxClockSkew, maxOvertaking] at *
      omega

/-- A nonce that is not in the cache is recorded. -/
theorem Roomy.remember_new (roomy : Roomy signed a) (paced : Paced signed) {c : Call} (under : c ∈ a.calls)
    (absent : c.nonce ∉ a.verifier.seen) :
    a.verifier.remember c.nonce c.expiry c.now =
      (true, { a.verifier.beforeInsert c.now with
        seen := (a.verifier.beforeInsert c.now).seen.insert c.nonce c.expiry }) := by
  have room : (a.verifier.beforeInsert c.now).seen.entries.length < maxSeenNonces := by
    unfold Verifier.beforeInsert
    split
    · exact roomy.length_prune paced under
    next roomy' => exact (not_le.mp roomy').trans_le roomy.bounded.high
  rw [remember_absent absent, if_neg (not_le.mpr room)]

theorem roomy_newAgent (clock : Int) : Roomy signed (newAgent clock : Agent Addr) where
  bounded := bounded_new
  sampled := nofun
  vouched := nofun
  parsed := nofun
  held nonce _ found := nomatch (AList.lookup_empty nonce).symm.trans found
  known nonce member := absurd member (AList.notMem_empty nonce)

/-! ## Steps -/

variable [DecidableEq Addr] {env : Env Key Addr} {s : Step Addr}

theorem isLocal_pruneAt (env : Env Key Addr) (v : Verifier Addr) (now : Int) (host : String)
    (addrs : Option (List Addr)) : (v.isLocal env now host addrs).2.pruneAt = v.pruneAt := by
  unfold Verifier.isLocal Verifier.readLocalAddrs
  repeat' split
  all_goals rfl

/-- The step is the end of a call, with what the cache answered it. -/
structure Agent.Remembers (a : Agent Addr) (s : Step Addr) (b : Agent Addr) (c : Call) : Prop where
  under : c ∈ a.calls
  step : s = .remember c.id
  verifier : b.verifier = (a.verifier.remember c.nonce c.expiry c.now).2
  outcomes : b.outcomes = a.outcomes ++
    [⟨c.request, if (a.verifier.remember c.nonce c.expiry c.now).1 then none else some .replayed⟩]
  clock : b.clock = a.clock
  calls : ∀ d ∈ b.calls, d ∈ a.calls

/-- The step leaves the nonces and their threshold alone, and refuses nothing for them. -/
structure Agent.Spared (a b : Agent Addr) : Prop where
  seen : b.verifier.seen = a.verifier.seen
  pruneAt : b.verifier.pruneAt = a.verifier.pruneAt
  outcomes : ∃ os, b.outcomes = a.outcomes ++ os ∧ ∀ o ∈ os, o.error ≠ some .replayed
  clock : a.clock ≤ b.clock

omit [DecidableEq Addr] in
theorem checkSignature_ne_replayed (env : Env Key Addr) (now : Int) (r : Request) :
    checkSignature env now r ≠ .error .replayed := by
  unfold checkSignature
  split
  · simp
  · split
    · simp
    · dsimp only
      split_ifs <;> simp

/-- Only the end of a call touches the nonces. -/
theorem spared_or_remembers (next : a.step env s = some b) : a.Spared b ∨ ∃ c, a.Remembers s b c := by
  cases s with
  | tick d =>
    cases next
    exact .inl ⟨rfl, rfl, ⟨[], by simp⟩, Int.le_add_of_nonneg_right (Int.natCast_nonneg d)⟩
  | arrive r =>
    cases next
    left
    unfold Agent.arrive
    split
    next e failed =>
      refine ⟨rfl, rfl, ⟨_, rfl, ?_⟩, le_rfl⟩
      rw [List.forall_mem_singleton]
      rintro (replayed : some e = some .replayed)
      cases replayed
      exact checkSignature_ne_replayed env a.clock r failed
    · exact ⟨rfl, rfl, ⟨[], by simp⟩, le_rfl⟩
  | checkHost id addrs =>
    left
    change a.checkHost env id addrs = some b at next
    unfold Agent.checkHost at next
    split at next
    · cases next
    next c found =>
      have seen := isLocal_seen env a.verifier a.clock c.request.host addrs
      have pruneAt := isLocal_pruneAt env a.verifier a.clock c.request.host addrs
      dsimp only at next
      split at next
      · cases next
        exact ⟨seen, pruneAt, ⟨[], by simp⟩, le_rfl⟩
      · cases next
        exact ⟨seen, pruneAt, ⟨_, rfl, by simp⟩, le_rfl⟩
  | remember id =>
    right
    change a.remember id = some b at next
    unfold Agent.remember at next
    split at next
    · cases next
    next c found =>
      cases next
      have hit := List.find?_some found
      obtain ⟨rfl, -⟩ := of_decide_eq_true hit
      exact ⟨c, List.mem_of_find?_eq_some found, rfl, rfl, rfl, rfl, fun d kept => (List.mem_filter.mp kept).1⟩

theorem bounded_step (bounded : a.verifier.Bounded) (next : a.step env s = some b) : b.verifier.Bounded := by
  rcases spared_or_remembers next with spared | ⟨c, remembers⟩
  · obtain ⟨size, low, high⟩ := bounded
    exact ⟨by rwa [spared.seen], by rwa [spared.pruneAt], by rwa [spared.pruneAt]⟩
  · rw [remembers.verifier]
    exact bounded.remember _ _ _

theorem lookup_step {nonce : String} {expiry : Int} (found : a.verifier.seen.lookup nonce = some expiry)
    (next : a.step env s = some b) :
    b.verifier.seen.lookup nonce = some expiry ∨ ∃ c ∈ a.calls, s = .remember c.id ∧ expiry < c.now := by
  rcases spared_or_remembers next with spared | ⟨c, remembers⟩
  · left
    rwa [spared.seen]
  · rw [remembers.verifier]
    exact (lookup_remember found _ _ _).imp_right fun late => ⟨c, remembers.under, remembers.step, late⟩

theorem of_lookup_step {nonce : String} {expiry : Int} (next : a.step env s = some b)
    (found : b.verifier.seen.lookup nonce = some expiry) :
    a.verifier.seen.lookup nonce = some expiry ∨ ∃ c, a.Remembers s b c ∧ nonce = c.nonce ∧
      expiry = c.expiry ∧ b.outcomes = a.outcomes ++ [⟨c.request, none⟩] := by
  rcases spared_or_remembers next with spared | ⟨c, remembers⟩
  · exact .inl (spared.seen ▸ found)
  · rw [remembers.verifier] at found
    refine (of_lookup_remember found).imp_right fun ⟨nonce, expiry, new⟩ => ⟨c, remembers, nonce, expiry, ?_⟩
    rw [remembers.outcomes, if_pos new]

theorem outcomes_step (next : a.step env s = some b) : a.outcomes <+: b.outcomes := by
  rcases spared_or_remembers next with spared | ⟨c, remembers⟩
  · obtain ⟨os, added, -⟩ := spared.outcomes
    exact ⟨os, added.symm⟩
  · rw [remembers.outcomes]
    exact List.prefix_append _ _

theorem clock_step (next : a.step env s = some b) : a.clock ≤ b.clock := by
  rcases spared_or_remembers next with spared | ⟨c, remembers⟩
  · exact spared.clock
  · exact remembers.clock.ge

/-! ## Runs -/

theorem Roomy.step (roomy : Roomy signed a) (unforged : Unforged env signed)
    (orderly : a.Orderly s) (next : a.step env s = some b) : Roomy signed b := by
  have bounded := bounded_step roomy.bounded next
  have later := clock_step next
  -- a call under way is an old one or has just arrived
  have calls (d : Call) (member : d ∈ b.calls) : d.now ≤ b.clock ∧ Vouched signed d.nonce d.ts d.now ∧
      (parseSignature d.request.signature).map (fun p => (p.1, p.2.1)) = some (d.ts, d.nonce) := by
    rcases mem_calls_step next member with ⟨o, old, request, ts, nonce, now⟩ | ⟨rfl, now, passed⟩
    · rw [request, ts, nonce, now]
      exact ⟨(roomy.sampled o old).trans later, roomy.vouched o old, roomy.parsed o old⟩
    · rw [now]
      exact ⟨later, unforged.vouched orderly passed, (checkSignature_ok passed).2⟩
  -- and old nonces are near its clock
  have near {nonce : String} {ts : Int} (reached : Vouched signed nonce ts a.clock)
      (met : ∀ d ∈ a.calls, Vouched signed nonce ts (d.now + maxOvertaking)) (d : Call) (member : d ∈ b.calls) :
      Vouched signed nonce ts (d.now + maxOvertaking) := by
    rcases mem_calls_step next member with ⟨o, old, -, -, -, now⟩ | ⟨-, now, -⟩
    · rw [now]
      exact met o old
    · rw [now]
      exact reached.mono (Int.le_add_of_nonneg_right (by decide))
  refine ⟨bounded, fun d member => (calls d member).1, fun d member => (calls d member).2.1,
    fun d member => (calls d member).2.2, ?_, ?_⟩
  · intro nonce expiry found
    rcases of_lookup_step next found with old | ⟨c, remembers, rfl, rfl, -⟩
    · obtain ⟨ts, expires, reached, met⟩ := roomy.held nonce expiry old
      exact ⟨ts, expires, reached.mono later, near reached met⟩
    · have vouched := roomy.vouched c remembers.under
      have sampled := roomy.sampled c remembers.under
      rw [remembers.step] at orderly
      refine ⟨c.ts, rfl, vouched.mono (sampled.trans later), fun d member => vouched.mono ?_⟩
      exact orderly c remembers.under rfl d (remembers.calls d member)
  · intro nonce member
    obtain ⟨expiry, found⟩ := Keyed.mem_iff_lookup.mp member
    rcases of_lookup_step next found with old | ⟨c, remembers, rfl, -, outcomes⟩
    · obtain ⟨o, before, accepts⟩ := roomy.known nonce (Keyed.mem_iff_lookup.mpr ⟨expiry, old⟩)
      exact ⟨o, (outcomes_step next).subset before, accepts⟩
    · refine ⟨⟨c.request, none⟩, ?_, c.ts, rfl, roomy.parsed c remembers.under⟩
      rw [outcomes]
      exact List.mem_append_right _ (List.mem_singleton_self _)

/-- A call is refused as replayed only when a request with its nonce was accepted before. -/
theorem Roomy.refused (roomy : Roomy signed a) (paced : Paced signed) (next : a.step env s = some b) {r : Request}
    (refused : b.outcomes = a.outcomes ++ [⟨r, some .replayed⟩]) :
    ∃ ts nonce, (parseSignature r.signature).map (fun p => (p.1, p.2.1)) = some (ts, nonce) ∧
      ∃ o ∈ a.outcomes, ∃ earlier, o.Accepts earlier nonce := by
  rcases spared_or_remembers next with spared | ⟨c, remembers⟩
  · obtain ⟨os, added, others⟩ := spared.outcomes
    have same := List.append_cancel_left (added.symm.trans refused)
    exact absurd rfl (others ⟨r, some .replayed⟩ (by simp [same]))
  · have same := List.append_cancel_left (remembers.outcomes.symm.trans refused)
    by_cases present : c.nonce ∈ a.verifier.seen
    · rw [List.singleton_inj, Outcome.mk.injEq] at same
      obtain ⟨rfl, -⟩ := same
      exact ⟨c.ts, c.nonce, roomy.parsed c remembers.under, roomy.known c.nonce present⟩
    · simp [roomy.remember_new paced remembers.under present] at same

theorem length_calls_step (one : a.calls.length ≤ 1) (turn : a.InTurn s) (next : a.step env s = some b) :
    b.calls.length ≤ 1 := by
  cases s with
  | tick d =>
    cases next
    exact one
  | arrive r =>
    cases next
    unfold Agent.arrive
    split
    · exact one
    · simp [turn.2]
  | checkHost id addrs =>
    change a.checkHost env id addrs = some b at next
    unfold Agent.checkHost at next
    split at next
    · cases next
    · dsimp only at next
      split at next
      · cases next
        simpa using one
      · cases next
        exact (List.length_filter_le _ _).trans one
  | remember id =>
    change a.remember id = some b at next
    unfold Agent.remember at next
    split at next
    · cases next
    · cases next
      exact (List.length_filter_le _ _).trans one

/-- Calls in turn are in order. -/
theorem along_orderly {steps : List (Step Addr)} (one : a.calls.length ≤ 1)
    (turns : Along (Agent.step env) Agent.InTurn a steps) : Along (Agent.step env) Agent.Orderly a steps := by
  induction steps generalizing a with
  | nil => trivial
  | cons s steps ih =>
    obtain ⟨turn, rest⟩ := turns
    refine ⟨?_, fun b next => ih (length_calls_step one turn next) (rest b next)⟩
    cases s with
    | tick d => trivial
    | arrive r => exact turn.1
    | checkHost id addrs => trivial
    | remember id =>
      intro c under _ d other
      obtain ⟨e, calls⟩ := List.length_eq_one_iff.mp (le_antisymm one (List.length_pos_of_mem under))
      rw [calls, List.mem_singleton] at under other
      rw [under, other]
      exact Int.le_add_of_nonneg_right (by decide)

/-! ## Any clock -/

/-- A step whose clock reading may be any. -/
def Agent.stepAt (env : Env Key Addr) (a : Agent Addr) (s : Int × Step Addr) : Option (Agent Addr) :=
  ({ a with clock := s.1 }).step env s.2

theorem bounded_exec {clock : Int} {steps : List (Int × Step Addr)}
    (run : exec (Agent.stepAt env) (newAgent clock) steps = some a) : a.verifier.Bounded :=
  exec_invariant (p := fun a => a.verifier.Bounded) (fun _ _ _ bounded _ next => bounded_step bounded next)
    bounded_new (along_of_forall (p := fun _ => True) fun _ _ => trivial) run

/-- While the server signs at most 100 and 110 a second, a call is refused at the cache only for a nonce that was
accepted before; and whatever the clock does, the cache is bounded and drops a nonce only past its expiry. -/
theorem cache_room (env : Env Key Addr) :
    (∀ signed : Set (Signing Key), Unforged env signed → Paced signed →
      ∀ clock steps a s b r, exec (Agent.step env) (newAgent clock) steps = some a →
        (Along (Agent.step env) Agent.InTurn (newAgent clock) steps ∨
          Along (Agent.step env) Agent.Orderly (newAgent clock) steps) →
        a.step env s = some b → b.outcomes = a.outcomes ++ [⟨r, some .replayed⟩] →
        ∃ ts nonce, (parseSignature r.signature).map (fun p => (p.1, p.2.1)) = some (ts, nonce) ∧
          ∃ o ∈ a.outcomes, ∃ earlier, o.Accepts earlier nonce) ∧
    ∀ clock steps a, exec (Agent.stepAt env) (newAgent clock) steps = some a →
      a.verifier.Bounded ∧
      ∀ s b, a.stepAt env s = some b → ∀ nonce expiry, a.verifier.seen.lookup nonce = some expiry →
        b.verifier.seen.lookup nonce = some expiry ∨ ∃ c ∈ a.calls, s.2 = .remember c.id ∧ expiry < c.now := by
  constructor
  · intro signed unforged paced clock steps a s b r run orderly next refused
    have ordered : Along (Agent.step env) Agent.Orderly (newAgent clock) steps :=
      orderly.elim (along_orderly (by simp [newAgent])) id
    have roomy : Roomy signed a :=
      exec_invariant (fun _ _ _ roomy orderly next => roomy.step unforged orderly next) (roomy_newAgent clock)
        ordered run
    exact roomy.refused paced next refused
  · intro clock steps a run
    exact ⟨bounded_exec run, fun s b next nonce expiry found => lookup_step (a := { a with clock := s.1 }) found next⟩

/-- The agent whose only signed request is the first of the run of replays. -/
def oneEnv : Env Unit String := { runEnv with verify := fun _ msg _ => msg = (runSigned 0).message }

def oneSigning : Signing Unit := { runAuthorized 0 with time := 0, ts_eq := rfl }

theorem unforged_one : Unforged oneEnv {oneSigning} where
  signed_of_verify key _ msg sig verified := by
    simp only [oneEnv, decide_eq_true_eq] at verified
    exact ⟨oneSigning, rfl, rfl, verified.symm⟩
  lines k member := by
    cases member
    exact ⟨(by decide : '\n' ∉ "GET".toList), (by decide : '\n' ∉ "10.0.0.7:7800".toList),
      (by decide : '\n' ∉ "/v1/stats".toList)⟩

theorem paced_one : Paced ({oneSigning} : Set (Signing Unit)) := by
  intro start span ks nonneg distinct all
  have few : ks.length ≤ 1 := by
    rcases ks with _ | ⟨k, _ | ⟨l, ks⟩⟩
    · simp
    · simp
    · have same : k = l := (all k (by simp)).1.trans (all l (by simp)).1.symm
      simp [same] at distinct
  simp only [second]
  omega

theorem checkSignature_one : checkSignature oneEnv 0 (received 0) = .ok (0, Base64.encode (runNonce 0)) :=
  checkSignature_known (k := 0) (by simp [signedByKnownKey, oneEnv, runEnv]) (by decide) (by decide)

theorem isLocal_one (v : Verifier String) (now : Int) (host : String) (addrs : Option (List String)) :
    v.isLocal oneEnv now host addrs = v.isLocal runEnv now host addrs := by
  simp only [Verifier.isLocal, oneEnv]

/-- The request is received twice, and the second time refused. -/
theorem cache_room_replay : ∃ ts nonce,
    (parseSignature (received 0).signature).map (fun p => (p.1, p.2.1)) = some (ts, nonce) ∧
      ∃ o ∈ [(⟨received 0, none⟩ : Outcome)], ∃ earlier, o.Accepts earlier nonce := by
  have oneLine : (received 0).OneLine := unforged_one.lines oneSigning rfl
  -- the first call
  let c : Call := { id := 0, request := received 0, ts := 0, nonce := Base64.encode (runNonce 0), now := 0 }
  let a1 : Agent String := { clock := 0, calls := [c], nextID := 1 }
  let a2 : Agent String := { a1 with verifier := runVerifier, calls := [{ c with isLocal := true }] }
  have first : (newAgent 0).step oneEnv (.arrive (received 0)) = some a1 := step_arrive checkSignature_one
  have second : a1.step oneEnv (.checkHost 0 runAddrs) = some a2 :=
    step_checkHost (show a1.calls = [] ++ [c] from rfl) nofun rfl ((isLocal_one _ _ _ _).trans first_isLocal)
  have third : a2.step oneEnv (.remember 0) = some runServed :=
    step_remember (show a2.calls = [] ++ [{ c with isLocal := true }] from rfl) nofun rfl
      (remember_new (AList.notMem_empty _) (by decide) (by decide) _ _)
  -- the second call
  let d : Call := { c with id := 1 }
  let a4 : Agent String := { runServed with calls := [d], nextID := 2 }
  let a5 : Agent String := { a4 with calls := [{ d with isLocal := true }] }
  have fourth : runServed.step oneEnv (.arrive (received 0)) = some a4 := step_arrive checkSignature_one
  have fifth : a4.step oneEnv (.checkHost 1 runAddrs) = some a5 :=
    step_checkHost (show a4.calls = [] ++ [d] from rfl) nofun rfl
      ((isLocal_one _ _ _ _).trans (runEnv_isLocal (List.mem_singleton_self _) 0 0 runAddrs))
  have sixth := step_remember (e := oneEnv) (show a5.calls = [] ++ [{ d with isLocal := true }] from rfl) nofun rfl
    (remember_seen ((AList.mem_insert _).mpr (.inl rfl)) _ _)
  let steps : List (Step String) :=
    [.arrive (received 0), .checkHost 0 runAddrs, .remember 0, .arrive (received 0), .checkHost 1 runAddrs]
  have run : exec (Agent.step oneEnv) (newAgent 0) steps = some a5 :=
    exec_cons.mpr ⟨a1, first, exec_cons.mpr ⟨a2, second, exec_cons.mpr ⟨runServed, third,
      exec_cons.mpr ⟨a4, fourth, exec_cons.mpr ⟨a5, fifth, rfl⟩⟩⟩⟩⟩
  have turns : Along (Agent.step oneEnv) Agent.InTurn (newAgent 0) steps :=
    along_cons ⟨oneLine, rfl⟩ first (along_cons trivial second (along_cons trivial third
      (along_cons ⟨oneLine, rfl⟩ fourth (along_cons trivial fifth trivial))))
  exact (cache_room oneEnv).1 {oneSigning} unforged_one paced_one 0 steps a5 _ _ (received 0) run
    (.inl turns) sixth rfl

end Dockgraph.AgentAuth
