import Dockgraph.AgentAuth.Cache

/-!
# The invariant of the nonce cache

A request that was accepted stays in the cache until its timestamp is stale, and after that no
new call gets past the freshness check. What is left is a call that got past it before: it must
not find its nonce pruned by a call with a later clock.
-/
namespace Dockgraph.AgentAuth

open Transition

variable {Key Addr : Type}

/-- The call accepted a request with the timestamp and nonce. -/
def Outcome.Accepts (ts : Int) (nonce : String) (o : Outcome) : Prop :=
  o.error = none ∧
    (parseSignature o.request.signature).map (fun p => (p.1, p.2.1)) = some (ts, nonce)

instance (ts : Int) (nonce : String) (o : Outcome) : Decidable (o.Accepts ts nonce) :=
  inferInstanceAs (Decidable (_ ∧ _))

def accepted (a : Agent Addr) (ts : Int) (nonce : String) : List Outcome :=
  a.outcomes.filter fun o => o.Accepts ts nonce

/-- The nonce of an accepted request is in the cache, or no call under way or to come has it. -/
def Agent.Held (a : Agent Addr) (ts : Int) (nonce : String) : Prop :=
  a.verifier.seen.lookup nonce = some (ts * second + maxClockSkew) ∨
    (ts * second + maxClockSkew < a.clock ∧ ∀ c ∈ a.calls, c.ts = ts → c.nonce ≠ nonce)

structure Guarded (a : Agent Addr) : Prop where
  sampled : ∀ c ∈ a.calls, c.now ≤ a.clock
  parsed : ∀ c ∈ a.calls,
    (parseSignature c.request.signature).map (fun p => (p.1, p.2.1)) = some (c.ts, c.nonce)
  held : ∀ ts nonce, accepted a ts nonce ≠ [] → a.Held ts nonce
  once : ∀ ts nonce, (accepted a ts nonce).length ≤ 1

theorem accepted_finish (a : Agent Addr) (c : Call) (error : Option VerifyError) (ts : Int)
    (nonce : String)
    (parsed : (parseSignature c.request.signature).map (fun p => (p.1, p.2.1)) =
      some (c.ts, c.nonce)) :
    accepted (a.finish c error) ts nonce =
      accepted a ts nonce ++
        if error = none ∧ c.ts = ts ∧ c.nonce = nonce then [⟨c.request, error⟩] else [] := by
  unfold accepted Agent.finish
  rw [List.filter_append, List.filter_singleton]
  simp only [Outcome.Accepts, parsed, Option.some.injEq, Prod.mk.injEq, Bool.cond_decide]

theorem Agent.Held.finish {a : Agent Addr} {ts : Int} {nonce : String} (held : a.Held ts nonce)
    (c : Call) (error : Option VerifyError) : (a.finish c error).Held ts nonce := by
  refine held.imp_right fun ⟨late, gone⟩ => ⟨late, fun d member => ?_⟩
  exact gone d (List.mem_filter.mp member).1

/-- A refused call changes nothing that was accepted. -/
theorem Guarded.refuse {a : Agent Addr} (guarded : Guarded a) {c : Call} (member : c ∈ a.calls)
    (v : Verifier Addr) (error : VerifyError)
    (held : ∀ ts nonce, accepted a ts nonce ≠ [] →
      ({ a with verifier := v }.finish c (some error)).Held ts nonce) :
    Guarded ({ a with verifier := v }.finish c (some error)) := by
  have same (ts : Int) (nonce : String) :
      accepted ({ a with verifier := v }.finish c (some error)) ts nonce = accepted a ts nonce := by
    rw [accepted_finish _ c _ ts nonce (guarded.parsed c member), if_neg (by simp), List.append_nil]
    rfl
  constructor
  · exact fun d kept => guarded.sampled d (List.mem_filter.mp kept).1
  · exact fun d kept => guarded.parsed d (List.mem_filter.mp kept).1
  · exact fun ts nonce some => held ts nonce (same ts nonce ▸ some)
  · exact fun ts nonce => same ts nonce ▸ guarded.once ts nonce

/-- A call is accepted when its nonce is recorded and was not accepted before. -/
theorem Guarded.accept {a : Agent Addr} (guarded : Guarded a) {c : Call} (member : c ∈ a.calls)
    (v : Verifier Addr) (recorded : v.seen.lookup c.nonce = some c.expiry)
    (first : accepted a c.ts c.nonce = [])
    (held : ∀ ts nonce, accepted a ts nonce ≠ [] →
      ({ a with verifier := v }.finish c none).Held ts nonce) :
    Guarded ({ a with verifier := v }.finish c none) := by
  have grown (ts : Int) (nonce : String) :=
    accepted_finish { a with verifier := v } c none ts nonce (guarded.parsed c member)
  constructor
  · exact fun d kept => guarded.sampled d (List.mem_filter.mp kept).1
  · exact fun d kept => guarded.parsed d (List.mem_filter.mp kept).1
  · intro ts nonce some
    by_cases new : c.ts = ts ∧ c.nonce = nonce
    · obtain ⟨rfl, rfl⟩ := new
      exact .inl recorded
    · rw [grown, if_neg (by simpa using new), List.append_nil] at some
      exact held ts nonce some
  · intro ts nonce
    rw [grown]
    split
    next new =>
      obtain ⟨-, rfl, rfl⟩ := new
      change (accepted a c.ts c.nonce ++ _).length ≤ 1
      rw [first]
      exact le_refl 1
    · rw [List.append_nil]
      exact guarded.once ts nonce

/-! ## One step -/

theorem guarded_newAgent (clock : Int) : Guarded (newAgent clock : Agent Addr) :=
  ⟨nofun, nofun, fun _ _ some => absurd rfl some, fun _ _ => Nat.zero_le 1⟩

theorem guarded_tick {a : Agent Addr} (guarded : Guarded a) (d : Nat) :
    Guarded { a with clock := a.clock + d } := by
  refine ⟨fun c member => ?_, guarded.parsed, fun ts nonce some => ?_, guarded.once⟩
  · have := guarded.sampled c member
    dsimp only
    omega
  · refine (guarded.held ts nonce some).imp_right fun ⟨late, gone⟩ => ⟨?_, gone⟩
    dsimp only
    omega

theorem checkSignature_ok {env : Env Key Addr} {now ts : Int} {r : Request} {nonce : String}
    (passed : checkSignature env now r = .ok (ts, nonce)) :
    now ≤ ts * second + maxClockSkew ∧
      (parseSignature r.signature).map (fun p => (p.1, p.2.1)) = some (ts, nonce) := by
  unfold checkSignature at passed
  split at passed
  · cases passed
  · split at passed
    · cases passed
    next t n sig parsed =>
      dsimp only at passed
      split at passed
      · cases passed
      next fresh =>
        split at passed
        · cases passed
        · cases passed
          exact ⟨by omega, by rw [parsed]; rfl⟩

theorem guarded_arrive {env : Env Key Addr} {a : Agent Addr} (guarded : Guarded a) (r : Request) :
    Guarded (a.arrive env r) := by
  unfold Agent.arrive
  split
  next e failed =>
    have same (ts : Int) (nonce : String) :
        accepted { a with outcomes := a.outcomes ++ [⟨r, some e⟩] } ts nonce =
          accepted a ts nonce := by
      simp [accepted, Outcome.Accepts, List.filter_append]
    refine ⟨guarded.sampled, guarded.parsed, fun ts nonce some => ?_, fun ts nonce => ?_⟩
    · rw [same] at some
      exact guarded.held ts nonce some
    · rw [same]
      exact guarded.once ts nonce
  next ts nonce passed =>
    obtain ⟨fresh, parsed⟩ := checkSignature_ok passed
    refine ⟨fun c member => ?_, fun c member => ?_, fun t n some => ?_, guarded.once⟩
    · rcases List.mem_append.mp member with old | new
      · exact guarded.sampled c old
      · cases List.mem_singleton.mp new
        exact le_refl a.clock
    · rcases List.mem_append.mp member with old | new
      · exact guarded.parsed c old
      · cases List.mem_singleton.mp new
        exact parsed
    · -- a stale timestamp does not pass the freshness check again
      refine (guarded.held t n some).imp_right fun ⟨late, gone⟩ => ⟨late, fun c member => ?_⟩
      rcases List.mem_append.mp member with old | new
      · exact gone c old
      · cases List.mem_singleton.mp new
        rintro (rfl : ts = t)
        exact absurd fresh (not_le.mpr late)

theorem isLocal_seen [DecidableEq Addr] (env : Env Key Addr) (v : Verifier Addr) (now : Int) (host : String)
    (addrs : Option (List Addr)) : (v.isLocal env now host addrs).2.seen = v.seen := by
  unfold Verifier.isLocal Verifier.readLocalAddrs
  repeat' split
  all_goals rfl

/-- The invariant reads nothing of the verifier but its nonces. -/
theorem Guarded.congr {a : Agent Addr} (guarded : Guarded a) {v : Verifier Addr}
    (same : v.seen = a.verifier.seen) : Guarded { a with verifier := v } := by
  refine ⟨guarded.sampled, guarded.parsed, fun ts nonce some => ?_, guarded.once⟩
  exact (guarded.held ts nonce some).imp_left fun found => by rw [← found, ← same]

theorem guarded_checkHost [DecidableEq Addr] {env : Env Key Addr} {a b : Agent Addr} (guarded : Guarded a) {id : Nat}
    {addrs : Option (List Addr)} (next : a.checkHost env id addrs = some b) : Guarded b := by
  unfold Agent.checkHost at next
  split at next
  · cases next
  next c found =>
    have read := guarded.congr (isLocal_seen env a.verifier a.clock c.request.host addrs)
    generalize a.verifier.isLocal env a.clock c.request.host addrs = result at read next
    obtain ⟨answer, v⟩ := result
    dsimp only at read next
    split at next
    · cases next
      have mapped (d : Call)
          (member : d ∈ a.calls.map fun d => if d.id = id then { d with isLocal := true } else d) :
          ∃ o ∈ a.calls, d.request = o.request ∧ d.ts = o.ts ∧ d.nonce = o.nonce ∧
            d.now = o.now := by
        obtain ⟨o, old, rfl⟩ := List.mem_map.mp member
        refine ⟨o, old, ?_⟩
        split <;> exact ⟨rfl, rfl, rfl, rfl⟩
      refine ⟨fun d member => ?_, fun d member => ?_, fun ts nonce some => ?_, read.once⟩
      · obtain ⟨o, old, -, -, -, now⟩ := mapped d member
        rw [now]
        exact guarded.sampled o old
      · obtain ⟨o, old, request, ts, nonce, -⟩ := mapped d member
        rw [request, ts, nonce]
        exact guarded.parsed o old
      · refine (read.held ts nonce some).imp_right fun ⟨late, gone⟩ => ⟨late, fun d member => ?_⟩
        obtain ⟨o, old, -, ts, nonce, -⟩ := mapped d member
        rw [ts, nonce]
        exact gone o old
    · cases next
      exact read.refuse (List.mem_of_find?_eq_some found) v .wrongHost
        fun ts nonce some => (read.held ts nonce some).finish c _

/-- No prune deletes the nonce of another call that got past the freshness check and has not
come to `remember` yet. -/
def Agent.Spares (a : Agent Addr) : Step Addr → Prop
  | .remember id =>
    ∀ c ∈ a.calls, c.id = id → c.nonce ∉ a.verifier.seen → a.verifier.Pruning →
      ∀ d ∈ a.calls, d.id ≠ id → ∀ expiry, a.verifier.seen.lookup d.nonce = some expiry →
        c.now ≤ expiry
  | _ => True

/-- What a prune by a call leaves held, once that call has returned. -/
theorem held_prune {a : Agent Addr} {c : Call} (member : c ∈ a.calls) (sampled : c.now ≤ a.clock)
    (spared : a.Spares (.remember c.id)) (absent : c.nonce ∉ a.verifier.seen)
    (full : a.verifier.Pruning) {ts : Int} {nonce : String} (held : a.Held ts nonce)
    (error : Option VerifyError) :
    ({ a with verifier := a.verifier.prune c.now }.finish c error).Held ts nonce := by
  rcases held with found | ⟨late, gone⟩
  · by_cases kept : c.now ≤ ts * second + maxClockSkew
    · left
      change (a.verifier.prune c.now).seen.lookup nonce = _
      rw [lookup_prune, found, Option.filter_some, if_pos (decide_eq_true kept)]
    · right
      refine ⟨lt_of_lt_of_le (not_le.mp kept) sampled, fun d other _ same => kept ?_⟩
      obtain ⟨other, ne⟩ := List.mem_filter.mp other
      exact spared c member rfl absent full d other (of_decide_eq_true ne) _ (same ▸ found)
  · exact .inr ⟨late, fun d other => gone d (List.mem_filter.mp other).1⟩

theorem guarded_remember {a b : Agent Addr} (guarded : Guarded a) {id : Nat}
    (spared : a.Spares (.remember id)) (next : a.remember id = some b) : Guarded b := by
  unfold Agent.remember at next
  split at next
  · cases next
  next c found =>
    have member := List.mem_of_find?_eq_some found
    have hit := List.find?_some found
    obtain ⟨rfl, -⟩ := of_decide_eq_true hit
    have parsed := guarded.parsed c member
    rcases remember_cases a.verifier c.nonce c.expiry c.now with
      ⟨-, answer⟩ | ⟨absent, w, pruned, answer⟩
    · rw [answer] at next
      cases next
      exact guarded.refuse member a.verifier .replayed
        fun ts nonce some => (guarded.held ts nonce some).finish c _
    · -- what was held still is, pruned or not
      have still (error : Option VerifyError) (ts : Int) (nonce : String)
          (some : accepted a ts nonce ≠ []) :
          ({ a with verifier := w }.finish c error).Held ts nonce := by
        rcases pruned with rfl | ⟨full, rfl⟩
        · exact (guarded.held ts nonce some).finish c error
        · exact held_prune member (guarded.sampled c member) spared absent full
            (guarded.held ts nonce some) error
      have unknown : a.verifier.seen.lookup c.nonce = none := AList.lookup_eq_none.mpr absent
      have new : w.seen.lookup c.nonce = none := by
        rcases pruned with rfl | ⟨-, rfl⟩
        · exact unknown
        · rw [lookup_prune, unknown, Option.filter_none]
      rcases answer with answer | answer <;> rw [answer] at next <;> cases next
      · exact guarded.refuse member w .replayed (still _)
      · apply guarded.accept member _ (AList.lookup_insert w.seen)
        · -- nothing with this timestamp and nonce was accepted before
          by_contra before
          rcases guarded.held c.ts c.nonce before with found | ⟨-, gone⟩
          · exact nomatch unknown.symm.trans found
          · exact gone c member rfl rfl
        · intro ts nonce some
          refine (still none ts nonce some).imp_left fun (found : w.seen.lookup nonce = _) => ?_
          have other : nonce ≠ c.nonce := by
            rintro rfl
            exact nomatch new.symm.trans found
          exact (AList.lookup_insert_ne other).trans found

theorem guarded_step [DecidableEq Addr] {env : Env Key Addr} {a b : Agent Addr} {s : Step Addr}
    (guarded : Guarded a) (spared : a.Spares s) (next : a.step env s = some b) : Guarded b := by
  cases s with
  | tick d =>
    cases next
    exact guarded_tick guarded d
  | arrive r =>
    cases next
    exact guarded_arrive guarded r
  | checkHost id addrs => exact guarded_checkHost guarded next
  | remember id => exact guarded_remember guarded spared next

end Dockgraph.AgentAuth
