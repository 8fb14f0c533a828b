import Dockgraph.AgentAuth.Verifier
import Dockgraph.Library.Keyed
import Dockgraph.Library.Transition

/-!
# Steps of the verifier

What a prune and `remember` leave of the cache, and a call of `Verify` that no other interrupts.
-/
namespace Dockgraph.AgentAuth

open Transition

variable {Key Addr : Type}

/-! ## Signatures -/

/-- A signed request whose text verifies gets past the signature while its time is acceptable. -/
theorem checkSignature_authorize {env : Env Key Addr} {sign : String → List UInt8} {ts : Int} {nonce : List UInt8}
    {r : ClientRequest} (low : -2 ^ 63 ≤ ts) (high : ts < 2 ^ 63) (sized : nonce.length = nonceSize)
    (signed : ∀ msg, (sign msg).length = signatureSize)
    (known : ∀ msg, msg = payload r.method (requestHost r) r.requestURI ts (Base64.encode nonce) →
      signedByKnownKey env msg (sign msg) = true) {now : Int}
    (early : -maxClockSkew ≤ now - ts * second) (late : now - ts * second ≤ maxClockSkew) :
    checkSignature env now (authorize sign ts nonce r) = .ok (ts, Base64.encode nonce) := by
  have present : (authorize sign ts nonce r).signature ≠ "" := by
    intro empty
    have text := congrArg String.toList empty
    simp [authorize, signatureHeader] at text
  have parsed : parseSignature (authorize sign ts nonce r).signature = some (ts, Base64.encode nonce, _) :=
    parseSignature_signatureHeader low high sized (signed _)
  rw [checkSignature, if_neg present, parsed]
  dsimp only
  rw [if_neg (by omega), if_neg]
  have verified := known _ rfl
  simpa [authorize] using verified

/-! ## The cache -/

theorem lookup_foldl_dropExpired (now : Int) (nonce : String)
    (entries : List ((_ : String) × Int)) (seen : AList (fun _ : String => Int)) :
    (entries.foldl (Verifier.dropExpired now) seen).lookup nonce =
      if ∃ e ∈ entries, e.1 = nonce ∧ now > e.2 then none else seen.lookup nonce := by
  induction entries generalizing seen with
  | nil => simp
  | cons e rest ih =>
    rw [List.foldl_cons, ih]
    by_cases later : ∃ e ∈ rest, e.1 = nonce ∧ now > e.2
    · obtain ⟨f, member, hit⟩ := later
      rw [if_pos ⟨f, member, hit⟩, if_pos ⟨f, List.mem_cons_of_mem e member, hit⟩]
    · rw [if_neg later]
      by_cases here : e.1 = nonce ∧ now > e.2
      · rw [if_pos ⟨e, List.mem_cons_self, here⟩]
        obtain ⟨rfl, expired⟩ := here
        simp [Verifier.dropExpired, expired]
      · have none : ¬∃ f ∈ e :: rest, f.1 = nonce ∧ now > f.2 := by
          rintro ⟨f, member, hit⟩
          rcases List.mem_cons.mp member with rfl | member
          · exact here hit
          · exact later ⟨f, member, hit⟩
        rw [if_neg none]
        unfold Verifier.dropExpired
        split
        next expired =>
          have other : nonce ≠ e.1 := fun same => here ⟨same.symm, expired⟩
          exact AList.lookup_erase_ne other
        · rfl

/-- A prune drops exactly the expired nonces. -/
theorem lookup_prune (v : Verifier Addr) (now : Int) (nonce : String) :
    (v.prune now).seen.lookup nonce = (v.seen.lookup nonce).filter fun exp => now ≤ exp := by
  change (v.seen.entries.foldl (Verifier.dropExpired now) v.seen).lookup nonce = _
  rw [lookup_foldl_dropExpired]
  cases found : v.seen.lookup nonce with
  | none => simp
  | some exp =>
    have listed : ⟨nonce, exp⟩ ∈ v.seen.entries := AList.mem_lookup_iff.mp found
    by_cases expired : now > exp
    · rw [if_pos ⟨_, listed, rfl, expired⟩, Option.filter_some, if_neg (by simpa using expired)]
    · have kept : ¬∃ e ∈ v.seen.entries, e.1 = nonce ∧ now > e.2 := by
        rintro ⟨e, member, rfl, gone⟩
        have same : v.seen.lookup e.1 = some e.2 := AList.mem_lookup_iff.mpr member
        rw [found] at same
        cases same
        exact expired gone
      rw [if_neg kept, Option.filter_some, if_pos (by simpa using expired)]

/-- A prune that finds no nonce expired leaves the cache alone. -/
theorem prune_live {v : Verifier Addr} {now : Int} (live : ∀ e ∈ v.seen.entries, now ≤ e.2) :
    (v.prune now).seen = v.seen := by
  have loop (entries : List ((_ : String) × Int)) (live : ∀ e ∈ entries, now ≤ e.2)
      (seen : AList (fun _ : String => Int)) : entries.foldl (Verifier.dropExpired now) seen = seen := by
    induction entries with
    | nil => rfl
    | cons e rest ih =>
      have first : Verifier.dropExpired now seen e = seen := if_neg (not_lt.mpr (live e List.mem_cons_self))
      rw [List.foldl_cons, first]
      exact ih fun f member => live f (List.mem_cons_of_mem e member)
  exact loop v.seen.entries live v.seen

theorem mem_of_mem_prune {v : Verifier Addr} {now : Int} {nonce : String} (kept : nonce ∈ (v.prune now).seen) :
    nonce ∈ v.seen := by
  obtain ⟨expiry, found⟩ := Keyed.mem_iff_lookup.mp kept
  rw [lookup_prune, Option.filter_eq_some_iff] at found
  exact Keyed.mem_iff_lookup.mpr ⟨expiry, found.1⟩

theorem length_prune (v : Verifier Addr) (now : Int) :
    (v.prune now).seen.entries.length ≤ v.seen.entries.length := by
  have kept : (v.prune now).seen.keys ⊆ v.seen.keys := fun _ member => mem_of_mem_prune member
  simpa [Keyed.length_keys] using (List.subperm_of_subset (v.prune now).seen.keys_nodup kept).length_le

theorem remember_seen {v : Verifier Addr} {nonce : String} (present : nonce ∈ v.seen) (expiry now : Int) :
    v.remember nonce expiry now = (false, v) := if_pos present

/-- What `remember` leaves of the cache, whatever it answers. -/
theorem remember_cases (v : Verifier Addr) (nonce : String) (expiry now : Int) :
    (nonce ∈ v.seen ∧ v.remember nonce expiry now = (false, v)) ∨
      (nonce ∉ v.seen ∧ ∃ w, (w = v ∨ v.Pruning ∧ w = v.prune now) ∧
        (v.remember nonce expiry now = (false, w) ∨
          v.remember nonce expiry now = (true, { w with seen := w.seen.insert nonce expiry }))) := by
  unfold Verifier.remember
  by_cases present : nonce ∈ v.seen
  · exact .inl ⟨present, by rw [if_pos present]⟩
  · right
    rw [if_neg present]
    refine ⟨present, if v.Pruning then v.prune now else v, ?_, ?_⟩
    · split
      next full => exact .inr ⟨full, rfl⟩
      · exact .inl rfl
    · generalize (if v.Pruning then v.prune now else v) = w
      dsimp only
      split
      · exact .inl rfl
      · exact .inr rfl

theorem remember_new {v : Verifier Addr} {nonce : String} (absent : nonce ∉ v.seen)
    (roomy : ¬v.Pruning) (below : v.seen.entries.length < maxSeenNonces) (expiry now : Int) :
    v.remember nonce expiry now = (true, { v with seen := v.seen.insert nonce expiry }) := by
  rw [Verifier.remember, if_neg absent, if_neg roomy]
  dsimp only
  rw [if_neg (not_le.mpr below)]

/-- The cache is empty again after a prune that finds every nonce expired. -/
theorem prune_expired {v : Verifier Addr} {now : Int}
    (expired : ∀ nonce expiry, v.seen.lookup nonce = some expiry → expiry < now) :
    (v.prune now).seen = ∅ := by
  apply AList.ext
  rw [AList.empty_entries, List.eq_nil_iff_forall_not_mem]
  intro e member
  have found : (v.prune now).seen.lookup e.1 = some e.2 := AList.mem_lookup_iff.mpr member
  rw [lookup_prune, Option.filter_eq_some_iff] at found
  have := expired e.1 e.2 found.1
  have := of_decide_eq_true found.2
  omega

/-! ## A call that nothing interrupts -/

theorem step_arrive [DecidableEq Addr] {env : Env Key Addr} {a : Agent Addr} {r : Request} {ts : Int}
    {nonce : String} (passed : checkSignature env a.clock r = .ok (ts, nonce)) :
    a.step env (.arrive r) = some
      { a with
        calls := a.calls ++ [{ id := a.nextID, request := r, ts, nonce, now := a.clock }]
        nextID := a.nextID + 1 } := by
  change some (a.arrive env r) = _
  rw [Agent.arrive, passed]

theorem find?_last {calls : List Call} {c : Call} (last : ∀ d ∈ calls, d.id ≠ c.id)
    {p : Call → Bool} (hit : p c = true) :
    (calls ++ [c]).find? (fun d => d.id = c.id ∧ p d) = some c := by
  have before : calls.find? (fun d => d.id = c.id ∧ p d) = none :=
    List.find?_eq_none.mpr fun d member => by simp [last d member]
  rw [List.find?_append, before, Option.none_or, List.find?_cons_of_pos (by simp [hit])]

theorem step_checkHost [DecidableEq Addr] {e : Env Key Addr} {a : Agent Addr} {calls : List Call}
    {c : Call} (under : a.calls = calls ++ [c]) (last : ∀ d ∈ calls, d.id ≠ c.id)
    (unchecked : c.isLocal = false) {addrs : Option (List Addr)} {v : Verifier Addr}
    (here : a.verifier.isLocal e a.clock c.request.host addrs = (true, v)) :
    a.step e (.checkHost c.id addrs) = some
      { a with verifier := v, calls := calls ++ [{ c with isLocal := true }] } := by
  have found := find?_last last (p := fun d => !d.isLocal) (by simp [unchecked])
  have marked : ((calls ++ [c]).map fun d => if d.id = c.id then { d with isLocal := true } else d) =
      calls ++ [{ c with isLocal := true }] := by
    rw [List.map_append, List.map_singleton, if_pos rfl]
    congr 1
    exact (List.map_congr_left fun d member => if_neg (last d member)).trans (List.map_id calls)
  change a.checkHost e c.id addrs = _
  rw [Agent.checkHost, under, found]
  dsimp only
  rw [here]
  dsimp only
  rw [if_pos rfl, marked]

theorem step_remember [DecidableEq Addr] {e : Env Key Addr} {a : Agent Addr} {calls : List Call}
    {c : Call} (under : a.calls = calls ++ [c]) (last : ∀ d ∈ calls, d.id ≠ c.id)
    (checked : c.isLocal = true) {new : Bool} {v : Verifier Addr}
    (answer : a.verifier.remember c.nonce c.expiry c.now = (new, v)) :
    a.step e (.remember c.id) = some
      { a with
        verifier := v
        calls
        outcomes := a.outcomes ++ [⟨c.request, if new then none else some .replayed⟩] } := by
  have found := find?_last last (p := Call.isLocal) checked
  have left : ((calls ++ [c]).filter fun d => d.id ≠ c.id) = calls := by
    rw [List.filter_append, List.filter_eq_self.mpr fun d member => decide_eq_true (last d member),
      List.filter_singleton]
    simp
  change a.remember c.id = _
  rw [Agent.remember, under, found]
  dsimp only
  rw [answer, Agent.finish]
  dsimp only
  rw [left]

/-- The three steps of a call. -/
def serveSteps (id : Nat) (r : Request) (addrs : Option (List Addr)) : List (Step Addr) :=
  [.arrive r, .checkHost id addrs, .remember id]

theorem exec_serveSteps [DecidableEq Addr] {env : Env Key Addr} {a : Agent Addr} {r : Request}
    {ts : Int} {nonce : String} {addrs : Option (List Addr)} {v w : Verifier Addr} {new : Bool}
    (last : ∀ d ∈ a.calls, d.id ≠ a.nextID)
    (passed : checkSignature env a.clock r = .ok (ts, nonce))
    (here : a.verifier.isLocal env a.clock r.host addrs = (true, v))
    (answer : v.remember nonce (ts * second + maxClockSkew) a.clock = (new, w)) :
    exec (Agent.step env) a (serveSteps a.nextID r addrs) = some
      { a with
        verifier := w
        nextID := a.nextID + 1
        outcomes := a.outcomes ++ [⟨r, if new then none else some .replayed⟩] } := by
  let c : Call := { id := a.nextID, request := r, ts, nonce, now := a.clock }
  let checked : Call := { c with isLocal := true }
  let a1 : Agent Addr := { a with calls := a.calls ++ [c], nextID := a.nextID + 1 }
  let a2 : Agent Addr := { a1 with verifier := v, calls := a.calls ++ [checked] }
  have first : a.step env (.arrive r) = some a1 := step_arrive passed
  have second : a1.step env (.checkHost c.id addrs) = some a2 := step_checkHost rfl last rfl here
  have third := step_remember (a := a2) (c := checked) (e := env) rfl last rfl answer
  exact exec_cons.mpr ⟨a1, first, exec_cons.mpr ⟨a2, second, exec_cons.mpr ⟨_, third, rfl⟩⟩⟩

end Dockgraph.AgentAuth
