import Dockgraph.Api.AgentProxy
import Dockgraph.Library.Keyed
import Mathlib.Data.Finset.Card

/-!
# Request rates hold between fresh starts

What a key may still be allowed is a potential of its map: an answer takes one, and a map started
afresh brings every other key back to a burst. The requests of a client and of an agent in an
interval are bounded by it.
-/
namespace Dockgraph.Api

open TokenBucket

/-! ## One map -/

namespace Limiters

variable {limit : ℚ} {burst : Nat} {limiters : Limiters limit burst} {key other : String}

/-- What the key may be allowed at a time. -/
def left (limiters : Limiters limit burst) (key : String) (now : ℚ) : ℚ :=
  match limiters.lookup key with
  | none => burst
  | some l => l.available now

theorem left_of_notMem (absent : key ∉ limiters) (now : ℚ) : limiters.left key now = burst := by
  simp [left, AList.lookup_eq_none.mpr absent]

theorem left_nonneg (nonneg : 0 ≤ limit) (limiters : Limiters limit burst) (key : String) (now : ℚ) :
    0 ≤ limiters.left key now := by
  unfold left
  split
  · exact Nat.cast_nonneg burst
  · exact Limiter.available_nonneg nonneg _ now

theorem left_le (limiters : Limiters limit burst) (key : String) (now : ℚ) : limiters.left key now ≤ burst := by
  unfold left
  split
  · exact le_rfl
  · exact Limiter.available_le _ now

theorem left_grows (nonneg : 0 ≤ limit) (limiters : Limiters limit burst) (key : String) {t t' : ℚ}
    (le : t ≤ t') : limiters.left key t' ≤ limiters.left key t + limit * (t' - t) := by
  unfold left
  split
  · have more : 0 ≤ limit * (t' - t) := mul_nonneg nonneg (sub_nonneg.mpr le)
    linarith
  · exact Limiter.available_grows nonneg _ le

theorem available_limiterFor (limiters : Limiters limit burst) (key : String) (now : ℚ) :
    (limiters.limiterFor key).1.available now = limiters.left key now := by
  unfold limiterFor left
  split <;> simp_all

theorem lookup_limiterFor (ne : other ≠ key) :
    (limiters.limiterFor key).2.lookup other =
      if limiters.Afresh key then none else limiters.lookup other := by
  unfold limiterFor
  split
  next l found => simp [Afresh, found]
  next none =>
    simp only [Afresh, none, true_and, AList.lookup_insert_ne ne]
    split <;> rfl

theorem lookup_allow (limiters : Limiters limit burst) (key : String) (now : ℚ) :
    (limiters.allow key now).2.lookup key = some ((limiters.limiterFor key).1.allow now).2 :=
  AList.lookup_insert _

theorem lookup_allow_ne (ne : other ≠ key) (now : ℚ) :
    (limiters.allow key now).2.lookup other =
      if limiters.Afresh key then none else limiters.lookup other :=
  (AList.lookup_insert_ne ne).trans (lookup_limiterFor ne)

/-- What is allowed to a key is taken from it. -/
theorem allow_pays (limiters : Limiters limit burst) (key : String) (now : ℚ) :
    (if (limiters.allow key now).1 then 1 else 0) + (limiters.allow key now).2.left key now =
      limiters.left key now := by
  rw [left, lookup_allow, ← available_limiterFor]
  exact Limiter.allow_pays _ now

/-- Another key only gains, and only when the map is started afresh. -/
theorem left_allow_ne (nonneg : 0 ≤ limit) (limiters : Limiters limit burst) (ne : other ≠ key) (now : ℚ) :
    (limiters.allow key now).2.left other now ≤
      limiters.left other now + burst * if limiters.Afresh key then 1 else 0 := by
  rw [left, lookup_allow_ne ne]
  by_cases afresh : limiters.Afresh key
  · simpa [afresh] using left_nonneg nonneg limiters other now
  · simp [afresh, left]

/-- One of two marks costs no more where it implies the other. -/
theorem cost_le {a b : Bool} (implies : a = true → b = true) :
    (if a then 1 else 0 : ℚ) ≤ if b then 1 else 0 := by
  cases a <;> cases b <;> simp_all

/-- An answer pays for what it allows to one key, and is paid for a fresh start. -/
theorem pays (nonneg : 0 ≤ limit) (limiters : Limiters limit burst) (now : ℚ) {p q : Bool}
    (takes : p = true → key = other ∧ (limiters.allow key now).1 = true)
    (marks : limiters.Afresh key → q = true) :
    (if p then 1 else 0) + (limiters.allow key now).2.left other now ≤
      limiters.left other now + burst * if q then 1 else 0 := by
  by_cases same : key = other
  · subst same
    have took := cost_le fun taken => (takes taken).2
    have paid := allow_pays limiters key now
    have bonus : (0 : ℚ) ≤ burst * if q then 1 else 0 := by cases q <;> simp
    linarith
  · have elsewhere : p = false := Bool.eq_false_iff.mpr fun taken => same (takes taken).1
    have gained := left_allow_ne nonneg limiters (Ne.symm same) now
    have bonus := mul_le_mul_of_nonneg_left
      (cost_le (a := decide (limiters.Afresh key)) fun afresh => marks (of_decide_eq_true afresh))
      (Nat.cast_nonneg burst : (0 : ℚ) ≤ burst)
    simp only [decide_eq_true_eq] at bonus
    rw [elsewhere, if_neg Bool.false_ne_true, zero_add]
    exact gained.trans (by linarith)

theorem mem_allow {now : ℚ} :
    other ∈ (limiters.allow key now).2 ↔ other = key ∨ ¬ limiters.Afresh key ∧ other ∈ limiters := by
  rw [← AList.lookup_isSome]
  rcases eq_or_ne other key with rfl | ne
  · simp [lookup_allow]
  · rw [lookup_allow_ne ne, ← AList.lookup_isSome]
    split <;> simp_all

theorem allow_fst (limiters : Limiters limit burst) (key : String) (now : ℚ) :
    (limiters.allow key now).1 = decide (1 ≤ limiters.left key now) := by
  rw [← available_limiterFor]
  exact Limiter.allow_fst _ now

theorem left_le_allow_ne (ne : other ≠ key) (now : ℚ) :
    limiters.left other now ≤ (limiters.allow key now).2.left other now := by
  have after : (limiters.allow key now).2.left other now =
      if limiters.Afresh key then (burst : ℚ) else limiters.left other now := by
    rw [left, lookup_allow_ne ne]
    split <;> simp_all [left]
  rw [after]
  split
  · exact left_le _ _ _
  · exact le_rfl

theorem held_allow {keys : Finset String} (held : ∀ k ∈ limiters, k ∈ keys) (asked : key ∈ keys) (now : ℚ) :
    ∀ k ∈ (limiters.allow key now).2, k ∈ keys := by
  intro k kept
  rcases mem_allow.mp kept with rfl | ⟨-, before⟩
  · exact asked
  · exact held k before

/-- Keys out of a set that there is room for never start a map afresh. -/
theorem not_afresh {keys : Finset String} (room : keys.card ≤ maxAgentLimiters)
    (held : ∀ k ∈ limiters, k ∈ keys) (asked : key ∈ keys) : ¬ limiters.Afresh key := by
  rintro ⟨absent, full⟩
  have out : key ∉ limiters.keys := fun member => AList.lookup_eq_none.mp absent member
  have within : insert key limiters.keys.toFinset ⊆ keys := by
    intro k member
    rcases Finset.mem_insert.mp member with rfl | member
    · exact asked
    · exact held k (List.mem_toFinset.mp member)
  have many := Finset.card_le_card within
  rw [Finset.card_insert_of_notMem (by simpa using out), List.toFinset_card_of_nodup limiters.keys_nodup] at many
  have length := Keyed.length_keys (m := limiters)
  omega

/-! ### A key that others crowd out -/

theorem length_allow (bounded : limiters.entries.length ≤ maxAgentLimiters) (now : ℚ) :
    (limiters.allow key now).2.entries.length ≤ maxAgentLimiters := by
  have room : (limiters.limiterFor key).2.entries.length ≤ maxAgentLimiters := by
    unfold limiterFor
    split
    · exact bounded
    next none =>
      dsimp only
      split
      · simp [maxAgentLimiters]
      next notFull =>
        rw [AList.entries_insert_of_notMem (AList.lookup_eq_none.mp none), List.length_cons]
        omega
  have held : key ∈ (limiters.limiterFor key).2.keys := by
    rw [← AList.mem_keys, ← AList.lookup_isSome]
    unfold limiterFor
    split <;> simp_all
  rw [← Keyed.length_keys] at room ⊢
  rw [allow, AList.keys_insert, List.length_cons, List.length_erase_of_mem held]
  have some := List.length_pos_of_mem held
  omega

/-- The key has lost its limiter, or all those asked for since have one beside it. -/
def Crowded (limiters : Limiters limit burst) (key : String) (asked : List String) : Prop :=
  key ∉ limiters ∨ ∀ k ∈ key :: asked, k ∈ limiters

theorem Crowded.allow {asked : List String} (crowded : limiters.Crowded other asked) (ne : other ≠ key) (now : ℚ) :
    (limiters.allow key now).2.Crowded other (key :: asked) := by
  by_cases afresh : limiters.Afresh key
  · exact .inl fun member => (mem_allow.mp member).elim ne fun kept => kept.1 afresh
  · refine crowded.imp (fun lost member => ?_) fun all k member => ?_
    · exact (mem_allow.mp member).elim ne fun kept => lost kept.2
    · rw [mem_allow]
      rcases List.mem_cons.mp member with rfl | member
      · exact .inr ⟨afresh, all k List.mem_cons_self⟩
      · rcases List.mem_cons.mp member with rfl | member
        · exact .inl rfl
        · exact .inr ⟨afresh, all k (List.mem_cons_of_mem _ member)⟩

/-- No map holds so many. -/
theorem Crowded.lost {asked : List String} (crowded : limiters.Crowded key asked)
    (bounded : limiters.entries.length ≤ maxAgentLimiters) (distinct : (key :: asked).Nodup)
    (many : maxAgentLimiters ≤ asked.length) : key ∉ limiters := by
  rcases crowded with lost | all
  · exact lost
  · have within := (List.subperm_of_subset distinct fun k member => all k member).length_le
    rw [List.length_cons, Keyed.length_keys] at within
    omega

end Limiters

/-! ## Calls -/

section Calls

variable {ρ : Type}

/-- A call of `allowRequest`. -/
structure ProxyCall (ρ : Type) where
  request : ρ
  host : String
  now : ℚ

/-- What a call answered, and which maps it started afresh. -/
structure ProxyAnswer (ρ : Type) where
  call : ProxyCall ρ
  allowed : Bool
  clientsAfresh : Bool
  agentsAfresh : Bool

variable (clientKey : Option (ρ → String))

/-- The key of the client's limiter. -/
def ProxyCall.key (c : ProxyCall ρ) : String := c.host ++ " " ++ clientOf clientKey c.request

def AgentProxy.answer (p : AgentProxy) (c : ProxyCall ρ) : ProxyAnswer ρ × AgentProxy :=
  ({  call := c
      allowed := (p.allowRequest clientKey c.request c.host c.now).1
      clientsAfresh := p.clientLimiters.Afresh (c.key clientKey)
      -- the agent's limiter is asked only where the client's allows
      agentsAfresh := (p.clientLimiters.allow (c.key clientKey) c.now).1 && decide (p.limiters.Afresh c.host) },
    (p.allowRequest clientKey c.request c.host c.now).2)

/-- The calls of a proxy that has just started. -/
def proxyAnswers (calls : List (ProxyCall ρ)) : List (ProxyAnswer ρ) :=
  answers (AgentProxy.answer clientKey) {} calls

/-- The request of the client was allowed to go to the agent. -/
def ProxyAnswer.to (client host : String) (a : ProxyAnswer ρ) : Bool :=
  a.allowed && decide (a.call.host = host ∧ clientOf clientKey a.call.request = client)

/-- A request was allowed to go to the agent. -/
def ProxyAnswer.toAgent (host : String) (a : ProxyAnswer ρ) : Bool := a.allowed && decide (a.call.host = host)

variable {clientKey}

theorem clientLimiters_answer (p : AgentProxy) (c : ProxyCall ρ) :
    (p.answer clientKey c).2.clientLimiters = (p.clientLimiters.allow (c.key clientKey) c.now).2 := by
  simp only [AgentProxy.answer, AgentProxy.allowRequest, ProxyCall.key]
  split <;> rfl

theorem allowed_answer (p : AgentProxy) (c : ProxyCall ρ) :
    (p.answer clientKey c).1.allowed =
      ((p.clientLimiters.allow (c.key clientKey) c.now).1 && (p.limiters.allow c.host c.now).1) := by
  simp only [AgentProxy.answer, AgentProxy.allowRequest, ProxyCall.key]
  split <;> simp_all

theorem limiters_answer (p : AgentProxy) (c : ProxyCall ρ) :
    (p.answer clientKey c).2.limiters =
      if (p.clientLimiters.allow (c.key clientKey) c.now).1 then (p.limiters.allow c.host c.now).2 else p.limiters := by
  simp only [AgentProxy.answer, AgentProxy.allowRequest, ProxyCall.key]
  split <;> simp_all

theorem client_potential (client host : String) :
    Potential (AgentProxy.answer clientKey) agentClientRequestRate agentClientRequestBurst ProxyCall.now
      (ProxyAnswer.to clientKey client host) ProxyAnswer.clientsAfresh
      fun p => p.clientLimiters.left (host ++ " " ++ client) where
  nonneg p t := Limiters.left_nonneg (by norm_num [agentClientRequestRate]) _ _ t
  le_burst p t := Limiters.left_le _ _ t
  grows p _ _ le := Limiters.left_grows (by norm_num [agentClientRequestRate]) _ _ le
  pays p c := by
    rw [clientLimiters_answer]
    refine Limiters.pays (by norm_num [agentClientRequestRate]) p.clientLimiters c.now ?_ decide_eq_true
    intro taken
    simp only [ProxyAnswer.to, allowed_answer, Bool.and_eq_true, decide_eq_true_eq] at taken
    obtain ⟨⟨allowed, -⟩, rfl, rfl⟩ := taken
    exact ⟨rfl, allowed⟩

theorem agent_potential (host : String) :
    Potential (AgentProxy.answer clientKey) agentRequestRate agentRequestBurst ProxyCall.now
      (ProxyAnswer.toAgent host) ProxyAnswer.agentsAfresh fun p => p.limiters.left host where
  nonneg p t := Limiters.left_nonneg (by norm_num [agentRequestRate]) _ _ t
  le_burst p t := Limiters.left_le _ _ t
  grows p _ _ le := Limiters.left_grows (by norm_num [agentRequestRate]) _ _ le
  pays p c := by
    rw [limiters_answer]
    cases asked : (p.clientLimiters.allow (c.key clientKey) c.now).1 with
    | false =>
      -- the agent's limiter is not asked
      have refused : (p.answer clientKey c).1.toAgent host = false := by
        simp [ProxyAnswer.toAgent, allowed_answer, asked]
      have spared : (p.answer clientKey c).1.agentsAfresh = false := by simp [AgentProxy.answer, asked]
      simp [refused, spared]
    | true =>
      refine Limiters.pays (by norm_num [agentRequestRate]) p.limiters c.now ?_ ?_
      · intro taken
        simp only [ProxyAnswer.toAgent, allowed_answer, Bool.and_eq_true, decide_eq_true_eq] at taken
        obtain ⟨⟨-, allowed⟩, rfl⟩ := taken
        exact ⟨rfl, allowed⟩
      · intro afresh
        simpa [AgentProxy.answer, asked] using afresh

theorem clientsAfresh_answers {calls : List (ProxyCall ρ)}
    (room : (calls.map (ProxyCall.key clientKey)).toFinset.card ≤ maxAgentLimiters) :
    ∀ a ∈ proxyAnswers clientKey calls, a.clientsAfresh = false := by
  let keys := (calls.map (ProxyCall.key clientKey)).toFinset
  refine forall_answers _ (fun p : AgentProxy => ∀ k ∈ p.clientLimiters, k ∈ keys) ?_
    fun k member => absurd member (AList.notMem_empty k)
  intro c member p held
  have asked : c.key clientKey ∈ keys := by simpa [keys] using ⟨c, member, rfl⟩
  refine ⟨decide_eq_false (Limiters.not_afresh room held asked), ?_⟩
  rw [clientLimiters_answer]
  exact Limiters.held_allow held asked c.now

theorem agentsAfresh_answers {calls : List (ProxyCall ρ)}
    (room : (calls.map ProxyCall.host).toFinset.card ≤ maxAgentLimiters) :
    ∀ a ∈ proxyAnswers clientKey calls, a.agentsAfresh = false := by
  let hosts := (calls.map ProxyCall.host).toFinset
  refine forall_answers _ (fun p : AgentProxy => ∀ k ∈ p.limiters, k ∈ hosts) ?_
    fun k member => absurd member (AList.notMem_empty k)
  intro c member p held
  have asked : c.host ∈ hosts := by simpa [hosts] using ⟨c, member, rfl⟩
  refine ⟨by simp [AgentProxy.answer, Limiters.not_afresh room held asked], ?_⟩
  rw [limiters_answer]
  split
  · exact Limiters.held_allow held asked c.now
  · exact held

/-- The answers of an interval. -/
abbrev interval (clientKey : Option (ρ → String)) (start T : ℚ) (calls : List (ProxyCall ρ)) :
    List (ProxyAnswer ρ) :=
  within (fun a => a.call.now) start (start + T) (proxyAnswers clientKey calls)

/-- In an interval of `T` seconds a client and an agent get a burst, one more for each time their map is started
afresh in it, and the rate. A map is never started afresh while there is room for all the keys of the run. -/
theorem requests_bounded (clientKey : Option (ρ → String)) {calls : List (ProxyCall ρ)}
    (sorted : calls.Pairwise fun c d => c.now ≤ d.now) (start : ℚ) {T : ℚ} (span : 0 ≤ T) :
    (∀ client host,
      ((interval clientKey start T calls).countP (ProxyAnswer.to clientKey client host) : ℚ) ≤
        agentClientRequestBurst * (1 + (interval clientKey start T calls).countP ProxyAnswer.clientsAfresh) +
          agentClientRequestRate * T) ∧
    (∀ host,
      ((interval clientKey start T calls).countP (ProxyAnswer.toAgent host) : ℚ) ≤
        agentRequestBurst * (1 + (interval clientKey start T calls).countP ProxyAnswer.agentsAfresh) +
          agentRequestRate * T) ∧
    ((calls.map (ProxyCall.key clientKey)).toFinset.card ≤ maxAgentLimiters →
      ∀ a ∈ proxyAnswers clientKey calls, a.clientsAfresh = false) ∧
    ((calls.map ProxyCall.host).toFinset.card ≤ maxAgentLimiters →
      ∀ a ∈ proxyAnswers clientKey calls, a.agentsAfresh = false) := by
  refine ⟨fun client host => ?_, fun host => ?_, clientsAfresh_answers, agentsAfresh_answers⟩
  · exact (client_potential client host).within_le (fun _ _ => rfl) (by norm_num [agentClientRequestRate])
      sorted start span {}
  · exact (agent_potential host).within_le (fun _ _ => rfl) (by norm_num [agentRequestRate]) sorted start span {}

theorem requests_bounded_pair :
    ((interval (some id) 0 1 [⟨"a", "h", 0⟩, ⟨"a", "h", 1⟩]).countP (ProxyAnswer.to (some id) "a" "h") : ℚ) ≤
      agentClientRequestBurst *
          (1 + (interval (some id) 0 1 [⟨"a", "h", 0⟩, ⟨"a", "h", 1⟩]).countP ProxyAnswer.clientsAfresh) +
        agentClientRequestRate * 1 :=
  (requests_bounded (some id) (by simp) 0 zero_le_one).1 "a" "h"

/-! ## A client that is crowded out -/

theorem length_after (clientKey : Option (ρ → String)) (calls : List (ProxyCall ρ)) {p : AgentProxy}
    (bounded : p.clientLimiters.entries.length ≤ maxAgentLimiters) :
    (after (AgentProxy.answer clientKey) p calls).clientLimiters.entries.length ≤ maxAgentLimiters := by
  induction calls generalizing p with
  | nil => exact bounded
  | cons c calls ih =>
    apply ih
    rw [clientLimiters_answer]
    exact Limiters.length_allow bounded c.now

/-- Calls that leave the client and the agent alone take nothing from the agent and crowd the client out. -/
theorem after_others {key host : String} {now : ℚ} {others : List (ProxyCall ρ)}
    (apart : ∀ c ∈ others, key ≠ c.key clientKey ∧ host ≠ c.host ∧ c.now = now) {p : AgentProxy}
    {asked : List String} (crowded : p.clientLimiters.Crowded key asked) :
    let q := after (AgentProxy.answer clientKey) p others
    q.clientLimiters.Crowded key ((others.map (ProxyCall.key clientKey)).reverse ++ asked) ∧
      p.limiters.left host now ≤ q.limiters.left host now := by
  induction others generalizing p asked with
  | nil => exact ⟨crowded, le_rfl⟩
  | cons c others ih =>
    obtain ⟨key_ne, host_ne, at_now⟩ := apart c List.mem_cons_self
    have crowded' : (p.answer clientKey c).2.clientLimiters.Crowded key (c.key clientKey :: asked) := by
      rw [clientLimiters_answer]
      exact crowded.allow key_ne c.now
    have kept : p.limiters.left host now ≤ (p.answer clientKey c).2.limiters.left host now := by
      rw [limiters_answer, ← at_now]
      split
      · exact Limiters.left_le_allow_ne host_ne c.now
      · exact le_rfl
    obtain ⟨more, least⟩ := ih (fun d later => apart d (List.mem_cons_of_mem c later)) crowded'
    refine ⟨?_, kept.trans least⟩
    rw [List.map_cons, List.reverse_cons, List.append_assoc]
    exact more

/-- As many calls as both limiters have tokens for are allowed. -/
theorem countP_replicate (clientKey : Option (ρ → String)) {client host : String} {c : ProxyCall ρ} (of_client : clientOf clientKey c.request = client)
    (of_host : c.host = host) (n : Nat) {p : AgentProxy} (enough : n ≤ p.clientLimiters.left (c.key clientKey) c.now)
    (enough' : n ≤ p.limiters.left c.host c.now) :
    (answers (AgentProxy.answer clientKey) p (List.replicate n c)).countP (ProxyAnswer.to clientKey client host) = n ∧
      p.limiters.left c.host c.now - n ≤
        (after (AgentProxy.answer clientKey) p (List.replicate n c)).limiters.left c.host c.now := by
  induction n generalizing p with
  | zero => simp [answers, after]
  | succ n ih =>
    push_cast at enough enough'
    have some : (0 : ℚ) ≤ n := Nat.cast_nonneg n
    have client_ok : (p.clientLimiters.allow (c.key clientKey) c.now).1 = true := by
      rw [Limiters.allow_fst]
      exact decide_eq_true (by linarith)
    have agent_ok : (p.limiters.allow c.host c.now).1 = true := by
      rw [Limiters.allow_fst]
      exact decide_eq_true (by linarith)
    have client_pays := Limiters.allow_pays p.clientLimiters (c.key clientKey) c.now
    have agent_pays := Limiters.allow_pays p.limiters c.host c.now
    rw [client_ok, if_pos rfl, ← clientLimiters_answer] at client_pays
    have limiters : (p.answer clientKey c).2.limiters = (p.limiters.allow c.host c.now).2 := by
      rw [limiters_answer, if_pos client_ok]
    rw [agent_ok, if_pos rfl, ← limiters] at agent_pays
    obtain ⟨counted, left⟩ := ih (by linarith) (by linarith)
    have marked : (p.answer clientKey c).1.to clientKey client host = true := by
      have allowed : (p.answer clientKey c).1.allowed = true := by rw [allowed_answer, client_ok, agent_ok]; rfl
      simp only [ProxyAnswer.to, allowed, Bool.true_and, decide_eq_true_eq]
      exact ⟨of_host, of_client⟩
    constructor
    · rw [List.replicate_succ, answers, List.countP_cons_of_pos marked, counted]
    · rw [List.replicate_succ]
      push_cast
      exact le_trans (by linarith) left

/-- A client that has had its burst gets more at once when as many others as there are limiters ask in between. -/
theorem crowded_out (clientKey : Option (ρ → String)) {c : ProxyCall ρ} {others : List (ProxyCall ρ)}
    (distinct : (others.map (ProxyCall.key clientKey)).Nodup) (many : maxAgentLimiters ≤ others.length)
    (apart : ∀ d ∈ others, c.key clientKey ≠ d.key clientKey ∧ c.host ≠ d.host ∧ d.now = c.now) :
    agentClientRequestBurst <
      (proxyAnswers clientKey (List.replicate agentClientRequestBurst c ++ (others ++ [c]))).countP
        (ProxyAnswer.to clientKey (clientOf clientKey c.request) c.host) := by
  let p : AgentProxy := {}
  have fresh : p.clientLimiters.left (c.key clientKey) c.now = agentClientRequestBurst :=
    Limiters.left_of_notMem (AList.notMem_empty _) c.now
  have fresh_agent : p.limiters.left c.host c.now = agentRequestBurst :=
    Limiters.left_of_notMem (AList.notMem_empty _) c.now
  obtain ⟨first, agent_left⟩ := countP_replicate clientKey rfl rfl agentClientRequestBurst fresh.ge
    (by rw [fresh_agent]; norm_num [agentRequestBurst, agentClientRequestBurst])
  have bounded := length_after clientKey (List.replicate agentClientRequestBurst c) (p := p) (Nat.zero_le _)
  rw [proxyAnswers, answers_append, answers_append, List.countP_append, List.countP_append, first]
  generalize after (AgentProxy.answer clientKey) p (List.replicate agentClientRequestBurst c) = q at agent_left bounded
  -- the others take the client's limiter away
  have crowded : q.clientLimiters.Crowded (c.key clientKey) [] := by
    simpa [Limiters.Crowded] using (em _).symm
  obtain ⟨crowded', agent_left'⟩ := after_others apart crowded
  rw [List.append_nil] at crowded'
  have unique : (c.key clientKey :: (others.map (ProxyCall.key clientKey)).reverse).Nodup := by
    rw [List.nodup_cons, List.nodup_reverse, List.mem_reverse, List.mem_map]
    exact ⟨fun ⟨d, member, same⟩ => (apart d member).1 same.symm, distinct⟩
  have lost := crowded'.lost (length_after clientKey others bounded) unique (by simpa using many)
  have again : ((1 : Nat) : ℚ) ≤ (after (AgentProxy.answer clientKey) q others).clientLimiters.left (c.key clientKey) c.now := by
    rw [Limiters.left_of_notMem lost]
    norm_num [agentClientRequestBurst]
  have again_agent : ((1 : Nat) : ℚ) ≤ (after (AgentProxy.answer clientKey) q others).limiters.left c.host c.now := by
    rw [fresh_agent] at agent_left
    norm_num [agentRequestBurst, agentClientRequestBurst] at agent_left
    push_cast
    linarith
  have last := (countP_replicate clientKey rfl rfl 1 again again_agent).1
  rw [List.replicate_one] at last
  omega

theorem sorted_of_now {now : ℚ} {calls : List (ProxyCall ρ)} (at_now : ∀ c ∈ calls, c.now = now) :
    calls.Pairwise fun c d => c.now ≤ d.now :=
  List.pairwise_of_forall_mem_list fun c first d second => by rw [at_now c first, at_now d second]

theorem interval_of_now {now : ℚ} {calls : List (ProxyCall ρ)} (at_now : ∀ c ∈ calls, c.now = now) :
    interval clientKey now 0 calls = proxyAnswers clientKey calls := by
  have all : ∀ a ∈ proxyAnswers clientKey calls, a.call.now = now :=
    forall_answers _ (fun _ => True) (fun c member _ _ => ⟨at_now c member, trivial⟩) trivial
  apply List.filter_eq_self.mpr
  intro a member
  simp [all a member]

end Calls

def lastCall : ProxyCall String := { request := "a", host := "h", now := 0 }

/-- The client asks for other agents, as many as there are limiters. -/
def otherAgents : List (ProxyCall String) :=
  (List.range maxAgentLimiters).map fun i =>
    { request := "a", host := String.ofList (List.replicate (i + 2) 'x'), now := 0 }

/-- A burst, other agents, and the first agent once more. -/
def crowd : List (ProxyCall String) :=
  List.replicate agentClientRequestBurst lastCall ++ (otherAgents ++ [lastCall])

theorem keys_otherAgents : (otherAgents.map (ProxyCall.key (some id))).Nodup ∧
    ∀ c ∈ otherAgents, lastCall.key (some id) ≠ c.key (some id) ∧ "h" ≠ c.host ∧ c.now = 0 := by
  constructor
  · rw [otherAgents, List.map_map]
    apply List.nodup_range.map
    intro i j same
    simpa [ProxyCall.key] using congrArg String.length same
  · intro c member
    obtain ⟨i, -, rfl⟩ := List.mem_map.mp member
    refine ⟨fun same => ?_, fun same => ?_, rfl⟩
    · have length : "h a".length = 3 := by decide
      have client : "a".length = 1 := by decide
      have lengths := congrArg String.length same
      have separator : " ".length = 1 := by decide
      simp [ProxyCall.key, lastCall, clientOf, length, client, separator] at lengths
    · have length : "h".length = 1 := by decide
      have lengths := congrArg String.length same
      simp [length] at lengths

theorem crowd_exceeds :
    crowd.Pairwise (fun c d => c.now ≤ d.now) ∧
      (agentClientRequestBurst + agentClientRequestRate * 0 : ℚ) <
        (interval (some id) 0 0 crowd).countP (ProxyAnswer.to (some id) "a" "h") := by
  have at_zero : ∀ c ∈ crowd, c.now = 0 := by
    simp [crowd, otherAgents, lastCall, or_imp, forall_and]
  refine ⟨sorted_of_now at_zero, ?_⟩
  obtain ⟨distinct, apart⟩ := keys_otherAgents
  have more := crowded_out (some id) distinct (by simp [otherAgents]) apart
  rw [interval_of_now at_zero, mul_zero, add_zero]
  exact_mod_cast more

end Dockgraph.Api
