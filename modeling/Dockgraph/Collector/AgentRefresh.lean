import Dockgraph.Collector.AgentPool
import Mathlib.Data.List.Induction

/-!
# Confirmed agents

Every address in `verified` was confirmed by the last round that could read the task list: such a
round writes the map anew, and the others only keep part of it.
-/
namespace Dockgraph.Collector

variable {Addr : Type} [DecidableEq Addr] (net : Netip Addr)

namespace Round

/-- The round reads the task list. -/
def Reads (r : Round) : Prop := ¬r.Keeps ∧ r.tasks ≠ none

instance (r : Round) : Decidable r.Reads := inferInstanceAs (Decidable (_ ∧ _))

/-- An agent at the address names the node. -/
def Names (r : Round) (addr nodeID : String) : Prop :=
  ∃ i info, r.addrs[i]? = some addr ∧ r.info i = some info ∧ info.nodeID = nodeID

omit [DecidableEq Addr] in
/-- A running task on the node holds the IP address. -/
def Holds (r : Round) (nodeID addr : String) : Prop :=
  ∃ tasks ip, r.tasks = some tasks ∧ hostIP net addr = some ip ∧
    ∃ t ∈ tasks, t.nodeID = nodeID ∧ ∃ cidr ∈ t.networksAttachments.flatten,
      (net.parsePrefix cidr).map net.unmap = some ip

theorem names_of_mem_infos {r : Round} {addr : String} {info : AgentInfo}
    (member : (addr, info) ∈ r.infos) : r.Names addr info.nodeID := by
  obtain ⟨⟨a, i⟩, listed, found⟩ := List.mem_filterMap.mp member
  obtain ⟨answer, kept, same⟩ := Option.map_eq_some_iff.mp found
  cases same
  have told := (Option.filter_eq_some_iff.mp kept).1
  have placed := List.mem_zipIdx_iff_getElem?.mp listed
  exact ⟨i, info, placed, told, rfl⟩

end Round

/-! ## One round -/

omit [DecidableEq Addr] in
theorem mem_taskAddresses {tasks : List Task} {ip : Addr} {nodeID : String}
    (member : (ip, nodeID) ∈ taskAddresses net tasks) :
    ∃ t ∈ tasks, t.nodeID = nodeID ∧ ∃ cidr ∈ t.networksAttachments.flatten,
      (net.parsePrefix cidr).map net.unmap = some ip := by
  obtain ⟨t, listed, attached⟩ := List.mem_flatMap.mp member
  obtain ⟨cidr, named, parsed⟩ := List.mem_filterMap.mp attached
  obtain ⟨raw, prefix_, same⟩ := Option.map_eq_some_iff.mp parsed
  cases same
  exact ⟨t, listed, rfl, cidr, named, by rw [prefix_]; rfl⟩

namespace AgentPool

/-- What is confirmed was told by an agent, and passed the check. -/
theorem of_lookup_confirm {confirmed : String → String → Bool} {infos : List (String × AgentInfo)}
    {addr nodeID : String} (found : (confirm confirmed infos).lookup addr = some nodeID) :
    confirmed addr nodeID = true ∧ ∃ info, (addr, info) ∈ infos ∧ info.nodeID = nodeID := by
  induction infos using List.reverseRecOn with
  | nil => cases found
  | append_singleton infos told ih =>
    rw [confirm, List.foldl_append, List.foldl_cons, List.foldl_nil] at found
    change AList.lookup addr (if confirmed told.1 told.2.nodeID = true then
      (confirm confirmed infos).insert told.1 told.2.nodeID else confirm confirmed infos) = _ at found
    have earlier (found : (confirm confirmed infos).lookup addr = some nodeID) :
        confirmed addr nodeID = true ∧
          ∃ info, (addr, info) ∈ infos ++ [told] ∧ info.nodeID = nodeID := by
      obtain ⟨passed, info, member, named⟩ := ih found
      exact ⟨passed, info, List.mem_append_left _ member, named⟩
    split at found
    next passed =>
      by_cases here : addr = told.1
      · rw [here, AList.lookup_insert] at found
        cases found
        exact ⟨here ▸ passed, told.2, by simp [here], rfl⟩
      · rw [AList.lookup_insert_ne here] at found
        exact earlier found
    · exact earlier found

/-- An agent is entered under the node its address is verified for. -/
theorem verified_of_lookup_agents {verified : Claims} {infos : List (String × AgentInfo)}
    {nodeID : String} {agent : AgentEndpoint}
    (found : (infos.foldl (addAgent verified) ∅).lookup nodeID = some agent) :
    verified.lookup agent.addr = some nodeID := by
  induction infos using List.reverseRecOn with
  | nil => cases found
  | append_singleton infos told ih =>
    rw [List.foldl_append, List.foldl_cons, List.foldl_nil, addAgent] at found
    split at found
    · exact ih found
    next confirmed =>
      split at found
      · exact ih found
      · by_cases here : nodeID = told.2.nodeID
        · rw [here, AList.lookup_insert] at found
          cases found
          rw [here]
          exact not_not.mp confirmed
        · rw [AList.lookup_insert_ne here] at found
          exact ih found

theorem verifyNodes_unread {p : AgentPool} (set : p.cfg.tasks = true) (infos : List (String × AgentInfo)) :
    p.verifyNodes net infos none =
      confirm (fun addr nodeID => p.verified.lookup addr = some nodeID) infos := by
  simp only [verifyNodes, set, Bool.not_true, Bool.false_eq_true, if_false]

theorem verifyNodes_read {p : AgentPool} (set : p.cfg.tasks = true) (infos : List (String × AgentInfo))
    (tasks : List Task) :
    p.verifyNodes net infos (some tasks) = confirm (fun addr nodeID =>
      (hostIP net addr).any fun ip => (ip, nodeID) ∈ taskAddresses net tasks) infos := by
  simp only [verifyNodes, set, Bool.not_true, Bool.false_eq_true, if_false]

/-! ## Any number of rounds -/

/-- The last round that read the task list. -/
def lastRead (rounds : List Round) : Option Round := (rounds.filter fun r => r.Reads).getLast?

/-- The pool after these rounds. -/
def afterRounds (cfg : AgentPoolConfig) (rounds : List Round) : AgentPool :=
  rounds.foldl (refresh net) (newAgentPool cfg)

/-- What a round leaves behind, and the last one that read the task list. -/
structure Confirmed (p : AgentPool) (last : Option Round) : Prop where
  verified : ∀ addr nodeID, p.verified.lookup addr = some nodeID →
    ∃ r, last = some r ∧ r.Names addr nodeID ∧ r.Holds net nodeID addr
  agents : ∀ nodeID agent, p.agents.lookup nodeID = some agent →
    p.verified.lookup agent.addr = some nodeID
  tasks : p.cfg.tasks = true

theorem confirmed_refresh {p : AgentPool} {last : Option Round} (before : Confirmed net p last)
    (r : Round) : Confirmed net (p.refresh net r) (if r.Reads then some r else last) := by
  unfold refresh
  split
  next keeps => rwa [if_neg fun reads => reads.1 keeps]
  next asks =>
    refine ⟨fun addr nodeID found => ?_, fun nodeID agent => verified_of_lookup_agents, before.tasks⟩
    change (p.verifyNodes net r.infos r.tasks).lookup addr = some nodeID at found
    cases listed : r.tasks with
    | none =>
      -- earlier confirmations stand
      rw [listed, verifyNodes_unread net before.tasks] at found
      obtain ⟨kept, -⟩ := of_lookup_confirm found
      rw [if_neg fun reads => reads.2 listed]
      exact before.verified addr nodeID (of_decide_eq_true kept)
    | some tasks =>
      rw [listed, verifyNodes_read net before.tasks] at found
      obtain ⟨passed, info, member, rfl⟩ := of_lookup_confirm found
      rw [Option.any_eq_true] at passed
      obtain ⟨ip, host, held⟩ := passed
      rw [if_pos ⟨asks, by rw [listed]; exact Option.some_ne_none tasks⟩]
      exact ⟨r, rfl, Round.names_of_mem_infos member, tasks, ip, listed, host,
        mem_taskAddresses net (of_decide_eq_true held)⟩

theorem lastRead_concat (rounds : List Round) (r : Round) :
    lastRead (rounds ++ [r]) = if r.Reads then some r else lastRead rounds := by
  rw [lastRead, List.filter_append, List.filter_singleton]
  by_cases reads : r.Reads
  · simp [reads]
  · simp [reads, lastRead]

theorem confirmed_afterRounds {cfg : AgentPoolConfig} (set : cfg.tasks = true) (rounds : List Round) :
    Confirmed net (afterRounds net cfg rounds) (lastRead rounds) := by
  induction rounds using List.reverseRecOn with
  | nil => exact ⟨nofun, nofun, set⟩
  | append_singleton rounds r ih =>
    rw [afterRounds, List.foldl_append, List.foldl_cons, List.foldl_nil, lastRead_concat]
    exact confirmed_refresh net ih r

end AgentPool

open AgentPool

/-- An agent in the pool named its node, and a running task there held its IP address, in the last
round that could read the task list; and no address serves two nodes. -/
theorem agents_confirmed (cfg : AgentPoolConfig) (set : cfg.tasks = true) (rounds : List Round)
    (nodeID : String) (agent : AgentEndpoint)
    (found : (afterRounds net cfg rounds).agents.lookup nodeID = some agent) :
    (∃ r, lastRead rounds = some r ∧ r.Names agent.addr nodeID ∧ r.Holds net nodeID agent.addr) ∧
      ∀ otherID other, (afterRounds net cfg rounds).agents.lookup otherID = some other →
        other.addr = agent.addr → otherID = nodeID := by
  have confirmed := confirmed_afterRounds net set rounds
  have verified := confirmed.agents nodeID agent found
  refine ⟨confirmed.verified _ _ verified, fun otherID other also same => ?_⟩
  have both := confirmed.agents otherID other also
  rw [same, verified] at both
  exact (Option.some.inj both).symm

/-- Addresses are taken as they are written. -/
def plainNet : Netip String where
  splitHost _ := none
  parseAddr := some
  parsePrefix := some
  unmap ip := ip

/-- One agent, and a task of its node with its address; and then the task list cannot be read. -/
def confirmedRounds : List Round :=
  [{ addrs := ["10.0.0.2"], info := fun _ => some ⟨"node-b", "b"⟩,
      tasks := some [{ id := "t1", nodeID := "node-b", networksAttachments := [["10.0.0.2"]] }] },
    { addrs := ["10.0.0.2"], info := fun _ => some ⟨"node-b", "b"⟩, tasks := none }]

theorem agents_confirmed_twice :
    (∃ r, lastRead confirmedRounds = some r ∧ r.Names "10.0.0.2" "node-b" ∧
        r.Holds plainNet "node-b" "10.0.0.2") ∧
      ∀ otherID other,
        (afterRounds plainNet {} confirmedRounds).agents.lookup otherID = some other →
          other.addr = "10.0.0.2" → otherID = "node-b" :=
  agents_confirmed plainNet {} rfl confirmedRounds "node-b" ⟨"10.0.0.2", "b"⟩ (by decide)

end Dockgraph.Collector
