import Dockgraph.Api.Limits
import Dockgraph.Library.Keyed
import Mathlib.Algebra.BigOperators.Ring.Finset
import Mathlib.Data.Multiset.Count

/-!
# Slots balance

A limiter counts a bounded multiset of clients, one for each slot that is held. A party's step moves
the limiters and the slots it holds together.
-/
namespace Dockgraph.Api

/-! ## A limiter and its holders -/

/-- The limiter counts these holders, within its bounds. -/
structure SlotLimiter.Counts (l : SlotLimiter) (holders : Multiset String) : Prop where
  total : l.total = holders.card
  perClient : ∀ client n,
    l.perClient.lookup client = some n ↔ 0 < n ∧ n = holders.count client
  within : l.total ≤ l.maxTotal
  withinClient : ∀ client n, l.perClient.lookup client = some n → n ≤ l.maxPerClient

namespace SlotLimiter

variable {l : SlotLimiter} {holders : Multiset String} {client : String}

/-- The client's count is that of its slots. -/
theorem Counts.held (counts : l.Counts holders) (client : String) :
    l.held client = holders.count client := by
  rw [SlotLimiter.held]
  cases found : l.perClient.lookup client with
  | some n => exact ((counts.perClient client n).mp found).2
  | none =>
    rcases Nat.eq_zero_or_pos (holders.count client) with zero | pos
    · simp [zero]
    · have listed := (counts.perClient client (holders.count client)).mpr ⟨by omega, rfl⟩
      rw [found] at listed
      cases listed

theorem Counts.acquire {taken : SlotLimiter} (counts : l.Counts holders)
    (took : l.acquire client = some taken) :
    taken.Counts (client ::ₘ holders) ∧ taken.maxTotal = l.maxTotal ∧
      taken.maxPerClient = l.maxPerClient := by
  have held := counts.held client
  simp only [SlotLimiter.acquire] at took
  split at took
  · cases took
  next room =>
    split at took
    · cases took
    next roomClient =>
      cases took
      refine ⟨⟨?_, fun other n => ?_, ?_, fun other n listed => ?_⟩, rfl, rfl⟩
      · simp [counts.total]
      · by_cases same : other = client
        · subst same
          simp only [AList.lookup_insert, Option.some.injEq, held, Multiset.count_cons_self]
          omega
        · simp only [AList.lookup_insert_ne same, Multiset.count_cons_of_ne same, counts.perClient]
      · simp only
        omega
      · by_cases same : other = client
        · subst same
          simp only [AList.lookup_insert, Option.some.injEq] at listed
          simp only
          omega
        · rw [AList.lookup_insert_ne same] at listed
          exact counts.withinClient other n listed

theorem Counts.release (counts : l.Counts (client ::ₘ holders)) : (l.release client).Counts holders := by
  have held := counts.held client
  have total := counts.total
  rw [Multiset.count_cons_self] at held
  rw [Multiset.card_cons] at total
  have others (other : String) (apart : other ≠ client) (n : Int) :
      l.perClient.lookup other = some n ↔ 0 < n ∧ n = holders.count other := by
    rw [counts.perClient, Multiset.count_cons_of_ne apart]
  have lookup_other (other : String) (apart : other ≠ client) :
      (l.release client).perClient.lookup other = l.perClient.lookup other := by
    simp only [SlotLimiter.release]
    split
    · exact AList.lookup_erase_ne apart
    · exact AList.lookup_insert_ne apart
  have perClient (other : String) (n : Int) : (l.release client).perClient.lookup other = some n ↔
      0 < n ∧ n = holders.count other := by
    by_cases same : other = client
    · subst same
      simp only [SlotLimiter.release]
      split
      · simp only [AList.lookup_erase, reduceCtorEq, false_iff]
        omega
      · simp only [AList.lookup_insert, Option.some.injEq]
        omega
    · rw [lookup_other other same, others other same]
  refine ⟨?_, perClient, ?_, fun other n listed => ?_⟩
  · simp only [SlotLimiter.release]
    omega
  · have within := counts.within
    simp only [SlotLimiter.release]
    omega
  · by_cases same : other = client
    · subst same
      obtain ⟨pos, count⟩ := (perClient other n).mp listed
      have before := counts.withinClient other (n + 1) ((counts.perClient other (n + 1)).mpr (by
        rw [Multiset.count_cons_self]; omega))
      simp only [SlotLimiter.release]
      omega
    · rw [lookup_other other same] at listed
      exact counts.withinClient other n listed

/-- The per-client counts sum up to the total. -/
theorem Counts.sum_perClient (counts : l.Counts holders) :
    (Keyed.values l.perClient).sum = l.total := by
  have clients : l.perClient.keys.toFinset = holders.toFinset := by
    ext client
    rw [List.mem_toFinset, Multiset.mem_toFinset, ← AList.mem_keys, ← AList.lookup_isSome,
      Option.isSome_iff_exists]
    constructor
    · rintro ⟨n, found⟩
      obtain ⟨pos, count⟩ := (counts.perClient client n).mp found
      exact Multiset.count_pos.mp (by omega)
    · intro member
      exact ⟨holders.count client, (counts.perClient client _).mpr
        ⟨by exact_mod_cast Multiset.count_pos.mpr member, rfl⟩⟩
  have values : Keyed.values l.perClient =
      l.perClient.keys.map fun client => (holders.count client : Int) := by
    rw [Keyed.values, AList.keys, List.keys, List.map_map]
    refine List.map_congr_left fun entry listed => ?_
    exact ((counts.perClient entry.1 entry.2).mp (AList.mem_lookup_iff.mpr listed)).2
  rw [values, ← List.sum_toFinset _ l.perClient.keys_nodup, clients, counts.total,
    ← Multiset.toFinset_sum_count_eq, Nat.cast_sum]

theorem counts_new (maxTotal maxPerClient : Int) : (newSlotLimiter maxTotal maxPerClient).Counts 0 := by
  refine ⟨rfl, fun client n => ?_, ?_, fun client n listed => ?_⟩
  · simp only [newSlotLimiter, AList.lookup_empty, reduceCtorEq, Multiset.count_zero, false_iff]
    omega
  · simp only [newSlotLimiter, maxInt]
    split <;> omega
  · simp [newSlotLimiter] at listed

/-- Without holders a limiter is as it was made. -/
theorem Counts.eq_new {maxTotal maxPerClient : Int} (counts : l.Counts 0)
    (total : l.maxTotal = (newSlotLimiter maxTotal maxPerClient).maxTotal)
    (perClient : l.maxPerClient = (newSlotLimiter maxTotal maxPerClient).maxPerClient) :
    l = newSlotLimiter maxTotal maxPerClient := by
  have empty : l.perClient = ∅ := by
    refine AList.ext (List.eq_nil_iff_forall_not_mem.mpr fun entry listed => ?_)
    have count := (counts.perClient entry.1 entry.2).mp (AList.mem_lookup_iff.mpr listed)
    simp only [Multiset.count_zero] at count
    omega
  have none : l.total = 0 := counts.total
  cases l
  simp only at empty none total perClient
  subst empty none total perClient
  rfl

end SlotLimiter

/-! ## The parties and what they hold -/

namespace Slots

variable {ι : Type} [DecidableEq ι]

/-- The limiters whose slots a party holds, one entry for each slot. -/
def slotsOf : SlotPhase ι → List ι
  | .acquiring held _ | .serving held => held
  | .rollingBack left | .releasing left => left
  | .admitted l | .connected l => [l]
  | .connecting _ | .ended _ => []

/-- The party's client, once for each slot of the limiter that it holds. -/
def share (l : ι) (party : SlotParty ι) : Multiset String :=
  Multiset.replicate ((slotsOf party.phase).count l) party.client

/-- The clients that hold the limiter's slots. -/
def holders (parties : List (SlotParty ι)) (l : ι) : Multiset String :=
  (parties.map (share l)).sum

/-- Every limiter counts its holders, within the bounds it was made with. -/
structure Balanced (bounds : ι → Int × Int) (limiters : ι → SlotLimiter)
    (holders : ι → Multiset String) : Prop where
  counts : ∀ l, (limiters l).Counts (holders l)
  maxTotal : ∀ l, (limiters l).maxTotal = (newSlotLimiter (bounds l).1 (bounds l).2).maxTotal
  maxPerClient :
    ∀ l, (limiters l).maxPerClient = (newSlotLimiter (bounds l).1 (bounds l).2).maxPerClient

variable {bounds : ι → Int × Int} {limiters : ι → SlotLimiter}

theorem share_perm_cons_self {m : ι} {client : String} {phase phase' : SlotPhase ι}
    (more : (slotsOf phase').Perm (m :: slotsOf phase)) :
    share m ⟨client, phase'⟩ = client ::ₘ share m ⟨client, phase⟩ := by
  simp [share, more.count_eq, Multiset.replicate_succ]

theorem share_perm_cons_other {l m : ι} {client : String} {phase phase' : SlotPhase ι}
    (more : (slotsOf phase').Perm (m :: slotsOf phase)) (apart : l ≠ m) :
    share l ⟨client, phase'⟩ = share l ⟨client, phase⟩ := by
  simp [share, more.count_eq, apart.symm]

theorem Balanced.update {m : ι} {changed : SlotLimiter} {before after : ι → Multiset String}
    (balanced : Balanced bounds limiters before) (counts : changed.Counts (after m))
    (maxTotal : changed.maxTotal = (limiters m).maxTotal)
    (maxPerClient : changed.maxPerClient = (limiters m).maxPerClient)
    (others : ∀ l, l ≠ m → after l = before l) :
    Balanced bounds (Function.update limiters m changed) after := by
  refine ⟨fun l => ?_, fun l => ?_, fun l => ?_⟩
  all_goals by_cases same : l = m
  · subst same
    rwa [Function.update_self]
  · rw [Function.update_of_ne same, others l same]
    exact balanced.counts l
  · subst same
    rw [Function.update_self, maxTotal, balanced.maxTotal]
  · rw [Function.update_of_ne same, balanced.maxTotal]
  · subst same
    rw [Function.update_self, maxPerClient, balanced.maxPerClient]
  · rw [Function.update_of_ne same, balanced.maxPerClient]

section Steps

variable {others : ι → Multiset String} {m : ι} {client : String} {phase phase' : SlotPhase ι}

/-- A slot more for a party. -/
theorem Balanced.acquire {taken : SlotLimiter}
    (balanced : Balanced bounds limiters fun l => share l ⟨client, phase⟩ + others l)
    (took : (limiters m).acquire client = some taken)
    (more : (slotsOf phase').Perm (m :: slotsOf phase)) :
    Balanced bounds (Function.update limiters m taken)
      fun l => share l ⟨client, phase'⟩ + others l := by
  obtain ⟨counts, total, perClient⟩ := (balanced.counts m).acquire took
  refine balanced.update ?_ total perClient fun l apart => ?_
  · rwa [share_perm_cons_self more, Multiset.cons_add]
  · rw [share_perm_cons_other more apart]

/-- A slot less. -/
theorem Balanced.release
    (balanced : Balanced bounds limiters fun l => share l ⟨client, phase⟩ + others l)
    (more : (slotsOf phase).Perm (m :: slotsOf phase')) :
    Balanced bounds (Function.update limiters m ((limiters m).release client))
      fun l => share l ⟨client, phase'⟩ + others l := by
  have counts := balanced.counts m
  rw [share_perm_cons_self more, Multiset.cons_add] at counts
  exact balanced.update counts.release rfl rfl fun l apart => by rw [share_perm_cons_other more apart]

theorem Balanced.keep
    (balanced : Balanced bounds limiters fun l => share l ⟨client, phase⟩ + others l)
    (same : slotsOf phase' = slotsOf phase) :
    Balanced bounds limiters fun l => share l ⟨client, phase'⟩ + others l := by
  simpa only [share, same] using balanced

/-- A party's step keeps the balance with what the others hold. -/
theorem balanced_advance (closed : Bool)
    (balanced : Balanced bounds limiters fun l => share l ⟨client, phase⟩ + others l) :
    Balanced bounds (advance limiters client closed phase).1 fun l =>
      share l ⟨client, (advance limiters client closed phase).2⟩ + others l := by
  cases phase with
  | acquiring held rest =>
    cases rest with
    | nil => exact balanced.keep rfl
    | cons l rest =>
      simp only [advance]
      cases took : (limiters l).acquire client with
      | none => exact balanced.keep rfl
      | some taken => exact balanced.acquire took (List.perm_append_singleton l held)
  | rollingBack left =>
    cases left with
    | nil => exact balanced.keep rfl
    | cons l left => exact balanced.release (.refl _)
  | serving held => exact balanced.keep rfl
  | releasing left =>
    cases left with
    | nil => exact balanced.keep rfl
    | cons l left => exact balanced.release (.refl _)
  | connecting l =>
    simp only [advance]
    cases took : (limiters l).acquire client with
    | none => exact balanced.keep rfl
    | some taken => exact balanced.acquire took (.refl _)
  | admitted l =>
    cases closed with
    | true => exact balanced.release (.refl _)
    | false => exact balanced.keep rfl
  | connected l => exact balanced.release (.refl _)
  | ended refused => exact balanced.keep rfl

end Steps

/-! ## Runs -/

theorem holders_cons (party : SlotParty ι) (parties : List (SlotParty ι)) (l : ι) :
    holders (party :: parties) l = share l party + holders parties l := by
  simp [holders]

/-- A party and the others. -/
theorem holders_split {parties : List (SlotParty ι)} {i : Nat} {party : SlotParty ι}
    (here : parties[i]? = some party) (l : ι) :
    holders parties l = share l party + holders (parties.eraseIdx i) l := by
  obtain ⟨bound, rfl⟩ := List.getElem?_eq_some_iff.mp here
  have perm := List.getElem_cons_eraseIdx_perm bound
  rw [← holders_cons]
  exact (perm.map (share l)).sum_eq.symm

theorem balanced_step {s : Slots ι} (balanced : Balanced bounds s.limiters (holders s.parties))
    (event : SlotEvent ι) :
    Balanced bounds (step s event).limiters (holders (step s event).parties) := by
  have arrives (party : SlotParty ι) (none : slotsOf party.phase = []) :
      Balanced bounds s.limiters (holders (s.parties ++ [party])) := by
    have same : holders (s.parties ++ [party]) = holders s.parties := by
      funext l
      simp [holders, share, none]
    rwa [same]
  cases event with
  | request client limiters => exact arrives ⟨client, .acquiring [] limiters⟩ rfl
  | connect client limiter => exact arrives ⟨client, .connecting limiter⟩ rfl
  | next i closed =>
    simp only [step]
    split
    · exact balanced
    next party here =>
      have before : holders s.parties = fun l => share l party + holders (s.parties.eraseIdx i) l :=
        funext (holders_split here)
      rw [before] at balanced
      have after := balanced_advance closed balanced
      convert after using 1
      funext l
      obtain ⟨bound, -⟩ := List.getElem?_eq_some_iff.mp here
      rw [holders_split (List.getElem?_set_self bound), List.eraseIdx_set_eq]

theorem balanced_run (bounds : ι → Int × Int) (events : List (SlotEvent ι)) :
    Balanced bounds (events.foldl step (start bounds)).limiters
      (holders (events.foldl step (start bounds)).parties) := by
  induction events using List.reverseRecOn with
  | nil => exact ⟨fun l => SlotLimiter.counts_new _ _, fun _ => rfl, fun _ => rfl⟩
  | append_singleton events event ih =>
    rw [List.foldl_append]
    exact balanced_step ih event

/-- Every limiter counts exactly the slots that are held, whoever was refused in between. -/
theorem slots_balance (bounds : ι → Int × Int) (events : List (SlotEvent ι)) :
    let s := events.foldl step (start bounds)
    (Balanced bounds s.limiters (holders s.parties) ∧
      ∀ l, (Keyed.values (s.limiters l).perClient).sum = (s.limiters l).total) ∧
    (∀ i client, s.parties[i]? = some ⟨client, .ended true⟩ →
      Balanced bounds s.limiters (holders (s.parties.eraseIdx i))) ∧
    ((∀ party ∈ s.parties, ∃ refused, party.phase = .ended refused) →
      ∀ l, s.limiters l = newSlotLimiter (bounds l).1 (bounds l).2) := by
  intro s
  have balanced : Balanced bounds s.limiters (holders s.parties) := balanced_run bounds events
  refine ⟨⟨balanced, fun l => (balanced.counts l).sum_perClient⟩, fun i client refused => ?_,
    fun all l => ?_⟩
  · have same : holders (s.parties.eraseIdx i) = holders s.parties := by
      funext l
      simp [holders_split refused l, share, slotsOf]
    rwa [same]
  · have none : holders s.parties l = 0 := by
      refine List.sum_eq_zero fun clients listed => ?_
      obtain ⟨party, member, rfl⟩ := List.mem_map.mp listed
      obtain ⟨refused, phase⟩ := all party member
      simp [share, slotsOf, phase]
    have counts := balanced.counts l
    rw [none] at counts
    exact counts.eq_new (balanced.maxTotal l) (balanced.maxPerClient l)

end Slots

end Dockgraph.Api
