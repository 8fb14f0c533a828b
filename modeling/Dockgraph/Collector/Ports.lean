import Dockgraph.Collector.Types
import Dockgraph.Library.SortBy
import Mathlib.Data.Prod.Lex
import Mathlib.Data.String.Basic

/-!
# Ranges of ports (`collector/ports.go`)

Runs of mappings are gathered in one pass over the sorted list, which looks at the last range only.
So two runs that interleave in the sort order break each other up.
-/
namespace Dockgraph.Collector

/-- Whether a mapping of one port comes next in the run. -/
def PortMapping.continuedBy (m p : PortMapping) : Bool :=
  let single := p.hostEnd = 0 && p.containerEnd = 0
  let hostRange := m.hostEnd ≠ 0 && m.containerEnd = 0
  single && !hostRange && m.host ≠ 0 && p.protocol = m.protocol &&
    p.host = max m.host m.hostEnd + 1 && p.container = max m.container m.containerEnd + 1

/-- The first sort's order: protocol, host port, container port. -/
def PortMapping.rank (p : PortMapping) : String ×ₗ Int ×ₗ Int :=
  toLex (p.protocol, toLex (p.host, p.container))

/-- The second sort's order. -/
def PortMapping.ports (p : PortMapping) : Int ×ₗ Int := toLex (p.host, p.container)

/-- Body of the loop over the sorted mappings. -/
def addPort (ranges : List PortMapping) (p : PortMapping) : List PortMapping :=
  match ranges.getLast? with
  | some m =>
    if m.continuedBy p then ranges.dropLast ++ [{ m with hostEnd := p.host, containerEnd := p.container }]
    else ranges ++ [p]
  | none => ranges ++ [p]

def portRanges (ports : List PortMapping) : List PortMapping :=
  if ports.length < 2 then ports
  else
    let sorted := ports.mergeSort fun a b => a.rank ≤ b.rank
    let ranges := sorted.foldl addPort []
    ranges.mergeSort fun a b => a.ports ≤ b.ports

/-! ## What a mapping stands for -/

/-- A mapping of one port, as `PortRanges` is given it. -/
structure SinglePort (p : PortMapping) : Prop where
  host : 0 ≤ p.host ∧ p.host ≤ 65535
  container : 1 ≤ p.container ∧ p.container ≤ 65535
  hostEnd : p.hostEnd = 0
  containerEnd : p.containerEnd = 0

/-- A port of the run that starts with a mapping. -/
def PortMapping.nth (m : PortMapping) (i : Nat) : PortMapping :=
  { host := m.host + i, container := m.container + i, protocol := m.protocol }

/-- The mappings of one port that a mapping stands for. -/
def PortMapping.expand (m : PortMapping) : List PortMapping :=
  if m.containerEnd = 0 then [m]
  else (List.range (m.containerEnd - m.container + 1).toNat).map m.nth

/-- The first ports of a published mapping come right after the last ones of another. -/
def Continues (m n : PortMapping) : Prop :=
  m.host ≠ 0 ∧ n.protocol = m.protocol ∧ n.host = max m.host m.hostEnd + 1 ∧
    n.container = max m.container m.containerEnd + 1

/-- Nothing is lost, and no run is in two mappings. -/
structure WellRanged (ports : List PortMapping) : Prop where
  lossless : ((portRanges ports).flatMap PortMapping.expand).Perm ports
  sorted : (portRanges ports).Pairwise fun a b => a.host ≤ b.host
  maximal : ∀ m ∈ portRanges ports, ∀ n ∈ portRanges ports, ¬Continues m n

/-- A mapping that the sort puts between the two. -/
def Separates (x p q : PortMapping) : Prop :=
  x.protocol = p.protocol ∧
    (x.host = p.host ∧ p.container < x.container ∨ x.host = q.host ∧ x.container < q.container)

/-- Mappings that continue each other are sorted side by side. -/
def Unseparated (ports : List PortMapping) : Prop :=
  ∀ p ∈ ports, ∀ q ∈ ports, Continues p q → ∀ x ∈ ports, ¬Separates x p q

instance (m n : PortMapping) : Decidable (Continues m n) := inferInstanceAs (Decidable (_ ∧ _))

instance (x p q : PortMapping) : Decidable (Separates x p q) := inferInstanceAs (Decidable (_ ∧ _))

instance (ports : List PortMapping) : Decidable (Unseparated ports) :=
  inferInstanceAs (Decidable (∀ p ∈ ports, ∀ q ∈ ports, Continues p q → ∀ x ∈ ports, ¬Separates x p q))

/-- The mapping stands for a run of `k + 1` ports. -/
structure Spans (m : PortMapping) (k : Nat) : Prop where
  host : 0 ≤ m.host
  container : 1 ≤ m.container
  ends : k = 0 ∧ m.hostEnd = 0 ∧ m.containerEnd = 0 ∨
    0 < k ∧ m.host ≠ 0 ∧ m.hostEnd = m.host + k ∧ m.containerEnd = m.container + k

section Spans

variable {m p : PortMapping} {k : Nat}

theorem SinglePort.spans (single : SinglePort p) : Spans p 0 where
  host := single.host.1
  container := single.container.1
  ends := .inl ⟨rfl, single.hostEnd, single.containerEnd⟩

theorem Spans.last_host (spans : Spans m k) : max m.host m.hostEnd = m.host + k := by
  have host := spans.host
  rcases spans.ends with ⟨rfl, hostEnd, -⟩ | ⟨-, -, hostEnd, -⟩ <;> omega

theorem Spans.last_container (spans : Spans m k) : max m.container m.containerEnd = m.container + k := by
  have container := spans.container
  rcases spans.ends with ⟨rfl, -, containerEnd⟩ | ⟨-, -, -, containerEnd⟩ <;> omega

theorem Spans.expand_eq (spans : Spans m k) : m.expand = (List.range (k + 1)).map m.nth := by
  have container := spans.container
  unfold PortMapping.expand
  rcases spans.ends with ⟨rfl, hostEnd, containerEnd⟩ | ⟨positive, -, -, containerEnd⟩
  · rw [if_pos containerEnd]
    cases m
    simp_all [PortMapping.nth]
  · have count : (m.containerEnd - m.container + 1).toNat = k + 1 := by omega
    rw [if_neg (by omega), count]

theorem Spans.continues_iff (spans : Spans m k) :
    Continues m p ↔ m.host ≠ 0 ∧ p.protocol = m.protocol ∧ p.host = m.host + (k + 1 : Nat) ∧
      p.container = m.container + (k + 1 : Nat) := by
  rw [Continues, spans.last_host, spans.last_container]
  constructor
  · rintro ⟨published, same, host, container⟩
    exact ⟨published, same, by omega, by omega⟩
  · rintro ⟨published, same, host, container⟩
    exact ⟨published, same, by omega, by omega⟩

theorem Spans.continuedBy_iff (spans : Spans m k) (single : SinglePort p) :
    m.continuedBy p = true ↔ Continues m p := by
  have noHostRange : ¬(m.hostEnd ≠ 0 ∧ m.containerEnd = 0) := by
    rintro ⟨hostEnd, containerEnd⟩
    have container := spans.container
    rcases spans.ends with ⟨-, none, -⟩ | ⟨-, -, -, none⟩
    · exact hostEnd none
    · omega
  have ranged : (m.hostEnd ≠ 0 && m.containerEnd = 0) = false := by
    rw [Bool.eq_false_iff]
    simpa using noHostRange
  simp only [PortMapping.continuedBy, single.hostEnd, single.containerEnd, ranged, Continues]
  simp [and_assoc]

/-- A mapping of one port is what its ports say. -/
theorem SinglePort.eq_nth (single : SinglePort p) {i : Nat} (protocol : p.protocol = m.protocol)
    (host : p.host = m.host + i) (container : p.container = m.container + i) : p = m.nth i := by
  have hostEnd := single.hostEnd
  have containerEnd := single.containerEnd
  cases p
  simp_all [PortMapping.nth]

/-- The run goes one further. -/
theorem Spans.grow (spans : Spans m k) (single : SinglePort p) (continues : Continues m p) :
    Spans { m with hostEnd := p.host, containerEnd := p.container } (k + 1) ∧
      PortMapping.expand { m with hostEnd := p.host, containerEnd := p.container } = m.expand ++ [p] := by
  obtain ⟨published, protocol, host, container⟩ := spans.continues_iff.mp continues
  have grown : Spans { m with hostEnd := p.host, containerEnd := p.container } (k + 1) :=
    ⟨spans.host, spans.container, .inr ⟨k.succ_pos, published, host, container⟩⟩
  refine ⟨grown, ?_⟩
  rw [grown.expand_eq, spans.expand_eq, List.range_succ, List.map_append,
    single.eq_nth protocol host container]
  rfl

end Spans

/-! ## One pass -/

/-- What the loop has gathered of the mappings it has seen. -/
structure Gathered (seen ranges : List PortMapping) : Prop where
  spans : ∀ m ∈ ranges, ∃ k, Spans m k
  expanded : ranges.flatMap PortMapping.expand = seen
  apart : ranges.IsChain fun m n => ¬Continues m n

theorem Gathered.add {seen ranges : List PortMapping} (gathered : Gathered seen ranges) {p : PortMapping}
    (single : SinglePort p) : Gathered (seen ++ [p]) (addPort ranges p) := by
  have alone : PortMapping.expand p = [p] := if_pos single.containerEnd
  rcases List.eq_nil_or_concat' ranges with rfl | ⟨front, m, rfl⟩
  · refine ⟨fun n member => ?_, ?_, List.isChain_singleton _⟩
    · rw [List.mem_singleton.mp member]
      exact ⟨0, single.spans⟩
    · rw [← gathered.expanded]
      exact (List.append_nil _).trans alone
  · obtain ⟨k, spans⟩ := gathered.spans m (List.mem_append_right _ (List.mem_singleton_self m))
    have others : ∀ n ∈ front, ∃ k, Spans n k := fun n member =>
      gathered.spans n (List.mem_append_left _ member)
    obtain ⟨chain, -, last⟩ := List.isChain_append.mp gathered.apart
    rw [addPort, List.getLast?_concat]
    dsimp only
    by_cases continues : Continues m p
    · obtain ⟨grown, expand⟩ := spans.grow single continues
      rw [if_pos ((spans.continuedBy_iff single).mpr continues), List.dropLast_concat]
      refine ⟨fun n member => ?_, ?_, List.isChain_append.mpr ⟨chain, List.isChain_singleton _, ?_⟩⟩
      · rcases List.mem_append.mp member with old | new
        · exact others n old
        · rw [List.mem_singleton.mp new]
          exact ⟨k + 1, grown⟩
      · rw [← gathered.expanded, List.flatMap_append, List.flatMap_append, List.flatMap_singleton,
          List.flatMap_singleton, expand, List.append_assoc]
      -- the grown range starts where it did
      · intro n before m' grew
        rw [← Option.some.inj grew]
        exact last n before m rfl
    · rw [if_neg fun continued => continues ((spans.continuedBy_iff single).mp continued)]
      refine ⟨fun n member => ?_, ?_, List.isChain_append.mpr
        ⟨gathered.apart, List.isChain_singleton _, ?_⟩⟩
      · rcases List.mem_append.mp member with old | new
        · exact gathered.spans n old
        · rw [List.mem_singleton.mp new]
          exact ⟨0, single.spans⟩
      · rw [List.flatMap_append, gathered.expanded, List.flatMap_singleton, alone]
      · intro n final q next
        rw [List.getLast?_concat] at final
        rw [← Option.some.inj final, ← Option.some.inj next]
        exact continues

theorem gathered_foldl {sorted : List PortMapping} (singles : ∀ p ∈ sorted, SinglePort p) :
    Gathered sorted (sorted.foldl addPort []) := by
  -- by mappings, from the last
  induction sorted using List.reverseRecOn with
  | nil => exact ⟨by simp, rfl, List.IsChain.nil⟩
  | append_singleton seen p ih =>
    rw [List.foldl_append]
    exact (ih fun q member => singles q (List.mem_append_left _ member)).add
      (singles p (List.mem_append_right _ (List.mem_singleton_self p)))

/-! ## The order of the mappings -/

theorem rank_lt_iff {a b : PortMapping} :
    a.rank < b.rank ↔ a.protocol < b.protocol ∨
      a.protocol = b.protocol ∧ (a.host < b.host ∨ a.host = b.host ∧ a.container < b.container) := by
  simp [PortMapping.rank, Prod.Lex.toLex_lt_toLex]

theorem SinglePort.rank_inj {a b : PortMapping} (first : SinglePort a) (second : SinglePort b)
    (same : a.rank = b.rank) : a = b := by
  have parts : a.protocol = b.protocol ∧ a.host = b.host ∧ a.container = b.container := by
    simpa [PortMapping.rank] using same
  obtain ⟨protocol, host, container⟩ := parts
  have ends : a.hostEnd = b.hostEnd := first.hostEnd.trans second.hostEnd.symm
  have ends' : a.containerEnd = b.containerEnd := first.containerEnd.trans second.containerEnd.symm
  cases a
  cases b
  simp_all

theorem Continues.step {p q : PortMapping} (single : SinglePort p) (continues : Continues p q) :
    q.protocol = p.protocol ∧ q.host = p.host + 1 ∧ q.container = p.container + 1 := by
  obtain ⟨-, protocol, host, container⟩ := single.spans.continues_iff.mp continues
  exact ⟨protocol, host, container⟩

/-- Between two mappings that continue each other. -/
theorem between_iff {p q x : PortMapping} (protocol : q.protocol = p.protocol) (host : q.host = p.host + 1) :
    p.rank < x.rank ∧ x.rank < q.rank ↔ Separates x p q := by
  rw [rank_lt_iff, rank_lt_iff, Separates, protocol]
  constructor
  · rintro ⟨above | ⟨same, above⟩, below | ⟨same', below⟩⟩
    · exact absurd above (lt_asymm below)
    · exact absurd above (same' ▸ lt_irrefl _)
    · exact absurd below (same ▸ lt_irrefl _)
    · exact ⟨same.symm, by omega⟩
  · rintro ⟨same, near | near⟩
    · exact ⟨.inr ⟨same.symm, .inr ⟨near.1.symm, near.2⟩⟩, .inr ⟨same, .inl (by omega)⟩⟩
    · exact ⟨.inr ⟨same.symm, .inl (by omega)⟩, .inr ⟨same, .inr near⟩⟩

theorem lt_of_continues {p q : PortMapping} (single : SinglePort p) (continues : Continues p q) :
    p.rank < q.rank := by
  obtain ⟨protocol, host, -⟩ := continues.step single
  exact rank_lt_iff.mpr (.inr ⟨protocol.symm, .inl (by omega)⟩)

section Sorted

variable {sorted ranges : List PortMapping} (gathered : Gathered sorted ranges)
  (singles : ∀ p ∈ sorted, SinglePort p) (strict : sorted.Pairwise fun a b => a.rank < b.rank)

section

include gathered

theorem Gathered.nth_mem {m : PortMapping} (member : m ∈ ranges) {k i : Nat} (spans : Spans m k)
    (inside : i ≤ k) : m.nth i ∈ sorted := by
  rw [← gathered.expanded]
  refine List.mem_flatMap.mpr ⟨m, member, ?_⟩
  rw [spans.expand_eq]
  exact List.mem_map_of_mem (List.mem_range.mpr (Nat.lt_succ_of_le inside))

theorem Gathered.exists_nth {x : PortMapping} (member : x ∈ sorted) :
    ∃ m ∈ ranges, ∃ k i, Spans m k ∧ i ≤ k ∧ x = m.nth i := by
  rw [← gathered.expanded] at member
  obtain ⟨m, listed, part⟩ := List.mem_flatMap.mp member
  obtain ⟨k, spans⟩ := gathered.spans m listed
  rw [spans.expand_eq] at part
  obtain ⟨i, inside, rfl⟩ := List.mem_map.mp part
  exact ⟨m, listed, k, i, spans, Nat.le_of_lt_succ (List.mem_range.mp inside), rfl⟩

include strict

/-- All ports of one range come before all of another. -/
theorem Gathered.before_or_after {m n : PortMapping} (first : m ∈ ranges) (second : n ∈ ranges)
    (other : m ≠ n) : (∀ x ∈ m.expand, ∀ y ∈ n.expand, x.rank < y.rank) ∨
      ∀ y ∈ n.expand, ∀ x ∈ m.expand, y.rank < x.rank := by
  rw [← gathered.expanded, List.pairwise_flatMap] at strict
  let apart (m n : PortMapping) : Prop := (∀ x ∈ m.expand, ∀ y ∈ n.expand, x.rank < y.rank) ∨
    ∀ y ∈ n.expand, ∀ x ∈ m.expand, y.rank < x.rank
  have : Std.Symm apart := ⟨fun _ _ either => either.symm⟩
  have pairs : ranges.Pairwise apart := strict.2.imp .inl
  exact pairs.forall first second other

/-- No mapping comes between two ports of one range that are next to each other. -/
theorem Gathered.not_between {m x : PortMapping} (member : m ∈ ranges) {k i : Nat} (spans : Spans m k)
    (inside : i + 1 ≤ k) (listed : x ∈ sorted) : ¬Separates x (m.nth i) (m.nth (i + 1)) := by
  intro separates
  obtain ⟨above, below⟩ := (between_iff (p := m.nth i) (q := m.nth (i + 1)) rfl
    (by simp [PortMapping.nth]; omega)).mpr separates
  have mem {j : Nat} (le : j ≤ k) : m.nth j ∈ m.expand := by
    rw [spans.expand_eq]
    exact List.mem_map_of_mem (List.mem_range.mpr (Nat.lt_succ_of_le le))
  obtain ⟨n, here, l, j, spans', inside', rfl⟩ := gathered.exists_nth listed
  by_cases same : m = n
  · subst same
    obtain ⟨-, near | near⟩ := separates <;> simp [PortMapping.nth] at near <;> omega
  · have part : n.nth j ∈ n.expand := by
      rw [spans'.expand_eq]
      exact List.mem_map_of_mem (List.mem_range.mpr (Nat.lt_succ_of_le inside'))
    rcases gathered.before_or_after strict member here same with before | after
    · exact lt_asymm below (before _ (mem inside) _ part)
    · exact lt_asymm above (after _ part _ (mem (Nat.le_of_succ_le inside)))

/-- Behind a range come the ports that are sorted behind its last one. -/
theorem Gathered.mem_behind {front back : List PortMapping} {m x : PortMapping}
    (split : ranges = front ++ m :: back) {k : Nat} (spans : Spans m k) :
    x ∈ back.flatMap PortMapping.expand ↔ x ∈ sorted ∧ (m.nth k).rank < x.rank := by
  have parts : sorted = front.flatMap PortMapping.expand ++ (List.range k).map m.nth ++
      m.nth k :: back.flatMap PortMapping.expand := by
    rw [← gathered.expanded, split, List.flatMap_append, List.flatMap_cons, spans.expand_eq, List.range_succ,
      List.map_append, List.append_assoc, List.append_assoc]
    rfl
  rw [parts] at strict ⊢
  obtain ⟨-, later, earlier⟩ := List.pairwise_append.mp strict
  constructor
  · intro behind
    have listed := List.mem_append_right (front.flatMap PortMapping.expand ++ (List.range k).map m.nth)
      (List.mem_cons_of_mem (m.nth k) behind)
    exact ⟨listed, (List.pairwise_cons.mp later).1 x behind⟩
  · rintro ⟨listed, above⟩
    rcases List.mem_append.mp listed with before | after
    · exact absurd above (lt_asymm (earlier x before _ List.mem_cons_self))
    · rcases List.mem_cons.mp after with rfl | behind
      · exact absurd above (lt_irrefl _)
      · exact behind

/-- The first port of a range comes first of all that are there and behind it. -/
theorem Gathered.first_le {front back : List PortMapping} {r x : PortMapping}
    (split : ranges = front ++ r :: back) {j : Nat} (spans : Spans r j)
    (here : x ∈ (r :: back).flatMap PortMapping.expand) : x = r.nth 0 ∨ (r.nth 0).rank < x.rank := by
  have head : r.expand = r.nth 0 :: (List.range j).map fun i => r.nth (i + 1) := by
    rw [spans.expand_eq, List.range_succ_eq_map, List.map_cons, List.map_map]
    rfl
  rw [← gathered.expanded, split, List.flatMap_append] at strict
  rw [List.flatMap_cons, head, List.cons_append] at here strict
  rcases List.mem_cons.mp here with first | rest
  · exact .inl first
  · exact .inr ((List.pairwise_cons.mp (List.pairwise_append.mp strict).2.1).1 x rest)

include singles

/-- The last port of a run and the first one of the run that continues it. -/
theorem Gathered.continues_of_unseparated (kept : Unseparated sorted) {m n : PortMapping}
    (first : m ∈ ranges) (second : n ∈ ranges) : ¬Continues m n := by
  intro continues
  obtain ⟨k, spans⟩ := gathered.spans m first
  obtain ⟨l, spans'⟩ := gathered.spans n second
  obtain ⟨published, protocol, host, container⟩ := spans.continues_iff.mp continues
  have last := gathered.nth_mem first spans le_rfl
  have next := gathered.nth_mem second spans' (Nat.zero_le l)
  have start := spans.host
  have step : Continues (m.nth k) (n.nth 0) := by
    refine (singles _ last).spans.continues_iff.mpr ⟨?_, protocol, ?_, ?_⟩ <;>
      simp only [PortMapping.nth] <;> omega
  obtain ⟨front, back, split⟩ := List.append_of_mem first
  have behind : n.nth 0 ∈ back.flatMap PortMapping.expand :=
    (gathered.mem_behind strict split spans).mpr ⟨next, lt_of_continues (singles _ last) step⟩
  cases back with
  | nil => cases behind
  | cons r back =>
    -- the range next to `m` starts with the port that continues it, or with one that is between
    have split' : ranges = (front ++ [m]) ++ r :: back := by rw [split, List.append_assoc, List.singleton_append]
    have listed : r ∈ ranges := split' ▸ List.mem_append_right _ List.mem_cons_self
    obtain ⟨j, spans''⟩ := gathered.spans r listed
    rcases gathered.first_le strict split' spans'' behind with same | high
    · have apart : ¬Continues m r := (List.isChain_append_cons_cons.mp (split ▸ gathered.apart)).2.1
      have ports : n.host = r.host ∧ n.container = r.container ∧ n.protocol = r.protocol := by
        simpa [PortMapping.nth] using same
      refine apart (spans.continues_iff.mpr ⟨published, ?_⟩)
      rw [← ports.1, ← ports.2.1, ← ports.2.2]
      exact ⟨protocol, host, container⟩
    · have here : r.nth 0 ∈ (r :: back).flatMap PortMapping.expand := by
        rw [List.flatMap_cons, spans''.expand_eq]
        exact List.mem_append_left _ (List.mem_map_of_mem (List.mem_range.mpr (Nat.succ_pos j)))
      obtain ⟨member, low⟩ := (gathered.mem_behind strict split spans).mp here
      obtain ⟨protocol', host', -⟩ := step.step (singles _ last)
      exact kept _ last _ next step _ member ((between_iff protocol' host').mp ⟨low, high⟩)

theorem Gathered.unseparated_of_maximal (maximal : ∀ m ∈ ranges, ∀ n ∈ ranges, ¬Continues m n) :
    Unseparated sorted := by
  intro p first q second continues x listed separates
  obtain ⟨protocol, host, container⟩ := continues.step (singles p first)
  have published := continues.1
  have single := singles q second
  obtain ⟨m, here, k, i, spans, inside, rfl⟩ := gathered.exists_nth first
  obtain ⟨n, there, l, j, spans', inside', rfl⟩ := gathered.exists_nth second
  by_cases final : i = k
  · cases j with
    | zero =>
      refine maximal m here n there (spans.continues_iff.mpr ?_)
      have start := spans.host
      simp only [PortMapping.nth] at published protocol host container
      refine ⟨?_, protocol, by omega, by omega⟩
      rcases spans.ends with ⟨none, -⟩ | ⟨-, some, -⟩
      · omega
      · exact some
    | succ j =>
      have before : n.nth j = m.nth i := by
        simp only [PortMapping.nth] at protocol host container
        simp only [PortMapping.nth, PortMapping.mk.injEq, true_and]
        exact ⟨by omega, by omega, protocol⟩
      exact gathered.not_between strict there spans' inside' listed (before ▸ separates)
  · have after : n.nth j = m.nth (i + 1) := by
      simp only [PortMapping.nth] at protocol host container
      simp only [PortMapping.nth, PortMapping.mk.injEq, true_and]
      exact ⟨by omega, by omega, protocol⟩
    exact gathered.not_between strict here spans (by omega) listed (after ▸ separates)

end

end Sorted

/-! ## All mappings -/

theorem portRanges_eq (ports : List PortMapping) :
    portRanges ports =
      ((ports.mergeSort fun a b => a.rank ≤ b.rank).foldl addPort []).mergeSort
        fun a b => a.ports ≤ b.ports := by
  rw [portRanges]
  split
  next few =>
    match ports, few with
    | [], _ => simp
    | [p], _ => simp [addPort]
  next => rfl

section Ports

variable {ports : List PortMapping} (distinct : ports.Nodup) (singles : ∀ p ∈ ports, SinglePort p)
include distinct singles

theorem strict_sorted :
    (ports.mergeSort fun a b => a.rank ≤ b.rank).Pairwise fun a b => a.rank < b.rank :=
  SortBy.pairwise_lt PortMapping.rank (distinct.map_on fun p first q second same =>
    (singles p first).rank_inj (singles q second) same)

omit distinct in
theorem gathered_sorted :
    Gathered (ports.mergeSort fun a b => a.rank ≤ b.rank)
      ((ports.mergeSort fun a b => a.rank ≤ b.rank).foldl addPort []) :=
  gathered_foldl fun p member => singles p (List.mem_mergeSort.mp member)

omit distinct in
theorem portRanges_lossless : ((portRanges ports).flatMap PortMapping.expand).Perm ports := by
  rw [portRanges_eq]
  refine ((List.mergeSort_perm _ _).flatMap_right _).trans ?_
  rw [(gathered_sorted singles).expanded]
  exact List.mergeSort_perm _ _

omit distinct singles in
theorem portRanges_sorted : (portRanges ports).Pairwise fun a b => a.host ≤ b.host := by
  rw [portRanges_eq]
  refine (SortBy.pairwise_le PortMapping.ports _).imp fun {a b} le => ?_
  rcases Prod.Lex.toLex_le_toLex.mp le with less | ⟨same, -⟩
  · exact less.le
  · exact same.le

theorem maximal_iff : (∀ m ∈ portRanges ports, ∀ n ∈ portRanges ports, ¬Continues m n) ↔
    Unseparated ports := by
  have same : Unseparated (ports.mergeSort fun a b => a.rank ≤ b.rank) ↔ Unseparated ports := by
    simp only [Unseparated, List.mem_mergeSort]
  have gathered := gathered_sorted singles
  have strict := strict_sorted distinct singles
  have sorted : ∀ p ∈ ports.mergeSort fun a b => a.rank ≤ b.rank, SinglePort p := fun p member =>
    singles p (List.mem_mergeSort.mp member)
  simp only [portRanges_eq, List.mem_mergeSort]
  rw [← same]
  constructor
  · exact gathered.unseparated_of_maximal sorted strict
  · exact fun kept m first n second => gathered.continues_of_unseparated sorted strict kept first second

/-- The ranges are maximal as long as no third mapping is sorted between two that belong together. -/
theorem wellRanged_iff : WellRanged ports ↔ Unseparated ports := by
  rw [← maximal_iff distinct singles]
  exact ⟨fun ranged => ranged.maximal, fun maximal =>
    ⟨portRanges_lossless singles, portRanges_sorted, maximal⟩⟩

end Ports

theorem wellRanged_iff_run :
    WellRanged [{ host := 8001, container := 81 }, { host := 8000, container := 80 }] := by
  refine (wellRanged_iff (by decide) fun p member => ?_).mpr (by decide)
  rcases List.mem_cons.mp member with rfl | rest
  · exact ⟨by decide, by decide, rfl, rfl⟩
  · rw [List.mem_singleton.mp rest]
    exact ⟨by decide, by decide, rfl, rfl⟩

/-- Port 8000 of two addresses goes to different ports, as port 8001 does: two runs that interleave. -/
theorem interleaved_apart :
    ¬∀ ports : List PortMapping, ports.Nodup → (∀ p ∈ ports, SinglePort p) → WellRanged ports := by
  intro all
  let p : PortMapping := { host := 8000, container := 80 }
  let q : PortMapping := { host := 8001, container := 81 }
  let x : PortMapping := { host := 8000, container := 90 }
  have singles : ∀ m ∈ [p, x, q], SinglePort m := by
    intro m member
    simp only [List.mem_cons, List.not_mem_nil, or_false] at member
    rcases member with rfl | rfl | rfl <;> exact ⟨by decide, by decide, rfl, rfl⟩
  have distinct : [p, x, q].Nodup := by decide
  have kept := (maximal_iff distinct singles).mp (all _ distinct singles).maximal
  exact kept p (by simp) q (by simp) ⟨by decide, rfl, by decide, by decide⟩ x (by simp)
    ⟨rfl, .inl ⟨rfl, by decide⟩⟩

end Dockgraph.Collector
