import Dockgraph.Collector.ExtendsBudget
import Dockgraph.Library.Forest
import Mathlib.Algebra.BigOperators.Group.List.Basic
import Mathlib.Algebra.Order.Ring.Int
import Mathlib.Order.Bounds.Basic

/-!
# Extends are resolved along their chains

An entry's chain passes through entries with a base only, each once, so the depth that ends the walk
round a cycle is never reached on a chain that ends by itself.
-/
namespace Dockgraph.Collector

open Keyed Relation

namespace SectionServices

section Chains

variable {N : Type}

/-- The entry extends the other. -/
def Extended (s : SectionServices N) (name other : String) : Prop := s.base.lookup name = some other

def Acyclic (s : SectionServices N) : Prop := ∀ name, ¬TransGen s.Extended name name

/-- Chains that go down a rank come back to no entry. -/
theorem acyclic_of_rank {s : SectionServices N} (rank : String → Nat)
    (down : ∀ name other, s.Extended name other → rank other < rank name) : s.Acyclic :=
  fun _ => Forest.no_cycle_of_rank rank down

/-- Only entries have a base. The base itself may be absent. -/
def Based (s : SectionServices N) : Prop := ∀ name ∈ s.base, name ∈ s.size

/-- The size of an entry with its extends applied. What is absent has no nodes. -/
inductive FullSize [Zero N] [Add N] (s : SectionServices N) : String → N → Prop
  | alone {name : String} : s.base.lookup name = none → s.FullSize name ((s.size.lookup name).getD 0)
  | extended {name other : String} {m : N} : s.Extended name other → s.FullSize other m →
      s.FullSize name ((s.size.lookup name).getD 0 + m)

/-- The entries with a base on the chain of a name. -/
noncomputable def rank (s : SectionServices N) (name : String) : Nat :=
  Set.ncard {k | k ∈ s.base ∧ ReflTransGen s.Extended name k}

variable {s : SectionServices N}

theorem finite_chain (name : String) : {k | k ∈ s.base ∧ ReflTransGen s.Extended name k}.Finite :=
  (List.finite_toSet s.base.keys).subset fun _ chain => chain.1

theorem rank_lt (acyclic : s.Acyclic) {name other : String} (extended : s.Extended name other) :
    s.rank other < s.rank name := by
  have based : name ∈ s.base := AList.lookup_isSome.mp (Option.isSome_of_eq_some extended)
  refine Set.ncard_lt_ncard ⟨fun k chain => ⟨chain.1, .head extended chain.2⟩, fun back => ?_⟩ (finite_chain name)
  -- a name on the chain of its own base would be on a cycle
  exact acyclic name (.head' extended (back ⟨based, .refl⟩).2)

theorem rank_le (based : s.Based) (name : String) : s.rank name ≤ s.size.keys.length := by
  have inside : {k | k ∈ s.base ∧ ReflTransGen s.Extended name k} ⊆ (s.size.keys.toFinset : Set String) :=
    fun k chain => List.mem_toFinset.mpr (based k chain.1)
  calc s.rank name ≤ Set.ncard (s.size.keys.toFinset : Set String) :=
        Set.ncard_le_ncard inside (Finset.finite_toSet _)
    _ = s.size.keys.length := by
        rw [Set.ncard_coe_finset, List.toFinset_card_of_nodup (AList.keys_nodup _)]

end Chains

/-! ## Every section that is built has its bases among its entries -/

section Built

variable {N : Type}

theorem based_empty : ({} : SectionServices N).Based := fun name member => absurd member (AList.notMem_empty name)

theorem Based.put {s : SectionServices N} (based : s.Based) (name : String) (size : N) (base : String) :
    (s.put name size base).Based := by
  intro other member
  change other ∈ s.size.insert name size
  change other ∈ (if base ≠ "" then s.base.insert name base else s.base) at member
  rw [AList.mem_insert]
  split at member
  · rw [AList.mem_insert] at member
    exact member.imp_right (based other)
  · exact .inr (based other member)

theorem Based.add [Zero N] [Add N] {s o : SectionServices N} (first : s.Based) (second : o.Based) :
    (s.add o).Based := by
  have written {α : Type} (entries : List ((_ : String) × α)) (value : AList (fun _ : String => α) → _ → α)
      (m : AList fun _ : String => α) (name : String) :
      name ∈ entries.foldl (fun m e => m.insert e.1 (value m e)) m ↔ name ∈ entries.keys ∨ name ∈ m := by
    induction entries generalizing m with
    | nil => simp
    | cons e rest ih =>
      rw [List.foldl_cons, ih, AList.mem_insert, List.keys_cons, List.mem_cons]
      tauto
  intro name member
  refine (written o.size.entries _ s.size name).mpr ?_
  exact ((written o.base.entries (fun _ e => e.2) s.base name).mp member).imp (second name) (first name)

end Built

end SectionServices

theorem based_countEntries {doc : Document} {entries : List (Entry doc.Ptr)} {counted after : NodeCounts doc.Ptr}
    {services built : SectionServices Int64} (based : services.Based)
    (done : doc.countEntries entries counted services = some (built, after)) : built.Based := by
  induction entries generalizing counted services with
  | nil =>
    cases done
    exact based
  | cons e rest ih =>
    obtain ⟨⟨size, counted⟩, -, more⟩ := Option.bind_eq_some_iff.mp done
    exact ih (based.put e.name size (extendsBase e.extend)) more

theorem based_documentServices {ord : RangeOrder} {doc : Document}
    {sections : List (String × SectionServices Int64)} (done : documentServices ord doc = some sections) :
    ∀ found ∈ sections, found.2.Based := by
  have loop (visited : List (String × List (Entry doc.Ptr))) (counted : NodeCounts doc.Ptr)
      {built : List (String × SectionServices Int64)} (done : doc.countSections visited counted = some built) :
      ∀ found ∈ built, found.2.Based := by
    induction visited generalizing counted built with
    | nil =>
      cases done
      simp
    | cons first rest ih =>
      obtain ⟨⟨services, after⟩, counts, more⟩ := Option.bind_eq_some_iff.mp done
      obtain ⟨others, counted, last⟩ := Option.bind_eq_some_iff.mp more
      cases last
      rw [List.forall_mem_cons]
      exact ⟨based_countEntries SectionServices.based_empty counts, ih after counted⟩
  exact loop _ _ done

namespace SectionServices

/-! ## One step of the walk -/

section Resolve

variable {N : Type} [Zero N] [Add N]

theorem resolve_known {s : SectionServices N} {depth : Nat} {name : String}
    {resolved : AList fun _ : String => N} {n : N} (known : resolved.lookup name = some n) :
    s.resolve depth name resolved = (n, resolved) := by
  rw [resolve.eq_def, known]

theorem resolve_extended {s : SectionServices N} {name other : String}
    {resolved : AList fun _ : String => N} (unknown : resolved.lookup name = none)
    (extended : s.base.lookup name = some other) (depth : Nat) :
    s.resolve (depth + 1) name resolved =
      let n := (s.size.lookup name).getD 0 + (s.resolve depth other resolved).1
      (n, (s.resolve depth other resolved).2.insert name n) := by
  rw [resolve, unknown, extended]

theorem resolve_alone {s : SectionServices N} {name : String} {resolved : AList fun _ : String => N}
    (unknown : resolved.lookup name = none) {depth : Nat}
    (alone : depth = 0 ∨ s.base.lookup name = none) :
    s.resolve depth name resolved =
      let n := (s.size.lookup name).getD 0
      (n, resolved.insert name n) := by
  rw [resolve.eq_def, unknown]
  rcases alone with rfl | alone
  · rfl
  · cases depth with
    | zero => rfl
    | succ depth => simp only [alone]

end Resolve

/-! ## Full sizes -/

section Full

variable {N : Type} [Zero N] [Add N] {s : SectionServices N}

theorem FullSize.unique {name : String} {m n : N} (first : s.FullSize name m) (second : s.FullSize name n) :
    m = n := by
  induction first generalizing n with
  | alone none =>
    cases second with
    | alone => rfl
    | extended extended => rw [Extended, none] at extended; cases extended
  | extended extended _ ih =>
    cases second with
    | alone none => rw [Extended, none] at extended; cases extended
    | extended extended' full =>
      rw [Extended, extended] at extended'
      cases extended'
      rw [ih full]

theorem exists_fullSize (acyclic : s.Acyclic) (name : String) : ∃ n, s.FullSize name n := by
  generalize level : s.rank name = r
  induction r using Nat.strong_induction_on generalizing name with
  | _ r ih =>
    subst level
    cases extended : s.base.lookup name with
    | none => exact ⟨_, .alone extended⟩
    | some other =>
      obtain ⟨m, full⟩ := ih _ (rank_lt acyclic extended) other rfl
      exact ⟨_, .extended extended full⟩

/-- The table of results holds no size that was cut off. -/
def Right (s : SectionServices N) (resolved : AList fun _ : String => N) : Prop :=
  ∀ name n, resolved.lookup name = some n → s.FullSize name n

theorem Right.insert {resolved : AList fun _ : String => N} (right : s.Right resolved) {name : String} {n : N}
    (full : s.FullSize name n) : s.Right (resolved.insert name n) := by
  intro other m found
  by_cases same : other = name
  · subst same
    rw [AList.lookup_insert] at found
    cases found
    exact full
  · rw [AList.lookup_insert_ne same] at found
    exact right other m found

theorem resolve_full (acyclic : s.Acyclic) {depth : Nat} {name : String} {resolved : AList fun _ : String => N}
    (right : s.Right resolved) (deep : s.rank name ≤ depth) :
    s.FullSize name (s.resolve depth name resolved).1 ∧ s.Right (s.resolve depth name resolved).2 := by
  cases known : resolved.lookup name with
  | some n =>
    rw [resolve_known known]
    exact ⟨right name n known, right⟩
  | none =>
    cases extended : s.base.lookup name with
    | none =>
      rw [resolve_alone known (.inr extended)]
      exact ⟨.alone extended, right.insert (.alone extended)⟩
    | some other =>
      -- the chain of the base is shorter, so there is depth left for it
      have shorter := rank_lt acyclic extended
      obtain ⟨depth, rfl⟩ := Nat.exists_eq_succ_of_ne_zero (show depth ≠ 0 by omega)
      have left : s.rank other ≤ depth := by omega
      obtain ⟨full, rest⟩ := resolve_full acyclic right left
      rw [resolve_extended known extended]
      exact ⟨.extended extended full, rest.insert (.extended extended full)⟩

theorem resolveEach_full (acyclic : s.Acyclic) (based : s.Based) (names : List String)
    {resolved : AList fun _ : String => N} (right : s.Right resolved) :
    List.Forall₂ s.FullSize names (s.resolveEach names resolved).1 ∧ s.Right (s.resolveEach names resolved).2 := by
  induction names generalizing resolved with
  | nil => exact ⟨.nil, right⟩
  | cons name rest ih =>
    obtain ⟨full, right⟩ := resolve_full acyclic right (rank_le based name)
    obtain ⟨fulls, right⟩ := ih right
    exact ⟨.cons full fulls, right⟩

theorem map_of_full {full : String → N} (fullSize : ∀ name, s.FullSize name (full name)) {names : List String}
    {ns : List N} (fulls : List.Forall₂ s.FullSize names ns) : ns = names.map full := by
  induction fulls with
  | nil => rfl
  | cons first _ ih => rw [List.map_cons, ← ih, first.unique (fullSize _)]

end Full

/-! ## What is copied, and the largest -/

theorem isGreatest_foldl_max {N : Type} [LinearOrder N] (ns : List N) (n : N) :
    IsGreatest {m | m ∈ n :: ns} (ns.foldl max n) := by
  induction ns generalizing n with
  | nil => simp
  | cons m ns ih =>
    obtain ⟨member, upper⟩ := ih (max n m)
    refine ⟨?_, fun k listed => ?_⟩
    · change ns.foldl max (max n m) ∈ n :: m :: ns
      rcases List.mem_cons.mp member with top | later
      · rw [top]
        rcases max_choice n m with left | right
        · simp [left]
        · simp [right]
      · exact List.mem_cons_of_mem n (List.mem_cons_of_mem m later)
    · have base : max n m ≤ ns.foldl max (max n m) := upper List.mem_cons_self
      change k ∈ n :: m :: ns at listed
      rcases List.mem_cons.mp listed with rfl | listed
      · exact (le_max_left k m).trans base
      · rcases List.mem_cons.mp listed with rfl | later
        · exact (le_max_right n k).trans base
        · exact upper (List.mem_cons_of_mem _ later)

section Walk

variable {N : Type} [Zero N] [Add N] [Max N] {s : SectionServices N} {full : String → N}

/-- What the walks come to, in the order of the maps. -/
theorem extendsCopies_of_full (acyclic : s.Acyclic) (based : s.Based) (fullSize : ∀ name, s.FullSize name (full name))
    (ord : RangeOrder) : s.extendsCopies ord =
      (((ord.visit s.base.entries).map fun e => full e.2).foldl (fun copied n => copied + n) 0,
        ((ord.visit s.size.keys).map full).foldl max 0) := by
  have empty : s.Right ∅ := by
    intro name n found
    simp at found
  obtain ⟨sizes, right⟩ := resolveEach_full acyclic based (ord.visit s.size.keys) empty
  obtain ⟨copies, -⟩ := resolveEach_full acyclic based ((ord.visit s.base.entries).map Sigma.snd) right
  rw [extendsCopies]
  simp only [map_of_full fullSize sizes, map_of_full fullSize copies]
  rw [List.map_map]
  rfl

end Walk

section Copies

theorem extendsCopies_eq {N : Type} [AddCommMonoid N] [Max N] {s : SectionServices N} {full : String → N}
    (acyclic : s.Acyclic) (based : s.Based) (fullSize : ∀ name, s.FullSize name (full name)) (ord : RangeOrder) :
    s.extendsCopies ord = ((s.base.entries.map fun e => full e.2).sum,
      ((ord.visit s.size.keys).map full).foldl max 0) := by
  have sum : ((ord.visit s.base.entries).map fun e => full e.2).sum = (s.base.entries.map fun e => full e.2).sum :=
    ((ord.perm s.base.entries).map _).sum_eq
  rw [extendsCopies_of_full acyclic based fullSize, ← sum, List.sum_eq_foldl]

variable {s : SectionServices ℤ}

theorem nonneg_full (counted : ∀ name n, s.size.lookup name = some n → 0 ≤ n) {name : String} {n : ℤ}
    (fullSize : s.FullSize name n) : 0 ≤ n := by
  have own (name : String) : 0 ≤ (s.size.lookup name).getD 0 := by
    cases found : s.size.lookup name with
    | none => exact le_rfl
    | some n => exact counted name n found
  induction fullSize with
  | alone _ => exact own _
  | extended _ _ ih => exact add_nonneg (own _) ih

/-- Without a cycle every entry is resolved along all of its chain, in any order of the maps: the sum is of
the bases' full sizes, and the largest is the greatest full size of an entry, sizes being counts. -/
theorem extendsCopies_full (s : SectionServices ℤ) (based : s.Based) (acyclic : s.Acyclic) :
    ∃ full : String → ℤ, (∀ name n, s.FullSize name n ↔ n = full name) ∧
      ∀ ord, (s.extendsCopies ord).1 = (s.base.entries.map fun e => full e.2).sum ∧
        IsGreatest {n | n = 0 ∨ ∃ name ∈ s.size, full name = n} (s.extendsCopies ord).2 ∧
        (s.size ≠ ∅ → (∀ name n, s.size.lookup name = some n → 0 ≤ n) →
          IsGreatest {n | ∃ name ∈ s.size, full name = n} (s.extendsCopies ord).2) := by
  choose full fullSize using exists_fullSize acyclic
  refine ⟨full, fun name n => ⟨fun other => other.unique (fullSize name), ?_⟩, fun ord => ?_⟩
  · rintro rfl
    exact fullSize name
  have sizes : {n | n = 0 ∨ ∃ name ∈ s.size, full name = n} = {n | n ∈ 0 :: (ord.visit s.size.keys).map full} := by
    ext n
    simp [AList.mem_keys]
  have greatest : IsGreatest {n | n = 0 ∨ ∃ name ∈ s.size, full name = n} (s.extendsCopies ord).2 := by
    rw [extendsCopies_eq acyclic based fullSize ord, sizes]
    exact isGreatest_foldl_max _ 0
  refine ⟨by rw [extendsCopies_eq acyclic based fullSize ord], greatest, fun some counted => ?_⟩
  refine ⟨?_, fun n resolved => greatest.2 (.inr resolved)⟩
  rcases greatest.1 with zero | resolved
  · -- no full size is below zero, so one of the entries has it
    obtain ⟨name, member⟩ : ∃ name, name ∈ s.size := by
      by_contra none
      rw [not_exists] at none
      exact some (AList.ext (List.eq_nil_of_map_eq_nil (List.eq_nil_iff_forall_not_mem.mpr none)))
    have upper := greatest.2 (.inr ⟨name, member, rfl⟩)
    have lower := nonneg_full counted (fullSize name)
    exact ⟨name, member, le_antisymm upper (by omega)⟩
  · exact resolved

end Copies

end SectionServices

/-- What a document's sections come to: the entries with a base, each with its base's full size in 64 bits. -/
theorem documentServices_copies {ord : RangeOrder} {doc : Document} {sections : List (String × SectionServices Int64)}
    (done : documentServices ord doc = some sections) {found : String × SectionServices Int64}
    (listed : found ∈ sections) (acyclic : found.2.Acyclic) :
    ∃ full : String → Int64, (∀ name n, found.2.FullSize name n ↔ n = full name) ∧
      ∀ ord : RangeOrder, found.2.extendsCopies ord =
        (((ord.visit found.2.base.entries).map fun e => full e.2).foldl (fun copied n => copied + n) 0,
          ((ord.visit found.2.size.keys).map full).foldl max 0) := by
  choose full fullSize using SectionServices.exists_fullSize acyclic
  refine ⟨full, fun name n => ⟨fun other => other.unique (fullSize name), ?_⟩, fun ord => ?_⟩
  · rintro rfl
    exact fullSize name
  · exact SectionServices.extendsCopies_of_full acyclic (based_documentServices done found listed) fullSize ord

namespace SectionServices

/-- A service that extends another, which extends one that is absent. -/
def threeLinks : SectionServices ℤ := (({} : SectionServices ℤ).put "web" 3 "base").put "base" 5 "gone"

theorem extendsCopies_full_threeLinks : ∃ full : String → ℤ, full "web" = 8 ∧
    (threeLinks.extendsCopies .backwards).1 = (threeLinks.base.entries.map fun e => full e.2).sum := by
  have acyclic : threeLinks.Acyclic := by
    refine acyclic_of_rank (fun name => if name = "web" then 2 else if name = "base" then 1 else 0) ?_
    intro name other extended
    by_cases web : name = "web"
    · subst web
      cases extended
      decide
    · by_cases base : name = "base"
      · subst base
        cases extended
        decide
      · rw [Extended, threeLinks, put, put, if_pos (by decide), if_pos (by decide),
          AList.lookup_insert_ne base, AList.lookup_insert_ne web] at extended
        cases extended
  obtain ⟨full, resolved, copies⟩ := extendsCopies_full threeLinks ((based_empty.put _ _ _).put _ _ _) acyclic
  have first : threeLinks.Extended "web" "base" := rfl
  have second : threeLinks.Extended "base" "gone" := rfl
  have web : threeLinks.FullSize "web" 8 := .extended first (.extended second (.alone rfl))
  exact ⟨full, ((resolved "web" 8).mp web).symm, (copies .backwards).1⟩

end SectionServices

end Dockgraph.Collector
