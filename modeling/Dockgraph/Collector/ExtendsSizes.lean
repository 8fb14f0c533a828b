import Dockgraph.Collector.ExtendsChains
import Mathlib

/-!
# What extends are to come to

The sizes of a section's entries, what extends between them copies and the largest of them, in unbounded numbers and
without the walk that finds them.
-/
namespace Dockgraph.Collector

open Keyed

namespace SectionServices

/-! ## Full sizes -/

variable {s : SectionServices Nat}

/-- The size of an entry with its extends applied, along its chain. -/
noncomputable def full (s : SectionServices Nat) (name : String) : Nat :=
  open Classical in if sized : ∃ n, s.FullSize name n then sized.choose else 0

theorem fullSize_full (acyclic : s.Acyclic) (name : String) : s.FullSize name (s.full name) := by
  have sized := exists_fullSize acyclic name
  rw [full, dif_pos sized]
  exact sized.choose_spec

/-- What extends copies: for each entry with a base, the base's full size. On a cycle, which the loader refuses,
there is no full size, and what the walk comes to is to be counted. -/
noncomputable def copied (ord : RangeOrder) (s : SectionServices Nat) : Nat :=
  open Classical in if s.Acyclic then (s.base.entries.map fun e => s.full e.2).sum else (s.extendsCopies ord).1

/-- The largest full size of an entry. -/
noncomputable def largest (ord : RangeOrder) (s : SectionServices Nat) : Nat :=
  open Classical in if s.Acyclic then s.size.keys.toFinset.sup s.full else (s.extendsCopies ord).2

theorem foldl_max_eq_sup (ns : List Nat) : ns.foldl max 0 = ns.toFinset.sup id := by
  obtain ⟨member, upper⟩ := isGreatest_foldl_max ns 0
  refine le_antisymm ?_ (Finset.sup_le fun n listed => upper (List.mem_cons_of_mem 0 (List.mem_toFinset.mp listed)))
  rcases List.mem_cons.mp member with zero | listed
  · rw [zero]
    exact Nat.zero_le _
  · exact Finset.le_sup (f := id) (List.mem_toFinset.mpr listed)

theorem extendsCopies_eq_copied (based : s.Based) (ord : RangeOrder) :
    s.extendsCopies ord = (s.copied ord, s.largest ord) := by
  by_cases acyclic : s.Acyclic
  · rw [extendsCopies_eq acyclic based (fullSize_full acyclic), copied, largest, if_pos acyclic, if_pos acyclic,
      foldl_max_eq_sup]
    have keys : ((ord.visit s.size.keys).map s.full).toFinset = s.size.keys.toFinset.image s.full := by
      ext n
      simp
    rw [keys, Finset.sup_image]
    rfl
  · rw [copied, largest, if_neg acyclic, if_neg acyclic]

/-! ## The entries of a section -/

/-- The section has the entries with their sizes, and the bases of those that have one. -/
structure Lists (entries : List (String × Nat × String)) (s : SectionServices Nat) : Prop where
  size : ∀ name n, s.size.lookup name = some n ↔ ∃ base, (name, n, base) ∈ entries
  base : ∀ name base, s.base.lookup name = some base ↔ base ≠ "" ∧ ∃ n, (name, n, base) ∈ entries

theorem lists_foldl_put {entries : List (String × Nat × String)} (unique : (entries.map Prod.fst).Nodup) :
    Lists entries (entries.foldl (fun s e => s.put e.1 e.2.1 e.2.2) {}) := by
  induction entries using List.reverseRecOn with
  | nil => exact ⟨by simp, by simp⟩
  | append_singleton entries e ih =>
    rw [List.map_append, List.nodup_append] at unique
    obtain ⟨size, base⟩ := ih unique.1
    -- the last entry has a name of its own
    have fresh (n : Nat) (other : String) : (e.1, n, other) ∉ entries := fun member =>
      unique.2.2 e.1 (List.mem_map.mpr ⟨_, member, rfl⟩) e.1 (by simp) rfl
    rw [List.foldl_append, List.foldl_cons, List.foldl_nil]
    generalize entries.foldl (fun s e => s.put e.1 e.2.1 e.2.2) ({} : SectionServices Nat) = s at size base ⊢
    obtain ⟨written, nodes, extended⟩ := e
    constructor
    · intro name n
      change (s.size.insert written nodes).lookup name = some n ↔ _
      by_cases same : name = written
      · subst same
        rw [AList.lookup_insert]
        simp [fresh, eq_comm]
      · rw [AList.lookup_insert_ne same, size]
        simp [same]
    · intro name other
      change (if extended ≠ "" then s.base.insert written extended else s.base).lookup name = some other ↔ _
      by_cases same : name = written
      · subst same
        by_cases none : extended = ""
        · rw [if_neg (not_not.mpr none), base]
          simp only [List.mem_append, List.mem_singleton, Prod.mk.injEq, fresh, none]
          simp
        · rw [if_pos none, AList.lookup_insert]
          simp only [List.mem_append, List.mem_singleton, Prod.mk.injEq, fresh, Option.some.injEq]
          simp
          constructor
          · rintro rfl
            exact ⟨none, rfl⟩
          · exact fun found => found.2.symm
      · have others : (if extended ≠ "" then s.base.insert written extended else s.base).lookup name =
            s.base.lookup name := by
          split
          · exact AList.lookup_insert_ne same
          · rfl
        rw [others, base]
        simp [same]

theorem based_foldl_put {ε : Type} (entries : List ε) (name base : ε → String) (size : ε → Nat)
    {s : SectionServices Nat} (based : s.Based) :
    (entries.foldl (fun s e => s.put (name e) (size e) (base e)) s).Based := by
  induction entries generalizing s with
  | nil => exact based
  | cons e rest ih => exact ih (based.put _ _ _)

/-- A loop that writes each key once, from what is there and the key's own value. -/
theorem lookup_foldl_insert {α : Type} (value : Option α → α → α) (entries : List ((_ : String) × α))
    (unique : entries.NodupKeys) (m : AList fun _ : String => α) (name : String) :
    (entries.foldl (fun m e => m.insert e.1 (value (m.lookup e.1) e.2)) m).lookup name =
      (entries.dlookup name).elim (m.lookup name) fun v => some (value (m.lookup name) v) := by
  induction entries generalizing m with
  | nil => rfl
  | cons e rest ih =>
    obtain ⟨key, v⟩ := e
    rw [List.nodupKeys_cons] at unique
    rw [List.foldl_cons, ih unique.2]
    by_cases same : name = key
    · subst same
      rw [List.dlookup_cons_eq, List.dlookup_eq_none.mpr unique.1]
      exact AList.lookup_insert _
    · rw [List.dlookup_cons_ne _ _ same, AList.lookup_insert_ne same]

/-- Sections of one name merged: the sizes of an entry add up, and its last base counts. -/
structure Merges (parts : List (SectionServices Nat)) (s : SectionServices Nat) : Prop where
  size : ∀ name, s.size.lookup name = if ∃ p ∈ parts, name ∈ p.size then
    some (parts.map fun p => (p.size.lookup name).getD 0).sum else none
  base : ∀ name, s.base.lookup name = parts.reverse.findSome? fun p => p.base.lookup name

theorem merges_foldl_add (parts : List (SectionServices Nat)) : Merges parts (parts.foldl SectionServices.add {}) := by
  induction parts using List.reverseRecOn with
  | nil => exact ⟨fun name => by simp, fun name => by simp⟩
  | append_singleton parts o ih =>
    obtain ⟨size, base⟩ := ih
    rw [List.foldl_append, List.foldl_cons, List.foldl_nil]
    generalize parts.foldl SectionServices.add ({} : SectionServices Nat) = s at size base ⊢
    constructor
    · intro name
      have before : (s.size.lookup name).getD 0 = (parts.map fun p => (p.size.lookup name).getD 0).sum := by
        rw [size]
        split
        · rfl
        next absent =>
          refine (List.sum_eq_zero fun n listed => ?_).symm
          obtain ⟨p, member, rfl⟩ := List.mem_map.mp listed
          have unwritten : name ∉ p.size := fun written => absent ⟨p, member, written⟩
          rw [AList.lookup_eq_none.mpr unwritten]
          rfl
      have added := lookup_foldl_insert (fun old n => old.getD 0 + n) o.size.entries o.size.nodupKeys s.size name
      change (s.add o).size.lookup name =
        (o.size.lookup name).elim (s.size.lookup name) fun v => some ((s.size.lookup name).getD 0 + v) at added
      rw [added]
      cases found : o.size.lookup name with
      | some v =>
        have written : name ∈ o.size := AList.lookup_isSome.mp (by rw [found]; rfl)
        rw [if_pos ⟨o, by simp, written⟩, List.map_append, List.sum_append, before]
        simp [found]
      | none =>
        have unwritten : name ∉ o.size := AList.lookup_eq_none.mp found
        rw [size]
        simp [found, unwritten, or_and_right, exists_or]
    · intro name
      have added := lookup_foldl_insert (fun _ b => b) o.base.entries o.base.nodupKeys s.base name
      change (s.add o).base.lookup name = (o.base.lookup name).elim (s.base.lookup name) some at added
      rw [added, List.reverse_append, List.reverse_singleton, List.singleton_append, List.findSome?_cons, base]
      cases o.base.lookup name <;> rfl

end SectionServices

end Dockgraph.Collector
