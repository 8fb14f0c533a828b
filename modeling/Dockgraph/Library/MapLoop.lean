import Mathlib.Data.Finmap

/-!
# Loops over a map that write under the key they visit

Such a loop writes each key once, so what it leaves does not depend on the order of its visits.
-/
namespace Dockgraph.MapLoop

variable {κ α β : Type} [DecidableEq κ]

/-- The loop over the entries in some order. `f` has the key, what is under it and the entry. -/
def visit (f : κ → Option β → α → β) (m : Finmap fun _ : κ => β) (entries : List ((_ : κ) × α)) :
    Finmap fun _ : κ => β :=
  entries.foldl (fun m e => m.insert e.1 (f e.1 (m.lookup e.1) e.2)) m

variable (f : κ → Option β → α → β)

theorem lookup_visit {entries : List ((_ : κ) × α)} (unique : entries.NodupKeys)
    (m : Finmap fun _ : κ => β) (k : κ) :
    (visit f m entries).lookup k =
      match entries.dlookup k with
      | some a => some (f k (m.lookup k) a)
      | none => m.lookup k := by
  induction entries generalizing m with
  | nil => rfl
  | cons e entries ih =>
    obtain ⟨k', a⟩ := e
    obtain ⟨fresh, rest⟩ := List.nodupKeys_cons.mp unique
    rw [visit, List.foldl_cons, ← visit, ih rest]
    by_cases same : k = k'
    · subst same
      rw [List.dlookup_eq_none.mpr fresh, List.dlookup_cons_eq]
      exact Finmap.lookup_insert m
    · have other : List.dlookup k ((⟨k', a⟩ : (_ : κ) × α) :: entries) = List.dlookup k entries :=
        List.dlookup_cons_ne entries _ same
      rw [other, Finmap.lookup_insert_of_ne m same]

/-- The loop over a map. -/
def writeEach (entries : Finmap fun _ : κ => α) (m : Finmap fun _ : κ => β) :
    Finmap fun _ : κ => β :=
  entries.liftOn (fun l => visit f m l.entries) fun l l' same =>
    Finmap.ext_lookup fun k => by
      rw [lookup_visit f l.nodupKeys, lookup_visit f l'.nodupKeys,
        List.perm_dlookup k l.nodupKeys same]

theorem lookup_writeEach (entries : Finmap fun _ : κ => α) (m : Finmap fun _ : κ => β) (k : κ) :
    (writeEach f entries m).lookup k =
      match entries.lookup k with
      | some a => some (f k (m.lookup k) a)
      | none => m.lookup k := by
  induction entries using Finmap.induction_on with
  | H l => exact lookup_visit f l.nodupKeys m k

/-- A set as a map. -/
def ofKeys (keys : Finset κ) : Finmap fun _ : κ => Unit where
  entries := keys.val.map fun k => ⟨k, ()⟩
  nodupKeys := by
    have same : (keys.val.map fun k => (⟨k, ()⟩ : (_ : κ) × Unit)).keys = keys.val := by
      simp [Multiset.keys]
    rw [← Multiset.nodup_keys, same]
    exact keys.nodup

theorem lookup_ofKeys (keys : Finset κ) (k : κ) :
    (ofKeys keys).lookup k = if k ∈ keys then some () else none := by
  have member : k ∈ ofKeys keys ↔ k ∈ keys := by
    simp [Finmap.mem_def, ofKeys, Multiset.keys]
  rw [← Finmap.lookup_isSome] at member
  split_ifs with listed
  · exact Option.isSome_iff_exists.mp (member.mpr listed) |>.choose_spec
  · exact Option.not_isSome_iff_eq_none.mp (mt member.mp listed)

/-- The loop over a set of keys. -/
def writeKeys (f : κ → Option β → β) (keys : Finset κ) (m : Finmap fun _ : κ => β) :
    Finmap fun _ : κ => β :=
  writeEach (fun k under (_ : Unit) => f k under) (ofKeys keys) m

theorem lookup_writeKeys (f : κ → Option β → β) (keys : Finset κ) (m : Finmap fun _ : κ => β) (k : κ) :
    (writeKeys f keys m).lookup k = if k ∈ keys then some (f k (m.lookup k)) else m.lookup k := by
  rw [writeKeys, lookup_writeEach, lookup_ofKeys]
  split_ifs <;> rfl

end Dockgraph.MapLoop
