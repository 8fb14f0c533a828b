import Mathlib.Data.List.AList
import Mathlib.Data.List.Induction
import Mathlib.Data.List.Perm.Basic
import Mathlib.Data.List.Nodup

/-!
# Keyed collections

Lists whose elements carry a key, the map a loop of writes builds from one, and
the difference between two of them. A difference is described by membership
only, so it holds for whatever order a map iteration lists its parts in.
-/
namespace Dockgraph.Keyed

/-- The order in which one loop over a map visits it. -/
structure RangeOrder where
  visit : {α : Type} → List α → List α
  perm : ∀ {α : Type} (xs : List α), (visit xs).Perm xs

@[simp] theorem RangeOrder.mem_visit {α : Type} (ord : RangeOrder) (xs : List α) (x : α) :
    x ∈ ord.visit xs ↔ x ∈ xs :=
  (ord.perm xs).mem_iff

def RangeOrder.asWritten : RangeOrder := ⟨id, fun _ => .refl _⟩

def RangeOrder.backwards : RangeOrder := ⟨List.reverse, List.reverse_perm⟩

section Index

variable {α κ : Type} [DecidableEq κ] (key : α → κ)

omit [DecidableEq κ] in
theorem length_keys {m : AList (fun _ : κ => α)} : m.keys.length = m.entries.length := List.length_map _

theorem mem_iff_lookup {m : AList (fun _ : κ => α)} {k : κ} : k ∈ m ↔ ∃ x, m.lookup k = some x := by
  rw [← AList.lookup_isSome, Option.isSome_iff_exists]

/-- The map that writing every element under its key leaves. -/
def index (xs : List α) : AList (fun _ : κ => α) :=
  xs.foldl (fun m x => m.insert (key x) x) ∅

def values {κ α : Type} (m : AList (fun _ : κ => α)) : List α := m.entries.map Sigma.snd

theorem index_concat (xs : List α) (x : α) :
    index key (xs ++ [x]) = (index key xs).insert (key x) x := by
  simp [index, List.foldl_append]

theorem mem_of_lookup_index {xs : List α} {k : κ} {x : α}
    (found : (index key xs).lookup k = some x) : x ∈ xs ∧ key x = k := by
  induction xs using List.reverseRecOn with
  | nil => simp [index] at found
  | append_singleton xs y ih =>
    rw [index_concat] at found
    by_cases same : k = key y
    · subst same
      rw [AList.lookup_insert] at found
      cases found
      exact ⟨by simp, rfl⟩
    · rw [AList.lookup_insert_ne same] at found
      obtain ⟨member, keyed⟩ := ih found
      exact ⟨by simp [member], keyed⟩

theorem mem_index {xs : List α} {k : κ} : k ∈ index key xs ↔ ∃ x ∈ xs, key x = k := by
  induction xs using List.reverseRecOn with
  | nil => simp [index]
  | append_singleton xs y ih =>
    rw [index_concat, AList.mem_insert, ih]
    constructor
    · rintro (rfl | ⟨x, member, keyed⟩)
      · exact ⟨y, by simp, rfl⟩
      · exact ⟨x, by simp [member], keyed⟩
    · rintro ⟨x, member, keyed⟩
      rcases List.mem_append.mp member with member | member
      · exact .inr ⟨x, member, keyed⟩
      · exact .inl (by rw [← keyed, List.mem_singleton.mp member])

omit [DecidableEq κ] in
theorem eq_of_key_eq {xs : List α} (unique : (xs.map key).Nodup) {x y : α}
    (hx : x ∈ xs) (hy : y ∈ xs) (same : key x = key y) : x = y :=
  List.inj_on_of_nodup_map unique hx hy same

/-- With unique keys nothing is overwritten. -/
theorem lookup_index {xs : List α} (unique : (xs.map key).Nodup) {k : κ} {x : α} :
    (index key xs).lookup k = some x ↔ x ∈ xs ∧ key x = k := by
  constructor
  · exact mem_of_lookup_index key
  · rintro ⟨member, keyed⟩
    have present : k ∈ index key xs := (mem_index key).mpr ⟨x, member, keyed⟩
    obtain ⟨y, found⟩ := mem_iff_lookup.mp present
    obtain ⟨hy, ky⟩ := mem_of_lookup_index key found
    rw [found, eq_of_key_eq key unique hy member (ky.trans keyed.symm)]

theorem mem_values {m : AList (fun _ : κ => α)} {x : α} :
    x ∈ values m ↔ ∃ k, m.lookup k = some x := by
  simp only [values, List.mem_map, Sigma.exists, ← Option.mem_def, AList.mem_lookup_iff]
  constructor
  · rintro ⟨k, y, member, rfl⟩
    exact ⟨k, member⟩
  · rintro ⟨k, member⟩
    exact ⟨k, x, member, rfl⟩

theorem exists_value_iff {m : AList (fun _ : κ => α)}
    (keyed : ∀ k x, m.lookup k = some x → key x = k) {k : κ} :
    (∃ x ∈ values m, key x = k) ↔ k ∈ m := by
  rw [← AList.lookup_isSome, Option.isSome_iff_exists]
  constructor
  · rintro ⟨x, member, rfl⟩
    obtain ⟨l, found⟩ := mem_values.mp member
    exact ⟨x, by rwa [keyed l x found]⟩
  · rintro ⟨x, found⟩
    exact ⟨x, mem_values.mpr ⟨k, found⟩, keyed k x found⟩

theorem forall_value_ne_iff {m : AList (fun _ : κ => α)}
    (keyed : ∀ k x, m.lookup k = some x → key x = k) {k : κ} :
    (∀ x ∈ values m, key x ≠ k) ↔ k ∉ m := by
  rw [← exists_value_iff key keyed]
  simp only [ne_eq, not_exists, not_and]

theorem mem_values_index {xs : List α} (unique : (xs.map key).Nodup) {x : α} :
    x ∈ values (index key xs) ↔ x ∈ xs := by
  simp only [mem_values, lookup_index key unique]
  exact ⟨fun ⟨_, member, _⟩ => member, fun member => ⟨key x, member, rfl⟩⟩

end Index

section MapValues

variable {α β κ : Type} [DecidableEq κ] (f : α → β)

/-- The map with every value replaced. -/
def mapValues (m : AList (fun _ : κ => α)) : AList (fun _ : κ => β) where
  entries := m.entries.map fun e => ⟨e.1, f e.2⟩
  nodupKeys := by
    have same : (m.entries.map fun e => (⟨e.1, f e.2⟩ : (_ : κ) × β)).keys = m.keys := by
      simp [List.keys, AList.keys, Function.comp_def]
    rw [List.NodupKeys, same]
    exact m.keys_nodup

omit [DecidableEq κ] in
@[simp] theorem keys_mapValues (m : AList (fun _ : κ => α)) : (mapValues f m).keys = m.keys := by
  simp [mapValues, AList.keys, List.keys, Function.comp_def]

omit [DecidableEq κ] in
@[simp] theorem mapValues_empty : mapValues f (∅ : AList (fun _ : κ => α)) = ∅ := rfl

theorem lookup_mapValues (m : AList (fun _ : κ => α)) (k : κ) :
    (mapValues f m).lookup k = (m.lookup k).map f := by
  obtain ⟨entries, unique⟩ := m
  change (entries.map fun e => (⟨e.1, f e.2⟩ : (_ : κ) × β)).dlookup k = (entries.dlookup k).map f
  clear unique
  induction entries with
  | nil => rfl
  | cons e rest ih =>
    obtain ⟨l, x⟩ := e
    by_cases same : k = l
    · subst same
      simp
    · rw [List.map_cons, List.dlookup_cons_ne _ _ same, ih, List.dlookup_cons_ne _ _ same]

theorem mem_mapValues {m : AList (fun _ : κ => α)} {k : κ} : k ∈ mapValues f m ↔ k ∈ m := by
  rw [← AList.lookup_isSome, lookup_mapValues, Option.isSome_map, AList.lookup_isSome]

theorem mapValues_insert (m : AList (fun _ : κ => α)) (k : κ) (x : α) :
    mapValues f (m.insert k x) = (mapValues f m).insert k (f x) := by
  apply AList.ext
  simp only [mapValues, AList.insert, List.kinsert, List.kerase, List.map_cons, List.eraseP_map]
  rfl

end MapValues

section Patch

variable {α β κ : Type} [DecidableEq κ] (key : α → κ)

/-- Removal by key. -/
def remove (keys : List κ) (xs : List α) : List α := xs.filter fun x => key x ∉ keys

/-- The listed element of `x`'s key, or `x` itself. -/
def replacement (updated : List α) (x : α) : α :=
  (updated.find? fun u => key u = key x).getD x

/-- Removal by key, appending of the added elements, replacement of the updated ones. -/
def patch (added : List α) (removed : List κ) (updated xs : List α) : List α :=
  (remove key removed xs ++ added).map (replacement key updated)

theorem key_replacement (updated : List α) (x : α) : key (replacement key updated x) = key x := by
  unfold replacement
  cases found : updated.find? (fun u => key u = key x) with
  | none => rfl
  | some u => simpa using List.find?_some found

theorem replacement_of_absent {updated : List α} {x : α} (absent : ∀ u ∈ updated, key u ≠ key x) :
    replacement key updated x = x := by
  have none : updated.find? (fun u => key u = key x) = none :=
    List.find?_eq_none.mpr fun u member => by simpa using absent u member
  simp [replacement, none]

theorem find?_key_eq_some {xs : List α} (unique : (xs.map key).Nodup) {k : κ} {x : α} :
    xs.find? (fun y => key y = k) = some x ↔ x ∈ xs ∧ key x = k := by
  constructor
  · intro found
    exact ⟨List.mem_of_find?_eq_some found, by simpa using List.find?_some found⟩
  · rintro ⟨member, keyed⟩
    cases found : xs.find? (fun y => key y = k) with
    | none => exact absurd keyed (by simpa using List.find?_eq_none.mp found x member)
    | some y =>
      have keyedY : key y = k := by simpa using List.find?_some found
      rw [eq_of_key_eq key unique (List.mem_of_find?_eq_some found) member
        (keyedY.trans keyed.symm)]

theorem replacement_of_mem {updated : List α} (unique : (updated.map key).Nodup) {x u : α}
    (member : u ∈ updated) (same : key u = key x) : replacement key updated x = u := by
  have found := (find?_key_eq_some key unique).mpr ⟨member, same⟩
  simp [replacement, found]

theorem map_key_patch (added : List α) (removed : List κ) (updated xs : List α) :
    (patch key added removed updated xs).map key = (remove key removed xs ++ added).map key := by
  simp only [patch, List.map_map]
  exact List.map_congr_left fun x _ => key_replacement key updated x

@[simp] theorem patch_no_updates (added : List α) (removed : List κ) (xs : List α) :
    patch key added removed [] xs = remove key removed xs ++ added := by
  have kept : replacement key ([] : List α) = id := by funext x; simp [replacement]
  simp [patch, kept]

/-- A patch with nothing listed is the identity. -/
theorem patch_nil (xs : List α) : patch key [] [] [] xs = xs := by
  simp [remove]

omit [DecidableEq κ] in
/-- Elementwise changes that keep the keys of a uniquely keyed list leave the same collection
only if they agree on every element. -/
theorem map_perm_map_iff {xs : List α} (unique : (xs.map key).Nodup) {f g : α → α}
    (hf : ∀ x, key (f x) = key x) (hg : ∀ x, key (g x) = key x) :
    (xs.map f).Perm (xs.map g) ↔ ∀ x ∈ xs, f x = g x := by
  constructor
  · intro perm x member
    obtain ⟨y, hy, image⟩ := List.mem_map.mp (perm.mem_iff.mp (List.mem_map_of_mem member))
    have same : key y = key x := by rw [← hg y, image, hf x]
    rw [← image, eq_of_key_eq key unique hy member same]
  · intro agree
    rw [List.map_congr_left agree]

section Image

variable (norm : α → β) (keyN : β → κ) (hkey : ∀ x, keyN (norm x) = key x)
include hkey

/-- A patch acts on the images of the elements under any map that keeps their keys. -/
theorem map_patch (added : List α) (removed : List κ) (updated xs : List α) :
    (patch key added removed updated xs).map norm =
      ((xs.map norm).filter (fun y => keyN y ∉ removed) ++ added.map norm).map
        (fun y => ((updated.find? fun u => key u = keyN y).map norm).getD y) := by
  have images : (remove key removed xs).map norm =
      (xs.map norm).filter (fun y => keyN y ∉ removed) := by
    simp [remove, List.filter_map, Function.comp_def, hkey]
  rw [← images, ← List.map_append, patch, List.map_map, List.map_map]
  refine List.map_congr_left fun x _ => ?_
  simp only [Function.comp, replacement, hkey]
  cases updated.find? (fun u => key u = key x) <;> rfl

theorem patch_perm (added : List α) (removed : List κ) (updated : List α) {xs ys : List α}
    (perm : (xs.map norm).Perm (ys.map norm)) :
    ((patch key added removed updated xs).map norm).Perm
      ((patch key added removed updated ys).map norm) := by
  rw [map_patch key norm keyN hkey, map_patch key norm keyN hkey]
  exact ((perm.filter _).append_right _).map _

omit [DecidableEq κ] in
theorem nodup_map_of_nodup_keys {xs : List α} (unique : (xs.map key).Nodup) :
    (xs.map norm).Nodup := by
  apply List.Nodup.of_map keyN
  simpa only [List.map_map, Function.comp_def, hkey] using unique

end Image

end Patch

section Diff

variable {α β κ : Type} [DecidableEq κ] (key : α → κ) (same : α → α → Bool)

/-- The parts list what distinguishes `curr` from `prev` as far as `same` tells elements of one
key apart. -/
structure IsDiff (prev curr added : List α) (removed : List κ) (updated : List α) : Prop where
  mem_added : ∀ x, x ∈ added ↔ x ∈ curr ∧ ∀ p ∈ prev, key p ≠ key x
  mem_removed : ∀ k, k ∈ removed ↔ (∃ p ∈ prev, key p = k) ∧ ∀ c ∈ curr, key c ≠ k
  mem_updated : ∀ x, x ∈ updated ↔ x ∈ curr ∧ ∃ p ∈ prev, key p = key x ∧ same p x = false
  added_nodup : (added.map key).Nodup
  updated_nodup : (updated.map key).Nodup

variable {key same} {prev curr added updated : List α} {removed : List κ}

namespace IsDiff

omit [DecidableEq κ] in
theorem congr {prev' curr' : List α} (diff : IsDiff key same prev curr added removed updated)
    (hp : ∀ x, x ∈ prev ↔ x ∈ prev') (hc : ∀ x, x ∈ curr ↔ x ∈ curr') :
    IsDiff key same prev' curr' added removed updated where
  mem_added x := by simpa only [hp, hc] using diff.mem_added x
  mem_removed k := by simpa only [hp, hc] using diff.mem_removed k
  mem_updated x := by simpa only [hp, hc] using diff.mem_updated x
  added_nodup := diff.added_nodup
  updated_nodup := diff.updated_nodup

variable (diff : IsDiff key same prev curr added removed updated)
include diff

theorem replacement_added {x : α} (member : x ∈ added) : replacement key updated x = x := by
  obtain ⟨_, fresh⟩ := (diff.mem_added x).mp member
  refine replacement_of_absent key fun u hu same => ?_
  obtain ⟨_, p, hp, keyed, _⟩ := (diff.mem_updated u).mp hu
  exact fresh p hp (keyed.trans same)

theorem replacement_changed {p c : α} (hp : p ∈ prev) (hc : c ∈ curr) (keyed : key p = key c)
    (differs : same p c = false) : replacement key updated p = c :=
  replacement_of_mem key diff.updated_nodup ((diff.mem_updated c).mpr ⟨hc, p, hp, keyed, differs⟩)
    keyed.symm

theorem replacement_kept (uniqueP : (prev.map key).Nodup) (uniqueC : (curr.map key).Nodup)
    {p c : α} (hp : p ∈ prev) (hc : c ∈ curr) (keyed : key p = key c) (agrees : same p c = true) :
    replacement key updated p = p := by
  refine replacement_of_absent key fun u hu ku => ?_
  obtain ⟨hu, q, hq, keyedQ, differs⟩ := (diff.mem_updated u).mp hu
  have samePrev : q = p := eq_of_key_eq key uniqueP hq hp (keyedQ.trans ku)
  have sameCurr : u = c := eq_of_key_eq key uniqueC hu hc (ku.trans keyed)
  rw [samePrev, sameCurr, agrees] at differs
  cases differs

theorem mem_remove {p : α} : p ∈ remove key removed prev ↔ p ∈ prev ∧ ∃ c ∈ curr, key p = key c := by
  simp only [remove, List.mem_filter, decide_eq_true_eq, diff.mem_removed]
  constructor
  · rintro ⟨hp, kept⟩
    by_contra gone
    exact kept ⟨⟨p, hp, rfl⟩, fun c hc keyed => gone ⟨hp, c, hc, keyed.symm⟩⟩
  · rintro ⟨hp, c, hc, keyed⟩
    exact ⟨hp, fun ⟨_, gone⟩ => gone c hc keyed.symm⟩

/-- What the patch of `prev` holds: the new element wherever the two differ, else the old one. -/
theorem mem_patch (uniqueP : (prev.map key).Nodup) (uniqueC : (curr.map key).Nodup) {x : α} :
    x ∈ patch key added removed updated prev ↔
      (x ∈ curr ∧ ∀ p ∈ prev, key p = key x → same p x = false) ∨
      (x ∈ prev ∧ ∃ c ∈ curr, key x = key c ∧ same x c = true) := by
  simp only [patch, List.mem_map, List.mem_append, diff.mem_remove]
  constructor
  · rintro ⟨y, ⟨hy, c, hc, keyed⟩ | hy, rfl⟩
    · cases agrees : same y c with
      | true =>
        rw [diff.replacement_kept uniqueP uniqueC hy hc keyed agrees]
        exact .inr ⟨hy, c, hc, keyed, agrees⟩
      | false =>
        rw [diff.replacement_changed hy hc keyed agrees]
        refine .inl ⟨hc, fun p hp kp => ?_⟩
        rwa [eq_of_key_eq key uniqueP hp hy (kp.trans keyed.symm)]
    · rw [diff.replacement_added hy]
      obtain ⟨hc, fresh⟩ := (diff.mem_added y).mp hy
      exact .inl ⟨hc, fun p hp keyed => absurd keyed (fresh p hp)⟩
  · rintro (⟨hc, differs⟩ | ⟨hp, c, hc, keyed, agrees⟩)
    · by_cases old : ∃ p ∈ prev, key p = key x
      · obtain ⟨p, hp, keyed⟩ := old
        exact ⟨p, .inl ⟨hp, x, hc, keyed⟩,
          diff.replacement_changed hp hc keyed (differs p hp keyed)⟩
      · have fresh : x ∈ added :=
          (diff.mem_added x).mpr ⟨hc, fun p hp keyed => old ⟨p, hp, keyed⟩⟩
        exact ⟨x, .inr fresh, diff.replacement_added fresh⟩
    · exact ⟨x, .inl ⟨hp, c, hc, keyed⟩, diff.replacement_kept uniqueP uniqueC hp hc keyed agrees⟩

theorem patch_nodup (uniqueP : (prev.map key).Nodup) :
    ((patch key added removed updated prev).map key).Nodup := by
  rw [map_key_patch, List.map_append]
  refine List.Nodup.append ((List.filter_sublist.map key).nodup uniqueP) diff.added_nodup ?_
  intro k hp ha
  obtain ⟨p, member, rfl⟩ := List.mem_map.mp hp
  obtain ⟨a, hadded, keyed⟩ := List.mem_map.mp ha
  exact ((diff.mem_added a).mp hadded).2 p (List.mem_filter.mp member).1 keyed.symm

/-- A patch reaches `curr`, as `norm` sees it, exactly when `same` tells apart whatever `norm`
tells apart under one key. -/
theorem patch_perm_iff (uniqueP : (prev.map key).Nodup) (uniqueC : (curr.map key).Nodup)
    (norm : α → β) (keyN : β → κ) (hkey : ∀ x, keyN (norm x) = key x) :
    ((patch key added removed updated prev).map norm).Perm (curr.map norm) ↔
      ∀ p ∈ prev, ∀ c ∈ curr, key p = key c → same p c = true → norm p = norm c := by
  have uniquePatch := diff.patch_nodup uniqueP
  constructor
  · intro perm p hp c hc keyed agrees
    have kept : p ∈ patch key added removed updated prev :=
      (diff.mem_patch uniqueP uniqueC).mpr (.inr ⟨hp, c, hc, keyed, agrees⟩)
    obtain ⟨d, hd, image⟩ := List.mem_map.mp (perm.mem_iff.mp (List.mem_map_of_mem kept))
    have sameKey : key d = key c := by rw [← hkey d, image, hkey p, keyed]
    rw [← image, eq_of_key_eq key uniqueC hd hc sameKey]
  · intro exact
    apply (List.perm_ext_iff_of_nodup (nodup_map_of_nodup_keys key norm keyN hkey uniquePatch)
      (nodup_map_of_nodup_keys key norm keyN hkey uniqueC)).mpr
    intro y
    simp only [List.mem_map, diff.mem_patch uniqueP uniqueC]
    constructor
    · rintro ⟨x, ⟨hc, _⟩ | ⟨hp, c, hc, keyed, agrees⟩, rfl⟩
      · exact ⟨x, hc, rfl⟩
      · exact ⟨c, hc, (exact x hp c hc keyed agrees).symm⟩
    · rintro ⟨c, hc, rfl⟩
      by_cases kept : ∃ p ∈ prev, key p = key c ∧ same p c = true
      · obtain ⟨p, hp, keyed, agrees⟩ := kept
        exact ⟨p, .inr ⟨hp, c, hc, keyed, agrees⟩, exact p hp c hc keyed agrees⟩
      · refine ⟨c, .inl ⟨hc, fun p hp keyed => ?_⟩, rfl⟩
        exact Bool.eq_false_iff.mpr fun agrees => kept ⟨p, hp, keyed, agrees⟩

end IsDiff

end Diff

section Maps

variable {α κ : Type} [DecidableEq κ] (key : α → κ)

/-- Loops over the maps of two lists, in whatever order they visit them, list a difference. -/
theorem isDiff_index (same : α → α → Bool) (prev curr : List α)
    {entries : List ((_ : κ) × α)} (visited : entries.Perm (index key curr).entries)
    {keys : List κ} (visitedKeys : keys.Perm (index key prev).keys) :
    IsDiff key same (values (index key prev)) (values (index key curr))
      ((entries.filter fun e => e.1 ∉ index key prev).map Sigma.snd)
      (keys.filter fun k => k ∉ index key curr)
      ((entries.filter fun e =>
        ((index key prev).lookup e.1).any fun p => !same p e.2).map Sigma.snd) := by
  have keyedP : ∀ k x, (index key prev).lookup k = some x → key x = k :=
    fun _ _ found => (mem_of_lookup_index key found).2
  have keyedC : ∀ k x, (index key curr).lookup k = some x → key x = k :=
    fun _ _ found => (mem_of_lookup_index key found).2
  have mem_entries : ∀ e : (_ : κ) × α, e ∈ entries ↔ (index key curr).lookup e.1 = some e.2 := fun e => by
    rw [visited.mem_iff, ← Option.mem_def, AList.mem_lookup_iff]
  have keyedEntries : ∀ e ∈ entries, key e.2 = e.1 := fun e member =>
    keyedC e.1 e.2 ((mem_entries e).mp member)
  have entriesNodup : (entries.map fun e => key e.2).Nodup := by
    rw [List.map_congr_left (g := Sigma.fst) keyedEntries]
    exact (visited.map Sigma.fst).nodup_iff.mpr (index key curr).keys_nodup
  refine ⟨fun x => ?_, fun k => ?_, fun x => ?_, ?_, ?_⟩
  · simp only [List.mem_map, List.mem_filter, decide_eq_true_eq, forall_value_ne_iff key keyedP,
      mem_values (m := index key curr), mem_entries]
    constructor
    · rintro ⟨e, ⟨found, fresh⟩, rfl⟩
      exact ⟨⟨e.1, found⟩, by rwa [keyedC _ _ found]⟩
    · rintro ⟨⟨k, found⟩, fresh⟩
      rw [keyedC _ _ found] at fresh
      exact ⟨⟨k, x⟩, ⟨found, fresh⟩, rfl⟩
  · simp only [List.mem_filter, decide_eq_true_eq, forall_value_ne_iff key keyedC,
      exists_value_iff key keyedP, visitedKeys.mem_iff, AList.mem_keys]
  · simp only [List.mem_map, List.mem_filter, mem_values, mem_entries, Option.any_eq_true,
      Bool.not_eq_true']
    constructor
    · rintro ⟨e, ⟨found, p, old, differs⟩, rfl⟩
      exact ⟨⟨e.1, found⟩, p, ⟨e.1, old⟩, by rw [keyedP _ _ old, keyedC _ _ found], differs⟩
    · rintro ⟨⟨k, found⟩, p, ⟨l, old⟩, keyed, differs⟩
      rw [keyedP _ _ old, keyedC _ _ found] at keyed
      subst keyed
      exact ⟨⟨l, x⟩, ⟨found, p, old, differs⟩, rfl⟩
  · rw [List.map_map]
    exact (List.filter_sublist.map _).nodup entriesNodup
  · rw [List.map_map]
    exact (List.filter_sublist.map _).nodup entriesNodup

end Maps

end Dockgraph.Keyed
