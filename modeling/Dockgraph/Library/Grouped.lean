import Dockgraph.Library.Keyed

/-!
# Lists under keys

The map that a loop fills by appending each element's value to the list under the element's key, or by
putting it in the place of the value that is there.
-/
namespace Dockgraph.Keyed

universe u v

variable {α : Type u} {κ : Type} {β : Type v} [DecidableEq κ] (key : α → Option κ) (value : α → β)

/-- One pass of the loop. Elements without a key are left out. -/
def append (m : AList fun _ : κ => List β) (x : α) : AList fun _ : κ => List β :=
  match key x with
  | none => m
  | some k => m.insert k ((m.lookup k).getD [] ++ [value x])

def group (xs : List α) : AList fun _ : κ => List β := xs.foldl (append key value) ∅

variable {key value} {m : AList fun _ : κ => List β} {x : α} {xs : List α} {k : κ}

theorem lookup_append : ((append key value m x).lookup k).getD [] =
    (m.lookup k).getD [] ++ if key x = some k then [value x] else [] := by
  unfold append
  split
  next none => simp [none]
  next l found =>
    by_cases same : k = l
    · subst same
      simp [found]
    · have other : key x ≠ some k := by
        rw [found]
        exact fun eq => same (Option.some.inj eq).symm
      rw [AList.lookup_insert_ne same, if_neg other, List.append_nil]

theorem mem_append : k ∈ append key value m x ↔ k ∈ m ∨ key x = some k := by
  unfold append
  split
  next none => simp [none]
  next l found =>
    rw [AList.mem_insert, found, Option.some.injEq, or_comm, eq_comm]

/-- A key's list: the values of the elements of that key, in order. -/
theorem lookup_group : ((group key value xs).lookup k).getD [] =
    (xs.filter fun x => key x = some k).map value := by
  unfold group
  induction xs using List.reverseRecOn with
  | nil => rfl
  | append_singleton xs x ih =>
    rw [List.foldl_concat, lookup_append, ih, List.filter_append, List.map_append]
    by_cases keyed : key x = some k
    · simp [keyed]
    · simp [keyed]

theorem mem_group : k ∈ group key value xs ↔ ∃ x ∈ xs, key x = some k := by
  unfold group
  induction xs using List.reverseRecOn with
  | nil => simp
  | append_singleton xs x ih =>
    rw [List.foldl_concat, mem_append, ih]
    simp [or_and_right, exists_or]

/-- One pass of the loop that keeps the last value of each key. -/
def assign (key : α → Option κ) (value : α → β) (m : AList fun _ : κ => β) (x : α) : AList fun _ : κ => β :=
  match key x with
  | none => m
  | some k => m.insert k (value x)

theorem lookup_foldl_assign :
    (xs.foldl (assign key value) ∅).lookup k = (xs.filter fun x => key x = some k).getLast?.map value := by
  induction xs using List.reverseRecOn with
  | nil => rfl
  | append_singleton xs x ih =>
    rw [List.foldl_concat, List.filter_append, assign]
    split
    next none => simpa [none] using ih
    next l found =>
      by_cases same : k = l
      · subst same
        simp [found]
      · have other : ¬l = k := fun eq => same eq.symm
        rw [AList.lookup_insert_ne same, ih]
        simp [found, other]

section Write

variable (name : α → κ) (held : α → Option β)

/-- One pass of the loop that writes what an element has, if it has something, under the element's name. -/
def write (m : AList fun _ : κ => β) (x : α) : AList fun _ : κ => β :=
  match held x with
  | some b => m.insert (name x) b
  | none => m

/-- Under different names nothing is overwritten. -/
theorem lookup_foldl_write (unique : (xs.map name).Nodup) :
    (xs.foldl (write name held) ∅).lookup k = (xs.find? fun x => name x = k).bind held := by
  induction xs using List.reverseRecOn with
  | nil => rfl
  | append_singleton xs x ih =>
    rw [List.map_append, List.nodup_append] at unique
    rw [List.foldl_concat, List.find?_append, List.find?_singleton, write]
    by_cases same : name x = k
    · have fresh : xs.find? (fun y => name y = k) = none := by
        refine List.find?_eq_none.mpr fun y member named => ?_
        exact unique.2.2 _ (List.mem_map_of_mem member) _ List.mem_cons_self ((of_decide_eq_true named).trans same.symm)
      have before := ih unique.1
      rw [fresh, Option.bind_none] at before
      split
      next b has => simp [fresh, same, has]
      next none => simp [fresh, same, none, before]
    · have other : k ≠ name x := fun eq => same eq.symm
      split
      next => rw [AList.lookup_insert_ne other, ih unique.1]; simp [same]
      next => rw [ih unique.1]; simp [same]

/-- One pass of the loop that keeps the first that is written under each name. -/
def writeFirst (m : AList fun _ : κ => β) (x : α) : AList fun _ : κ => β :=
  match held x with
  | some b => if name x ∈ m then m else m.insert (name x) b
  | none => m

theorem lookup_foldl_writeFirst :
    (xs.foldl (writeFirst name held) ∅).lookup k = (xs.filter fun x => name x = k).findSome? held := by
  induction xs using List.reverseRecOn with
  | nil => rfl
  | append_singleton xs x ih =>
    rw [List.foldl_concat, List.filter_append, List.findSome?_append, ← ih, writeFirst]
    split
    next b has =>
      by_cases same : name x = k
      · subst same
        split
        next there =>
          obtain ⟨c, found⟩ := Option.isSome_iff_exists.mp (AList.lookup_isSome.mpr there)
          simp [found]
        next fresh =>
          rw [AList.lookup_eq_none.mpr fresh]
          simp [has]
      · have other : k ≠ name x := fun eq => same eq.symm
        split
        next => simp [same]
        next => simp [AList.lookup_insert_ne other, same]
    next none =>
      by_cases same : name x = k
      · simp [same, none]
      · simp [same]

end Write

omit [DecidableEq κ] in
/-- An element is the only one with its key. -/
theorem filter_key_eq [DecidableEq β] {name : α → β} (unique : (xs.map name).Nodup) (member : x ∈ xs) :
    xs.filter (fun y => name y = name x) = [x] := by
  induction xs with
  | nil => cases member
  | cons y ys ih =>
    obtain ⟨fresh, rest⟩ := List.nodup_cons.mp unique
    rcases List.mem_cons.mp member with rfl | later
    · have none : ys.filter (fun y => name y = name x) = [] := by
        refine List.filter_eq_nil_iff.mpr fun y listed same => fresh ?_
        rw [← of_decide_eq_true same]
        exact List.mem_map_of_mem listed
      rw [List.filter_cons_of_pos (by simp), none]
    · have other : name y ≠ name x := fun same => fresh (same ▸ List.mem_map_of_mem later)
      rw [List.filter_cons_of_neg (by simpa using other), ih rest later]

omit [DecidableEq κ] in
/-- One element gives all there is. -/
theorem flatMap_eq_of_mem {γ : Type} {f : α → List γ} (unique : xs.Nodup) (member : x ∈ xs)
    (others : ∀ y ∈ xs, y ≠ x → f y = []) : xs.flatMap f = f x := by
  obtain ⟨before, after, rfl⟩ := List.append_of_mem member
  have alone : ∀ y ∈ before ++ after, f y = [] := by
    intro y listed
    refine others y (by rw [List.mem_append] at listed; simp only [List.mem_append, List.mem_cons]; tauto) ?_
    rintro rfl
    exact (List.nodup_middle.mp unique).notMem listed
  rw [List.flatMap_append, List.flatMap_cons, List.flatMap_eq_nil_iff.mpr fun y h => alone y (List.mem_append_left _ h),
    List.flatMap_eq_nil_iff.mpr fun y h => alone y (List.mem_append_right _ h), List.nil_append, List.append_nil]

omit [DecidableEq κ] in
/-- A test for what one element gives. -/
theorem filter_flatMap_eq {γ : Type} {f : α → List γ} {p : γ → Bool} (unique : xs.Nodup) (member : x ∈ xs)
    (kept : ∀ c ∈ f x, p c = true) (others : ∀ y ∈ xs, y ≠ x → ∀ c ∈ f y, ¬p c = true) :
    (xs.flatMap f).filter p = f x := by
  rw [List.filter_flatMap, flatMap_eq_of_mem unique member fun y listed differs => ?_]
  · exact List.filter_eq_self.mpr kept
  · exact List.filter_eq_nil_iff.mpr (others y listed differs)

/-- The elements, taken key by key. -/
theorem perm_flatMap_filter {f : α → κ} {ks : List κ} (unique : ks.Nodup) (covers : ∀ x ∈ xs, f x ∈ ks) :
    (ks.flatMap fun k => xs.filter fun x => f x = k).Perm xs := by
  induction ks generalizing xs with
  | nil =>
    rw [List.eq_nil_iff_forall_not_mem.mpr fun x member => List.not_mem_nil (covers x member)]
    exact .nil
  | cons k ks ih =>
    obtain ⟨fresh, unique⟩ := List.nodup_cons.mp unique
    have rest : (ks.flatMap fun l => (xs.filter fun x => !decide (f x = k)).filter fun x => f x = l).Perm
        (xs.filter fun x => !decide (f x = k)) := by
      refine ih unique fun x member => ?_
      obtain ⟨listed, other⟩ := List.mem_filter.mp member
      exact (List.mem_cons.mp (covers x listed)).resolve_left (by simpa using other)
    have later : (ks.flatMap fun l => (xs.filter fun x => !decide (f x = k)).filter fun x => f x = l) =
        ks.flatMap fun l => xs.filter fun x => f x = l := by
      refine List.flatMap_congr fun l listed => ?_
      rw [List.filter_filter]
      refine List.filter_congr fun x _ => ?_
      by_cases keyed : f x = l
      · have other : l ≠ k := fun same => fresh (same ▸ listed)
        simp [keyed, other]
      · simp [keyed]
    rw [List.flatMap_cons, ← later]
    exact (rest.append_left _).trans (List.filter_append_perm _ xs)

end Dockgraph.Keyed
