import Mathlib.Data.List.AList
import Mathlib.Data.List.Induction

/-!
# The preferred element of each key

A loop keeps one element for each key, and replaces it by one that is preferred to it. Where the
preference is a strict total order, the order of the loop does not matter.
-/
namespace Dockgraph.Preferred

universe u v

variable {κ : Type u} {α : Type v}

/-- An element preferred to all others of its key. -/
structure Best (key : α → κ) (prefer : α → α → Bool) (xs : List α) (x : α) : Prop where
  mem : x ∈ xs
  beats : ∀ y ∈ xs, key y = key x → y = x ∨ prefer x y = true

variable {key : α → κ} {prefer : α → α → Bool} {xs : List α} {x y : α}

theorem Best.extend (best : Best key prefer xs x) (beaten : key y = key x → y = x ∨ prefer x y = true) :
    Best key prefer (xs ++ [y]) x := by
  refine ⟨List.mem_append_left [y] best.mem, fun z member same => ?_⟩
  rcases List.mem_append.mp member with old | new
  · exact best.beats z old same
  · obtain rfl := List.mem_singleton.mp new
    exact beaten same

theorem Best.perm {ys : List α} (best : Best key prefer xs x) (perm : xs.Perm ys) : Best key prefer ys x :=
  ⟨perm.mem_iff.mp best.mem, fun y member => best.beats y (perm.mem_iff.mpr member)⟩

theorem Best.unique (irrefl : ∀ a, prefer a a = false)
    (trans : ∀ a b c, prefer a b = true → prefer b c = true → prefer a c = true)
    (first : Best key prefer xs x) (second : Best key prefer xs y) (same : key x = key y) : x = y := by
  rcases first.beats y second.mem same.symm with equal | before
  · exact equal.symm
  · rcases second.beats x first.mem same with equal | after
    · exact equal
    · have loop := trans x y x before after
      rw [irrefl] at loop
      cases loop

/-! ## The loop -/

variable [DecidableEq κ]

/-- Body of the loop. -/
def choose (key : α → κ) (prefer : α → α → Bool) (chosen : AList fun _ : κ => α) (x : α) :
    AList fun _ : κ => α :=
  match chosen.lookup (key x) with
  | some prev => if prefer x prev then chosen.insert (key x) x else chosen
  | none => chosen.insert (key x) x

/-- What the loop keeps of the elements it has seen. -/
structure Chosen (key : α → κ) (prefer : α → α → Bool) (xs : List α) (chosen : AList fun _ : κ => α) : Prop where
  best : ∀ k x, chosen.lookup k = some x → key x = k ∧ Best key prefer xs x
  covers : ∀ x ∈ xs, (chosen.lookup (key x)).isSome

section Step

variable {chosen : AList fun _ : κ => α}

/-- An element that is preferred to what is kept takes its place. -/
theorem Chosen.insert (kept : Chosen key prefer xs chosen)
    (better : ∀ y ∈ xs, key y = key x → y = x ∨ prefer x y = true) :
    Chosen key prefer (xs ++ [x]) (chosen.insert (key x) x) where
  best := by
    intro k z found
    by_cases own : k = key x
    · subst own
      rw [AList.lookup_insert] at found
      obtain rfl := Option.some.inj found
      refine ⟨rfl, List.mem_append_right xs List.mem_cons_self, fun y member same => ?_⟩
      rcases List.mem_append.mp member with old | new
      · exact better y old same
      · exact .inl (List.mem_singleton.mp new)
    · rw [AList.lookup_insert_ne own] at found
      obtain ⟨rfl, best⟩ := kept.best k z found
      exact ⟨rfl, best.extend fun same => absurd same.symm own⟩
  covers := by
    intro y member
    by_cases own : key y = key x
    · rw [own, AList.lookup_insert]
      rfl
    · rw [AList.lookup_insert_ne own]
      rcases List.mem_append.mp member with old | new
      · exact kept.covers y old
      · exact absurd (congrArg key (List.mem_singleton.mp new)) own

/-- An element that is not preferred is passed over. -/
theorem Chosen.skip (kept : Chosen key prefer xs chosen) {prev : α} (found : chosen.lookup (key x) = some prev)
    (beaten : x = prev ∨ prefer prev x = true) : Chosen key prefer (xs ++ [x]) chosen where
  best := by
    intro k z other
    obtain ⟨rfl, best⟩ := kept.best k z other
    refine ⟨rfl, best.extend fun same => ?_⟩
    rw [same] at found
    obtain rfl := Option.some.inj (found.symm.trans other)
    exact beaten
  covers := by
    intro y member
    rcases List.mem_append.mp member with old | new
    · exact kept.covers y old
    · rw [List.mem_singleton.mp new, found]
      rfl

theorem Chosen.choose (trans : ∀ a b c, prefer a b = true → prefer b c = true → prefer a c = true)
    (kept : Chosen key prefer xs chosen)
    (total : ∀ y ∈ xs, x = y ∨ prefer x y = true ∨ prefer y x = true) :
    Chosen key prefer (xs ++ [x]) (choose key prefer chosen x) := by
  unfold Preferred.choose
  cases found : chosen.lookup (key x) with
  | none =>
    refine kept.insert fun y listed same => ?_
    have covered := kept.covers y listed
    rw [same, found] at covered
    cases covered
  | some prev =>
    obtain ⟨same, best⟩ := kept.best _ prev found
    dsimp only
    split
    next better =>
      -- what `prev` beats, `x` does
      refine kept.insert fun y listed equal => ?_
      rcases best.beats y listed (equal.trans same.symm) with rfl | less
      · exact .inr better
      · exact .inr (trans x prev y better less)
    next worse =>
      refine kept.skip found ?_
      rcases total prev best.mem with equal | better | less
      · exact .inl equal
      · exact absurd better worse
      · exact .inr less

end Step

theorem chosen_foldl (trans : ∀ a b c, prefer a b = true → prefer b c = true → prefer a c = true)
    (total : ∀ a ∈ xs, ∀ b ∈ xs, a = b ∨ prefer a b = true ∨ prefer b a = true) :
    Chosen key prefer xs (xs.foldl (choose key prefer) ∅) := by
  -- by the elements gone through
  induction xs using List.reverseRecOn with
  | nil =>
    refine ⟨fun k x found => ?_, fun x member => ?_⟩
    · cases found
    · cases member
  | append_singleton xs x ih =>
    have listed : x ∈ xs ++ [x] := List.mem_append_right xs List.mem_cons_self
    rw [List.foldl_append, List.foldl_cons, List.foldl_nil]
    refine (ih fun a ha b hb => ?_).choose trans fun y member => ?_
    · exact total a (List.mem_append_left [x] ha) b (List.mem_append_left [x] hb)
    · exact total x listed y (List.mem_append_left [x] member)

/-- What the loop leaves for a key is the best element of that key. -/
theorem lookup_foldl_choose (irrefl : ∀ a, prefer a a = false)
    (trans : ∀ a b c, prefer a b = true → prefer b c = true → prefer a c = true)
    (total : ∀ a ∈ xs, ∀ b ∈ xs, a = b ∨ prefer a b = true ∨ prefer b a = true) (k : κ) :
    (xs.foldl (choose key prefer) ∅).lookup k = some x ↔ key x = k ∧ Best key prefer xs x := by
  have kept : Chosen key prefer xs (xs.foldl (choose key prefer) ∅) := chosen_foldl trans total
  refine ⟨kept.best k x, ?_⟩
  rintro ⟨rfl, best⟩
  obtain ⟨y, found⟩ := Option.isSome_iff_exists.mp (kept.covers x best.mem)
  obtain ⟨same, other⟩ := kept.best _ y found
  rw [found, other.unique irrefl trans best same]

end Dockgraph.Preferred
