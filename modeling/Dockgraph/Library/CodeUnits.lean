import Dockgraph.Library.SortBy
import Mathlib.Data.List.Lex
import Mathlib.Order.Basic

/-!
# Sorted and joined texts

JavaScript sorts texts by their UTF-16 code units. A join by a separator that is in no part is read back.
-/
namespace Dockgraph.CodeUnits

/-- The UTF-16 code units of a character. -/
def charUnits (c : Char) : List Nat :=
  if c.toNat < 0x10000 then [c.toNat]
  else [0xD800 + (c.toNat - 0x10000) / 0x400, 0xDC00 + (c.toNat - 0x10000) % 0x400]

def units (s : String) : List Nat := s.toList.flatMap charUnits

/-- `Array.prototype.sort` of texts. -/
def sort (xs : List String) : List String := xs.mergeSort fun a b => units a ≤ units b

/-- `Array.prototype.join` by one character. -/
def join (sep : Char) (xs : List String) : String := (String.singleton sep).intercalate xs

/-! ## The order of code units -/

theorem not_surrogate (c : Char) : c.toNat < 0xD800 ∨ 0xDFFF < c.toNat := by
  rcases c.valid with low | ⟨high, -⟩
  · exact .inl low
  · exact .inr high

theorem charUnits_append_inj {c d : Char} {us vs : List Nat} (same : charUnits c ++ us = charUnits d ++ vs) :
    c = d ∧ us = vs := by
  have hc := not_surrogate c
  have hd := not_surrogate d
  have bound : c.toNat < 0x110000 ∧ d.toNat < 0x110000 := by
    refine ⟨?_, ?_⟩
    · rcases c.valid with low | ⟨-, high⟩
      · exact Nat.lt_trans low (by decide)
      · exact high
    · rcases d.valid with low | ⟨-, high⟩
      · exact Nat.lt_trans low (by decide)
      · exact high
  unfold charUnits at same
  -- one unit is no surrogate, and the first of two is one
  split at same <;> split at same
  · simp only [List.cons_append, List.nil_append, List.cons.injEq] at same
    exact ⟨Char.toNat_inj.mp same.1, same.2⟩
  · simp only [List.cons_append, List.nil_append, List.cons.injEq] at same
    omega
  · simp only [List.cons_append, List.nil_append, List.cons.injEq] at same
    omega
  · simp only [List.cons_append, List.nil_append, List.cons.injEq] at same
    exact ⟨Char.toNat_inj.mp (by omega), same.2.2⟩

theorem charUnits_ne_nil (c : Char) : charUnits c ≠ [] := by
  unfold charUnits
  split <;> exact List.cons_ne_nil _ _

theorem units_injective : Function.Injective units := by
  have chars (cs ds : List Char) (same : cs.flatMap charUnits = ds.flatMap charUnits) : cs = ds := by
    induction cs generalizing ds with
    | nil =>
      cases ds with
      | nil => rfl
      | cons d ds =>
        rw [List.flatMap_nil, List.flatMap_cons, eq_comm, List.append_eq_nil_iff] at same
        exact absurd same.1 (charUnits_ne_nil d)
    | cons c cs ih =>
      cases ds with
      | nil =>
        rw [List.flatMap_nil, List.flatMap_cons, List.append_eq_nil_iff] at same
        exact absurd same.1 (charUnits_ne_nil c)
      | cons d ds =>
        rw [List.flatMap_cons, List.flatMap_cons] at same
        obtain ⟨rfl, rest⟩ := charUnits_append_inj same
        rw [ih ds rest]
  intro s t same
  exact String.toList_inj.mp (chars _ _ same)

/-! ## Sorting -/

variable {xs ys : List String}

theorem sort_perm (xs : List String) : (sort xs).Perm xs := List.mergeSort_perm _ _

/-- Sorting forgets the order, and nothing else. -/
theorem sort_eq_iff : sort xs = sort ys ↔ xs.Perm ys :=
  ⟨fun same => (sort_perm xs).symm.trans (same ▸ sort_perm ys), SortBy.mergeSort_eq_of_perm units units_injective⟩

/-! ## Joining -/

section Join

variable {sep : Char}

/-- A join has nothing but the separator and what is in the parts. -/
theorem mem_join {c : Char} (member : c ∈ (join sep xs).toList) :
    c = sep ∨ ∃ x ∈ xs, c ∈ x.toList := by
  unfold join at member
  induction xs with
  | nil => simp at member
  | cons x rest ih =>
    cases rest with
    | nil =>
      rw [String.intercalate_singleton] at member
      exact .inr ⟨x, List.mem_cons_self, member⟩
    | cons y rest =>
      rw [String.intercalate_cons_cons, String.toList_append, String.toList_append, List.mem_append, List.mem_append]
        at member
      rcases member with (first | between) | later
      · exact .inr ⟨x, List.mem_cons_self, first⟩
      · exact .inl (by simpa using between)
      · refine (ih later).imp_right fun ⟨z, listed, within⟩ => ⟨z, List.mem_cons_of_mem x listed, within⟩

theorem splitOn_join (filled : xs ≠ []) (absent : ∀ x ∈ xs, sep ∉ x.toList) :
    ([sep].intercalate (xs.map String.toList)).splitOn sep = xs.map String.toList := by
  refine List.splitOn_intercalate sep (fun l listed => ?_) (by simpa using filled)
  obtain ⟨x, member, rfl⟩ := List.mem_map.mp listed
  exact absent x member

theorem join_ne_nil (filled : xs ≠ []) (present : ∀ x ∈ xs, x ≠ "") (absent : ∀ x ∈ xs, sep ∉ x.toList) :
    [sep].intercalate (xs.map String.toList) ≠ [] := by
  intro empty
  have parts := splitOn_join filled absent
  rw [empty, List.splitOn_nil] at parts
  obtain ⟨x, member, nothing⟩ := List.mem_map.mp (parts ▸ List.mem_singleton_self ([] : List Char))
  exact present x member (String.toList_eq_nil_iff.mp nothing)

/-- A join of texts that are not empty and do not have the separator determines them. -/
theorem join_inj (presentX : ∀ x ∈ xs, x ≠ "") (presentY : ∀ y ∈ ys, y ≠ "")
    (absentX : ∀ x ∈ xs, sep ∉ x.toList) (absentY : ∀ y ∈ ys, sep ∉ y.toList)
    (same : join sep xs = join sep ys) : xs = ys := by
  have chars : [sep].intercalate (xs.map String.toList) = [sep].intercalate (ys.map String.toList) := by
    simpa [join] using congrArg String.toList same
  -- the empty list and the list of an empty text have the same join
  by_cases filledX : xs = []
  · subst filledX
    by_contra filledY
    exact join_ne_nil (Ne.symm filledY) presentY absentY chars.symm
  · by_cases filledY : ys = []
    · subst filledY
      exact absurd chars (join_ne_nil filledX presentX absentX)
    · have parts := splitOn_join filledX absentX
      rw [chars, splitOn_join filledY absentY] at parts
      exact (List.map_injective_iff.mpr (fun _ _ same => String.toList_inj.mp same) parts).symm

theorem toList_join_cons (x : String) (rest : List String) :
    (join sep (x :: rest)).toList = x.toList ++ if rest = [] then [] else sep :: (join sep rest).toList := by
  cases rest with
  | nil => simp [join]
  | cons y rest =>
    unfold join
    rw [String.intercalate_cons_cons, if_neg (List.cons_ne_nil y rest)]
    simp

/-- A join also determines parts that have the separator, where each shows its own end. -/
theorem join_inj_of_ended (presentX : ∀ x ∈ xs, x ≠ "") (presentY : ∀ y ∈ ys, y ≠ "")
    (ended : ∀ x ∈ xs, ∀ y ∈ ys, ∀ us vs : List Char, (∀ u ∈ us.head?, u = sep) → (∀ v ∈ vs.head?, v = sep) →
      x.toList ++ us = y.toList ++ vs → x = y ∧ us = vs)
    (same : join sep xs = join sep ys) : xs = ys := by
  have none (x : String) (rest : List String) (present : x ≠ "") : join sep (x :: rest) ≠ join sep [] := by
    intro empty
    have chars := congrArg String.toList empty
    rw [toList_join_cons] at chars
    exact present (String.toList_eq_nil_iff.mp (List.append_eq_nil_iff.mp chars).1)
  have tail (rest : List String) :
      ∀ c ∈ (if rest = [] then [] else sep :: (join sep rest).toList).head?, c = sep := by
    intro c first
    split at first
    · exact absurd first (Option.not_mem_none c)
    · exact (Option.mem_some_iff.mp first).symm
  induction xs generalizing ys with
  | nil =>
    cases ys with
    | nil => rfl
    | cons y ys => exact absurd same.symm (none y ys (presentY y List.mem_cons_self))
  | cons x xs ih =>
    cases ys with
    | nil => exact absurd same (none x xs (presentX x List.mem_cons_self))
    | cons y ys =>
      have chars := congrArg String.toList same
      rw [toList_join_cons, toList_join_cons] at chars
      obtain ⟨rfl, rest⟩ := ended x List.mem_cons_self y List.mem_cons_self _ _ (tail xs) (tail ys) chars
      by_cases lastX : xs = []
      · by_cases lastY : ys = []
        · rw [lastX, lastY]
        · rw [if_pos lastX, if_neg lastY] at rest
          exact absurd rest.symm (List.cons_ne_nil _ _)
      · by_cases lastY : ys = []
        · rw [if_neg lastX, if_pos lastY] at rest
          exact absurd rest (List.cons_ne_nil _ _)
        · rw [if_neg lastX, if_neg lastY] at rest
          have later := ih (fun x member => presentX x (List.mem_cons_of_mem _ member))
            (fun y member => presentY y (List.mem_cons_of_mem _ member))
            (fun x member y member' => ended x (List.mem_cons_of_mem _ member) y (List.mem_cons_of_mem _ member'))
            (String.toList_inj.mp (List.cons.inj rest).2)
          rw [later]

end Join

end Dockgraph.CodeUnits
