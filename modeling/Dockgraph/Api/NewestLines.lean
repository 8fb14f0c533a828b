import Dockgraph.Api.LogLines
import Dockgraph.Library.SortBy
import Mathlib.Data.List.Perm.Subperm

/-!
# The newest lines of a page

What `newestLines` still holds of the lines added to it. A trim by lines leaves no room for an
older line, but a trim by bytes does: a line added after it must not be older than one it dropped.
-/
namespace Dockgraph.Api

open Suffix

variable {α : Type} [HistoryLine α]

theorem pageSize_perm {xs ys : List α} (perm : xs.Perm ys) : pageSize xs = pageSize ys :=
  (perm.map size).sum_nat

theorem pageSize_le_of_subperm {xs ys : List α} (part : xs.Subperm ys) : pageSize xs ≤ pageSize ys := by
  obtain ⟨zs, perm, sublist⟩ := part
  rw [← pageSize_perm perm]
  exact pageSize_le_of_sublist sublist

theorem fits_of_subperm {budget : Nat} {xs ys : List α} (part : xs.Subperm ys) (fits : Fits budget ys) :
    Fits budget xs :=
  fits.imp part.length_le.trans (pageSize_le_of_subperm part).trans

namespace NewestLines

/-! ## A trim -/

theorem trim_lines (n : NewestLines α) :
    n.trim.lines = longestSuffix (Fits maxHistoryPageBytes)
      (newest n.limit (n.lines.mergeSort fun a b => stamp a ≤ stamp b)) := by
  rw [trim, newestWithin_eq]

theorem trim_suffix (n : NewestLines α) :
    n.trim.lines <:+ n.lines.mergeSort fun a b => stamp a ≤ stamp b := by
  rw [trim_lines]
  exact (longestSuffix_suffix _).trans (newest_suffix _ _)

theorem length_trim (n : NewestLines α) : n.trim.lines.length ≤ n.limit := by
  rw [trim_lines]
  have within := (longestSuffix_suffix (p := Fits maxHistoryPageBytes)
    (newest n.limit (n.lines.mergeSort fun a b => stamp a ≤ stamp b))).length_le
  rw [length_newest] at within
  omega

theorem fits_trim (n : NewestLines α) : Fits maxHistoryPageBytes n.trim.lines := by
  rw [trim_lines]
  exact longestSuffix_holds (.inl (Nat.zero_le 1)) _

theorem mem_of_mem_trim {n : NewestLines α} {l : α} (member : l ∈ n.trim.lines) : l ∈ n.lines :=
  List.mem_mergeSort.mp (n.trim_suffix.subset member)

/-- Lines with different timestamps are sorted strictly. -/
theorem pairwise_sorted {lines : List α} (distinct : (lines.map stamp).Nodup) :
    (lines.mergeSort fun a b => stamp a ≤ stamp b).Pairwise fun a b => stamp a < stamp b :=
  SortBy.pairwise_lt stamp distinct

theorem mergeSort_eq {lines sorted : List α} (perm : lines.Perm sorted)
    (ascending : sorted.Pairwise fun a b => stamp a < stamp b) :
    (lines.mergeSort fun a b => stamp a ≤ stamp b) = sorted :=
  SortBy.mergeSort_eq stamp perm ascending

/-- A trim of lines that are already held in order, or are put in it. -/
theorem trim_eq {n : NewestLines α} {sorted page : List α} (perm : n.lines.Perm sorted)
    (ascending : sorted.Pairwise fun a b => stamp a < stamp b)
    (kept : longestSuffix (Fits maxHistoryPageBytes) (newest n.limit sorted) = page) :
    n.trim = { n with lines := page, total := pageSize page } := by
  rw [trim, mergeSort_eq perm ascending, newestWithin_eq, kept]

theorem pairwise_trim {n : NewestLines α} (distinct : (n.lines.map stamp).Nodup) :
    n.trim.lines.Pairwise fun a b => stamp a < stamp b :=
  (pairwise_sorted distinct).sublist n.trim_suffix.sublist

/-- A trim drops only lines older than all it keeps. -/
theorem trim_drops {n : NewestLines α} (distinct : (n.lines.map stamp).Nodup) {d r : α}
    (member : d ∈ n.lines) (out : d ∉ n.trim.lines) (kept : r ∈ n.trim.lines) : stamp d < stamp r :=
  lt_of_not_mem_suffix (pairwise_sorted distinct) n.trim_suffix (List.mem_mergeSort.mpr member) out kept

theorem trim_ne_nil {n : NewestLines α} (positive : 1 ≤ n.limit) (some : n.lines ≠ []) :
    n.trim.lines ≠ [] := by
  rw [trim_lines]
  apply longestSuffix_ne_nil (fun x => .inl (le_refl 1))
  apply List.ne_nil_of_length_pos
  rw [length_newest, List.length_mergeSort]
  have := List.length_pos_of_ne_nil some
  omega

/-- The lines held that are newer than this one leave it no room in a page. -/
def Crowded (n : NewestLines α) (l : α) : Prop :=
  n.limit ≤ (n.lines.filter fun k => stamp l < stamp k).length ∨
    ¬Fits maxHistoryPageBytes (l :: n.lines.filter fun k => stamp l < stamp k)

/-- A crowded line does not survive a trim. -/
theorem not_mem_trim {n : NewestLines α} (distinct : (n.lines.map stamp).Nodup) {r : α}
    (crowded : n.Crowded r) : r ∉ n.trim.lines := by
  intro kept
  -- with `r`, every newer line is kept
  have newer : r :: (n.lines.filter fun l => stamp r < stamp l) ⊆ n.trim.lines := by
    intro d member
    rcases List.mem_cons.mp member with rfl | member
    · exact kept
    · obtain ⟨held, less⟩ := List.mem_filter.mp member
      by_contra out
      exact lt_asymm (of_decide_eq_true less) (trim_drops distinct held out kept)
  have nodup : (r :: (n.lines.filter fun l => stamp r < stamp l)).Nodup := by
    refine List.nodup_cons.mpr ⟨fun member => ?_, (List.Nodup.of_map stamp distinct).filter _⟩
    exact lt_irrefl _ (of_decide_eq_true (List.mem_filter.mp member).2)
  have part := List.subperm_of_subset nodup newer
  rcases crowded with many | heavy
  · have long := part.length_le
    have short := n.length_trim
    rw [List.length_cons] at long
    omega
  · exact heavy (fits_of_subperm part n.fits_trim)

/-! ## What is held -/

structure Holds (n : NewestLines α) (added : List α) : Prop where
  subset : ∀ l ∈ n.lines, l ∈ added
  distinct : (n.lines.map stamp).Nodup
  dropped : ∀ d ∈ added, d ∉ n.lines → ∀ r ∈ n.lines, stamp d < stamp r ∨ n.Crowded r
  newest : ∀ d ∈ added, ∃ r ∈ n.lines, stamp d ≤ stamp r

variable {n : NewestLines α} {added : List α}

/-- After a trim, whatever is not held is older than all that is. -/
theorem Holds.trim_dropped (holds : n.Holds added) {d r : α} (member : d ∈ added)
    (out : d ∉ n.trim.lines) (kept : r ∈ n.trim.lines) : stamp d < stamp r := by
  by_cases held : d ∈ n.lines
  · exact trim_drops holds.distinct held out kept
  · rcases holds.dropped d member held r (mem_of_mem_trim kept) with less | crowded
    · exact less
    · exact absurd kept (not_mem_trim holds.distinct crowded)

theorem Holds.trim_newest (holds : n.Holds added) (positive : 1 ≤ n.limit) {d : α}
    (member : d ∈ added) : ∃ r ∈ n.trim.lines, stamp d ≤ stamp r := by
  obtain ⟨r, held, le⟩ := holds.newest d member
  by_cases kept : r ∈ n.trim.lines
  · exact ⟨r, kept, le⟩
  · obtain ⟨s, first⟩ := List.exists_mem_of_ne_nil _ (trim_ne_nil positive (List.ne_nil_of_mem held))
    exact ⟨s, first, le.trans (trim_drops holds.distinct held kept first).le⟩

theorem Holds.trim (holds : n.Holds added) (positive : 1 ≤ n.limit) : n.trim.Holds added where
  subset l member := holds.subset l (mem_of_mem_trim member)
  distinct :=
    List.pairwise_map.mpr ((pairwise_trim holds.distinct).imp fun less => ne_of_lt less)
  dropped _ member out _ kept := .inl (holds.trim_dropped member out kept)
  newest _ member := holds.trim_newest positive member

/-- A line is added without harm when what was dropped before is older, or the line itself crowded. -/
def Spares (n : NewestLines α) (added : List α) (l : α) : Prop :=
  ∀ d ∈ added, d ∉ n.lines → stamp d < stamp l ∨ n.Crowded l

theorem Crowded.push {r : α} (crowded : n.Crowded r) (l : α) (total : Nat) :
    ({ n with lines := n.lines ++ [l], total } : NewestLines α).Crowded r := by
  unfold Crowded at *
  rw [List.filter_append]
  refine crowded.imp (fun many => ?_) fun heavy fits => heavy (fits_of_subperm ?_ fits)
  · rw [List.length_append]
    exact Nat.le_add_right_of_le many
  · exact ((List.sublist_append_left _ _).cons_cons r).subperm

theorem Holds.push (holds : n.Holds added) {l : α} (fresh : stamp l ∉ added.map stamp)
    (spares : n.Spares added l) (total : Nat) :
    ({ n with lines := n.lines ++ [l], total } : NewestLines α).Holds (added ++ [l]) := by
  constructor
  · intro k member
    rcases List.mem_append.mp member with held | last
    · exact List.mem_append_left _ (holds.subset k held)
    · exact List.mem_append_right _ last
  · rw [List.map_append, List.map_singleton, List.nodup_append]
    refine ⟨holds.distinct, List.nodup_singleton _, ?_⟩
    rintro _ held _ last rfl
    obtain ⟨k, member, same⟩ := List.mem_map.mp held
    rw [List.mem_singleton] at last
    exact fresh (List.mem_map.mpr ⟨k, holds.subset k member, same.trans last⟩)
  · intro d member out r held
    rw [List.mem_append, not_or] at out
    have before : d ∈ added := (List.mem_append.mp member).resolve_right out.2
    rcases List.mem_append.mp held with old | last
    · exact (holds.dropped d before out.1 r old).imp_right fun crowded => crowded.push l total
    · cases List.mem_singleton.mp last
      exact (spares d before out.1).imp_right fun crowded => crowded.push l total
  · intro d member
    rcases List.mem_append.mp member with before | last
    · obtain ⟨r, held, le⟩ := holds.newest d before
      exact ⟨r, List.mem_append_left _ held, le⟩
    · exact ⟨l, List.mem_append_right _ (List.mem_singleton_self l), by rw [List.mem_singleton.mp last]⟩

theorem Holds.add (holds : n.Holds added) (positive : 1 ≤ n.limit) {l : α}
    (fresh : stamp l ∉ added.map stamp) (spares : n.Spares added l) (older : n.drops l = false) :
    (n.add l).Holds (added ++ [l]) := by
  have pushed := holds.push fresh spares (n.total + size l)
  rw [NewestLines.add, if_neg (by simp [older])]
  dsimp only
  split
  · exact pushed.trim positive
  · exact pushed

/-! ## Any number of lines -/

theorem foldl_add_bounds (n : NewestLines α) (lines : List α) :
    (lines.foldl NewestLines.add n).cut = n.cut ∧ (lines.foldl NewestLines.add n).limit = n.limit := by
  induction lines generalizing n with
  | nil => exact ⟨rfl, rfl⟩
  | cons l lines ih =>
    have step : (n.add l).cut = n.cut ∧ (n.add l).limit = n.limit := by
      unfold NewestLines.add
      dsimp only
      repeat' split
      all_goals exact ⟨rfl, rfl⟩
    rw [List.foldl_cons, (ih _).1, (ih _).2]
    exact step

/-- Nothing is trimmed before there is twice a page. -/
theorem foldl_add_few {n : NewestLines α} {lines : List α}
    (few : n.lines.length + lines.length < 2 * n.limit)
    (light : n.total + pageSize lines ≤ 2 * maxHistoryPageBytes)
    (older : ∀ l ∈ lines, n.drops l = false) :
    lines.foldl NewestLines.add n =
      { n with lines := n.lines ++ lines, total := n.total + pageSize lines } := by
  induction lines generalizing n with
  | nil => simp [pageSize]
  | cons l lines ih =>
    rw [List.forall_mem_cons] at older
    rw [List.length_cons] at few
    rw [pageSize_cons] at light
    have room : ¬((n.lines ++ [l]).length ≥ 2 * n.limit ∨
        n.total + size l > 2 * maxHistoryPageBytes) := by
      rw [List.length_append, List.length_singleton]
      omega
    have step : n.add l = { n with lines := n.lines ++ [l], total := n.total + size l } := by
      rw [NewestLines.add, if_neg (by simp [older.1])]
      exact if_neg room
    rw [List.foldl_cons, step, ih]
    · simp [pageSize_cons, Nat.add_assoc]
    · dsimp only
      rw [List.length_append, List.length_singleton]
      omega
    · dsimp only
      omega
    · exact older.2

/-- The line that makes twice a page of bytes has the page trimmed. -/
theorem add_full {n : NewestLines α} {l : α} (older : n.drops l = false)
    (heavy : n.total + size l > 2 * maxHistoryPageBytes) :
    n.add l = ({ n with lines := n.lines ++ [l], total := n.total + size l } :
      NewestLines α).trim := by
  rw [NewestLines.add, if_neg (by simp [older])]
  exact if_pos (.inr heavy)

/-- No line is added with room in a page after a trim by bytes dropped a newer one. -/
def SparesAll (start : NewestLines α) (lines : List α) : Prop :=
  ∀ before l after, lines = before ++ l :: after →
    (before.foldl NewestLines.add start).Spares before l

/-- Nothing is dropped before there is twice a page. -/
theorem sparesAll_few {n : NewestLines α} {lines : List α} (few : n.lines.length + lines.length < 2 * n.limit)
    (light : n.total + pageSize lines ≤ 2 * maxHistoryPageBytes)
    (older : ∀ l ∈ lines, n.drops l = false) : n.SparesAll lines := by
  intro before l after cut d added out
  rw [cut, List.length_append] at few
  rw [cut, pageSize_append] at light
  have held := @foldl_add_few α _ n before (by omega) (by omega) fun l member =>
    older l (cut ▸ List.mem_append_left _ member)
  rw [held] at out
  exact absurd (List.mem_append_right _ added) out

theorem holds_foldl_add {start : NewestLines α} (positive : 1 ≤ start.limit)
    (empty : start.lines = []) {lines : List α} (distinct : (lines.map stamp).Nodup)
    (older : ∀ l ∈ lines, start.drops l = false) (spares : start.SparesAll lines) :
    (lines.foldl NewestLines.add start).Holds lines := by
  induction lines using List.reverseRecOn with
  | nil =>
    rw [List.foldl_nil]
    exact ⟨by rw [empty]; exact nofun, by rw [empty]; exact List.nodup_nil, nofun, nofun⟩
  | append_singleton lines l ih =>
    rw [List.map_append, List.map_singleton, List.nodup_append] at distinct
    have before := ih distinct.1 (fun k member => older k (List.mem_append_left _ member))
      fun xs k ys cut => spares xs k (ys ++ [l]) (by rw [cut]; simp)
    rw [List.foldl_append, List.foldl_cons, List.foldl_nil]
    apply before.add
    · rwa [(foldl_add_bounds start lines).2]
    · exact fun member => distinct.2.2 _ member _ (List.mem_singleton_self _) rfl
    · exact spares lines l [] rfl
    · have drops := older l (List.mem_append_right _ (List.mem_singleton_self l))
      rwa [NewestLines.drops, (foldl_add_bounds start lines).1]

end NewestLines

end Dockgraph.Api
