import Dockgraph.Api.LogPaging

/-!
# Selecting the newest lines

What is selected of some lines is the longest run of the newest ones within the limits. A line is in
it just when it has room beside all newer ones, and a line that `newestLines` dropped is not among
those it compares with.
-/
namespace Dockgraph.Api

open Suffix Timestamp

variable {α : Type} [HistoryLine α]

/-! ## The reference -/

/-- Docker's fixed-width RFC 3339. -/
def FixedWidth (l : α) : Prop := ∃ t : Stamp, stamp l = t.text

def instantOf (l : α) : Int := (timeParse (stamp l)).getD 0

/-- The lines older than the cursor. -/
def olderThan (before : String) (lines : List α) : List α :=
  match timeParse before with
  | none => lines
  | some cut => lines.filter fun l => instantOf l < cut

/-- All lines older than the cursor, sorted by time, and of these the longest run of the newest that
are at most `limit` and within the size of a page. -/
def reference (before : String) (limit : Nat) (lines : List α) : List α :=
  longestSuffix (fun page => page.length ≤ limit ∧ Fits maxHistoryPageBytes page)
    ((olderThan before lines).mergeSort fun a b => instantOf a ≤ instantOf b)

/-! ## What is selected of some lines -/

/-- What a trim leaves of the lines. -/
def selection (limit : Nat) (lines : List α) : List α :=
  longestSuffix (Fits maxHistoryPageBytes)
    (newest limit (lines.mergeSort fun a b => stamp a ≤ stamp b))

/-- The lines newer than this one. -/
def newer (lines : List α) (l : α) : List α := lines.filter fun k => stamp l < stamp k

/-- The line has room beside the newer ones. -/
def Room (limit : Nat) (lines : List α) (l : α) : Prop :=
  (newer lines l).length < limit ∧ Fits maxHistoryPageBytes (l :: newer lines l)

theorem room_of_subperm {limit : Nat} {xs ys : List α} {l : α} (part : (newer xs l).Subperm (newer ys l))
    (room : Room limit ys l) : Room limit xs l :=
  room.imp part.length_le.trans_lt (fits_of_subperm ((List.subperm_cons l).mpr part))

section Distinct

variable {limit : Nat} {xs ys : List α} {k l : α}

theorem room_iff {pre post : List α} (distinct : (xs.map stamp).Nodup)
    (split : (xs.mergeSort fun a b => stamp a ≤ stamp b) = pre ++ l :: post) :
    Room limit xs l ↔ (l :: post).length ≤ limit ∧ Fits maxHistoryPageBytes (l :: post) := by
  have sorted := NewestLines.pairwise_sorted distinct
  have perm : (newer xs l).Perm post := by
    have filtered := (List.mergeSort_perm xs fun a b => stamp a ≤ stamp b).filter
      fun k => stamp l < stamp k
    rw [split] at sorted filtered
    rw [filter_lt_eq sorted] at filtered
    exact filtered.symm
  rw [Room, Fits, Fits, pageSize_cons, pageSize_cons, List.length_cons, List.length_cons,
    perm.length_eq, pageSize_perm perm, Nat.lt_iff_add_one_le]

theorem mem_selection (distinct : (xs.map stamp).Nodup) :
    l ∈ selection limit xs ↔ l ∈ xs ∧ Room limit xs l := by
  have sorted := NewestLines.pairwise_sorted distinct
  have hereditary : Hereditary fun page : List α =>
      page.length ≤ limit ∧ Fits maxHistoryPageBytes page := fun ys zs part both =>
    ⟨part.length_le.trans both.1, hereditary_fits _ part both.2⟩
  rw [selection, ← longestSuffix_length_and]
  by_cases listed : l ∈ xs
  · obtain ⟨pre, post, split⟩ := List.append_of_mem (List.mem_mergeSort.mpr listed)
    rw [room_iff distinct split, split, and_iff_right listed]
    rw [split] at sorted
    exact mem_longestSuffix hereditary (sorted.imp fun less same => less.ne (congrArg stamp same))
  · refine iff_of_false (fun member => listed ?_) fun both => listed both.1
    exact List.mem_mergeSort.mp ((longestSuffix_suffix _).subset member)

theorem selection_ascending (distinct : (xs.map stamp).Nodup) :
    (selection limit xs).Pairwise fun a b => stamp a < stamp b :=
  (NewestLines.pairwise_sorted distinct).sublist
    ((longestSuffix_suffix _).trans (newest_suffix _ _)).sublist

theorem newer_subperm (distinct : (xs.map stamp).Nodup) (part : xs ⊆ ys) :
    (newer xs l).Subperm (newer ys l) := by
  refine List.subperm_of_subset ((List.Nodup.of_map stamp distinct).filter _) fun k member => ?_
  obtain ⟨listed, less⟩ := List.mem_filter.mp member
  exact List.mem_filter.mpr ⟨part listed, less⟩

/-- A newer line has room as well. -/
theorem Room.newer (room : Room limit xs l) (distinct : (xs.map stamp).Nodup) (listed : k ∈ xs)
    (less : stamp l < stamp k) : Room limit xs k := by
  have nodup := (List.Nodup.of_map stamp distinct).filter fun j => stamp k < stamp j
  have part : (k :: Api.newer xs k).Subperm (Api.newer xs l) := by
    refine List.subperm_of_subset (List.nodup_cons.mpr ⟨fun member => ?_, nodup⟩) fun j member => ?_
    · exact lt_irrefl _ (of_decide_eq_true (List.mem_filter.mp member).2)
    · rcases List.mem_cons.mp member with rfl | later
      · exact List.mem_filter.mpr ⟨listed, decide_eq_true less⟩
      · obtain ⟨old, above⟩ := List.mem_filter.mp later
        exact List.mem_filter.mpr ⟨old, decide_eq_true (less.trans (of_decide_eq_true above))⟩
  have length := part.length_le
  rw [List.length_cons] at length
  exact ⟨Nat.lt_of_lt_of_le (Nat.lt_of_succ_le length) room.1.le,
    fits_of_subperm (part.trans (List.sublist_cons_self l _).subperm) room.2⟩

end Distinct

/-! ## One line more -/

/-- The line has room among the lines held although a newer one was dropped. -/
def Overtakes (limit : Nat) (held dropped : List α) (l : α) : Prop :=
  (∃ d ∈ dropped, d ∉ held ∧ stamp l < stamp d) ∧ Room limit held l

section Step

variable {limit : Nat} {held added : List α} {l : α}

theorem nodup_append_single {lines : List α} (distinct : ((lines ++ [l]).map stamp).Nodup) :
    (lines.map stamp).Nodup ∧ l ∉ lines := by
  rw [List.map_append, List.nodup_append] at distinct
  refine ⟨distinct.1, fun member => ?_⟩
  exact distinct.2.2 _ (List.mem_map_of_mem member) _ (List.mem_singleton_self (stamp l)) rfl

/-- What has room with one more line has it without. -/
theorem Room.shrink {lines : List α} {x : α} (distinct : (lines.map stamp).Nodup) (room : Room limit (lines ++ [l]) x) :
    Room limit lines x :=
  room_of_subperm (newer_subperm distinct (List.subset_append_left _ _)) room

/-- A line is not newer than itself. -/
theorem newer_append_self : newer (held ++ [l]) l = newer held l := by
  have itself : [l].filter (fun k => stamp l < stamp k) = [] := by
    refine List.filter_eq_nil_iff.mpr fun k member newer => ?_
    rw [List.mem_singleton.mp member] at newer
    exact lt_irrefl _ (of_decide_eq_true newer)
  rw [newer, List.filter_append, itself, List.append_nil, newer]

section Same

variable (distinct : ((added ++ [l]).map stamp).Nodup) (distinctHeld : ((held ++ [l]).map stamp).Nodup)
include distinct distinctHeld

/-- What is newer than a line that has room among those held is held, too. -/
theorem held_of_newer (same : selection limit held = selection limit added) {x d : α} (member : x ∈ held)
    (room : Room limit held x) (listed : d ∈ added) (less : stamp x < stamp d) : d ∈ held := by
  obtain ⟨distinct, -⟩ := nodup_append_single distinct
  obtain ⟨distinctHeld, -⟩ := nodup_append_single distinctHeld
  have selected : x ∈ selection limit added := same ▸ (mem_selection distinctHeld).mpr ⟨member, room⟩
  have roomd := ((mem_selection distinct).mp selected).2.newer distinct listed less
  exact ((mem_selection distinctHeld).mp (same ▸ (mem_selection distinct).mpr ⟨listed, roomd⟩)).1

/-- A line that overtakes one that was dropped is selected, and the dropped one with it. -/
theorem not_overtakes (equal : selection limit (held ++ [l]) = selection limit (added ++ [l])) :
    ¬Overtakes limit held added l := by
  rintro ⟨⟨d, listed, out, less⟩, room⟩
  have roomL : Room limit (held ++ [l]) l := by rwa [Room, newer_append_self]
  have selected : l ∈ selection limit (added ++ [l]) :=
    equal ▸ (mem_selection distinctHeld).mpr ⟨by simp, roomL⟩
  have roomd := ((mem_selection distinct).mp selected).2.newer distinct (List.mem_append_left _ listed) less
  have kept : d ∈ selection limit (held ++ [l]) :=
    equal ▸ (mem_selection distinct).mpr ⟨List.mem_append_left _ listed, roomd⟩
  rcases List.mem_append.mp ((mem_selection distinctHeld).mp kept).1 with old | new
  · exact out old
  · exact (nodup_append_single distinct).2 (List.mem_singleton.mp new ▸ listed)

/-- What is newer than a selected line is held unless the new line overtakes. -/
theorem newer_subperm_held (same : selection limit held = selection limit added)
    (spared : ¬Overtakes limit held added l) {x : α} (member : x ∈ held ++ [l])
    (room : Room limit (held ++ [l]) x) : (newer (added ++ [l]) x).Subperm (newer (held ++ [l]) x) := by
  have room := room.shrink (nodup_append_single distinctHeld).1
  refine List.subperm_of_subset ((List.Nodup.of_map stamp distinct).filter _) fun d newerd => ?_
  obtain ⟨listed, less⟩ := List.mem_filter.mp newerd
  refine List.mem_filter.mpr ⟨?_, less⟩
  have less := of_decide_eq_true less
  rcases List.mem_append.mp listed with old | new
  · refine List.mem_append_left _ ?_
    rcases List.mem_append.mp member with heldx | last
    · exact held_of_newer distinct distinctHeld same heldx room old less
    · by_contra out
      cases List.mem_singleton.mp last
      exact spared ⟨⟨d, old, out, less⟩, room⟩
  · exact List.mem_append_right _ new

end Same

/-- Where the lines held select what all lines do, one more line is selected alike unless it
overtakes one that was dropped. -/
theorem selection_append_iff (distinct : ((added ++ [l]).map stamp).Nodup)
    (distinctHeld : ((held ++ [l]).map stamp).Nodup) (part : held ⊆ added)
    (same : selection limit held = selection limit added) :
    selection limit (held ++ [l]) = selection limit (added ++ [l]) ↔ ¬Overtakes limit held added l := by
  have partL : held ++ [l] ⊆ added ++ [l] := List.append_subset.mpr
    ⟨fun _ member => List.mem_append_left _ (part member), List.subset_append_right _ _⟩
  refine ⟨not_overtakes distinct distinctHeld, fun spared => ?_⟩
  refine eq_of_mem_iff (selection_ascending distinctHeld) (selection_ascending distinct) fun x => ?_
  rw [mem_selection distinctHeld, mem_selection distinct]
  constructor
  · rintro ⟨member, room⟩
    exact ⟨partL member, room_of_subperm (newer_subperm_held distinct distinctHeld same spared member room) room⟩
  · rintro ⟨member, room⟩
    refine ⟨?_, room_of_subperm (newer_subperm distinctHeld partL) room⟩
    obtain ⟨distinct, -⟩ := nodup_append_single distinct
    obtain ⟨distinctHeld, -⟩ := nodup_append_single distinctHeld
    rcases List.mem_append.mp member with old | new
    · have selected : x ∈ selection limit held :=
        same ▸ (mem_selection distinct).mpr ⟨old, room.shrink distinct⟩
      exact List.mem_append_left _ ((mem_selection distinctHeld).mp selected).1
    · exact List.mem_append_right _ new

end Step

/-! ## Any number of lines -/

theorem selection_selection {limit : Nat} {lines : List α} (distinct : (lines.map stamp).Nodup) :
    selection limit (selection limit lines) = selection limit lines := by
  have short : (selection limit lines).length ≤ limit := by
    have length := (longestSuffix_suffix (p := Fits maxHistoryPageBytes)
      (newest limit (lines.mergeSort fun a b => stamp a ≤ stamp b))).length_le
    rw [length_newest] at length
    exact length.trans (Nat.min_le_left _ _)
  have fits : Fits maxHistoryPageBytes (selection limit lines) :=
    longestSuffix_holds (.inl (Nat.zero_le 1)) _
  have sorted : ((selection limit lines).mergeSort fun a b => stamp a ≤ stamp b) = selection limit lines :=
    NewestLines.mergeSort_eq (.refl _) (selection_ascending distinct)
  conv_lhs => rw [selection, sorted, newest_of_length_le short]
  exact longestSuffix_self fits

/-- The state after the lines were added. -/
def addAll (before : String) (limit : Nat) (lines : List α) : NewestLines α :=
  lines.foldl NewestLines.add (newNewestLines before limit)

/-- The lines among these that are not dropped at the cursor. -/
def eligible (before : String) (lines : List α) : List α :=
  lines.filter fun l => !(newNewestLines before 0).drops l

section Run

variable {before : String} {limit : Nat} {lines : List α} {l : α}

theorem limit_addAll : (addAll before limit lines).limit = limit :=
  (NewestLines.foldl_add_bounds (newNewestLines before limit) lines).2

theorem drops_addAll : (addAll before limit lines).drops l = (newNewestLines before 0).drops l := by
  have cut := (NewestLines.foldl_add_bounds (newNewestLines before limit) lines).1
  rw [NewestLines.drops, addAll, cut]
  rfl

theorem result_addAll : (addAll before limit lines).result =
    selection limit (addAll before limit lines).lines := by
  rw [NewestLines.result, NewestLines.trim_lines, limit_addAll, selection]

theorem addAll_append : addAll before limit (lines ++ [l]) = (addAll before limit lines).add l := by
  rw [addAll, List.foldl_append]
  rfl

theorem eligible_append : eligible before (lines ++ [l]) =
    if (newNewestLines before 0).drops l then eligible before lines
    else eligible before lines ++ [l] := by
  rw [eligible, List.filter_append, eligible]
  split
  next drops => simp [drops]
  next keeps => simp [keeps]

/-- What `add` does to a line that is not dropped. -/
theorem lines_add {n : NewestLines α} (keeps : n.drops l = false) :
    (n.add l).lines = n.lines ++ [l] ∨ (n.add l).lines = selection n.limit (n.lines ++ [l]) := by
  rw [NewestLines.add, if_neg (by simp [keeps])]
  dsimp only
  split
  · exact .inr (NewestLines.trim_lines _)
  · exact .inl rfl

theorem mem_of_mem_selection {xs : List α} (member : l ∈ selection limit xs) : l ∈ xs :=
  List.mem_mergeSort.mp (((longestSuffix_suffix _).trans (newest_suffix _ _)).subset member)

theorem nodup_append_of_subset {xs : List α} (distinct : ((lines ++ [l]).map stamp).Nodup)
    (part : xs ⊆ lines) (unique : (xs.map stamp).Nodup) : ((xs ++ [l]).map stamp).Nodup := by
  rw [List.map_append, List.nodup_append] at distinct ⊢
  refine ⟨unique, distinct.2.1, fun s held t last => distinct.2.2 s ?_ t last⟩
  obtain ⟨k, member, rfl⟩ := List.mem_map.mp held
  exact List.mem_map_of_mem (part member)

theorem eligible_subset : eligible before lines ⊆ lines :=
  fun _ member => (List.mem_filter.mp member).1

/-- Only eligible lines are held, and none twice. -/
theorem held_addAll (before : String) (limit : Nat) (distinct : (lines.map stamp).Nodup) :
    (addAll before limit lines).lines ⊆ eligible before lines ∧
      ((addAll before limit lines).lines.map stamp).Nodup := by
  induction lines using List.reverseRecOn with
  | nil => exact ⟨List.nil_subset _, List.nodup_nil⟩
  | append_singleton lines l ih =>
    obtain ⟨distinct₀, fresh⟩ := nodup_append_single distinct
    obtain ⟨part, unique⟩ := ih distinct₀
    rw [addAll_append, eligible_append]
    cases keeps : (newNewestLines before 0).drops l with
    | true =>
      rw [NewestLines.add, if_pos (by rw [drops_addAll, keeps]), if_pos rfl]
      exact ⟨part, unique⟩
    | false =>
      have more : ((addAll before limit lines).lines ++ [l]) ⊆ eligible before lines ++ [l] :=
        List.append_subset.mpr
          ⟨fun _ member => List.mem_append_left _ (part member), List.subset_append_right _ _⟩
      have apart := nodup_append_of_subset distinct (fun k member => eligible_subset (part member)) unique
      rw [if_neg (by simp)]
      rcases lines_add (n := addAll before limit lines) (l := l) (by rw [drops_addAll, keeps])
        with pushed | trimmed
      · rw [pushed]
        exact ⟨more, apart⟩
      · rw [trimmed]
        exact ⟨fun k member => more (mem_of_mem_selection member),
          List.pairwise_map.mpr ((selection_ascending apart).imp fun less => less.ne)⟩

end Run

/-! ## The reference is the selection of all lines -/

section Reference

variable {before : String} {limit : Nat} {lines : List α}

theorem instantOf_lt {k l : α} (first : FixedWidth k) (second : FixedWidth l) :
    instantOf k < instantOf l ↔ stamp k < stamp l := by
  obtain ⟨s, same⟩ := first
  obtain ⟨t, same'⟩ := second
  rw [instantOf, instantOf, same, same', Stamp.timeParse_text, Stamp.timeParse_text, Stamp.text_lt_iff]
  exact Nat.cast_lt

theorem olderThan_eq (fixed : ∀ l ∈ lines, FixedWidth l) : olderThan before lines = eligible before lines := by
  rw [olderThan, eligible]
  cases parsed : timeParse before with
  | none => simp [NewestLines.drops, newNewestLines, parsed]
  | some cut =>
    refine List.filter_congr fun l member => ?_
    obtain ⟨t, same⟩ := fixed l member
    simp [NewestLines.drops, newNewestLines, parsed, atOrAfter, instantOf, same, Stamp.timeParse_text]

theorem reference_eq (distinct : (lines.map stamp).Nodup) (fixed : ∀ l ∈ lines, FixedWidth l) :
    reference before limit lines = selection limit (eligible before lines) := by
  have fixedE : ∀ l ∈ eligible before lines, FixedWidth l := fun l member =>
    fixed l (List.mem_filter.mp member).1
  have distinctE : ((eligible before lines).map stamp).Nodup :=
    distinct.sublist (List.filter_sublist.map stamp)
  let sorted := (eligible before lines).mergeSort fun a b => instantOf a ≤ instantOf b
  have perm : sorted.Perm (eligible before lines) := List.mergeSort_perm _ _
  have ascending : sorted.Pairwise fun a b => stamp a < stamp b := by
    have ordered : sorted.Pairwise fun a b => decide (instantOf a ≤ instantOf b) = true :=
      List.pairwise_mergeSort
        (fun a b c ab bc => decide_eq_true ((of_decide_eq_true ab).trans (of_decide_eq_true bc)))
        (fun a b => by simpa using le_total (instantOf a) (instantOf b)) _
    have apart : sorted.Pairwise fun a b => stamp a ≠ stamp b :=
      List.pairwise_map.mp ((perm.map stamp).nodup_iff.mpr distinctE)
    refine (ordered.and apart).imp_of_mem fun {a b} first second both => ?_
    have le := of_decide_eq_true both.1
    rcases lt_trichotomy (stamp a) (stamp b) with less | same | more
    · exact less
    · exact absurd same both.2
    · have late := (instantOf_lt (fixedE b (perm.mem_iff.mp second)) (fixedE a (perm.mem_iff.mp first))).mpr
        more
      omega
  rw [reference, olderThan_eq fixed, longestSuffix_length_and, selection,
    NewestLines.mergeSort_eq perm.symm ascending]

theorem reference_perm {order : List α} (perm : order.Perm lines) (distinct : (lines.map stamp).Nodup)
    (fixed : ∀ l ∈ lines, FixedWidth l) :
    reference before limit order = reference before limit lines := by
  have distinct' : (order.map stamp).Nodup := (perm.map stamp).nodup_iff.mpr distinct
  have sub {xs : List α} (unique : (xs.map stamp).Nodup) : ((eligible before xs).map stamp).Nodup :=
    unique.sublist (List.filter_sublist.map stamp)
  rw [reference_eq distinct fixed,
    reference_eq distinct' fun l member => fixed l (perm.mem_iff.mp member)]
  have sorted : ((eligible before order).mergeSort fun a b => stamp a ≤ stamp b) =
      (eligible before lines).mergeSort fun a b => stamp a ≤ stamp b :=
    NewestLines.mergeSort_eq ((perm.filter _).trans (List.mergeSort_perm _ _).symm)
      (NewestLines.pairwise_sorted (sub distinct))
  rw [selection, selection, sorted]

end Reference

/-! ## When the selection is right -/

/-- The result is the reference's, in whatever order the reference takes the lines, and what it does
not hold is older than all it does. -/
structure Selects (before : String) (limit : Nat) (added : List α) : Prop where
  page : ∀ order : List α, order.Perm added →
    (addAll before limit added).result = reference before limit order
  newest : ∀ d ∈ olderThan before added, d ∉ (addAll before limit added).result →
    ∀ r ∈ (addAll before limit added).result, instantOf d < instantOf r

section Main

variable {before : String} {limit : Nat} {lines : List α} {l : α}

theorem selects_iff (distinct : (lines.map stamp).Nodup) (fixed : ∀ l ∈ lines, FixedWidth l) :
    Selects before limit lines ↔ selection limit (addAll before limit lines).lines =
      selection limit (eligible before lines) := by
  constructor
  · intro selects
    rw [← result_addAll, selects.page lines (.refl _), reference_eq distinct fixed]
  · intro same
    have page : (addAll before limit lines).result = selection limit (eligible before lines) :=
      result_addAll.trans same
    refine ⟨fun order perm => ?_, fun d member out r kept => ?_⟩
    · rw [reference_perm perm distinct fixed, reference_eq distinct fixed, page]
    · have distinctE : ((eligible before lines).map stamp).Nodup :=
        distinct.sublist (List.filter_sublist.map stamp)
      rw [page] at out kept
      rw [olderThan_eq fixed] at member
      have listed := mem_of_mem_selection kept
      refine (instantOf_lt (fixed d (List.mem_filter.mp member).1)
        (fixed r (List.mem_filter.mp listed).1)).mpr ?_
      exact lt_of_not_mem_suffix (NewestLines.pairwise_sorted distinctE)
        ((longestSuffix_suffix _).trans (newest_suffix _ _)) (List.mem_mergeSort.mpr member) out kept

/-- One line more. -/
theorem selection_addAll_iff (distinct : ((lines ++ [l]).map stamp).Nodup)
    (same : selection limit (addAll before limit lines).lines =
      selection limit (eligible before lines)) :
    selection limit (addAll before limit (lines ++ [l])).lines =
        selection limit (eligible before (lines ++ [l])) ↔
      ¬((newNewestLines before 0).drops l = false ∧
        Overtakes limit (addAll before limit lines).lines (eligible before lines) l) := by
  obtain ⟨distinct₀, fresh⟩ := nodup_append_single distinct
  obtain ⟨part, unique⟩ := held_addAll before limit distinct₀
  rw [addAll_append, eligible_append]
  cases keeps : (newNewestLines before 0).drops l with
  | true =>
    rw [NewestLines.add, if_pos (by rw [drops_addAll, keeps]), if_pos rfl]
    simp [same]
  | false =>
    have uniqueE : ((eligible before lines).map stamp).Nodup :=
      distinct₀.sublist (List.filter_sublist.map stamp)
    have apart := nodup_append_of_subset distinct (fun k member => eligible_subset (part member)) unique
    have apartE := nodup_append_of_subset distinct eligible_subset uniqueE
    have added : selection limit ((addAll before limit lines).add l).lines =
        selection limit ((addAll before limit lines).lines ++ [l]) := by
      rcases lines_add (n := addAll before limit lines) (l := l) (by rw [drops_addAll, keeps])
        with pushed | trimmed
      · rw [pushed]
      · rw [trimmed, limit_addAll, selection_selection apart]
    rw [added, if_neg (by simp), selection_append_iff apartE apart part same]
    simp

/-- Every line is added and selected from as the reference does. -/
def SelectsAll (before : String) (limit : Nat) (lines : List α) : Prop :=
  ∀ first rest, lines = first ++ rest → Selects before limit first

/-- Whenever a line is added that is older than one added before and not held any more, the lines held
that are newer than it leave it no room. -/
def NeverOvertakes (before : String) (limit : Nat) (lines : List α) : Prop :=
  ∀ first l rest, lines = first ++ l :: rest →
    ¬((newNewestLines before 0).drops l = false ∧
      Overtakes limit (addAll before limit first).lines (eligible before first) l)

/-- After every line the selection is the reference's just when no line overtakes a dropped one. -/
theorem selectsAll_iff (before : String) (limit : Nat) (lines : List α)
    (distinct : (lines.map stamp).Nodup) (fixed : ∀ l ∈ lines, FixedWidth l) :
    SelectsAll before limit lines ↔ NeverOvertakes before limit lines := by
  have at_ {first rest : List α} (cut : lines = first ++ rest) : Selects before limit first ↔
      selection limit (addAll before limit first).lines = selection limit (eligible before first) := by
    have part : first.Sublist lines := cut ▸ List.sublist_append_left first rest
    exact selects_iff (distinct.sublist (part.map stamp)) fun l member => fixed l (part.subset member)
  have next {first rest : List α} {l : α} (cut : lines = first ++ l :: rest) :
      lines = (first ++ [l]) ++ rest ∧ ((first ++ [l]).map stamp).Nodup := by
    have regroup : lines = (first ++ [l]) ++ rest := by simp [cut]
    exact ⟨regroup, distinct.sublist ((regroup ▸ List.sublist_append_left (first ++ [l]) rest).map stamp)⟩
  constructor
  · intro selects first l rest cut
    obtain ⟨regroup, distinctL⟩ := next cut
    have before := (at_ cut).mp (selects first _ cut)
    exact (selection_addAll_iff distinctL before).mp ((at_ regroup).mp (selects _ rest regroup))
  · intro spared first
    induction first using List.reverseRecOn with
    | nil => exact fun rest cut => (at_ cut).mpr rfl
    | append_singleton first l ih =>
      intro rest regroup
      have cut : lines = first ++ l :: rest := by simp [regroup]
      have same := (at_ cut).mp (ih _ cut)
      exact (at_ regroup).mpr ((selection_addAll_iff (next cut).2 same).mpr (spared first l rest cut))

end Main

/-- Five lines out of order, two to a page: the fourth has the page trimmed. -/
def unorderedLines : List LogEntry := [3, 1, 4, 0, 2].map (logLine 1)

theorem selectsAll_iff_unordered :
    SelectsAll "" 2 unorderedLines ↔ NeverOvertakes "" 2 unorderedLines := by
  have apart {i j : Nat} (small : i < 5) (bound : j < 5) (ne : i ≠ j) : (stampAt i).text ≠ (stampAt j).text := by
    rcases Nat.lt_or_gt_of_ne ne with less | more
    · exact (stampAt_lt (by omega) less).ne
    · exact (stampAt_lt (by omega) more).ne'
  have distinct : (unorderedLines.map stamp).Nodup := by
    change ([3, 1, 4, 0, 2].map fun i => (stampAt i).text).Nodup
    have few : ∀ i ∈ [3, 1, 4, 0, 2], i < 5 := by decide
    refine List.pairwise_map.mpr (List.Pairwise.imp_of_mem (fun {i j} first second ne => ?_)
      (show [3, 1, 4, 0, 2].Nodup by decide))
    exact apart (few i first) (few j second) ne
  refine selectsAll_iff "" 2 unorderedLines distinct fun l member => ?_
  obtain ⟨i, -, rfl⟩ := List.mem_map.mp member
  exact ⟨stampAt i, rfl⟩

/-- A short line takes the place of long ones that are newer and were dropped for their size. -/
theorem shortLine_overtakes : ¬∀ (before : String) (limit : Nat) (lines : List AggregateLine),
    1 ≤ limit → (lines.map stamp).Nodup → (∀ l ∈ lines, FixedWidth l) →
      (addAll before limit lines).result = reference before limit lines := by
  intro all
  have ascending : (shortLine :: longLines).Pairwise fun a b => stamp a < stamp b :=
    List.pairwise_cons.mpr ⟨fun l => shortLine_lt, longLines_ascending⟩
  have perm : (longLines ++ [shortLine]).Perm (shortLine :: longLines) :=
    List.perm_append_singleton shortLine longLines
  have distinct : ((longLines ++ [shortLine]).map stamp).Nodup :=
    (perm.map stamp).nodup_iff.mpr (List.pairwise_map.mpr (ascending.imp fun less => less.ne))
  have fixed : ∀ l ∈ longLines ++ [shortLine], FixedWidth l := fun l member =>
    stamp_mem (allLines_skip ▸ member)
  have result : (addAll "" 40 (longLines ++ [shortLine])).result = shortLine :: longLines.drop 34 := by
    rw [addAll, newNewestLines_empty]
    exact trim_short length_longLines size_longLines longLines_ascending List.length_replicate
      fun l => shortLine_lt
  have page := all "" 40 _ (by decide) distinct fixed
  rw [result, reference_eq distinct fixed] at page
  have member : shortLine ∈ selection 40 (eligible "" (longLines ++ [shortLine])) :=
    page ▸ List.mem_cons_self
  -- the reference has all 66 long lines before it
  have whole : eligible "" (longLines ++ [shortLine]) = longLines ++ [shortLine] :=
    List.filter_eq_self.mpr fun l _ => by
      rw [NewestLines.drops, newNewestLines, timeParse_empty]
      rfl
  rw [whole] at member
  have room := ((mem_selection distinct).mp member).2.1
  have above : longLines.Subperm (newer (longLines ++ [shortLine]) shortLine) :=
    List.subperm_of_subset (List.Nodup.of_map stamp (List.nodup_append.mp (by
      rwa [List.map_append] at distinct)).1) fun l listed =>
        List.mem_filter.mpr ⟨List.mem_append_left _ listed, decide_eq_true (shortLine_lt listed)⟩
  have many := above.length_le
  rw [length_longLines] at many
  omega

end Dockgraph.Api
