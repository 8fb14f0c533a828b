import Dockgraph.Frontend.WindowsInvariant

/-!
# The tab that is read while another one goes

The active tab is kept by its index. `closeTab` and `detachTab` take a tab out of the list and leave
the index, but for a last tab, so a tab that was before the active one moves the reader on.
-/
namespace Dockgraph.Frontend.LogWindows

/-- The container whose logs a window shows, and its search text. -/
def shown (w : LogWindowState) : Option (String × String) :=
  (item w.tabs w.activeTab).map fun t => (t.containerId, t.search)

/-- The window shows what it showed, and the others are as they were, but for new ones. -/
structure KeepsTab (s : WindowsState) (w : LogWindowState) (new : List String) (s' : WindowsState) :
    Prop where
  opened : ∃ w' ∈ s'.windows, w'.id = w.id
  active : ∀ w' ∈ s'.windows, w'.id = w.id → shown w' = shown w
  others : s'.windows.filter (fun v => v.id ≠ w.id ∧ v.id ∉ new) = s.windows.filter (·.id ≠ w.id)

/-- The tab is before the active one, which is not the last. -/
def Shifts (w : LogWindowState) (tabIndex : Int) : Prop :=
  0 ≤ tabIndex ∧ tabIndex < w.activeTab ∧ w.activeTab < (w.tabs.length : Int) - 1

instance (w : LogWindowState) (tabIndex : Int) : Decidable (Shifts w tabIndex) :=
  inferInstanceAs (Decidable (_ ∧ _))

theorem item_nat (tabs : List LogTab) (n : Nat) : item tabs n = tabs[n]? := if_pos (Int.natCast_nonneg n)

/-! ## The window -/

/-- A window with a tab less. -/
def without (w : LogWindowState) (tabIndex : Int) : LogWindowState :=
  { w with
    tabs := withoutTab w.tabs tabIndex
    activeTab := min w.activeTab (((withoutTab w.tabs tabIndex).length : Int) - 1) }

theorem item_without {w : LogWindowState} (proper : Proper w) {n : Nat} (other : (n : Int) ≠ w.activeTab) :
    item (without w n).tabs (without w n).activeTab =
      item w.tabs (if Shifts w n then w.activeTab + 1 else w.activeTab) := by
  obtain ⟨a, active⟩ := Int.eq_ofNat_of_zero_le proper.first
  have last := proper.last
  rw [active] at other last ⊢
  simp only [without, withoutTab_eq, active, Shifts, List.length_eraseIdx]
  by_cases inside : n < w.tabs.length
  · rw [if_pos inside]
    by_cases before : n < a
    · by_cases final : a + 1 = w.tabs.length
      -- the last tab is still the last
      · have index : min (a : Int) (((w.tabs.length - 1 : Nat) : Int) - 1) = ((a - 1 : Nat) : Int) := by omega
        rw [index, if_neg (by omega), item_nat, item_nat, List.getElem?_eraseIdx_of_ge (by omega)]
        congr 1
        omega
      · have index : min (a : Int) (((w.tabs.length - 1 : Nat) : Int) - 1) = (a : Int) := by omega
        rw [index, if_pos (by omega), item_nat, ← Nat.cast_succ, item_nat,
          List.getElem?_eraseIdx_of_ge (by omega)]
    · have index : min (a : Int) (((w.tabs.length - 1 : Nat) : Int) - 1) = (a : Int) := by omega
      rw [index, if_neg (by omega), item_nat, item_nat, List.getElem?_eraseIdx_of_lt (by omega)]
  · have index : min (a : Int) ((w.tabs.length : Int) - 1) = (a : Int) := by omega
    rw [if_neg inside, index, if_neg (by omega), item_nat, item_nat,
      List.eraseIdx_of_length_le (by omega)]

/-- Two tabs of a window are never of one container. -/
theorem item_inj {w : LogWindowState} (own : (containerIds w.tabs).Nodup) {m n : Nat} {t u : LogTab}
    (first : item w.tabs m = some t) (second : item w.tabs n = some u)
    (same : t.containerId = u.containerId) : m = n := by
  rw [item_nat] at first second
  obtain ⟨inside, rfl⟩ := List.getElem?_eq_some_iff.mp first
  obtain ⟨inside', rfl⟩ := List.getElem?_eq_some_iff.mp second
  have left : m < (containerIds w.tabs).length := by simpa [containerIds] using inside
  have right : n < (containerIds w.tabs).length := by simpa [containerIds] using inside'
  have equal : (containerIds w.tabs)[m] = (containerIds w.tabs)[n] := by simpa [containerIds] using same
  exact (List.Nodup.getElem_inj_iff own).mp equal

theorem shown_without_iff {w : LogWindowState} (proper : Proper w) (own : (containerIds w.tabs).Nodup)
    {tabIndex : Int} (other : tabIndex ≠ w.activeTab) :
    shown (without w tabIndex) = shown w ↔ ¬Shifts w tabIndex := by
  rcases lt_or_ge tabIndex 0 with negative | index
  · have same : without w tabIndex = { w with activeTab := min w.activeTab ((w.tabs.length : Int) - 1) } := by
      simp only [without, withoutTab_negative w.tabs negative]
    have last := proper.last
    have kept : min w.activeTab ((w.tabs.length : Int) - 1) = w.activeTab := by omega
    rw [same, kept]
    exact iff_of_true rfl fun shifts => absurd shifts.1 (not_le.mpr negative)
  · obtain ⟨n, rfl⟩ := Int.eq_ofNat_of_zero_le index
    rw [shown, item_without proper other, shown]
    constructor
    · intro same shifts
      obtain ⟨a, active⟩ := Int.eq_ofNat_of_zero_le proper.first
      have room := shifts.2.2
      rw [if_pos shifts, active, ← Nat.cast_succ] at same
      rw [active] at room
      have inside : a.succ < w.tabs.length := by omega
      have before : a < w.tabs.length := by omega
      have next : item w.tabs (a.succ : Nat) = some w.tabs[a.succ] := by
        rw [item_nat, List.getElem?_eq_getElem inside]
      have here : item w.tabs (a : Nat) = some w.tabs[a] := by
        rw [item_nat, List.getElem?_eq_getElem before]
      rw [next, here] at same
      have ids := congrArg Prod.fst (Option.some.inj same)
      exact absurd (item_inj own next here ids) (Nat.succ_ne_self a)
    · intro kept
      rw [if_neg kept]

/-! ## The windows -/

section Transitions

variable {s s' : WindowsState} {w : LogWindowState} {tabIndex : Int}

theorem keepsTab_iff {new : List String} (extra : List LogWindowState) (sound : Sound s)
    (member : w ∈ s.windows) (other : tabIndex ≠ w.activeTab)
    (windows : s'.windows = (s.windows.map fun v => if v.id = w.id then without w tabIndex else v) ++ extra)
    (named : ∀ v ∈ extra, v.id ∈ new) (fresh : ∀ v ∈ s.windows, v.id ∉ new) :
    KeepsTab s w new s' ↔ ¬Shifts w tabIndex := by
  have own := (sound.split member).2.own
  rw [← shown_without_iff (sound.proper w member) own other]
  have changed : without w tabIndex ∈ s'.windows := by
    rw [windows]
    exact List.mem_append_left _ (List.mem_map.mpr ⟨w, member, if_pos rfl⟩)
  constructor
  · exact fun keeps => keeps.active _ changed rfl
  · intro same
    -- the window is there, shows the same tab, and no other window is touched
    refine ⟨⟨_, changed, rfl⟩, fun w' listed here => ?_, ?_⟩
    · rw [windows] at listed
      rcases List.mem_append.mp listed with old | added
      · obtain ⟨v, opened, rfl⟩ := List.mem_map.mp old
        by_cases it : v.id = w.id
        · rw [if_pos it, same]
        · rw [if_neg it] at here
          exact absurd here it
      · exact absurd (here ▸ named w' added) (fresh w member)
    · have none : extra.filter (fun v => v.id ≠ w.id ∧ v.id ∉ new) = [] :=
        List.filter_eq_nil_iff.mpr fun v added => by simp [named v added]
      rw [windows, List.filter_append, none, List.append_nil, List.filter_map]
      have passed : s.windows.filter ((fun v => decide (v.id ≠ w.id ∧ v.id ∉ new)) ∘
          fun v => if v.id = w.id then without w tabIndex else v) = s.windows.filter (·.id ≠ w.id) := by
        refine List.filter_congr fun v opened => ?_
        by_cases it : v.id = w.id
        · simp [it, without]
        · simp [it, fresh v opened]
      rw [passed]
      refine (List.map_congr_left fun v listed => ?_).trans (List.map_id _)
      exact if_neg (of_decide_eq_true (List.mem_filter.mp listed).2)

theorem findWindow_of_mem (sound : Sound s) (member : w ∈ s.windows) : findWindow s w.id = some w := by
  cases found : findWindow s w.id with
  | none => exact absurd (decide_eq_true rfl) (List.find?_eq_none.mp found w member)
  | some v =>
    obtain ⟨opened, same⟩ := mem_of_findWindow found
    rw [Keyed.eq_of_key_eq (·.id) sound.ids opened member same]

/-- What both transitions do to the window. -/
theorem map_without (sound : Sound s) (member : w ∈ s.windows) :
    (s.windows.map fun v =>
      if v.id = w.id then
        { v with
          tabs := withoutTab w.tabs tabIndex
          activeTab := min v.activeTab (((withoutTab w.tabs tabIndex).length : Int) - 1) }
      else v) = s.windows.map fun v => if v.id = w.id then without w tabIndex else v := by
  refine List.map_congr_left fun v opened => ?_
  by_cases it : v.id = w.id
  · rw [if_pos it, if_pos it, Keyed.eq_of_key_eq (·.id) sound.ids opened member it]
    rfl
  · rw [if_neg it, if_neg it]

theorem closeTab_keepsTab_iff (sound : Sound s) (member : w ∈ s.windows) (many : 2 ≤ w.tabs.length)
    (other : tabIndex ≠ w.activeTab) :
    KeepsTab s w [] (closeTab s w.id tabIndex) ↔ ¬Shifts w tabIndex := by
  have closed : closeTab s w.id tabIndex =
      { s with windows := s.windows.map fun v => if v.id = w.id then without w tabIndex else v } := by
    simp only [closeTab, findWindow_of_mem sound member]
    rw [if_neg (by omega), map_without sound member]
  refine keepsTab_iff [] sound member other ?_ (by simp) (by simp)
  rw [closed, List.append_nil]

theorem detachTab_keepsTab_iff (sound : Sound s) (member : w ∈ s.windows) (many : 2 ≤ w.tabs.length)
    (other : tabIndex ≠ w.activeTab) (x y : ℚ) :
    KeepsTab s w [windowId s.nextId] (detachTab s w.id tabIndex x y) ↔ ¬Shifts w tabIndex := by
  have fresh : ∀ v ∈ s.windows, v.id ∉ [windowId s.nextId] := by
    intro v opened listed
    obtain ⟨n, below, named⟩ := sound.numbered v opened
    rw [List.mem_singleton, named] at listed
    exact absurd (windowId_inj listed) below.ne
  cases taken : item w.tabs tabIndex with
  | some tab =>
    have popped : detached s w.id tabIndex = some (w, tab) := by
      simp only [detached, findWindow_of_mem sound member, Option.bind_eq_bind, Option.bind_some, taken]
      rw [if_neg (by omega)]
      rfl
    let newWin : LogWindowState :=
      { id := windowId s.nextId, tabs := [tab], activeTab := 0, x, y, w := w.w, h := w.h,
        z := s.nextZ, minimized := false }
    refine keepsTab_iff [newWin] sound member other ?_ (by simp [newWin]) fresh
    simp only [detachTab, popped]
    rw [map_without sound member]
  | none =>
    -- there is no such tab, and nothing happens
    have stays : detachTab s w.id tabIndex x y = s := by
      have nothing : detached s w.id tabIndex = none := by
        simp only [detached, findWindow_of_mem sound member, Option.bind_eq_bind, Option.bind_some, taken,
          Option.bind_none]
        split <;> rfl
      simp only [detachTab, nothing]
    have outside : ¬Shifts w tabIndex := by
      rintro ⟨index, before, last⟩
      obtain ⟨n, rfl⟩ := Int.eq_ofNat_of_zero_le index
      rw [item_nat, List.getElem?_eq_none_iff] at taken
      omega
    refine iff_of_true ?_ outside
    rw [stays]
    refine ⟨⟨w, member, rfl⟩, fun v opened same => ?_, List.filter_congr fun v opened => ?_⟩
    · rw [Keyed.eq_of_key_eq (·.id) sound.ids opened member same]
    · simpa using fun _ => by simpa using fresh v opened

end Transitions

/-- A tab other than the active one can go without moving the reader on, unless it comes before an active
tab that is not the last. -/
theorem reader_kept_iff (cs : List Call) {w : LogWindowState} (member : w ∈ (calls cs).windows)
    (many : 2 ≤ w.tabs.length) {tabIndex : Int} (other : tabIndex ≠ w.activeTab) (x y : ℚ) :
    (KeepsTab (calls cs) w [] (closeTab (calls cs) w.id tabIndex) ↔ ¬Shifts w tabIndex) ∧
      (KeepsTab (calls cs) w [windowId (calls cs).nextId] (detachTab (calls cs) w.id tabIndex x y) ↔
        ¬Shifts w tabIndex) :=
  ⟨closeTab_keepsTab_iff (sound_calls cs) member many other,
    detachTab_keepsTab_iff (sound_calls cs) member many other x y⟩

/-- Three containers in one window, the second in front. -/
def threeTabs : List Call :=
  let vp : Viewport := ⟨1000, 800, 50, 30⟩
  [.openLogs "a" "a" vp, .openLogs "b" "b" vp, .openLogs "c" "c" vp, .mergeWindows "lw-2" "lw-1",
    .mergeWindows "lw-3" "lw-1", .setActiveTab "lw-1" 1]

theorem exists_threeTabs : ∃ w ∈ (calls threeTabs).windows, w.tabs.length = 3 ∧ w.activeTab = 1 := by
  have window : (calls threeTabs).windows.map (fun w => (w.tabs.length, w.activeTab)) = [(3, 1)] := by
    decide +kernel
  obtain ⟨w, opened, same⟩ := List.mem_map.mp (window ▸ List.mem_singleton_self _)
  exact ⟨w, opened, congrArg Prod.fst same, congrArg Prod.snd same⟩

theorem reader_kept_iff_last : ∃ w ∈ (calls threeTabs).windows,
    KeepsTab (calls threeTabs) w [] (closeTab (calls threeTabs) w.id 2) ∧
      KeepsTab (calls threeTabs) w [windowId (calls threeTabs).nextId]
        (detachTab (calls threeTabs) w.id 2 10 20) := by
  obtain ⟨w, opened, three, second⟩ := exists_threeTabs
  obtain ⟨closed, popped⟩ := reader_kept_iff threeTabs opened (by omega)
    (show (2 : Int) ≠ w.activeTab by omega) 10 20
  have behind : ¬Shifts w 2 := fun shifts => by
    have before := shifts.2.1
    omega
  exact ⟨w, opened, closed.mpr behind, popped.mpr behind⟩

/-- The first tab goes, and the third is read instead of the second. -/
theorem reader_moved_on : ¬∀ (cs : List Call), ∀ w ∈ (calls cs).windows, 2 ≤ w.tabs.length →
    ∀ tabIndex ≠ w.activeTab, KeepsTab (calls cs) w [] (closeTab (calls cs) w.id tabIndex) := by
  intro all
  obtain ⟨w, opened, three, second⟩ := exists_threeTabs
  have first : (0 : Int) ≠ w.activeTab := by omega
  have kept := all threeTabs w opened (by omega) 0 first
  refine (closeTab_keepsTab_iff (sound_calls threeTabs) opened (by omega) first).mp kept ?_
  exact ⟨le_rfl, by omega, by omega⟩

end Dockgraph.Frontend.LogWindows
