import Dockgraph.Frontend.LogWindows
import Dockgraph.Library.Keyed
import Dockgraph.Library.Text

/-!
# What the windows keep

Every transition changes the window an ID names, removes windows, or adds one with the next ID and
the next z. A call raises a window when it gives it the next z.
-/
namespace Dockgraph.Frontend.LogWindows

/-! ## The invariant -/

/-- One window is in order: its active tab is one of its tabs. -/
structure Proper (w : LogWindowState) : Prop where
  first : 0 ≤ w.activeTab
  last : w.activeTab < w.tabs.length
  width : WINDOW_MIN_W ≤ w.w
  height : WINDOW_MIN_H ≤ w.h

def containerIds (tabs : List LogTab) : List String := tabs.map (·.containerId)

/-- The containers of all windows' tabs. -/
def containers (windows : List LogWindowState) : List String :=
  windows.flatMap fun w => containerIds w.tabs

structure Sound (s : WindowsState) : Prop where
  ids : (s.windows.map (·.id)).Nodup
  numbered : ∀ w ∈ s.windows, ∃ n < s.nextId, w.id = windowId n
  heights : (s.windows.map (·.z)).Nodup
  below : ∀ w ∈ s.windows, w.z < s.nextZ
  proper : ∀ w ∈ s.windows, Proper w
  single : (containers s.windows).Nodup

/-- The window is open and above all others. -/
def Front (s : WindowsState) (id : String) : Prop :=
  ∃ w ∈ s.windows, w.id = id ∧ ∀ v ∈ s.windows, v.id ≠ id → v.z < w.z

/-- The window may stand beside those of a state. -/
structure Joins (s : WindowsState) (w : LogWindowState) : Prop where
  numbered : ∃ n < s.nextId, w.id = windowId n
  below : w.z < s.nextZ
  proper : Proper w
  apart : ∀ v ∈ s.windows, v.id ≠ w.id ∧ v.z ≠ w.z
  own : (containerIds w.tabs).Nodup
  others : ∀ c ∈ containerIds w.tabs, c ∉ containers s.windows

theorem windowId_inj {m n : Nat} (same : windowId m = windowId n) : m = n := by
  have digits : toString (m : Int) = toString (n : Int) := (String.append_right_inj _).mp same
  exact_mod_cast Text.toString_inj digits

section Windows

variable {s : WindowsState} {id : String} {ws vs : List LogWindowState} {w : LogWindowState}

theorem mem_of_findWindow (found : findWindow s id = some w) : w ∈ s.windows ∧ w.id = id :=
  ⟨List.mem_of_find?_eq_some found, by simpa using List.find?_some found⟩

theorem sound_cons {z n : Nat} : Sound ⟨w :: ws, z, n⟩ ↔ Sound ⟨ws, z, n⟩ ∧ Joins ⟨ws, z, n⟩ w := by
  constructor
  · intro sound
    obtain ⟨newId, ids⟩ := List.nodup_cons.mp sound.ids
    obtain ⟨newZ, heights⟩ := List.nodup_cons.mp sound.heights
    obtain ⟨own, single, disjoint⟩ := List.nodup_append.mp sound.single
    refine ⟨⟨ids, fun v listed => sound.numbered v (.tail _ listed), heights,
      fun v listed => sound.below v (.tail _ listed), fun v listed => sound.proper v (.tail _ listed),
      single⟩, sound.numbered w (.head _), sound.below w (.head _), sound.proper w (.head _),
      fun v listed => ⟨fun same => newId (List.mem_map.mpr ⟨v, listed, same⟩),
        fun same => newZ (List.mem_map.mpr ⟨v, listed, same⟩)⟩, own,
      fun c first second => disjoint c first c second rfl⟩
  · rintro ⟨sound, joins⟩
    refine ⟨?_, ?_, ?_, ?_, ?_, ?_⟩
    · refine List.nodup_cons.mpr ⟨fun listed => ?_, sound.ids⟩
      obtain ⟨v, member, same⟩ := List.mem_map.mp listed
      exact (joins.apart v member).1 same
    · simpa using ⟨joins.numbered, sound.numbered⟩
    · refine List.nodup_cons.mpr ⟨fun listed => ?_, sound.heights⟩
      obtain ⟨v, member, same⟩ := List.mem_map.mp listed
      exact (joins.apart v member).2 same
    · simpa using ⟨joins.below, sound.below⟩
    · simpa using ⟨joins.proper, sound.proper⟩
    · refine List.nodup_append.mpr ⟨joins.own, sound.single, fun a first b second same => ?_⟩
      exact joins.others a first (same ▸ second)

theorem containers_perm (perm : ws.Perm vs) : (containers ws).Perm (containers vs) :=
  perm.flatMap_right _

theorem Sound.perm {z n : Nat} (sound : Sound ⟨ws, z, n⟩) (perm : ws.Perm vs) : Sound ⟨vs, z, n⟩ where
  ids := (perm.map _).nodup_iff.mp sound.ids
  numbered w member := sound.numbered w (perm.mem_iff.mpr member)
  heights := (perm.map _).nodup_iff.mp sound.heights
  below w member := sound.below w (perm.mem_iff.mpr member)
  proper w member := sound.proper w (perm.mem_iff.mpr member)
  single := (containers_perm perm).nodup_iff.mp sound.single

theorem Sound.sublist {z n : Nat} (sound : Sound ⟨ws, z, n⟩) (part : vs.Sublist ws) :
    Sound ⟨vs, z, n⟩ where
  ids := sound.ids.sublist (part.map _)
  numbered w member := sound.numbered w (part.subset member)
  heights := sound.heights.sublist (part.map _)
  below w member := sound.below w (part.subset member)
  proper w member := sound.proper w (part.subset member)
  single := sound.single.sublist (part.map _).flatten

theorem Sound.later {z n z' n' : Nat} (sound : Sound ⟨ws, z, n⟩) (higher : z ≤ z') (more : n ≤ n') :
    Sound ⟨ws, z', n'⟩ where
  ids := sound.ids
  numbered w member := by
    obtain ⟨k, old, named⟩ := sound.numbered w member
    exact ⟨k, old.trans_le more, named⟩
  heights := sound.heights
  below w member := (sound.below w member).trans_le higher
  proper := sound.proper
  single := sound.single

/-- A window and the others. -/
theorem perm_others (ids : (ws.map (·.id)).Nodup) (member : w ∈ ws) :
    ws.Perm (w :: ws.filter (·.id ≠ w.id)) := by
  induction ws with
  | nil => cases member
  | cons v ws ih =>
    obtain ⟨fresh, rest⟩ := List.nodup_cons.mp ids
    rcases List.mem_cons.mp member with rfl | later
    · have kept : ws.filter (·.id ≠ w.id) = ws := by
        refine List.filter_eq_self.mpr fun u listed => ?_
        simpa using fun same => fresh (List.mem_map.mpr ⟨u, listed, same⟩)
      rw [List.filter_cons_of_neg (by simp), kept]
    · have other : v.id ≠ w.id := fun same => fresh (List.mem_map.mpr ⟨w, later, same.symm⟩)
      rw [List.filter_cons_of_pos (by simpa using other)]
      exact ((ih rest later).cons v).trans (List.Perm.swap w v _)

theorem change_absent {f : LogWindowState → LogWindowState} (absent : ∀ w ∈ ws, w.id ≠ id) :
    (ws.map fun w => if w.id = id then f w else w) = ws :=
  List.map_congr_left (fun w member => if_neg (absent w member)) |>.trans (List.map_id ws)

theorem change_perm {f : LogWindowState → LogWindowState} (ids : (ws.map (·.id)).Nodup)
    (member : w ∈ ws) (named : w.id = id) :
    (ws.map fun w => if w.id = id then f w else w).Perm (f w :: ws.filter (·.id ≠ id)) := by
  subst named
  refine ((perm_others ids member).map _).trans ?_
  rw [List.map_cons, if_pos rfl, change_absent]
  intro v listed
  simpa using (List.mem_filter.mp listed).2

end Windows

/-! ## Tabs -/

theorem withoutTab_eq (tabs : List LogTab) (i : Nat) : withoutTab tabs i = tabs.eraseIdx i := by
  have shifted : ∀ k, ((tabs.zipIdx k).filter fun t => (t.2 : Int) ≠ (i + k : Nat)).map Prod.fst =
      tabs.eraseIdx i := by
    induction tabs generalizing i with
    | nil => simp
    | cons t tabs ih =>
      intro k
      cases i with
      | zero =>
        have kept : (tabs.zipIdx (k + 1)).filter (fun t => (t.2 : Int) ≠ (0 + k : Nat)) =
            tabs.zipIdx (k + 1) := by
          refine List.filter_eq_self.mpr fun p member => ?_
          have later := List.le_snd_of_mem_zipIdx member
          simp
          omega
        rw [List.zipIdx_cons, List.filter_cons_of_neg (by simp), kept, List.zipIdx_map_fst]
        rfl
      | succ i =>
        rw [List.zipIdx_cons, List.filter_cons_of_pos (by simp; omega), List.map_cons,
          List.eraseIdx_cons_succ, ← ih i (k + 1)]
        congr 4
        funext t
        congr 3
        omega
  exact shifted 0

theorem withoutTab_negative (tabs : List LogTab) {i : Int} (negative : i < 0) :
    withoutTab tabs i = tabs := by
  have kept : tabs.zipIdx.filter (fun t => (t.2 : Int) ≠ i) = tabs.zipIdx :=
    List.filter_eq_self.mpr fun t _ => by simp; omega
  rw [withoutTab, kept, List.zipIdx_map_fst]

theorem withoutTab_cases (tabs : List LogTab) (i : Int) :
    withoutTab tabs i = tabs ∨ ∃ n : Nat, i = n ∧ withoutTab tabs i = tabs.eraseIdx n := by
  rcases lt_or_ge i 0 with negative | index
  · exact .inl (withoutTab_negative tabs negative)
  · obtain ⟨n, rfl⟩ := Int.eq_ofNat_of_zero_le index
    exact .inr ⟨n, rfl, withoutTab_eq tabs n⟩

theorem withoutTab_sublist (tabs : List LogTab) (i : Int) : (withoutTab tabs i).Sublist tabs := by
  rcases withoutTab_cases tabs i with same | ⟨n, -, same⟩
  · rw [same]
  · rw [same]
    exact List.eraseIdx_sublist tabs n

theorem length_withoutTab (tabs : List LogTab) (i : Int) :
    tabs.length ≤ (withoutTab tabs i).length + 1 := by
  rcases withoutTab_cases tabs i with same | ⟨n, -, same⟩
  · rw [same]
    omega
  · rw [same, List.length_eraseIdx]
    split <;> omega

theorem perm_of_item {tabs : List LogTab} {i : Int} {tab : LogTab} (found : item tabs i = some tab) :
    (tab :: withoutTab tabs i).Perm tabs := by
  rw [item] at found
  split at found
  next index =>
    obtain ⟨n, rfl⟩ := Int.eq_ofNat_of_zero_le index
    obtain ⟨bound, rfl⟩ := List.getElem?_eq_some_iff.mp found
    rw [withoutTab_eq]
    exact List.getElem_cons_eraseIdx_perm bound
  next => cases found

/-! ## One window changed -/

/-- What may become of a window. -/
structure Changed (s : WindowsState) (z : Nat) (w w' : LogWindowState) : Prop where
  id : w'.id = w.id
  height : w'.z = w.z ∨ w'.z = s.nextZ ∧ s.nextZ < z
  proper : Proper w'
  tabs : (containerIds w'.tabs).Sublist (containerIds w.tabs)

section Changes

variable {s : WindowsState} {id : String} {w : LogWindowState} {f : LogWindowState → LogWindowState}
  {z : Nat}

theorem Sound.split (sound : Sound s) (member : w ∈ s.windows) :
    Sound (closeWindow s w.id) ∧ Joins (closeWindow s w.id) w :=
  sound_cons.mp (sound.perm (perm_others sound.ids member))

theorem Sound.change (sound : Sound s) (higher : s.nextZ ≤ z)
    (changed : ∀ w ∈ s.windows, w.id = id → Changed s z w (f w)) :
    Sound ⟨s.windows.map fun w => if w.id = id then f w else w, z, s.nextId⟩ := by
  by_cases opened : ∃ w ∈ s.windows, w.id = id
  · obtain ⟨w, member, rfl⟩ := opened
    obtain ⟨rest, joins⟩ := sound.split member
    have change := changed w member rfl
    refine Sound.perm (sound_cons.mpr ⟨rest.later higher le_rfl, ?_⟩)
      (change_perm sound.ids member rfl).symm
    have old : ∀ v ∈ (closeWindow s w.id).windows, v.z < s.nextZ := fun v listed =>
      rest.below v listed
    refine ⟨change.id ▸ joins.numbered, ?_, change.proper, ?_,
      joins.own.sublist change.tabs, fun c tab => joins.others c (change.tabs.subset tab)⟩
    · rcases change.height with kept | ⟨raised, next⟩
      · exact kept ▸ joins.below.trans_le higher
      · exact raised ▸ next
    · intro v listed
      refine ⟨change.id ▸ (joins.apart v listed).1, ?_⟩
      rcases change.height with kept | ⟨raised, -⟩
      · exact kept ▸ (joins.apart v listed).2
      · exact raised ▸ (old v listed).ne
  · rw [change_absent fun w member named => opened ⟨w, member, named⟩]
    exact sound.later higher le_rfl

theorem Sound.front_change (sound : Sound s) (member : w ∈ s.windows) (named : w.id = id)
    (same : (f w).id = w.id) (raised : (f w).z = s.nextZ) :
    Front ⟨s.windows.map fun w => if w.id = id then f w else w, z, s.nextId⟩ id := by
  refine ⟨f w, List.mem_map.mpr ⟨w, member, if_pos named⟩, same.trans named, fun v listed other => ?_⟩
  obtain ⟨u, old, rfl⟩ := List.mem_map.mp listed
  split at other
  next opened =>
    have one := Keyed.eq_of_key_eq (·.id) sound.ids old member (opened.trans named.symm)
    exact absurd (one ▸ same.trans named) other
  next apart =>
    rw [if_neg apart, raised]
    exact sound.below u old

end Changes

/-! ## The transitions -/

section Transitions

variable {s : WindowsState} {id : String}

theorem Proper.tabs_ne_nil {w : LogWindowState} (proper : Proper w) : w.tabs ≠ [] := by
  intro empty
  have first := proper.first
  have last := proper.last
  simp only [empty, List.length_nil] at last
  omega

/-- A new window in front. -/
theorem Sound.append {win : LogWindowState} (sound : Sound s) (named : win.id = windowId s.nextId)
    (raised : win.z = s.nextZ) (proper : Proper win) (own : (containerIds win.tabs).Nodup)
    (others : ∀ c ∈ containerIds win.tabs, c ∉ containers s.windows) :
    Sound ⟨s.windows ++ [win], s.nextZ + 1, s.nextId + 1⟩ := by
  refine Sound.perm (sound_cons.mpr ⟨sound.later (Nat.le_succ _) (Nat.le_succ _), ?_⟩)
    (List.perm_append_singleton win s.windows).symm
  refine ⟨⟨s.nextId, Nat.lt_succ_self _, named⟩, raised ▸ Nat.lt_succ_self _, proper, ?_, own, others⟩
  intro v listed
  obtain ⟨n, old, numbered⟩ := sound.numbered v listed
  refine ⟨fun same => ?_, raised ▸ (sound.below v listed).ne⟩
  have equal := windowId_inj (numbered.symm.trans (same.trans named))
  omega

theorem Sound.front_append {win : LogWindowState} {n : Nat} (sound : Sound s)
    (raised : win.z = s.nextZ) : Front ⟨s.windows ++ [win], s.nextZ + 1, n⟩ win.id := by
  refine ⟨win, by simp, rfl, fun v listed other => ?_⟩
  rcases List.mem_append.mp listed with old | new
  · exact raised ▸ sound.below v old
  · rw [List.mem_singleton.mp new] at other
    exact absurd rfl other

theorem sound_focusWindow (sound : Sound s) : Sound (focusWindow s id) :=
  sound.change (Nat.le_succ _) fun w member _ =>
    ⟨rfl, .inr ⟨rfl, Nat.lt_succ_self _⟩, { sound.proper w member with }, .refl _⟩

theorem sound_restoreWindow (sound : Sound s) : Sound (restoreWindow s id) :=
  sound.change (Nat.le_succ _) fun w member _ =>
    ⟨rfl, .inr ⟨rfl, Nat.lt_succ_self _⟩, { sound.proper w member with }, .refl _⟩

theorem sound_minimizeWindow (sound : Sound s) : Sound (minimizeWindow s id) :=
  sound.change le_rfl fun w member _ => ⟨rfl, .inl rfl, { sound.proper w member with }, .refl _⟩

theorem sound_moveWindow (sound : Sound s) (x y : ℚ) (vp : Viewport) :
    Sound (moveWindow s id x y vp) :=
  sound.change le_rfl fun w member _ => ⟨rfl, .inl rfl, { sound.proper w member with }, .refl _⟩

theorem sound_resizeWindow (sound : Sound s) (w h : ℚ) : Sound (resizeWindow s id w h) :=
  sound.change le_rfl fun win member _ =>
    ⟨rfl, .inl rfl,
      { sound.proper win member with width := le_max_left _ _, height := le_max_left _ _ }, .refl _⟩

theorem sound_setActiveTab (sound : Sound s) (idx : Int) : Sound (setActiveTab s id idx) :=
  sound.change le_rfl fun w member _ => by
    have proper := sound.proper w member
    have first := proper.first
    have last := proper.last
    exact ⟨rfl, .inl rfl, { proper with first := by simp; omega, last := by simp }, .refl _⟩

theorem sound_setSearch (sound : Sound s) (tabIndex : Int) (query : String) :
    Sound (setSearch s id tabIndex query) :=
  sound.change le_rfl fun w member _ => by
    have same : containerIds (w.tabs.mapIdx fun i t =>
        if (i : Int) = tabIndex then { t with search := query } else t) = containerIds w.tabs := by
      refine List.ext_getElem (by simp [containerIds]) fun n left right => ?_
      simp only [containerIds, List.getElem_map, List.getElem_mapIdx]
      split <;> rfl
    have proper := sound.proper w member
    exact ⟨rfl, .inl rfl, { proper with last := by simpa using proper.last }, same ▸ .refl _⟩

theorem sound_closeWindow (sound : Sound s) : Sound (closeWindow s id) :=
  sound.sublist List.filter_sublist

/-- A window that has a tab less. -/
theorem Proper.without {w : LogWindowState} (proper : Proper w) (many : ¬w.tabs.length ≤ 1) (i : Int) :
    Proper { w with
      tabs := withoutTab w.tabs i
      activeTab := min w.activeTab (((withoutTab w.tabs i).length : Int) - 1) } := by
  have left := length_withoutTab w.tabs i
  have first := proper.first
  exact { proper with first := by simp; omega, last := by simp }

theorem Sound.without {win : LogWindowState} (sound : Sound s) (opened : win ∈ s.windows)
    (many : ¬win.tabs.length ≤ 1) (tabIndex : Int) :
    Sound { s with
      windows := s.windows.map fun w =>
        if w.id = win.id then
          { w with
            tabs := withoutTab win.tabs tabIndex
            activeTab := min w.activeTab (((withoutTab win.tabs tabIndex).length : Int) - 1) }
        else w } := by
  refine sound.change le_rfl fun w member same => ?_
  have one := Keyed.eq_of_key_eq (·.id) sound.ids member opened same
  subst one
  exact ⟨rfl, .inl rfl, (sound.proper w member).without many tabIndex,
    (withoutTab_sublist w.tabs tabIndex).map _⟩

theorem sound_closeTab (sound : Sound s) (tabIndex : Int) : Sound (closeTab s id tabIndex) := by
  unfold closeTab
  split
  · exact sound
  next win found =>
    obtain ⟨opened, named⟩ := mem_of_findWindow found
    split
    · exact sound_closeWindow sound
    next many => exact named ▸ sound.without opened many tabIndex

theorem mem_of_findContainerWindow {containerId : String} {w : LogWindowState}
    (found : findContainerWindow s containerId = some w) :
    w ∈ s.windows ∧ w.tabs.findIdx (·.containerId = containerId) < w.tabs.length := by
  refine ⟨List.mem_of_find?_eq_some found, List.findIdx_lt_length.mpr ?_⟩
  simpa using List.find?_some found

theorem not_mem_containers {containerId : String} (absent : findContainerWindow s containerId = none) :
    containerId ∉ containers s.windows := by
  intro shown
  obtain ⟨w, member, tab⟩ := List.mem_flatMap.mp shown
  obtain ⟨t, listed, same⟩ := List.mem_map.mp tab
  have none := List.find?_eq_none.mp absent w member
  exact none (List.any_eq_true.mpr ⟨t, listed, by simpa using same⟩)

theorem sound_openLogs (sound : Sound s) (containerId title : String) (vp : Viewport) :
    Sound (openLogs s containerId title vp) := by
  unfold openLogs
  split
  next existing found =>
    obtain ⟨opened, index⟩ := mem_of_findContainerWindow found
    refine sound.change (Nat.le_succ _) fun w member same => ?_
    have one := Keyed.eq_of_key_eq (·.id) sound.ids member opened same
    subst one
    exact ⟨rfl, .inr ⟨rfl, Nat.lt_succ_self _⟩,
      { sound.proper w member with first := by simp, last := by simpa using index }, .refl _⟩
  next absent =>
    have width : WINDOW_MIN_W ≤ WINDOW_DEFAULT_W := by decide +kernel
    have height : WINDOW_MIN_H ≤ WINDOW_DEFAULT_H := by decide +kernel
    refine sound.append rfl rfl ⟨le_rfl, by simp, width, height⟩ (by simp [containerIds]) ?_
    intro c tab
    rw [List.mem_singleton.mp tab]
    exact not_mem_containers absent

/-- Two windows and the others. -/
theorem perm_pair {source target : LogWindowState} (sound : Sound s) (first : source ∈ s.windows)
    (second : target ∈ s.windows) (apart : source.id ≠ target.id) :
    s.windows.Perm (source :: target ::
      (s.windows.filter (·.id ≠ source.id)).filter (·.id ≠ target.id)) := by
  refine (perm_others sound.ids first).trans (List.Perm.cons _ ?_)
  refine perm_others (sound.sublist List.filter_sublist).ids (List.mem_filter.mpr ⟨second, ?_⟩)
  simpa using apart.symm

theorem sound_mergeWindows (sound : Sound s) (sourceId targetId : String) :
    Sound (mergeWindows s sourceId targetId) := by
  unfold mergeWindows
  split
  · exact sound
  next apart =>
    split
    next source target found found' =>
      obtain ⟨first, rfl⟩ := mem_of_findWindow found
      obtain ⟨second, rfl⟩ := mem_of_findWindow found'
      have kept : target ∈ (closeWindow s source.id).windows :=
        List.mem_filter.mpr ⟨second, by simpa using Ne.symm apart⟩
      obtain ⟨removed, beside⟩ := sound_cons.mp (sound.perm (perm_pair sound first second apart))
      obtain ⟨rest, joins⟩ := sound_cons.mp removed
      refine Sound.perm (sound_cons.mpr ⟨rest.later (Nat.le_succ _) le_rfl, ?_⟩)
        (change_perm (sound_closeWindow sound).ids kept rfl).symm
      have some_tab := List.length_pos_iff.mpr (sound.proper source first).tabs_ne_nil
      have tabs : containerIds (target.tabs ++ source.tabs) =
        containerIds target.tabs ++ containerIds source.tabs := List.map_append
      refine ⟨joins.numbered, Nat.lt_succ_self _,
        { sound.proper target second with first := by simp, last := by simp; omega }, ?_, ?_, ?_⟩
      · exact fun v listed => ⟨(joins.apart v listed).1, (rest.below v listed).ne⟩
      · rw [tabs]
        refine List.nodup_append.mpr ⟨joins.own, beside.own, fun a old b new same => ?_⟩
        exact beside.others b new (List.mem_append_left _ (same ▸ old))
      · intro c tab
        rw [tabs] at tab
        rcases List.mem_append.mp tab with old | new
        · exact joins.others c old
        · exact fun shown => beside.others c new (List.mem_append_right _ shown)
    · exact sound

theorem detached_cases {tabIndex : Int} {win : LogWindowState} {tab : LogTab}
    (popped : detached s id tabIndex = some (win, tab)) :
    win ∈ s.windows ∧ win.id = id ∧ ¬win.tabs.length ≤ 1 ∧ item win.tabs tabIndex = some tab := by
  obtain ⟨w, found, rest⟩ := Option.bind_eq_some_iff.mp popped
  obtain ⟨opened, named⟩ := mem_of_findWindow found
  split at rest
  · cases rest
  next many =>
    obtain ⟨t, taken, pair⟩ := Option.bind_eq_some_iff.mp rest
    cases pair
    exact ⟨opened, named, many, taken⟩

theorem sound_detachTab (sound : Sound s) (tabIndex : Int) (x y : ℚ) :
    Sound (detachTab s id tabIndex x y) := by
  unfold detachTab
  split
  · exact sound
  next win tab popped =>
    obtain ⟨opened, rfl, many, taken⟩ := detached_cases popped
    have perm := (perm_of_item taken).map (·.containerId)
    have proper := sound.proper win opened
    have joins := (sound.split opened).2
    obtain ⟨fresh, -⟩ := List.nodup_cons.mp (perm.nodup_iff.mpr joins.own)
    have tab_mem : tab.containerId ∈ containerIds win.tabs := perm.subset (.head _)
    refine (sound.without opened many tabIndex).append rfl rfl ⟨le_rfl, by simp, proper.width, proper.height⟩
      (by simp [containerIds]) fun c listed shown => ?_
    rw [List.mem_singleton.mp listed] at shown
    rcases List.mem_append.mp (containers_perm (change_perm sound.ids opened rfl) |>.subset shown)
      with left | other
    · exact fresh left
    · exact joins.others _ tab_mem other

end Transitions

theorem sound_call {s : WindowsState} (sound : Sound s) (c : Call) : Sound (call s c) := by
  cases c with
  | openLogs containerId title vp => exact sound_openLogs sound containerId title vp
  | focusWindow id => exact sound_focusWindow sound
  | closeWindow id => exact sound_closeWindow sound
  | moveWindow id x y vp => exact sound_moveWindow sound x y vp
  | resizeWindow id w h => exact sound_resizeWindow sound w h
  | minimizeWindow id => exact sound_minimizeWindow sound
  | restoreWindow id => exact sound_restoreWindow sound
  | setActiveTab id idx => exact sound_setActiveTab sound idx
  | setSearch id tabIndex query => exact sound_setSearch sound tabIndex query
  | mergeWindows sourceId targetId => exact sound_mergeWindows sound sourceId targetId
  | detachTab id tabIndex x y => exact sound_detachTab sound tabIndex x y
  | closeTab id tabIndex => exact sound_closeTab sound tabIndex

theorem sound_calls (cs : List Call) : Sound (calls cs) := by
  have start : Sound initialWindowsState :=
    ⟨List.nodup_nil, by simp [initialWindowsState], List.nodup_nil, by simp [initialWindowsState],
      by simp [initialWindowsState], List.nodup_nil⟩
  have run : ∀ s, Sound s → Sound (cs.foldl call s) := by
    induction cs with
    | nil => exact fun _ sound => sound
    | cons c cs ih => exact fun s sound => ih _ (sound_call sound c)
  exact run _ start

/-! ## The window in front -/

/-- The window a call brings to the front: an open one it names, the one it merges another into, or
the one it creates. -/
def raised (s : WindowsState) : Call → Option String
  | .openLogs containerId _ _ =>
    some (((findContainerWindow s containerId).map (·.id)).getD (windowId s.nextId))
  | .focusWindow id | .restoreWindow id => (findWindow s id).map (·.id)
  | .mergeWindows sourceId targetId =>
    if sourceId = targetId then none
    else (findWindow s sourceId).bind fun _ => (findWindow s targetId).map (·.id)
  | .detachTab id tabIndex _ _ => (detached s id tabIndex).map fun _ => windowId s.nextId
  | _ => none

theorem front_raised {s : WindowsState} (sound : Sound s) {c : Call} {id : String}
    (up : raised s c = some id) : Front (call s c) id := by
  cases c with
  | openLogs containerId title vp =>
    cases found : findContainerWindow s containerId with
    | none =>
      simp only [raised, found, Option.map_none, Option.getD_none, Option.some.injEq] at up
      subst up
      simp only [call, openLogs, found]
      exact sound.front_append rfl
    | some existing =>
      simp only [raised, found, Option.map_some, Option.getD_some, Option.some.injEq] at up
      subst up
      simp only [call, openLogs, found]
      exact sound.front_change (mem_of_findContainerWindow found).1 rfl rfl rfl
  | focusWindow named | restoreWindow named =>
    obtain ⟨w, found, rfl⟩ := Option.map_eq_some_iff.mp up
    obtain ⟨opened, rfl⟩ := mem_of_findWindow found
    exact sound.front_change opened rfl rfl rfl
  | mergeWindows sourceId targetId =>
    simp only [raised] at up
    split at up
    · cases up
    next apart =>
      obtain ⟨source, found, rest⟩ := Option.bind_eq_some_iff.mp up
      obtain ⟨target, found', rfl⟩ := Option.map_eq_some_iff.mp rest
      obtain ⟨opened, rfl⟩ := mem_of_findWindow found'
      have kept : target ∈ (closeWindow s sourceId).windows :=
        List.mem_filter.mpr ⟨opened, by simpa using Ne.symm apart⟩
      simp only [call, mergeWindows, if_neg apart, found, found']
      exact (sound_closeWindow sound).front_change kept rfl rfl rfl
  | detachTab named tabIndex x y =>
    obtain ⟨⟨win, tab⟩, popped, rfl⟩ := Option.map_eq_some_iff.mp up
    obtain ⟨opened, rfl, many, -⟩ := detached_cases popped
    simp only [call, detachTab, popped]
    exact (sound.without opened many tabIndex).front_append rfl
  | _ => cases up

/-- Every state of the windows is in order, and what a call raises is in front. -/
theorem windows_in_order (cs : List Call) :
    Sound (calls cs) ∧ ∀ c id, raised (calls cs) c = some id → Front (call (calls cs) c) id :=
  ⟨sound_calls cs, fun _ _ up => front_raised (sound_calls cs) up⟩

/-- A merge into a window itself does not raise it. -/
theorem merged_into_itself : ¬∀ (cs : List Call) (sourceId targetId : String),
    ∀ w ∈ (mergeWindows (calls cs) sourceId targetId).windows, w.id = targetId →
      Front (mergeWindows (calls cs) sourceId targetId) targetId := by
  intro all
  let vp : Viewport := ⟨1000, 800, 50, 30⟩
  let cs : List Call := [.openLogs "a" "a" vp, .openLogs "b" "b" vp]
  have heights : (calls cs).windows.map (fun w => (w.id, w.z)) = [("lw-1", 1), ("lw-2", 2)] := by
    decide +kernel
  have listed (p : String × Nat) (shown : p ∈ [("lw-1", 1), ("lw-2", 2)]) :
      ∃ w ∈ (calls cs).windows, (w.id, w.z) = p :=
    List.mem_map.mp (heights ▸ shown)
  obtain ⟨low, lowOpen, first⟩ := listed ("lw-1", 1) (by simp)
  obtain ⟨high, highOpen, second⟩ := listed ("lw-2", 2) (by simp)
  obtain ⟨lowId, lowZ⟩ := Prod.ext_iff.mp first
  obtain ⟨highId, highZ⟩ := Prod.ext_iff.mp second
  -- The call returned the state it was given.
  obtain ⟨front, frontOpen, named, above⟩ := all cs "lw-1" "lw-1" low lowOpen lowId
  cases Keyed.eq_of_key_eq (·.id) (sound_calls cs).ids frontOpen lowOpen (named.trans lowId.symm)
  have under : high.z < low.z := above high highOpen (by rw [show high.id = "lw-2" from highId]; decide)
  rw [show high.z = 2 from highZ, show low.z = 1 from lowZ] at under
  omega

end Dockgraph.Frontend.LogWindows
