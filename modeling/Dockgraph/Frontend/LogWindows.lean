import Mathlib.Data.Rat.Floor

/-!
# The floating log windows (`hooks/logWindowsState.ts`)

Coordinates are exact, and an index that JavaScript takes from a caller is any integer.
-/
namespace Dockgraph.Frontend.LogWindows

def WINDOW_DEFAULT_W : ℚ := 460
def WINDOW_DEFAULT_H : ℚ := 340
def WINDOW_MIN_W : ℚ := 280
def WINDOW_MIN_H : ℚ := 160
def WINDOW_CASCADE : ℚ := 28

/-- One container's logs within a window. -/
structure LogTab where
  containerId : String
  title : String
  search : String

structure LogWindowState where
  id : String
  tabs : List LogTab
  activeTab : Int
  x : ℚ
  y : ℚ
  w : ℚ
  h : ℚ
  z : Nat
  minimized : Bool

structure WindowsState where
  windows : List LogWindowState := []
  nextZ : Nat := 1
  nextId : Nat := 1

structure Viewport where
  width : ℚ
  height : ℚ
  headerHeight : ℚ
  dockHeight : ℚ

def initialWindowsState : WindowsState := {}

def clampPosition (x y w : ℚ) (vp : Viewport) : ℚ × ℚ :=
  let maxX := max 0 (vp.width - w)
  let minY := vp.headerHeight
  let maxY := max minY (vp.height - vp.dockHeight - 40)
  (min (max 0 x) maxX, min (max minY y) maxY)

/-- `Math.round`: halves go up. -/
def round (x : ℚ) : ℚ := ⌊x + 1 / 2⌋

/-- An array's item: none below zero or past the end. -/
def item (tabs : List LogTab) (i : Int) : Option LogTab :=
  if 0 ≤ i then tabs[i.toNat]? else none

/-- `tabs.filter((_, i) => i !== tabIndex)` -/
def withoutTab (tabs : List LogTab) (tabIndex : Int) : List LogTab :=
  (tabs.zipIdx.filter fun t => (t.2 : Int) ≠ tabIndex).map Prod.fst

def windowId (n : Nat) : String := "lw-" ++ toString n

def findWindow (s : WindowsState) (id : String) : Option LogWindowState :=
  s.windows.find? (·.id = id)

def findContainerWindow (s : WindowsState) (containerId : String) : Option LogWindowState :=
  s.windows.find? fun w => w.tabs.any (·.containerId = containerId)

def focusWindow (s : WindowsState) (id : String) : WindowsState :=
  let z := s.nextZ
  { s with
    nextZ := z + 1
    windows := s.windows.map fun w => if w.id = id then { w with z } else w }

def openLogs (s : WindowsState) (containerId title : String) (vp : Viewport) : WindowsState :=
  match findContainerWindow s containerId with
  | some existing =>
    let tabIndex := existing.tabs.findIdx (·.containerId = containerId)
    let z := s.nextZ
    { s with
      nextZ := z + 1
      windows := s.windows.map fun w =>
        if w.id = existing.id then { w with z, minimized := false, activeTab := tabIndex } else w }
  | none =>
    let count : ℚ := s.windows.length
    let baseX := 80 + count * WINDOW_CASCADE
    let baseY := vp.headerHeight + 24 + count * WINDOW_CASCADE
    let p := clampPosition baseX baseY WINDOW_DEFAULT_W vp
    let win : LogWindowState :=
      { id := windowId s.nextId
        tabs := [{ containerId, title, search := "" }]
        activeTab := 0
        x := p.1
        y := p.2
        w := WINDOW_DEFAULT_W
        h := WINDOW_DEFAULT_H
        z := s.nextZ
        minimized := false }
    { windows := s.windows ++ [win], nextZ := s.nextZ + 1, nextId := s.nextId + 1 }

def closeWindow (s : WindowsState) (id : String) : WindowsState :=
  { s with windows := s.windows.filter (·.id ≠ id) }

def moveWindow (s : WindowsState) (id : String) (x y : ℚ) (vp : Viewport) : WindowsState :=
  { s with
    windows := s.windows.map fun w =>
      if w.id = id then
        let p := clampPosition x y w.w vp
        { w with x := p.1, y := p.2 }
      else w }

def resizeWindow (s : WindowsState) (id : String) (w h : ℚ) : WindowsState :=
  { s with
    windows := s.windows.map fun win =>
      if win.id = id then
        { win with w := max WINDOW_MIN_W (round w), h := max WINDOW_MIN_H (round h) }
      else win }

def minimizeWindow (s : WindowsState) (id : String) : WindowsState :=
  { s with windows := s.windows.map fun w => if w.id = id then { w with minimized := true } else w }

def restoreWindow (s : WindowsState) (id : String) : WindowsState :=
  let z := s.nextZ
  { s with
    nextZ := z + 1
    windows := s.windows.map fun w => if w.id = id then { w with minimized := false, z } else w }

def setActiveTab (s : WindowsState) (id : String) (idx : Int) : WindowsState :=
  { s with
    windows := s.windows.map fun w =>
      if w.id = id then { w with activeTab := min (max 0 idx) ((w.tabs.length : Int) - 1) } else w }

def setSearch (s : WindowsState) (id : String) (tabIndex : Int) (query : String) : WindowsState :=
  { s with
    windows := s.windows.map fun w =>
      if w.id = id then
        { w with tabs := w.tabs.mapIdx fun i t => if (i : Int) = tabIndex then { t with search := query } else t }
      else w }

/-- All of the source's tabs go to the end of the target, and the source goes. -/
def mergeWindows (s : WindowsState) (sourceId targetId : String) : WindowsState :=
  if sourceId = targetId then s
  else
    match findWindow s sourceId, findWindow s targetId with
    | some source, some target =>
      let z := s.nextZ
      let mergedTabs := target.tabs ++ source.tabs
      { s with
        nextZ := z + 1
        windows := (s.windows.filter (·.id ≠ sourceId)).map fun w =>
          if w.id = targetId then
            { w with tabs := mergedTabs, activeTab := target.tabs.length, z, minimized := false }
          else w }
    | _, _ => s

/-- The tab of a window that a call would pop out: none of a window with a single tab. -/
def detached (s : WindowsState) (id : String) (tabIndex : Int) : Option (LogWindowState × LogTab) := do
  let win ← findWindow s id
  if win.tabs.length ≤ 1 then none
  let tab ← item win.tabs tabIndex
  return (win, tab)

def detachTab (s : WindowsState) (id : String) (tabIndex : Int) (x y : ℚ) : WindowsState :=
  match detached s id tabIndex with
  | none => s
  | some (win, tab) =>
    let remaining := withoutTab win.tabs tabIndex
    let newWin : LogWindowState :=
      { id := windowId s.nextId
        tabs := [tab]
        activeTab := 0
        x
        y
        w := win.w
        h := win.h
        z := s.nextZ
        minimized := false }
    { nextZ := s.nextZ + 1
      nextId := s.nextId + 1
      windows := (s.windows.map fun w =>
        if w.id = id then
          { w with tabs := remaining, activeTab := min w.activeTab ((remaining.length : Int) - 1) }
        else w) ++ [newWin] }

def closeTab (s : WindowsState) (id : String) (tabIndex : Int) : WindowsState :=
  match findWindow s id with
  | none => s
  | some win =>
    if win.tabs.length ≤ 1 then closeWindow s id
    else
      let remaining := withoutTab win.tabs tabIndex
      { s with
        windows := s.windows.map fun w =>
          if w.id = id then
            { w with tabs := remaining, activeTab := min w.activeTab ((remaining.length : Int) - 1) }
          else w }

/-- A call of one of the transitions. -/
inductive Call
  | openLogs (containerId title : String) (vp : Viewport)
  | focusWindow (id : String)
  | closeWindow (id : String)
  | moveWindow (id : String) (x y : ℚ) (vp : Viewport)
  | resizeWindow (id : String) (w h : ℚ)
  | minimizeWindow (id : String)
  | restoreWindow (id : String)
  | setActiveTab (id : String) (idx : Int)
  | setSearch (id : String) (tabIndex : Int) (query : String)
  | mergeWindows (sourceId targetId : String)
  | detachTab (id : String) (tabIndex : Int) (x y : ℚ)
  | closeTab (id : String) (tabIndex : Int)

def call (s : WindowsState) : Call → WindowsState
  | .openLogs containerId title vp => openLogs s containerId title vp
  | .focusWindow id => focusWindow s id
  | .closeWindow id => closeWindow s id
  | .moveWindow id x y vp => moveWindow s id x y vp
  | .resizeWindow id w h => resizeWindow s id w h
  | .minimizeWindow id => minimizeWindow s id
  | .restoreWindow id => restoreWindow s id
  | .setActiveTab id idx => setActiveTab s id idx
  | .setSearch id tabIndex query => setSearch s id tabIndex query
  | .mergeWindows sourceId targetId => mergeWindows s sourceId targetId
  | .detachTab id tabIndex x y => detachTab s id tabIndex x y
  | .closeTab id tabIndex => closeTab s id tabIndex

/-- The state after some calls. -/
def calls (cs : List Call) : WindowsState := cs.foldl call initialWindowsState

end Dockgraph.Frontend.LogWindows
