import Dockgraph.Collector.Types
import Dockgraph.Library.Ring
import Dockgraph.Library.Text
import Dockgraph.Library.Utf8
import Dockgraph.Secrets.Masker

/-!
# The history of Docker events (`collector/event_history.go`, `collector/textcap.go`)

Names and attributes come from whoever runs a container, so they are cut and masked before the
history keeps them.
-/
namespace Dockgraph.Collector

open Utf8

/-! ## Names of bounded length -/

def maxNameBytes : Nat := 255

/-- The loop of `CapText`: back to a byte that starts a character. -/
def cutBack (s : List UInt8) : Nat → Nat
  | 0 => 0
  | cut + 1 => if runeStart (s.getD (cut + 1) 0) then cut + 1 else cutBack s cut

/-- `CapText`, on the bytes of a string. -/
def capBytes (s : List UInt8) (limit : Int) : List UInt8 :=
  if limit ≤ 0 then []
  else if s.length ≤ limit then s
  else s.take (cutBack s limit.toNat)

theorem cutBack_le (s : List UInt8) (cut : Nat) : cutBack s cut ≤ cut := by
  induction cut with
  | zero => exact le_rfl
  | succ cut ih =>
    rw [cutBack]
    split
    · exact le_rfl
    · exact ih.trans (Nat.le_succ cut)

theorem cutBack_boundary {s : List UInt8} {cut : Nat} (inside : cut < s.length) : Boundary s (cutBack s cut) := by
  induction cut with
  | zero => exact .inl rfl
  | succ cut ih =>
    rw [cutBack]
    split
    case isTrue starts =>
      right
      intro b next
      rwa [List.getD_eq_getElem?_getD, next] at starts
    case isFalse => exact ih (Nat.lt_of_succ_lt inside)

/-- No later place up to `cut` may be cut at. -/
theorem le_cutBack {s : List UInt8} {cut k : Nat} (inside : cut < s.length) (le : k ≤ cut)
    (boundary : Boundary s k) : k ≤ cutBack s cut := by
  induction cut with
  | zero => exact le
  | succ cut ih =>
    rw [cutBack]
    split
    case isTrue => exact le
    case isFalse continues =>
      rcases Nat.lt_or_ge cut k with last | earlier
      · obtain rfl : k = cut + 1 := by omega
        rcases boundary with zero | starts
        · cases zero
        · refine absurd (starts s[cut + 1] (List.getElem?_eq_getElem inside)) ?_
          rwa [List.getD_eq_getElem?_getD, List.getElem?_eq_getElem inside] at continues
      · exact ih (Nat.lt_of_succ_lt inside) earlier

/-- `CapText`, on the characters of a string. -/
def capText (s : String) (limit : Nat) : String := .ofList (fit limit s.toList)

/-- Cutting the bytes of a text leaves as many whole characters as fit: the result is a text again,
and no longer one would fit. -/
theorem capBytes_bytes (s : List Char) (limit : Int) :
    capBytes (bytes s) limit = bytes (fit limit.toNat s) := by
  unfold capBytes
  by_cases positive : limit ≤ 0
  · rw [if_pos positive, Int.toNat_of_nonpos positive]
    have nothing := length_bytes_fit_le 0 s
    exact (List.length_eq_zero_iff.mp (Nat.le_zero.mp nothing)).symm
  rw [if_neg positive]
  by_cases short : ((bytes s).length : Int) ≤ limit
  · rw [if_pos short, fit_eq_self (by omega)]
  rw [if_neg short]
  have inside : limit.toNat < (bytes s).length := by omega
  have le := cutBack_le (bytes s) limit.toNat
  obtain ⟨front, first, long⟩ := exists_chars_of_boundary (by omega) (cutBack_boundary inside)
  obtain ⟨rest, whole⟩ := fit_isPrefix limit.toNat s
  -- the cut is the last boundary within the limit, and so is the end of the longest prefix
  have reach : (bytes (fit limit.toNat s)).length ≤ (bytes front).length := by
    rw [long]
    refine le_cutBack inside (length_bytes_fit_le _ _) ?_
    have boundary := boundary_length (fit limit.toNat s) rest
    rwa [whole] at boundary
  have same : front = fit limit.toNat s := by
    refine eq_of_length_bytes first (fit_isPrefix _ _) (le_antisymm ?_ reach)
    exact (bytes_mono (isPrefix_fit first (by omega))).length_le
  rw [← long, ← same]
  exact (List.prefix_iff_eq_take.mp (bytes_mono first)).symm

/-! ## The history -/

/-- `events.Type`. -/
inductive EventType
  | builder | config | container | daemon | image | network | node | plugin | secret | service | volume
  deriving DecidableEq, Repr

/-- Times are nanoseconds from the epoch. -/
structure DockerEvent where
  timestamp : Int
  action : String
  type : EventType
  name : String
  attributes : StringMap := none

def eventAttributes : List String := ["name", "image", "exitCode", "signal", "driver", "type", "container"]

def maskEnvValue (key value : String) : String := .ofList (Secrets.maskEnvValue key.toList value.toList)

/-- One round of the loop of `keptAttributes`. -/
def keepAttribute (attrs kept : StringMap) (k : String) : StringMap :=
  match attrs.entries.lookup k with
  | none => kept
  | some v => some (kept.entries.insert k (maskEnvValue k (capText v maxNameBytes)))

def keptAttributes (attrs : StringMap) : StringMap := eventAttributes.foldl (keepAttribute attrs) none

/-- `EventHistory`, empty cells holding zero events. -/
abbrev EventHistory (capacity : Nat) := Ring DockerEvent capacity

def newEventHistory (capacity : Nat) (positive : 0 < capacity) : EventHistory capacity :=
  .empty { timestamp := 0, action := "", type := .container, name := "" } positive

/-- What `Add` stores of an event. -/
def storedEvent (e : DockerEvent) : DockerEvent :=
  { e with name := capText e.name maxNameBytes, attributes := keptAttributes e.attributes }

variable {capacity : Nat}

def EventHistory.add (h : EventHistory capacity) (e : DockerEvent) : EventHistory capacity :=
  h.push (storedEvent e)

def EventHistory.recent (h : EventHistory capacity) (n : Nat) : List DockerEvent := h.newest n

/-- `limit` of `HandleRecentEvents`; `none` without the query parameter. -/
def recentLimit (q : Option String) : Nat :=
  match q.bind Text.parseInt with
  | some n => if 0 < n ∧ n ≤ 500 then n.toNat else 50
  | none => 50

/-! ### What is kept of the attributes -/

theorem lookup_keepAttribute (attrs kept : StringMap) (j k : String) :
    (keepAttribute attrs kept j).entries.lookup k =
      if k = j then
        ((attrs.entries.lookup k).map fun v => maskEnvValue k (capText v maxNameBytes)).or (kept.entries.lookup k)
      else kept.entries.lookup k := by
  unfold keepAttribute
  by_cases same : k = j
  · subst same
    cases attrs.entries.lookup k with
    | none => simp
    | some v => simp [StringMap.entries]
  · cases attrs.entries.lookup j with
    | none => simp [same]
    | some v => simp [same, StringMap.entries, Finmap.lookup_insert_of_ne]

/-- Of the listed attributes the cut and masked values are kept, of the others nothing. -/
theorem lookup_keptAttributes (attrs : StringMap) (k : String) :
    (keptAttributes attrs).entries.lookup k =
      if k ∈ eventAttributes then
        (attrs.entries.lookup k).map fun v => maskEnvValue k (capText v maxNameBytes)
      else none := by
  have loop (ks : List String) (kept : StringMap) :
      (ks.foldl (keepAttribute attrs) kept).entries.lookup k =
        if k ∈ ks then
          ((attrs.entries.lookup k).map fun v => maskEnvValue k (capText v maxNameBytes)).or (kept.entries.lookup k)
        else kept.entries.lookup k := by
    induction ks generalizing kept with
    | nil => simp
    | cons j ks ih =>
      rw [List.foldl_cons, ih, lookup_keepAttribute]
      by_cases same : k = j
      · -- a key listed twice is masked from the same value
        cases attrs.entries.lookup k <;> simp [same]
      · simp [same]
  rw [keptAttributes, loop]
  simp [StringMap.entries]

end Dockgraph.Collector
