import Dockgraph.Library.Suffix
import Dockgraph.Library.Timestamp
import Mathlib.Data.List.Sort

/-!
# Log lines (`api/logs.go`)

A page of log history is bounded by a number of lines and by their text. A stream is read here as
the entries its lines parse to.
-/
namespace Dockgraph.Api

open Timestamp Suffix

structure LogEntry where
  stream : String
  /-- The bytes of the text. -/
  line : List UInt8
  timestamp : String
  deriving DecidableEq

def maxHistoryPageBytes : Nat := 512 * 2 ^ 10

/-- 16 KiB of text and a timestamp with a space. -/
def maxLogLineSize : Nat := 16 * 2 ^ 10 + 31

/-- A line of a page of log history. -/
class HistoryLine (α : Type) where
  stamp : α → String
  size : α → Nat

export HistoryLine (stamp size)

instance : HistoryLine LogEntry where
  stamp e := e.timestamp
  size e := e.line.length

variable {α : Type} [HistoryLine α]

/-- The loop of `newestWithin`, from the newest line on; `kept` is `lines[start:]`. -/
def newestWithin.loop (budget : Nat) : List α → List α → Nat → List α × Nat
  | [], kept, total => (kept, total)
  | l :: older, kept, total =>
    if total + size l > budget ∧ kept ≠ [] then (kept, total)
    else newestWithin.loop budget older (l :: kept) (total + size l)

/-- The newest lines whose text fits in the budget, at least one, and their size. -/
def newestWithin (lines : List α) (budget : Nat) : List α × Nat :=
  newestWithin.loop budget lines.reverse [] 0

/-- The loop of `readLogLines`: `n` more lines of the stream. -/
def readLogLines.loop : Nat → List LogEntry → List LogEntry → Nat → List LogEntry
  | 0, _, lines, _ => lines
  | _ + 1, [], lines, _ => lines
  | n + 1, e :: reader, lines, total =>
    let lines := lines ++ [e]
    let total := total + size e
    if total > 2 * maxHistoryPageBytes then
      let (lines, total) := newestWithin lines maxHistoryPageBytes
      readLogLines.loop n reader lines total
    else readLogLines.loop n reader lines total

def readLogLines (reader : List LogEntry) (limit : Nat) : List LogEntry :=
  (newestWithin (readLogLines.loop limit reader [] 0) maxHistoryPageBytes).1

/-- The line is at or after the cut, as far as its timestamp parses. -/
def atOrAfter (cut : Int) (l : α) : Bool :=
  match timeParse (stamp l) with
  | none => false
  | some ts => !(ts < cut)

def dropFromCursor (lines : List LogEntry) (before : String) : List LogEntry :=
  match timeParse before with
  | none => lines
  | some cut => lines.filter fun l => !atOrAfter cut l

/-! ## The newest lines of any number -/

structure NewestLines (α : Type) where
  cut : Option Int
  limit : Nat
  lines : List α := []
  total : Nat := 0

def newNewestLines (before : String) (limit : Nat) : NewestLines α :=
  { cut := timeParse before, limit }

namespace NewestLines

def trim (n : NewestLines α) : NewestLines α :=
  let sorted := n.lines.mergeSort fun a b => stamp a ≤ stamp b
  let (lines, total) := newestWithin (newest n.limit sorted) maxHistoryPageBytes
  { n with lines, total }

/-- The line is at or after the cursor. -/
def drops (n : NewestLines α) (l : α) : Bool :=
  match n.cut with
  | none => false
  | some cut => atOrAfter cut l

def add (n : NewestLines α) (l : α) : NewestLines α :=
  if n.drops l then n
  else
    let n := { n with lines := n.lines ++ [l], total := n.total + size l }
    if n.lines.length ≥ 2 * n.limit ∨ n.total > 2 * maxHistoryPageBytes then n.trim else n

def result (n : NewestLines α) : List α := n.trim.lines

end NewestLines

def readNewestLinesBefore (reader : List LogEntry) (before : String) (limit : Nat) : List LogEntry :=
  (reader.foldl NewestLines.add (newNewestLines before limit)).result

/-! ## A page of one source -/

def serviceHistoryTailFactor : Nat := 10

def serviceHistoryMaxLines : Nat := 10000

/-- The options a history page sets. -/
structure LogsOptions where
  tail : Nat
  until_ : String

/-- A container, or a service whose logs cover all its tasks. -/
structure LogSource where
  name : String
  /-- `open`: the stream for the options. -/
  opener : LogsOptions → List LogEntry
  service : Bool

def fetchLogHistory (src : LogSource) (before : String) (limit : Nat) : List LogEntry :=
  let tail :=
    if src.service ∧ before ≠ "" then min (limit * serviceHistoryTailFactor) serviceHistoryMaxLines
    else if before ≠ "" then limit + 1
    else limit
  let reader := src.opener { tail, until_ := before }
  if !src.service then
    let lines := dropFromCursor (readLogLines reader tail) before
    if lines.length > limit then newest limit lines else lines
  else readNewestLinesBefore reader before limit

/-! ## What the bounds keep -/

def pageSize (lines : List α) : Nat := (lines.map size).sum

theorem pageSize_uniform {lines : List α} {bytes : Nat} (uniform : ∀ l ∈ lines, size l = bytes) :
    pageSize lines = lines.length * bytes := by
  rw [pageSize, List.map_congr_left uniform, List.map_const', List.sum_replicate_nat]

/-- The lines are within a size, or there is only one. -/
def Fits (budget : Nat) (lines : List α) : Prop := lines.length ≤ 1 ∨ pageSize lines ≤ budget

instance (budget : Nat) (lines : List α) : Decidable (Fits budget lines) :=
  inferInstanceAs (Decidable (_ ∨ _))

theorem pageSize_append (xs ys : List α) : pageSize (xs ++ ys) = pageSize xs + pageSize ys := by
  rw [pageSize, List.map_append, List.sum_append, pageSize, pageSize]

@[simp]
theorem pageSize_cons (x : α) (xs : List α) : pageSize (x :: xs) = size x + pageSize xs := rfl

theorem pageSize_le_of_sublist {xs ys : List α} (part : xs.Sublist ys) : pageSize xs ≤ pageSize ys := by
  induction part with
  | slnil => exact le_refl _
  | cons x _ ih =>
    rw [pageSize_cons]
    exact Nat.le_add_left_of_le ih
  | cons_cons x _ ih =>
    rw [pageSize_cons, pageSize_cons]
    exact Nat.add_le_add_left ih _

theorem hereditary_fits (budget : Nat) : Hereditary (Fits (α := α) budget) := by
  rintro xs ys ⟨pre, post, rfl⟩ fits
  refine fits.imp (fun short => ?_) fun small => ?_
  · simp only [List.length_append] at short
    omega
  · simp only [pageSize_append] at small
    omega

theorem newestWithin_loop (budget : Nat) (older kept : List α) (fits : Fits budget kept) :
    newestWithin.loop budget older kept (pageSize kept) =
      (longestSuffix (Fits budget) (older.reverse ++ kept),
        pageSize (longestSuffix (Fits budget) (older.reverse ++ kept))) := by
  induction older generalizing kept with
  | nil => rw [newestWithin.loop, List.reverse_nil, List.nil_append, longestSuffix_self fits]
  | cons l older ih =>
    rw [newestWithin.loop, List.reverse_cons, List.append_assoc, List.singleton_append]
    by_cases past : pageSize kept + size l > budget ∧ kept ≠ []
    · have fails : ¬Fits budget (l :: kept) := by
        rintro (short | small)
        · exact past.2 (List.length_eq_zero_iff.mp (by simpa using short))
        · rw [pageSize_cons] at small
          omega
      rw [if_pos past, longestSuffix_append_cons (hereditary_fits budget) fails,
        longestSuffix_self fits]
    · have more : Fits budget (l :: kept) := by
        by_cases first : kept = []
        · exact .inl (by rw [first]; exact le_refl 1)
        · right
          have small : ¬pageSize kept + size l > budget := fun big => past ⟨big, first⟩
          rw [pageSize_cons]
          omega
      rw [if_neg past, Nat.add_comm, ← pageSize_cons, ih (l :: kept) more]

theorem newestWithin_eq (lines : List α) (budget : Nat) :
    newestWithin lines budget =
      (longestSuffix (Fits budget) lines, pageSize (longestSuffix (Fits budget) lines)) := by
  have loop := newestWithin_loop budget lines.reverse [] (.inl (Nat.zero_le 1))
  rwa [List.reverse_reverse, List.append_nil] at loop

theorem readLogLines_loop (n : Nat) (reader lines : List LogEntry) :
    longestSuffix (Fits maxHistoryPageBytes) (readLogLines.loop n reader lines (pageSize lines)) =
      longestSuffix (Fits maxHistoryPageBytes) (lines ++ reader.take n) := by
  induction n generalizing reader lines with
  | zero => rw [readLogLines.loop, List.take_zero, List.append_nil]
  | succ n ih =>
    cases reader with
    | nil => rw [readLogLines.loop, List.take_nil, List.append_nil]
    | cons e reader =>
      have total : pageSize lines + size e = pageSize (lines ++ [e]) := by
        rw [pageSize_append]
        rfl
      have regroup : lines ++ (e :: reader).take (n + 1) = lines ++ [e] ++ reader.take n := by
        rw [List.take_succ_cons, List.append_assoc, List.singleton_append]
      rw [readLogLines.loop, total, regroup]
      dsimp only
      split
      · rw [newestWithin_eq]
        dsimp only
        rw [ih, longestSuffix_append (hereditary_fits _)]
      · exact ih reader (lines ++ [e])

/-- The early cuts of the loop change nothing. -/
theorem readLogLines_eq (reader : List LogEntry) (limit : Nat) :
    readLogLines reader limit = longestSuffix (Fits maxHistoryPageBytes) (reader.take limit) := by
  rw [readLogLines, newestWithin_eq]
  exact readLogLines_loop limit reader []

end Dockgraph.Api
