import Dockgraph.Library.Settle
import Mathlib.Algebra.Order.Ring.Rat
import Mathlib.Data.List.Chain
import Mathlib.Data.Sign.Defs
import Mathlib.Tactic.Linarith

/-!
# Edge paths (`layout/edgePaths.ts`)

Short stubs where a path turns back are taken out. The path of an edge is that of its sections, one after the
other; how a number is written is a parameter.
-/
namespace Dockgraph.Frontend

open Settle

structure Point where
  x : ℚ
  y : ℚ
  deriving DecidableEq

def UTURN_THRESHOLD : ℚ := 30

/-- Horizontal, vertical by a short stub, and back. -/
def HorizontalUturn (a b c d : Point) : Prop :=
  (|a.y - b.y| < 1 / 2 ∧ |b.x - c.x| < 1 / 2 ∧ |c.y - d.y| < 1 / 2) ∧
    SignType.sign (b.x - a.x) ≠ 0 ∧ SignType.sign (d.x - c.x) ≠ 0 ∧
      SignType.sign (b.x - a.x) ≠ SignType.sign (d.x - c.x) ∧ |b.y - c.y| < UTURN_THRESHOLD

/-- Vertical, horizontal by a short stub, and back. -/
def VerticalUturn (a b c d : Point) : Prop :=
  (|a.x - b.x| < 1 / 2 ∧ |b.y - c.y| < 1 / 2 ∧ |c.x - d.x| < 1 / 2) ∧
    SignType.sign (b.y - a.y) ≠ 0 ∧ SignType.sign (d.y - c.y) ≠ 0 ∧
      SignType.sign (b.y - a.y) ≠ SignType.sign (d.y - c.y) ∧ |b.x - c.x| < UTURN_THRESHOLD

instance (a b c d : Point) : Decidable (HorizontalUturn a b c d) := inferInstanceAs (Decidable (_ ∧ _))

instance (a b c d : Point) : Decidable (VerticalUturn a b c d) := inferInstanceAs (Decidable (_ ∧ _))

/-- One pass of the loop over the places: the two points in the middle go, or make room for one. -/
def smoothAt : List Point → Option (List Point)
  | a :: b :: c :: d :: rest =>
    if HorizontalUturn a b c d then
      some (if |a.x - d.x| < 1 / 2 then a :: d :: rest else a :: { x := a.x, y := c.y } :: d :: rest)
    else if VerticalUturn a b c d then
      some (if |a.y - d.y| < 1 / 2 then a :: d :: rest else a :: { x := c.x, y := a.y } :: d :: rest)
    else none
  | _ => none

/-- Every change takes a point away, so there are no more changes than points. -/
def smoothUturns (points : List Point) : Option (List Point) :=
  settle (rewriteFirst smoothAt) (points.length + 1) points

/-! ## Sections -/

/-- An edge's course through one level of the hierarchy. -/
structure EdgeSection where
  startPoint : Point
  bendPoints : List Point := []
  endPoint : Point

def Point.shift (p offset : Point) : Point := { x := p.x + offset.x, y := p.y + offset.y }

/-- One pass of the loop over the sections: a junction is written once. -/
def addSection (offset : Point) (points : List Point) (s : EdgeSection) : List Point :=
  let sp := s.startPoint.shift offset
  let start :=
    match points.getLast? with
    | none => [sp]
    | some prev => if 1 / 2 < |sp.x - prev.x| ∨ 1 / 2 < |sp.y - prev.y| then [sp] else []
  points ++ start ++ s.bendPoints.map (fun bp => bp.shift offset) ++ [s.endPoint.shift offset]

def sectionPoints (offset : Point) (sections : List EdgeSection) : List Point :=
  sections.foldl (addSection offset) []

/-- The path's text. There is none without a first point. -/
def pathText (text : ℚ → String) : List Point → Option String
  | [] => none
  | p :: rest =>
    some (rest.foldl (fun d q => d ++ " L " ++ text q.x ++ " " ++ text q.y) ("M " ++ text p.x ++ " " ++ text p.y))

def edgePath (text : ℚ → String) (offset : Point) (sections : List EdgeSection) : Option String :=
  (smoothUturns (sectionPoints offset sections)).bind (pathText text)

/-! ## What smoothing keeps -/

/-- Two points on one line, as far as it is told. -/
def Aligned (p q : Point) : Prop := |p.x - q.x| < 1 / 2 ∨ |p.y - q.y| < 1 / 2

/-- A rewritten place: its first point, at most one new point, and what stood behind the two in the middle. -/
structure Smoothed (old new : List Point) : Prop where
  shorter : new.length < old.length
  head : new.head? = old.head?
  last : new.getLast? = old.getLast?
  chain : old.IsChain Aligned → new.IsChain Aligned

variable {points old new : List Point} {a b c d : Point}

theorem smoothAt_cases (found : smoothAt old = some new) : ∃ a b c d rest, old = a :: b :: c :: d :: rest ∧
    ((new = a :: d :: rest ∧ Aligned a d) ∨ ∃ p, new = a :: p :: d :: rest ∧ Aligned a p ∧ Aligned p d) := by
  unfold smoothAt at found
  split at found
  next a b c d rest =>
    refine ⟨a, b, c, d, rest, rfl, ?_⟩
    split at found
    next turn =>
      obtain rfl := Option.some.inj found
      split
      -- the new point stands below or above the first, on the last one's height
      next near => exact .inl ⟨rfl, .inl near⟩
      next => exact .inr ⟨_, rfl, .inl (by norm_num), .inr turn.1.2.2⟩
    next =>
      split at found
      next turn =>
        obtain rfl := Option.some.inj found
        split
        -- the new point stands beside the first, above or below the last one
        next near => exact .inl ⟨rfl, .inr near⟩
        next => exact .inr ⟨_, rfl, .inr (by norm_num), .inl turn.1.2.2⟩
      next => cases found
  next => cases found

theorem smoothed_of_smoothAt (found : smoothAt old = some new) : Smoothed old new := by
  obtain ⟨a, b, c, d, rest, rfl, ⟨rfl, straight⟩ | ⟨p, rfl, first, second⟩⟩ := smoothAt_cases found
  · refine ⟨by simp, rfl, by simp, fun chain => ?_⟩
    exact .cons_cons straight (List.isChain_cons_cons.mp chain).2.tail.tail
  · refine ⟨by simp, rfl, by simp, fun chain => ?_⟩
    exact .cons_cons first (.cons_cons second (List.isChain_cons_cons.mp chain).2.tail.tail)

theorem Smoothed.ne_nil (smoothed : Smoothed old new) : old ≠ [] ∧ new ≠ [] := by
  have longer : old ≠ [] := List.ne_nil_of_length_pos (Nat.zero_lt_of_lt smoothed.shorter)
  refine ⟨longer, fun empty => longer ?_⟩
  rw [← List.head?_eq_none_iff, ← smoothed.head, empty]
  rfl

/-- What is smoothed further on stays as it is before. -/
theorem Smoothed.append (smoothed : Smoothed old new) (before : List Point) :
    Smoothed (before ++ old) (before ++ new) := by
  obtain ⟨present, kept⟩ := smoothed.ne_nil
  refine ⟨?_, ?_, ?_, fun chain => ?_⟩
  · rw [List.length_append, List.length_append]
    exact Nat.add_lt_add_left smoothed.shorter _
  · rw [List.head?_append, List.head?_append, smoothed.head]
  · rw [List.getLast?_append_of_ne_nil _ kept, List.getLast?_append_of_ne_nil _ present, smoothed.last]
  · rw [List.isChain_append] at chain ⊢
    exact ⟨chain.1, smoothed.chain chain.2.1, by rw [smoothed.head]; exact chain.2.2⟩

theorem smoothed_of_rewriteFirst (found : rewriteFirst smoothAt old = some new) : Smoothed old new := by
  obtain ⟨before, here, there, rfl, applied, rfl⟩ := exists_place found
  exact (smoothed_of_smoothAt applied).append before

/-- Points between the same ends, no more than before and as straight. -/
structure Kept (points result : List Point) : Prop where
  head : result.head? = points.head?
  last : result.getLast? = points.getLast?
  length : result.length ≤ points.length
  chain : points.IsChain Aligned → result.IsChain Aligned

theorem Kept.next (kept : Kept points old) (smoothed : Smoothed old new) : Kept points new where
  head := smoothed.head.trans kept.head
  last := smoothed.last.trans kept.last
  length := smoothed.shorter.le.trans kept.length
  chain straight := smoothed.chain (kept.chain straight)

/-- The result of smoothing, which is without U-turns. -/
structure Smooth (points result : List Point) : Prop extends Kept points result where
  straight : ∀ before a b c d after, result = before ++ a :: b :: c :: d :: after →
    ¬HorizontalUturn a b c d ∧ ¬VerticalUturn a b c d

theorem no_uturn (stuck : smoothAt (a :: b :: c :: d :: points) = none) :
    ¬HorizontalUturn a b c d ∧ ¬VerticalUturn a b c d := by
  by_cases flat : HorizontalUturn a b c d
  · rw [smoothAt, if_pos flat] at stuck
    cases stuck
  · refine ⟨flat, fun upright => ?_⟩
    rw [smoothAt, if_neg flat, if_pos upright] at stuck
    cases stuck

/-- Smoothing ends: every step takes points away. -/
theorem exists_smoothUturns (points : List Point) : ∃ result, smoothUturns points = some result :=
  settle_ends List.length (fun _ _ found => (smoothed_of_rewriteFirst found).shorter) (Nat.lt_succ_self _)

theorem kept_smoothUturns (done : smoothUturns points = some result) : Kept points result := by
  have start : Kept points points := ⟨rfl, rfl, Nat.le_refl _, fun chain => chain⟩
  exact settle_invariant (fun old new kept found => kept.next (smoothed_of_rewriteFirst found)) start done

/-- Smoothing ends, and is safe. -/
theorem smoothUturns_safe (points : List Point) : ∃ result, smoothUturns points = some result ∧ Smooth points result := by
  obtain ⟨result, done⟩ := exists_smoothUturns points
  refine ⟨result, done, kept_smoothUturns done, ?_⟩
  -- where the loop stops, the rule applies nowhere
  rintro before a b c d after rfl
  exact no_uturn (no_place (stuck_of_settle done) (List.cons_ne_nil _ _))

/-- What is left of a stub that does not come all the way back. -/
example : smoothUturns [⟨0, 0⟩, ⟨50, 0⟩, ⟨50, 10⟩, ⟨10, 10⟩] = some [⟨0, 0⟩, ⟨0, 10⟩, ⟨10, 10⟩] := by decide +kernel

/-! ## Paths -/

theorem addSection_ne_nil (offset : Point) (s : EdgeSection) : addSection offset points s ≠ [] := by
  unfold addSection
  simp

/-- An edge with sections has a path: its first point is there after smoothing, too. -/
theorem exists_edgePath (text : ℚ → String) (offset : Point) {sections : List EdgeSection} (present : sections ≠ []) :
    ∃ d, edgePath text offset sections = some d := by
  obtain ⟨first, last, rfl⟩ := List.eq_nil_or_concat' sections |>.resolve_left present
  obtain ⟨result, done⟩ := exists_smoothUturns (sectionPoints offset (first ++ [last]))
  unfold edgePath
  rw [done, Option.bind_some]
  cases result with
  | nil =>
    -- a section leaves points, and smoothing keeps the first
    have empty : sectionPoints offset (first ++ [last]) = [] := List.head?_eq_none_iff.mp (kept_smoothUturns done).head.symm
    rw [sectionPoints, List.foldl_concat] at empty
    exact absurd empty (addSection_ne_nil offset last)
  | cons p rest => exact ⟨_, rfl⟩

end Dockgraph.Frontend
