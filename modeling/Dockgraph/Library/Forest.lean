import Mathlib.Data.List.Basic
import Mathlib.Logic.Relation

/-!
# Forests

Elements with at most one parent each. A climb marks what is above a place and stops at the first
element that is marked; a descent collects what is below a root from the lists of children.
-/
namespace Dockgraph.Forest

open Relation

universe u

variable {κ : Type u}

/-- The second is the parent of the first. -/
def Child (parent : κ → Option κ) (a b : κ) : Prop := parent a = some b

/-- The second is an ancestor of the first. -/
abbrev Below (parent : κ → Option κ) : κ → κ → Prop := TransGen (Child parent)

def Acyclic (parent : κ → Option κ) : Prop := ∀ a, ¬Below parent a a

variable {parent : κ → Option κ} {a b c : κ}

/-- Two ancestors of one element are on one line. -/
theorem linear (first : ReflTransGen (Child parent) a b) (second : ReflTransGen (Child parent) a c) :
    ReflTransGen (Child parent) b c ∨ ReflTransGen (Child parent) c b :=
  ReflTransGen.total_of_right_unique (fun _ _ _ one two => Option.some.inj (one.symm.trans two)) first second

/-- Steps that go down a rank come back to no element. -/
theorem no_cycle_of_rank {step : κ → κ → Prop} (rank : κ → Nat) (down : ∀ a b, step a b → rank b < rank a) :
    ¬TransGen step a a := by
  intro cycle
  have lowered : TransGen (· > ·) (rank a) (rank a) := cycle.lift rank down
  rw [transGen_eq_self] at lowered
  exact Nat.lt_irrefl _ lowered

/-- Parents of a lower rank lead back to no element. -/
theorem acyclic_of_rank (rank : κ → Nat) (down : ∀ a p, parent a = some p → rank p < rank a) : Acyclic parent :=
  fun _ => no_cycle_of_rank rank down

theorem exists_parent (below : Below parent a b) : ∃ p, parent a = some p ∧ ReflTransGen (Child parent) p b := by
  obtain ⟨p, first, rest⟩ := TransGen.head'_iff.mp below
  exact ⟨p, first, rest⟩

theorem below_or_eq (reached : ReflTransGen (Child parent) a b) : a = b ∨ Below parent a b :=
  (reflTransGen_iff_eq_or_transGen.mp reached).imp_left Eq.symm

variable [DecidableEq κ]

/-- A set as the list of what was added to it, in order. -/
def add (s : List κ) (a : κ) : List κ := if a ∈ s then s else s ++ [a]

@[simp] theorem mem_add {s : List κ} : b ∈ add s a ↔ b ∈ s ∨ b = a := by
  unfold add
  split
  next held =>
    refine ⟨.inl, ?_⟩
    rintro (member | rfl)
    · exact member
    · exact held
  next => simp

@[simp] theorem mem_foldl_add {as s : List κ} : b ∈ as.foldl add s ↔ b ∈ s ∨ b ∈ as := by
  induction as generalizing s with
  | nil => simp
  | cons a as ih => rw [List.foldl_cons, ih, mem_add, List.mem_cons, or_assoc]

/-- How much of the elements is not in the set. -/
def missing (all s : List κ) : Nat := (all.filter fun a => a ∉ s).length

theorem missing_le (all s : List κ) : missing all s ≤ all.length := List.length_filter_le _ _

theorem missing_concat {all s : List κ} (member : a ∈ all) (fresh : a ∉ s) :
    missing all (s ++ [a]) < missing all s := by
  have part : all.filter (fun b => b ∉ s ++ [a]) = (all.filter fun b => b ∉ s).filter fun b => b ≠ a := by
    rw [List.filter_filter]
    refine List.filter_congr fun b _ => ?_
    simp [not_or, and_comm]
  rw [missing, part]
  refine List.length_filter_lt_length_iff_exists.mpr ⟨a, List.mem_filter.mpr ⟨member, ?_⟩, ?_⟩
  · simpa using fresh
  · simp

/-! ## Climbing -/

/-- Marks from a place up to the first element that is marked. Without steps left there is no result. -/
def climb (parent : κ → Option κ) : Nat → Option κ → List κ → Option (List κ)
  | 0, _, _ => none
  | _ + 1, none, marked => some marked
  | n + 1, some p, marked => if p ∈ marked then some marked else climb parent n (parent p) (marked ++ [p])

theorem climb_ends {all marked : List κ} {start : Option κ} {n : Nat} (starts : ∀ p, start = some p → p ∈ all)
    (named : ∀ a p, parent a = some p → p ∈ all) (enough : missing all marked < n) :
    ∃ result, climb parent n start marked = some result := by
  induction n generalizing start marked with
  | zero => exact absurd enough (Nat.not_lt_zero _)
  | succ n ih =>
    cases start with
    | none => exact ⟨marked, rfl⟩
    | some p =>
      rw [climb]
      split
      next => exact ⟨marked, rfl⟩
      next fresh =>
        have fewer := missing_concat (starts p rfl) fresh
        exact ih (named p) (by omega)

/-- A climb ends at once where the first element is marked. -/
theorem climb_held {marked : List κ} {n : Nat} (held : a ∈ marked) : climb parent (n + 1) (some a) marked = some marked :=
  if_pos held

/-- Marks that are closed upwards where the climb comes past them are kept closed: the climb marks all above. -/
theorem mem_climb (acyclic : Acyclic parent) {marked result : List κ} {start : Option κ} {n : Nat}
    (closed : ∀ p a b, start = some p → ReflTransGen (Child parent) p a → a ∈ marked → parent a = some b → b ∈ marked)
    (done : climb parent n start marked = some result) :
    a ∈ result ↔ a ∈ marked ∨ ∃ p, start = some p ∧ ReflTransGen (Child parent) p a := by
  induction n generalizing start marked with
  | zero => cases done
  | succ n ih =>
    cases start with
    | none =>
      cases done
      simp
    | some p =>
      rw [climb] at done
      split at done
      next held =>
        cases done
        refine ⟨.inl, ?_⟩
        rintro (member | ⟨q, start, above⟩)
        · exact member
        · cases start
          -- all above a marked element is marked
          clear ih
          induction above with
          | refl => exact held
          | tail above next marked => exact closed p _ _ rfl above marked next
      next fresh =>
        rw [ih (fun q a b start above member next => ?_) done]
        · simp only [List.mem_append, List.mem_singleton]
          constructor
          · rintro ((member | rfl) | ⟨q, start, above⟩)
            · exact .inl member
            · exact .inr ⟨a, rfl, .refl⟩
            · exact .inr ⟨p, rfl, .head start above⟩
          · rintro (member | ⟨q, start, above⟩)
            · exact .inl (.inl member)
            · cases start
              rcases ReflTransGen.cases_head above with rfl | ⟨q, first, rest⟩
              · exact .inl (.inr rfl)
              · exact .inr ⟨q, first, rest⟩
        · rw [List.mem_append, List.mem_singleton] at member ⊢
          rcases member with member | rfl
          · exact .inl (closed p a b rfl (.head start above) member next)
          · have child : Child parent a q := start
            exact absurd (TransGen.head' child above) (acyclic a)

/-! ## Descending -/

/-- A child that is not collected yet is collected and put on the stack. -/
def push (s : List κ × List κ) (a : κ) : List κ × List κ :=
  if a ∈ s.1 then s else (s.1 ++ [a], a :: s.2)

/-- Collects what is below the elements of the stack. Without steps left there is no result. -/
def descend (children : κ → List κ) : Nat → List κ → List κ → Option (List κ)
  | 0, _, _ => none
  | _ + 1, [], out => some out
  | n + 1, a :: stack, out =>
    let next := (children a).foldl push (out, stack)
    descend children n next.2 next.1

theorem foldl_push (as : List κ) (s : List κ × List κ) :
    (∀ a, a ∈ (as.foldl push s).1 ↔ a ∈ s.1 ∨ a ∈ as) ∧
      (∀ a, a ∈ (as.foldl push s).2 → a ∈ s.2 ∨ a ∈ as) ∧ (∀ a, a ∈ s.2 → a ∈ (as.foldl push s).2) ∧
      ∀ a, a ∈ (as.foldl push s).1 → a ∈ s.1 ∨ a ∈ (as.foldl push s).2 := by
  induction as generalizing s with
  | nil => exact ⟨by simp, by simp, by simp, fun a => .inl⟩
  | cons b as ih =>
    obtain ⟨collected, stack, kept, pushed⟩ := ih (push s b)
    rw [List.foldl_cons]
    unfold push at collected stack kept pushed ⊢
    by_cases held : b ∈ s.1
    · rw [if_pos held] at collected stack kept pushed ⊢
      refine ⟨fun a => ?_, fun a member => ?_, kept, pushed⟩
      · rw [collected, List.mem_cons]
        constructor
        · rintro (member | member)
          · exact .inl member
          · exact .inr (.inr member)
        · rintro (member | rfl | member)
          · exact .inl member
          · exact .inl held
          · exact .inr member
      · exact (stack a member).imp_right (List.mem_cons_of_mem b)
    · rw [if_neg held] at collected stack kept pushed ⊢
      refine ⟨fun a => ?_, fun a member => ?_, fun a member => ?_, fun a member => ?_⟩
      · rw [collected]
        simp only [List.mem_append, List.mem_cons, List.not_mem_nil, or_false]
        tauto
      · rcases stack a member with first | last
        · rcases List.mem_cons.mp first with rfl | first
          · exact .inr List.mem_cons_self
          · exact .inl first
        · exact .inr (List.mem_cons_of_mem b last)
      · exact kept a (List.mem_cons_of_mem b member)
      · rcases pushed a member with first | last
        · rcases List.mem_append.mp first with first | same
          · exact .inl first
          · rw [List.mem_singleton.mp same]
            exact .inr (kept b List.mem_cons_self)
        · exact .inr last

theorem missing_foldl_push {all as : List κ} (within : ∀ a ∈ as, a ∈ all) (s : List κ × List κ) :
    (as.foldl push s).2.length + missing all (as.foldl push s).1 ≤ s.2.length + missing all s.1 := by
  induction as generalizing s with
  | nil => exact Nat.le_refl _
  | cons a as ih =>
    rw [List.forall_mem_cons] at within
    refine Nat.le_trans (ih within.2 (push s a)) ?_
    unfold push
    split
    next => exact Nat.le_refl _
    next fresh =>
      have fewer := missing_concat within.1 fresh
      simp only [List.length_cons]
      omega

theorem descend_ends {children : κ → List κ} {all stack out : List κ} {n : Nat}
    (within : ∀ p, ∀ a ∈ children p, a ∈ all) (enough : stack.length + missing all out < n) :
    ∃ result, descend children n stack out = some result := by
  induction n generalizing stack out with
  | zero => exact absurd enough (Nat.not_lt_zero _)
  | succ n ih =>
    cases stack with
    | nil => exact ⟨out, rfl⟩
    | cons a stack =>
      have fewer := missing_foldl_push (within a) (out, stack)
      simp only [List.length_cons] at enough fewer
      exact ih (by omega)

section Descent

variable {children : κ → List κ} {root : κ}

/-- All that is collected is below the root, and so are the children of all that is not on the stack. -/
structure Descent (children : κ → List κ) (root : κ) (stack out : List κ) : Prop where
  sound : ∀ a ∈ out, TransGen (fun a b => a ∈ children b) a root
  stacked : ∀ a ∈ stack, a = root ∨ a ∈ out
  expanded : ∀ a, a = root ∨ a ∈ out → a ∈ stack ∨ ∀ c ∈ children a, c ∈ out

omit [DecidableEq κ] in
theorem Descent.start : Descent children root [root] [] where
  sound := by simp
  stacked := by simp
  expanded := by simp

theorem Descent.next {stack out : List κ} (descent : Descent children root (a :: stack) out) :
    Descent children root ((children a).foldl push (out, stack)).2 ((children a).foldl push (out, stack)).1 := by
  obtain ⟨collected, stack, kept, pushed⟩ := foldl_push (children a) (out, stack)
  refine ⟨fun b member => ?_, fun b member => ?_, fun b member => ?_⟩
  · rcases (collected b).mp member with old | new
    · exact descent.sound b old
    · rcases descent.stacked a List.mem_cons_self with rfl | out
      · exact .single new
      · exact .head new (descent.sound a out)
  · rcases stack b member with old | new
    · exact (descent.stacked b (List.mem_cons_of_mem a old)).imp_right fun out => (collected b).mpr (.inl out)
    · exact .inr ((collected b).mpr (.inr new))
  · by_cases fresh : b = root ∨ b ∈ out
    · rcases descent.expanded b fresh with waiting | all
      · rcases List.mem_cons.mp waiting with rfl | waiting
        · exact .inr fun c child => (collected c).mpr (.inr child)
        · exact .inl (kept b waiting)
      · exact .inr fun c child => (collected c).mpr (.inl (all c child))
    · rw [not_or] at fresh
      have new := member.resolve_left fresh.1
      exact .inl ((pushed b new).resolve_left fresh.2)

theorem Descent.mem_descend {stack out result : List κ} {n : Nat} (descent : Descent children root stack out)
    (done : descend children n stack out = some result) :
    a ∈ result ↔ TransGen (fun a b => a ∈ children b) a root := by
  induction n generalizing stack out with
  | zero => cases done
  | succ n ih =>
    cases stack with
    | nil =>
      cases done
      refine ⟨descent.sound a, fun below => ?_⟩
      have closed (b : κ) (member : b = root ∨ b ∈ result) : ∀ c ∈ children b, c ∈ result :=
        (descent.expanded b member).resolve_left List.not_mem_nil
      clear ih
      induction below using TransGen.head_induction_on with
      | single child => exact closed root (.inl rfl) _ child
      | head child _ member => exact closed _ (.inr member) _ child
    | cons b stack => exact ih descent.next done

end Descent

end Dockgraph.Forest
