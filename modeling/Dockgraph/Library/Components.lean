import Mathlib.Algebra.GroupWithZero.Nat
import Mathlib.Algebra.Order.BigOperators.Group.List
import Mathlib.Algebra.Order.Group.Nat
import Mathlib.Data.List.Induction
import Mathlib.Data.List.Nodup
import Mathlib.Data.List.Pairwise
import Mathlib.Logic.Relation

/-!
# Connected components

A search takes elements from a stack, marks those that are not marked yet and pushes their neighbours.
Started at each element that is not marked, it finds the components of the neighbourhood one by one.
-/
namespace Dockgraph.Components

open Relation

universe u

variable {κ : Type u} [DecidableEq κ] (neighbors : κ → List κ)

/-- The search: what is marked, and the component found so far. Without steps left there is no result. -/
def collect : Nat → List κ → List κ → List κ → Option (List κ × List κ)
  | 0, _, _, _ => none
  | _ + 1, [], visited, component => some (visited, component)
  | n + 1, cur :: stack, visited, component =>
    if cur ∈ visited then collect n stack visited component
    else
      let fresh := (neighbors cur).filter fun a => a ∉ visited ++ [cur]
      collect n (fresh.reverse ++ stack) (visited ++ [cur]) (component ++ [cur])

/-- The components that are found from an element on, if it is in none yet. -/
def search (fuel : Nat) (s : List κ × List (List κ)) (id : κ) : Option (List κ × List (List κ)) :=
  if id ∈ s.1 then some s else (collect neighbors fuel [id] s.1 []).map fun r => (r.1, s.2 ++ [r.2])

def components (fuel : Nat) (ids : List κ) : Option (List (List κ)) :=
  (ids.foldlM (search neighbors fuel) ([], [])).map Prod.snd

/-- The second is a neighbour of the first. -/
def Next (a b : κ) : Prop := b ∈ neighbors a

/-- Neighbours among the elements, each of which is a neighbour of its neighbours. -/
structure Symmetric (all : List κ) : Prop where
  inside : ∀ a ∈ all, ∀ b ∈ neighbors a, b ∈ all
  back : ∀ a b, b ∈ neighbors a → a ∈ neighbors b

variable {neighbors} {all stack visited component : List κ} {a b root : κ} {n : Nat}

/-! ## The search ends -/

/-- The neighbours of all that is not marked. -/
def pending (neighbors : κ → List κ) (all visited : List κ) : Nat :=
  (all.map fun a => if a ∈ visited then 0 else (neighbors a).length).sum

theorem pending_le : pending neighbors all visited ≤ (all.map fun a => (neighbors a).length).sum := by
  refine List.sum_le_sum fun b _ => ?_
  split
  · exact Nat.zero_le _
  · exact Nat.le_refl _

theorem pending_le_concat : pending neighbors all (visited ++ [a]) ≤ pending neighbors all visited := by
  refine List.sum_le_sum fun b _ => ?_
  by_cases held : b ∈ visited
  · simp [held]
  · rw [if_neg held]
    split
    · exact Nat.zero_le _
    · exact Nat.le_refl _

/-- Marking an element takes its neighbours off. -/
theorem pending_concat (member : a ∈ all) (fresh : a ∉ visited) :
    (neighbors a).length + pending neighbors all (visited ++ [a]) ≤ pending neighbors all visited := by
  induction all with
  | nil => cases member
  | cons b all ih =>
    unfold pending at ih ⊢
    rw [List.map_cons, List.map_cons, List.sum_cons, List.sum_cons]
    by_cases same : b = a
    · subst same
      have rest : pending neighbors all (visited ++ [b]) ≤ pending neighbors all visited := pending_le_concat
      unfold pending at rest
      rw [if_pos (by simp), if_neg fresh]
      omega
    · have later := ih ((List.mem_cons.mp member).resolve_left fun eq => same eq.symm)
      have unmarked : b ∈ visited ++ [a] ↔ b ∈ visited := by simp [same]
      simp only [unmarked]
      omega

theorem collect_ends (inside : ∀ a ∈ all, ∀ b ∈ neighbors a, b ∈ all) (stacked : ∀ a ∈ stack, a ∈ all)
    (enough : stack.length + pending neighbors all visited < n) :
    ∃ result, collect neighbors n stack visited component = some result := by
  induction n generalizing stack visited component with
  | zero => exact absurd enough (Nat.not_lt_zero _)
  | succ n ih =>
    cases stack with
    | nil => exact ⟨_, rfl⟩
    | cons cur stack =>
      rw [List.forall_mem_cons] at stacked
      rw [List.length_cons] at enough
      rw [collect]
      split
      next => exact ih stacked.2 (by omega)
      next fresh =>
        have fewer : (neighbors cur).length + pending neighbors all (visited ++ [cur]) ≤ pending neighbors all visited :=
          pending_concat stacked.1 fresh
        have pushed : ((neighbors cur).filter fun a => a ∉ visited ++ [cur]).length ≤ (neighbors cur).length :=
          List.length_filter_le _ _
        refine ih (fun a listed => ?_) ?_
        · rcases List.mem_append.mp listed with new | old
          · exact inside cur stacked.1 a (List.mem_filter.mp (List.mem_reverse.mp new)).1
          · exact stacked.2 a old
        · rw [List.length_append, List.length_reverse]
          omega

/-! ## What a search finds -/

/-- A search from a root: what it found is linked to the root, and neighbours of it are marked or on the stack. -/
structure Searching (neighbors : κ → List κ) (root : κ) (before stack component : List κ) : Prop where
  sound : ∀ a ∈ component, ReflTransGen (Next neighbors) root a
  stacked : ∀ a ∈ stack, ReflTransGen (Next neighbors) root a
  started : root ∈ stack ∨ root ∈ before ++ component
  expanded : ∀ a ∈ component, ∀ b ∈ neighbors a, b ∈ before ++ component ∨ b ∈ stack
  distinct : (before ++ component).Nodup

variable {before : List κ}

omit [DecidableEq κ] in
theorem Searching.start (distinct : before.Nodup) : Searching neighbors root before [root] [] where
  sound := by simp
  stacked := by
    intro a member
    rw [List.mem_singleton.mp member]
  started := .inl List.mem_cons_self
  expanded := by simp
  distinct := by simpa using distinct

omit [DecidableEq κ] in
/-- What is marked is taken off the stack. -/
theorem Searching.skip (searching : Searching neighbors root before (a :: stack) component)
    (held : a ∈ before ++ component) : Searching neighbors root before stack component where
  sound := searching.sound
  stacked b member := searching.stacked b (List.mem_cons_of_mem a member)
  started := by
    rcases searching.started with first | marked
    · rcases List.mem_cons.mp first with rfl | first
      · exact .inr held
      · exact .inl first
    · exact .inr marked
  expanded := by
    intro b found c next
    rcases searching.expanded b found c next with marked | waiting
    · exact .inl marked
    · rcases List.mem_cons.mp waiting with rfl | waiting
      · exact .inl held
      · exact .inr waiting
  distinct := searching.distinct

theorem Searching.visit (searching : Searching neighbors root before (a :: stack) component)
    (fresh : a ∉ before ++ component) :
    Searching neighbors root before
      (((neighbors a).filter fun b => b ∉ before ++ component ++ [a]).reverse ++ stack) (component ++ [a]) := by
  have linked := searching.stacked a List.mem_cons_self
  have here : a ∈ before ++ (component ++ [a]) := by simp
  have kept {b : κ} (marked : b ∈ before ++ component) : b ∈ before ++ (component ++ [a]) := by
    rw [← List.append_assoc]
    exact List.mem_append_left _ marked
  refine ⟨fun b found => ?_, fun b waiting => ?_, ?_, fun b found c next => ?_, ?_⟩
  · rcases List.mem_append.mp found with old | new
    · exact searching.sound b old
    · rw [List.mem_singleton.mp new]
      exact linked
  · rcases List.mem_append.mp waiting with new | old
    · exact linked.tail (List.mem_filter.mp (List.mem_reverse.mp new)).1
    · exact searching.stacked b (List.mem_cons_of_mem a old)
  · rcases searching.started with first | marked
    · rcases List.mem_cons.mp first with rfl | first
      · exact .inr here
      · exact .inl (List.mem_append_right _ first)
    · exact .inr (kept marked)
  · rcases List.mem_append.mp found with old | new
    · rcases searching.expanded b old c next with marked | waiting
      · exact .inl (kept marked)
      · rcases List.mem_cons.mp waiting with rfl | waiting
        · exact .inl here
        · exact .inr (List.mem_append_right _ waiting)
    · rw [List.mem_singleton.mp new] at next
      by_cases marked : c ∈ before ++ (component ++ [a])
      · exact .inl marked
      · refine .inr (List.mem_append_left _ (List.mem_reverse.mpr (List.mem_filter.mpr ⟨next, ?_⟩)))
        rwa [decide_eq_true_eq, List.append_assoc]
  · rw [← List.append_assoc, List.nodup_append]
    refine ⟨searching.distinct, List.nodup_singleton a, fun b marked c only => ?_⟩
    rw [List.mem_singleton.mp only]
    rintro rfl
    exact fresh marked

omit [DecidableEq κ] in
/-- A component that is done: no links lead out of it. -/
theorem Searching.finish (searching : Searching neighbors root before [] component)
    (back : ∀ a b, b ∈ neighbors a → a ∈ neighbors b) (closed : ∀ a ∈ before, ∀ b ∈ neighbors a, b ∈ before)
    (outside : root ∉ before) : a ∈ component ↔ ReflTransGen (Next neighbors) root a := by
  refine ⟨searching.sound a, fun linked => ?_⟩
  have rooted : root ∈ component :=
    ((List.mem_append.mp (searching.started.resolve_left List.not_mem_nil)).resolve_left outside)
  induction linked with
  | refl => exact rooted
  | tail _ next found =>
    rcases List.mem_append.mp ((searching.expanded _ found _ next).resolve_right List.not_mem_nil) with old | new
    · -- a link back would have been followed before
      have both := closed _ old _ (back _ _ next)
      exact absurd found (List.disjoint_of_nodup_append searching.distinct both)
    · exact new

theorem collect_spec {result : List κ × List κ} (searching : Searching neighbors root before stack component)
    (done : collect neighbors n stack (before ++ component) component = some result) :
    result.1 = before ++ result.2 ∧ Searching neighbors root before [] result.2 := by
  induction n generalizing stack component with
  | zero => cases done
  | succ n ih =>
    cases stack with
    | nil =>
      cases done
      exact ⟨rfl, searching⟩
    | cons cur stack =>
      rw [collect] at done
      split at done
      next held => exact ih (searching.skip held) done
      next fresh =>
        refine ih (searching.visit fresh) ?_
        rw [← List.append_assoc]
        exact done

/-! ## All components -/

section Blocks

variable {found : List (List κ)}

omit [DecidableEq κ] in
/-- Of two blocks without common elements, one element tells which is which. -/
theorem disjoint_of_flatten (distinct : found.flatten.Nodup) {c d : List κ} (first : c ∈ found) (second : d ∈ found)
    (differs : c ≠ d) : c.Disjoint d := by
  have symmetric : Std.Symm (List.Disjoint (α := κ)) := ⟨fun _ _ apart _ first second => apart second first⟩
  exact (List.nodup_flatten.mp distinct).2.forall first second differs

omit [DecidableEq κ] in
theorem nodup_of_flatten (distinct : found.flatten.Nodup) (nonempty : ∀ c ∈ found, c ≠ []) : found.Nodup := by
  refine (List.nodup_flatten.mp distinct).2.imp_of_mem fun {c d} first _ apart same => ?_
  obtain ⟨a, member⟩ := List.exists_mem_of_ne_nil c (nonempty c first)
  exact apart member (same ▸ member)

/-- The first block with an element is the only one. -/
theorem find?_block_eq_some (distinct : found.flatten.Nodup) {c : List κ} (held : c ∈ found) :
    found.find? (fun d => a ∈ d) = some c ↔ a ∈ c := by
  constructor
  · intro first
    simpa using List.find?_some first
  · intro member
    cases first : found.find? (fun d => a ∈ d) with
    | none => exact absurd member (by simpa using List.find?_eq_none.mp first c held)
    | some d =>
      have there : a ∈ d := by simpa using List.find?_some first
      by_contra differs
      rw [Option.some.injEq] at differs
      exact disjoint_of_flatten distinct (List.mem_of_find?_eq_some first) held differs there member

end Blocks

/-- A partition of the elements by whether they are linked. -/
structure Partition (neighbors : κ → List κ) (all : List κ) (found : List (List κ)) : Prop where
  perm : found.flatten.Perm all
  nonempty : ∀ c ∈ found, c ≠ []
  linked : ∀ c ∈ found, ∀ a ∈ c, ∀ b, b ∈ c ↔ ReflTransGen (Next neighbors) a b

/-- What the loop has found when it has come past some elements. -/
structure Found (neighbors : κ → List κ) (all seen : List κ) (s : List κ × List (List κ)) : Prop where
  marked : s.1 = s.2.flatten
  distinct : s.1.Nodup
  inside : ∀ a ∈ s.1, a ∈ all
  closed : ∀ a ∈ s.1, ∀ b ∈ neighbors a, b ∈ s.1
  covers : ∀ a ∈ seen, a ∈ s.1
  nonempty : ∀ c ∈ s.2, c ≠ []
  linked : ∀ c ∈ s.2, ∀ a ∈ c, ∀ b, b ∈ c ↔ ReflTransGen (Next neighbors) a b

variable {seen : List κ} {s : List κ × List (List κ)}

omit [DecidableEq κ] in
/-- The component of one more element. -/
theorem Found.append (symmetric : Symmetric neighbors all) (found : Found neighbors all seen s) (member : a ∈ all)
    {component : List κ} (distinct : (s.1 ++ component).Nodup)
    (reached : ∀ b, b ∈ component ↔ ReflTransGen (Next neighbors) a b) :
    Found neighbors all (seen ++ [a]) (s.1 ++ component, s.2 ++ [component]) where
  marked := by
    dsimp only
    rw [List.flatten_append, List.flatten_singleton, found.marked]
  distinct := distinct
  inside := by
    have within (b : κ) (linked : ReflTransGen (Next neighbors) a b) : b ∈ all := by
      induction linked with
      | refl => exact member
      | tail _ next listed => exact symmetric.inside _ listed _ next
    intro b listed
    rcases List.mem_append.mp listed with old | new
    · exact found.inside b old
    · exact within b ((reached b).mp new)
  closed := by
    intro b listed c next
    rcases List.mem_append.mp listed with old | new
    · exact List.mem_append_left _ (found.closed b old c next)
    · exact List.mem_append_right _ ((reached c).mpr (((reached b).mp new).tail next))
  covers := by
    intro b listed
    rcases List.mem_append.mp listed with old | new
    · exact List.mem_append_left _ (found.covers b old)
    · rw [List.mem_singleton.mp new]
      exact List.mem_append_right _ ((reached a).mpr .refl)
  nonempty := by
    intro c listed
    rcases List.mem_append.mp listed with old | new
    · exact found.nonempty c old
    · rw [List.mem_singleton.mp new]
      exact List.ne_nil_of_mem ((reached a).mpr .refl)
  linked := by
    have links : Std.Symm (Next neighbors) := ⟨symmetric.back⟩
    intro c listed b first d
    rcases List.mem_append.mp listed with old | new
    · exact found.linked c old b first d
    · rw [List.mem_singleton.mp new] at first ⊢
      rw [reached] at first ⊢
      exact ⟨fun linked => (symm first).trans linked, fun linked => first.trans linked⟩

/-- One pass: the element is in a component already, or its component is found. -/
theorem Found.next (symmetric : Symmetric neighbors all) (found : Found neighbors all seen s) (member : a ∈ all)
    (enough : 1 + (all.map fun a => (neighbors a).length).sum < n) :
    ∃ t, search neighbors n s a = some t ∧ Found neighbors all (seen ++ [a]) t := by
  unfold search
  by_cases held : a ∈ s.1
  · refine ⟨s, if_pos held, { found with covers := fun b listed => ?_ }⟩
    rcases List.mem_append.mp listed with old | new
    · exact found.covers b old
    · rw [List.mem_singleton.mp new]
      exact held
  · have few : [a].length + pending neighbors all s.1 < n := by
      have most : pending neighbors all s.1 ≤ (all.map fun a => (neighbors a).length).sum := pending_le
      rw [List.length_singleton]
      omega
    obtain ⟨⟨visited, component⟩, done⟩ : ∃ result, collect neighbors n [a] s.1 [] = some result :=
      collect_ends symmetric.inside (by simpa using member) few
    have start : Searching neighbors a s.1 [a] [] := Searching.start found.distinct
    obtain ⟨marked, searching⟩ := collect_spec start (by rwa [List.append_nil])
    obtain rfl : visited = s.1 ++ component := marked
    refine ⟨_, by rw [if_neg held, done]; rfl, found.append symmetric member searching.distinct fun b => ?_⟩
    exact searching.finish symmetric.back found.closed held

theorem Found.loop {ids : List κ} (symmetric : Symmetric neighbors all) (found : Found neighbors all seen s)
    (listed : ∀ a ∈ ids, a ∈ all) (enough : 1 + (all.map fun a => (neighbors a).length).sum < n) :
    ∃ t, ids.foldlM (search neighbors n) s = some t ∧ Found neighbors all (seen ++ ids) t := by
  induction ids generalizing seen s with
  | nil =>
    rw [List.append_nil]
    exact ⟨s, rfl, found⟩
  | cons a ids ih =>
    rw [List.forall_mem_cons] at listed
    obtain ⟨t, first, after⟩ := found.next symmetric listed.1 enough
    obtain ⟨u, rest, done⟩ := ih after listed.2
    refine ⟨u, ?_, by rwa [List.append_assoc] at done⟩
    rw [List.foldlM_cons, first]
    exact rest

/-- With enough steps all components are found. -/
theorem components_spec (symmetric : Symmetric neighbors all) (distinct : all.Nodup)
    (enough : 1 + (all.map fun a => (neighbors a).length).sum < n) :
    ∃ found, components neighbors n all = some found ∧ Partition neighbors all found := by
  have start : Found neighbors all [] ([], []) := by
    constructor <;> simp
  obtain ⟨t, done, found⟩ := start.loop symmetric (fun a listed => listed) enough
  refine ⟨t.2, by rw [components, done]; rfl, ?_, found.nonempty, found.linked⟩
  rw [← found.marked]
  exact (List.perm_ext_iff_of_nodup found.distinct distinct).mpr fun a => ⟨found.inside a, found.covers a⟩

end Dockgraph.Components
