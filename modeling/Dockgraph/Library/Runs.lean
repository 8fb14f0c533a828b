import Mathlib.Data.List.Induction
import Mathlib.Data.List.Nodup

/-!
# Runs

A loop cuts a list into runs of elements with one key, and opens a run whenever the key is not that of
the last run. Where equal keys stand together, every key has one run.
-/
namespace Dockgraph.Runs

variable {α σ τ κ : Type}

structure Run (σ τ : Type) where
  head : σ
  items : List τ
  deriving DecidableEq

variable [DecidableEq κ] (head : α → σ) (item : α → τ) (key : σ → κ)

/-- One pass of the loop. -/
def push (out : List (Run σ τ)) (x : α) : List (Run σ τ) :=
  match out.getLast? with
  | some last =>
    if key last.head = key (head x) then out.dropLast ++ [{ last with items := last.items ++ [item x] }]
    else out ++ [{ head := head x, items := [item x] }]
  | none => out ++ [{ head := head x, items := [item x] }]

def runs (xs : List α) : List (Run σ τ) := xs.foldl (push head item key) []

/-- An element joins the last run or opens one. -/
theorem push_cases (out : List (Run σ τ)) (x : α) :
    (∃ before last, out = before ++ [last] ∧ key last.head = key (head x) ∧
      push head item key out x = before ++ [{ last with items := last.items ++ [item x] }]) ∨
    ((∀ before last, out = before ++ [last] → key last.head ≠ key (head x)) ∧
      push head item key out x = out ++ [{ head := head x, items := [item x] }]) := by
  rcases List.eq_nil_or_concat out with rfl | ⟨before, last, rfl⟩
  · refine .inr ⟨fun before last split => ?_, rfl⟩
    simp at split
  · rw [List.concat_eq_append]
    by_cases same : key last.head = key (head x)
    · exact .inl ⟨before, last, rfl, same, by simp [push, same]⟩
    · refine .inr ⟨fun before' last' split => ?_, by simp [push, same]⟩
      obtain ⟨-, rfl⟩ := List.append_inj' split rfl |>.imp_right List.singleton_inj.mp
      exact same

theorem runs_concat (xs : List α) (x : α) :
    runs head item key (xs ++ [x]) = push head item key (runs head item key xs) x := List.foldl_concat ..

variable {head item key} {xs : List α} {x : α}

/-- The runs hold the elements in order, each under its key. -/
theorem flatMap_runs : ((runs head item key xs).flatMap fun r => r.items.map fun i => (key r.head, i)) =
    xs.map fun x => (key (head x), item x) := by
  -- by the elements gone through
  induction xs using List.reverseRecOn with
  | nil => rfl
  | append_singleton xs x ih =>
    rw [runs_concat, List.map_append, ← ih]
    rcases push_cases head item key (runs head item key xs) x with ⟨before, last, whole, same, pushed⟩ | ⟨-, pushed⟩
    · rw [pushed, whole]
      simp [same]
    · rw [pushed]
      simp

theorem exists_head {r : Run σ τ} (member : r ∈ runs head item key xs) : ∃ x ∈ xs, head x = r.head := by
  induction xs using List.reverseRecOn generalizing r with
  | nil => cases member
  | append_singleton xs x ih =>
    rw [runs_concat] at member
    rcases push_cases head item key (runs head item key xs) x with ⟨before, last, whole, same, pushed⟩ | ⟨-, pushed⟩
    · rw [pushed, List.mem_append, List.mem_singleton] at member
      rcases member with earlier | rfl
      · obtain ⟨y, listed, same⟩ := ih (r := r) (by rw [whole]; exact List.mem_append_left _ earlier)
        exact ⟨y, List.mem_append_left _ listed, same⟩
      · obtain ⟨y, listed, same⟩ := ih (r := last) (by rw [whole]; simp)
        exact ⟨y, List.mem_append_left _ listed, same⟩
    · rw [pushed, List.mem_append, List.mem_singleton] at member
      rcases member with earlier | rfl
      · obtain ⟨y, listed, same⟩ := ih earlier
        exact ⟨y, List.mem_append_left _ listed, same⟩
      · exact ⟨x, by simp, rfl⟩

/-- A run is opened by an element. -/
theorem items_ne_nil {r : Run σ τ} (member : r ∈ runs head item key xs) : r.items ≠ [] := by
  induction xs using List.reverseRecOn generalizing r with
  | nil => cases member
  | append_singleton xs x ih =>
    rw [runs_concat] at member
    rcases push_cases head item key (runs head item key xs) x with ⟨before, last, whole, -, pushed⟩ | ⟨-, pushed⟩
    · rw [pushed, List.mem_append, List.mem_singleton] at member
      rcases member with earlier | rfl
      · exact ih (by rw [whole]; exact List.mem_append_left _ earlier)
      · exact List.append_ne_nil_of_right_ne_nil _ (List.cons_ne_nil _ _)
    · rw [pushed, List.mem_append, List.mem_singleton] at member
      rcases member with earlier | rfl
      · exact ih earlier
      · exact List.cons_ne_nil _ _

/-- The last run is of the last element's key. -/
theorem getLast_runs {before : List (Run σ τ)} {last : Run σ τ}
    (whole : runs head item key (xs ++ [x]) = before ++ [last]) : key last.head = key (head x) := by
  rw [runs_concat] at whole
  rcases push_cases head item key (runs head item key xs) x with ⟨_, l, -, same, pushed⟩ | ⟨-, pushed⟩
  · rw [pushed] at whole
    obtain ⟨-, rfl⟩ := List.append_inj' whole rfl |>.imp_right List.singleton_inj.mp
    exact same
  · rw [pushed] at whole
    obtain ⟨-, rfl⟩ := List.append_inj' whole rfl |>.imp_right List.singleton_inj.mp
    rfl

/-- Each key has one run, when a relation along the list lets only equal keys stand between equals. -/
theorem nodup_runs {r : α → α → Prop} (sorted : xs.Pairwise r)
    (between : ∀ a ∈ xs, ∀ b ∈ xs, ∀ c ∈ xs, r a b → r b c → key (head a) = key (head c) →
      key (head b) = key (head c)) :
    ((runs head item key xs).map fun r => key r.head).Nodup := by
  -- by the elements gone through
  induction xs using List.reverseRecOn with
  | nil => exact List.nodup_nil
  | append_singleton xs x ih =>
    obtain ⟨front, -, ends⟩ := List.pairwise_append.mp sorted
    have inside {a : α} (listed : a ∈ xs) : a ∈ xs ++ [x] := List.mem_append_left _ listed
    have distinct := ih front fun a ha b hb c hc => between a (inside ha) b (inside hb) c (inside hc)
    rw [runs_concat]
    rcases push_cases head item key (runs head item key xs) x with ⟨before, last, whole, same, pushed⟩ | ⟨opens, pushed⟩
    · rw [whole] at distinct
      rw [pushed]
      simpa using distinct
    · rw [pushed, List.map_append, List.nodup_append]
      refine ⟨distinct, List.nodup_singleton _, fun k old l new same => ?_⟩
      obtain ⟨run, listed, rfl⟩ := List.mem_map.mp old
      obtain rfl := List.mem_singleton.mp new
      obtain ⟨a, ha, first⟩ := exists_head listed
      obtain ⟨ys, b, rfl⟩ := (List.eq_nil_or_concat xs).resolve_left (List.ne_nil_of_mem ha)
      rw [List.concat_eq_append] at *
      -- the last element stands between the two, so its run is of their key
      obtain ⟨runsBefore, last, whole⟩ := (List.eq_nil_or_concat _).resolve_left (List.ne_nil_of_mem listed)
      rw [List.concat_eq_append] at whole
      have lastKey := getLast_runs whole
      refine opens runsBefore last whole (lastKey.trans ?_)
      rcases List.mem_append.mp ha with earlier | latest
      · have ab : r a b := (List.pairwise_append.mp front).2.2 a earlier b List.mem_cons_self
        have bx : r b x := ends b (by simp) x List.mem_cons_self
        exact between a (inside ha) b (by simp) x (by simp) ab bx (by rw [first]; exact same)
      · rw [List.mem_singleton] at latest
        rw [← latest, first]
        exact same

end Dockgraph.Runs
