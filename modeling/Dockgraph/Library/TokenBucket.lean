import Mathlib.Algebra.Order.Field.Rat
import Mathlib.Data.List.Count
import Mathlib.Tactic.Linarith

/-!
# Token buckets

A bucket holds up to `burst` tokens and gains `limit` of them a second; what is allowed takes one. A
bound on what is allowed in an interval follows from a potential: what may still be allowed at a
time, which every answer pays for.
-/
namespace Dockgraph.TokenBucket

/-! ## Answers in order -/

section Answers

variable {σ ι α : Type} (step : σ → ι → α × σ)

def answers : σ → List ι → List α
  | _, [] => []
  | s, i :: is => (step s i).1 :: answers (step s i).2 is

/-- Where the steps lead. -/
def after (s : σ) (is : List ι) : σ := is.foldl (fun s i => (step s i).2) s

theorem answers_append (s : σ) (is js : List ι) :
    answers step s (is ++ js) = answers step s is ++ answers step (after step s is) js := by
  induction is generalizing s with
  | nil => rfl
  | cons i is ih => simp [answers, after, ih]

/-- What every step keeps and gives holds of all answers. -/
theorem forall_answers (inv : σ → Prop) {P : α → Prop} {is : List ι}
    (keeps : ∀ i ∈ is, ∀ s, inv s → P (step s i).1 ∧ inv (step s i).2) {s : σ} (start : inv s) :
    ∀ a ∈ answers step s is, P a := by
  induction is generalizing s with
  | nil => simp [answers]
  | cons i is ih =>
    obtain ⟨here, next⟩ := keeps i List.mem_cons_self s start
    intro a member
    rcases List.mem_cons.mp member with rfl | member
    · exact here
    · exact ih (fun j later => keeps j (List.mem_cons_of_mem i later)) next a member

/-- Answers marked by `p` pay one each out of `Φ`, answers marked by `q` may bring it back to `burst`. -/
structure Potential (rate burst : ℚ) (time : ι → ℚ) (p q : α → Bool) (Φ : σ → ℚ → ℚ) : Prop where
  nonneg : ∀ s t, 0 ≤ Φ s t
  le_burst : ∀ s t, Φ s t ≤ burst
  grows : ∀ s {t t'}, t ≤ t' → Φ s t' ≤ Φ s t + rate * (t' - t)
  pays : ∀ s i, (if p (step s i).1 then 1 else 0) + Φ (step s i).2 (time i) ≤
    Φ s (time i) + burst * if q (step s i).1 then 1 else 0

variable {step}

/-- The answers of an interval. -/
def within (timeOf : α → ℚ) (start stop : ℚ) (as : List α) : List α :=
  as.filter fun a => start ≤ timeOf a ∧ timeOf a ≤ stop

theorem within_cons_of {timeOf : α → ℚ} {start stop : ℚ} {a : α} (as : List α) (low : start ≤ timeOf a)
    (high : timeOf a ≤ stop) : within timeOf start stop (a :: as) = a :: within timeOf start stop as := by
  simp [within, low, high]

theorem within_cons_of_not {timeOf : α → ℚ} {start stop : ℚ} {a : α} (as : List α)
    (out : timeOf a < start ∨ stop < timeOf a) :
    within timeOf start stop (a :: as) = within timeOf start stop as := by
  rcases out with early | late
  · simp [within, not_le.mpr early]
  · simp [within, not_le.mpr late]

variable {rate burst : ℚ} {time : ι → ℚ} {timeOf : α → ℚ} {p q : α → Bool} {Φ : σ → ℚ → ℚ}

/-- What starts after the interval is not in it. -/
theorem within_late (timed : ∀ s i, timeOf (step s i).1 = time i) {start stop : ℚ} {is : List ι}
    (late : ∀ i ∈ is, stop < time i) (s : σ) : within timeOf start stop (answers step s is) = [] := by
  induction is generalizing s with
  | nil => rfl
  | cons i is ih =>
    rw [answers, within_cons_of_not _ (.inr (timed s i ▸ late i List.mem_cons_self))]
    exact ih (fun j member => late j (List.mem_cons_of_mem i member)) _

/-- From a time in the interval on. -/
theorem Potential.paid (pot : Potential step rate burst time p q Φ)
    (timed : ∀ s i, timeOf (step s i).1 = time i) (rate_nonneg : 0 ≤ rate) {start stop : ℚ} {is : List ι}
    (sorted : is.Pairwise fun i j => time i ≤ time j) {t : ℚ} (low : start ≤ t) (high : t ≤ stop)
    (later : ∀ i ∈ is, t ≤ time i) (s : σ) :
    ((within timeOf start stop (answers step s is)).countP p : ℚ) ≤
      Φ s t + rate * (stop - t) + burst * (within timeOf start stop (answers step s is)).countP q := by
  induction is generalizing s t with
  | nil =>
    have left : 0 ≤ rate * (stop - t) := mul_nonneg rate_nonneg (sub_nonneg.mpr high)
    have held := pot.nonneg s t
    simpa [answers, within] using add_nonneg held left
  | cons i is ih =>
    obtain ⟨first, rest⟩ := List.pairwise_cons.mp sorted
    have from_t : t ≤ time i := later i List.mem_cons_self
    rcases le_or_gt (time i) stop with inside | late
    · have onward := ih rest (low.trans from_t) inside first (step s i).2
      have paid := pot.pays s i
      have grown := pot.grows s from_t
      rw [answers, within_cons_of _ (by rw [timed]; exact low.trans from_t) (by rw [timed]; exact inside),
        List.countP_cons, List.countP_cons]
      push_cast
      linarith
    · have none : within timeOf start stop (answers step s (i :: is)) = [] :=
        within_late timed (fun j member => by
          rcases List.mem_cons.mp member with rfl | member
          · exact late
          · exact late.trans_le (first j member)) s
      have left : 0 ≤ rate * (stop - t) := mul_nonneg rate_nonneg (sub_nonneg.mpr high)
      have held := pot.nonneg s t
      simpa [none] using add_nonneg held left

/-- In an interval at most a burst is paid, a burst for each answer that brings one, and the rate. -/
theorem Potential.within_le (pot : Potential step rate burst time p q Φ)
    (timed : ∀ s i, timeOf (step s i).1 = time i) (rate_nonneg : 0 ≤ rate) {is : List ι}
    (sorted : is.Pairwise fun i j => time i ≤ time j) (start : ℚ) {T : ℚ} (span : 0 ≤ T) (s : σ) :
    ((within timeOf start (start + T) (answers step s is)).countP p : ℚ) ≤
      burst * (1 + (within timeOf start (start + T) (answers step s is)).countP q) + rate * T := by
  induction is generalizing s with
  | nil =>
    have burst_nonneg : 0 ≤ burst := (pot.nonneg s 0).trans (pot.le_burst s 0)
    simpa [answers, within] using add_nonneg burst_nonneg (mul_nonneg rate_nonneg span)
  | cons i is ih =>
    rcases lt_or_ge (time i) start with early | inside
    · rw [answers, within_cons_of_not _ (.inl (by rw [timed]; exact early))]
      exact ih (List.pairwise_cons.mp sorted).2 _
    · have later : ∀ j ∈ i :: is, start ≤ time j := by
        intro j member
        rcases List.mem_cons.mp member with rfl | member
        · exact inside
        · exact inside.trans ((List.pairwise_cons.mp sorted).1 j member)
      have paid := pot.paid timed rate_nonneg sorted le_rfl (by linarith : start ≤ start + T) later s
      have held := pot.le_burst s start
      linarith

end Answers

/-! ## Buckets -/

/-- A bucket of tokens. -/
structure Limiter (limit : ℚ) (burst : Nat) where
  tokens : ℚ
  /-- When tokens were last taken; a new bucket is full. -/
  last : Option ℚ
  tokens_nonneg : 0 ≤ tokens
  tokens_le : tokens ≤ burst

namespace Limiter

variable {limit : ℚ} {burst : Nat}

def newLimiter (limit : ℚ) (burst : Nat) : Limiter limit burst where
  tokens := burst
  last := none
  tokens_nonneg := Nat.cast_nonneg burst
  tokens_le := le_rfl

def elapsed (l : Limiter limit burst) (now : ℚ) : ℚ :=
  match l.last with
  | none => 0
  | some t => max 0 (now - t)

/-- The tokens there are at a time. -/
def available (l : Limiter limit burst) (now : ℚ) : ℚ := min burst (l.tokens + limit * l.elapsed now)

theorem available_le (l : Limiter limit burst) (now : ℚ) : l.available now ≤ burst := min_le_left _ _

def allow (l : Limiter limit burst) (now : ℚ) : Bool × Limiter limit burst :=
  if enough : 1 ≤ l.available now then
    (true, {
      tokens := l.available now - 1
      last := some now
      tokens_nonneg := sub_nonneg.mpr enough
      tokens_le := (sub_le_self _ zero_le_one).trans (l.available_le now) })
  else (false, l)

@[simp] theorem available_new (now : ℚ) : (newLimiter limit burst).available now = burst := by
  simp [available, elapsed, newLimiter]

theorem elapsed_nonneg (l : Limiter limit burst) (now : ℚ) : 0 ≤ l.elapsed now := by
  unfold elapsed
  split
  · exact le_rfl
  · exact le_max_left _ _

theorem available_nonneg (nonneg : 0 ≤ limit) (l : Limiter limit burst) (now : ℚ) : 0 ≤ l.available now :=
  le_min (Nat.cast_nonneg burst) (add_nonneg l.tokens_nonneg (mul_nonneg nonneg (l.elapsed_nonneg now)))

theorem elapsed_grows (l : Limiter limit burst) {t t' : ℚ} (le : t ≤ t') :
    l.elapsed t' ≤ l.elapsed t + (t' - t) := by
  unfold elapsed
  split
  · linarith
  next last _ =>
    have none := le_max_left 0 (t - last)
    have some := le_max_right 0 (t - last)
    apply max_le <;> linarith

theorem available_grows (nonneg : 0 ≤ limit) (l : Limiter limit burst) {t t' : ℚ} (le : t ≤ t') :
    l.available t' ≤ l.available t + limit * (t' - t) := by
  have gain : limit * l.elapsed t' ≤ limit * (l.elapsed t + (t' - t)) :=
    mul_le_mul_of_nonneg_left (l.elapsed_grows le) nonneg
  have more : 0 ≤ limit * (t' - t) := mul_nonneg nonneg (sub_nonneg.mpr le)
  have full : l.available t' ≤ burst := min_le_left _ _
  have held : l.available t' ≤ l.tokens + limit * l.elapsed t' := min_le_right _ _
  calc l.available t'
      ≤ min (burst + limit * (t' - t)) (l.tokens + limit * l.elapsed t + limit * (t' - t)) :=
        le_min (by linarith) (by linarith)
    _ = l.available t + limit * (t' - t) := min_add_add_right _ _ _

theorem allow_fst (l : Limiter limit burst) (now : ℚ) : (l.allow now).1 = decide (1 ≤ l.available now) := by
  unfold allow
  split <;> simp_all

theorem available_last {l : Limiter limit burst} {now : ℚ} (taken : l.last = some now) :
    l.available now = l.tokens := by
  simp [available, elapsed, taken, l.tokens_le]

/-- What is allowed takes a token. -/
theorem allow_pays (l : Limiter limit burst) (now : ℚ) :
    (if (l.allow now).1 then 1 else 0) + (l.allow now).2.available now = l.available now := by
  unfold allow
  split
  · simp [available_last]
  · simp

end Limiter

end Dockgraph.TokenBucket
