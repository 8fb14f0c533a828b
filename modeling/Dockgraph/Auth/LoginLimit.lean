import Dockgraph.Auth.RateLimiter
import Dockgraph.Library.Transition
import Mathlib.Data.Finset.Card

/-!
# How many logins are checked

The times in a client's bucket stand for its attempts that were not withdrawn: after any instant
still in the window there are at least as many. So a bucket below the limit means few attempts,
unless a withdrawal takes the time of an attempt made after its own.
-/
namespace Dockgraph.Auth

open Transition

/-! ## The limiter -/

/-- How many of the times are after this one. -/
def after (c : Int) (times : List Int) : Nat := times.countP fun t => c < t

namespace RateLimiter

variable {rl : RateLimiter} {key k : String} {now cutoff c : Int}

def timesOf (rl : RateLimiter) (key : String) : List Int := ((rl.bucket key).map Bucket.times).getD []

/-- What the limiter keeps up. -/
structure Kept (rl : RateLimiter) (clients : Finset String) : Prop where
  unique : (rl.order.map Bucket.key).Nodup
  known : ∀ b ∈ rl.order, b.key ∈ clients
  seen : ∀ b ∈ rl.order, ∀ t ∈ b.times, t ≤ b.lastSeen

theorem bucket_key {b : Bucket} (found : rl.bucket key = some b) : b.key = key :=
  of_decide_eq_true (List.find?_some (p := fun c : Bucket => decide (c.key = key)) found)

theorem bucket_mem {b : Bucket} (found : rl.bucket key = some b) : b ∈ rl.order :=
  List.mem_of_find?_eq_some found

theorem kept_of_sublist {clients : Finset String} {order : List Bucket} (kept : rl.Kept clients)
    (part : order.Sublist rl.order) : ({ rl with order } : RateLimiter).Kept clients where
  unique := kept.unique.sublist (part.map _)
  known b member := kept.known b (part.subset member)
  seen b member := kept.seen b (part.subset member)

theorem kept_removeStale {clients : Finset String} (kept : rl.Kept clients) (cutoff : Int) :
    (rl.removeStale cutoff).Kept clients :=
  kept_of_sublist kept (List.rdropWhile_prefix _ _).sublist

/-- A client that is dropped has no attempt left in the window. -/
theorem after_removeStale {clients : Finset String} (kept : rl.Kept clients) (recent : cutoff ≤ c)
    (key : String) :
    after c (rl.timesOf key) ≤ after c ((rl.removeStale cutoff).timesOf key) := by
  let dropped := rl.order.rtakeWhile fun b => b.lastSeen ≤ cutoff
  have stale : ∀ b ∈ dropped, b.lastSeen ≤ cutoff := fun b member =>
    of_decide_eq_true (List.mem_rtakeWhile_imp (p := fun b : Bucket => decide (b.lastSeen ≤ cutoff)) member)
  have parts : (rl.removeStale cutoff).order ++ dropped = rl.order := by
    change (List.dropWhile _ _).reverse ++ (List.takeWhile _ _).reverse = _
    rw [← List.reverse_append, List.takeWhile_append_dropWhile, List.reverse_reverse]
  have found : rl.bucket key = ((rl.removeStale cutoff).bucket key).or
      (dropped.find? fun b => b.key = key) := by
    conv_lhs => rw [bucket, ← parts, List.find?_append]
    rfl
  unfold timesOf
  rw [found]
  cases (rl.removeStale cutoff).bucket key with
  | some b => exact le_refl _
  | none =>
    rw [Option.none_or]
    cases gone : dropped.find? (fun b => b.key = key) with
    | none => exact le_refl _
    | some b =>
      have old := stale b (List.mem_of_find?_eq_some gone)
      have member : b ∈ rl.order := by
        rw [← parts]
        exact List.mem_append_right _ (List.mem_of_find?_eq_some gone)
      have none : after c b.times = 0 := by
        refine List.countP_eq_zero.mpr fun t held late => ?_
        have := kept.seen b member t held
        have := of_decide_eq_true late
        omega
      exact none.le.trans (Nat.zero_le _)

theorem others_sublist (rl : RateLimiter) (key : String) : (rl.others key).Sublist rl.order :=
  List.filter_sublist

theorem find?_others (rl : RateLimiter) (other : k ≠ key) :
    (rl.others key).find? (fun b => b.key = k) = rl.bucket k := by
  rw [others, List.find?_filter, bucket]
  congr 1
  funext b
  by_cases here : b.key = k
  · simp [here, other]
  · simp [here]

/-- With room for the client, no other client's bucket is taken. -/
theorem touch_eq (room : rl.bucket key = none → rl.order.length < rl.maxKeys) :
    (rl.touch key now).1.key = key ∧ (rl.touch key now).1.times = rl.timesOf key ∧
      (rl.touch key now).1.lastSeen = now ∧ (rl.touch key now).2 = rl.others key := by
  unfold touch timesOf
  cases found : rl.bucket key with
  | some b =>
    have named : b.key = key := bucket_key found
    exact ⟨named, rfl, rfl, rfl⟩
  | none =>
    refine ⟨rfl, rfl, rfl, ?_⟩
    dsimp only
    -- there is room, so the bucket that was seen longest ago stays
    rw [if_neg (not_le.mpr (room found))]
    refine (List.filter_eq_self.mpr fun b member => ?_).symm
    exact decide_eq_true fun same => List.find?_eq_none.mp found b member (decide_eq_true same)

theorem room_of_known {clients : Finset String} (kept : rl.Kept clients)
    (few : clients.card ≤ rl.maxKeys) (client : key ∈ clients) (new : rl.bucket key = none) :
    rl.order.length < rl.maxKeys := by
  have fresh : key ∉ rl.order.map Bucket.key := by
    intro member
    obtain ⟨b, listed, same⟩ := List.mem_map.mp member
    exact List.find?_eq_none.mp new b listed (decide_eq_true same)
  -- the buckets are of different clients, and the new client is none of them
  have part : (key :: rl.order.map Bucket.key).toFinset ⊆ clients := by
    intro k member
    rcases List.mem_cons.mp (List.mem_toFinset.mp member) with rfl | listed
    · exact client
    · obtain ⟨b, held, rfl⟩ := List.mem_map.mp listed
      exact kept.known b held
  have card := Finset.card_le_card part
  rw [List.toFinset_card_of_nodup (List.nodup_cons.mpr ⟨fresh, kept.unique⟩), List.length_cons,
    List.length_map] at card
  omega

/-- The attempts of the key that count when it makes another. -/
def held (rl : RateLimiter) (key : String) (now : Int) : List Int :=
  ((rl.removeStale (now - rl.window)).timesOf key).dropWhile fun t => t ≤ now - rl.window

/-- The bucket of the key comes to the front, with the attempt if it is allowed. -/
theorem attempt_cases (room : (rl.removeStale (now - rl.window)).bucket key = none →
      (rl.removeStale (now - rl.window)).order.length < rl.maxKeys) :
    ∃ b : Bucket, b.key = key ∧ b.lastSeen = now ∧
      (rl.attempt key now).2 =
        { rl with order := b :: (rl.removeStale (now - rl.window)).others key } ∧
      (((rl.attempt key now).1.1 = true ∧ (rl.held key now).length < rl.limit ∧
          b.times = rl.held key now ++ [now]) ∨
        ((rl.attempt key now).1.1 = false ∧ b.times = rl.held key now)) := by
  obtain ⟨named, times, seen, rest⟩ := @touch_eq _ key now room
  have window : (rl.removeStale (now - rl.window)).limit = rl.limit := rfl
  unfold attempt held
  dsimp only
  -- what matters of the touched bucket is in `touch_eq`
  generalize (rl.removeStale (now - rl.window)).touch key now = touched at *
  rw [← times, rest]
  by_cases full : (touched.1.expire (now - rl.window)).times.length ≥ rl.limit
  · rw [window, if_pos full]
    split
    -- the first refusal is remembered, a later one is not
    · exact ⟨{ touched.1.expire (now - rl.window) with refusedAt := some now }, named, seen, rfl,
        .inr ⟨rfl, rfl⟩⟩
    · exact ⟨touched.1.expire (now - rl.window), named, seen, rfl, .inr ⟨rfl, rfl⟩⟩
  · rw [window, if_neg full]
    exact ⟨{ touched.1.expire (now - rl.window) with
      times := (touched.1.expire (now - rl.window)).times ++ [now] }, named, seen, rfl,
      .inl ⟨rfl, not_le.mp full, rfl⟩⟩

theorem after_held (recent : now - rl.window ≤ c) :
    after c ((rl.removeStale (now - rl.window)).timesOf key) = after c (rl.held key now) := by
  unfold held after
  generalize (rl.removeStale (now - rl.window)).timesOf key = times
  -- an expired time at the front counts in no interval that starts late enough
  induction times with
  | nil => rfl
  | cons t times ih =>
    by_cases old : t ≤ now - rl.window
    · have late : ¬c < t := by omega
      rw [List.dropWhile_cons, if_pos (decide_eq_true old), ← ih,
        List.countP_cons_of_neg (by simpa using late)]
    · rw [List.dropWhile_cons, if_neg (by simpa using old)]

/-- The front bucket, and any other. -/
theorem timesOf_front {b : Bucket} (named : b.key = key) {stale : RateLimiter} :
    ({ rl with order := b :: stale.others key } : RateLimiter).timesOf key = b.times ∧
      ∀ k, k ≠ key → ({ rl with order := b :: stale.others key } : RateLimiter).timesOf k = stale.timesOf k := by
  constructor
  · simp [timesOf, bucket, named]
  · intro k other
    have away : b.key ≠ k := named ▸ Ne.symm other
    have found : ({ rl with order := b :: stale.others key } : RateLimiter).bucket k = stale.bucket k := by
      refine Eq.trans (List.find?_cons_of_neg ?_) (find?_others stale other)
      rwa [decide_eq_true_eq]
    rw [timesOf, timesOf, found]

theorem kept_front {clients : Finset String} {b : Bucket} {stale : RateLimiter}
    (kept : stale.Kept clients) (named : b.key = key) (client : key ∈ clients)
    (seen : ∀ t ∈ b.times, t ≤ b.lastSeen) :
    ({ rl with order := b :: stale.others key } : RateLimiter).Kept clients where
  unique := by
    rw [List.map_cons, List.nodup_cons]
    -- its own bucket was taken out of the others
    refine ⟨?_, kept.unique.sublist ((others_sublist stale key).map _)⟩
    intro member
    obtain ⟨c, listed, same⟩ := List.mem_map.mp member
    exact of_decide_eq_true (List.mem_filter.mp listed).2 (same.trans named)
  known c member := by
    rcases List.mem_cons.mp member with rfl | listed
    · rwa [named]
    · exact kept.known c ((others_sublist stale key).subset listed)
  seen c member := by
    rcases List.mem_cons.mp member with rfl | listed
    · exact seen
    · exact kept.seen c ((others_sublist stale key).subset listed)

/-- A bucket after a withdrawal of the key's newest attempt. -/
def withoutNewest (key : String) (b : Bucket) : Bucket :=
  if b.key = key then { b with times := b.times.dropLast } else b

theorem withoutNewest_key (key : String) (b : Bucket) : (withoutNewest key b).key = b.key := by
  unfold withoutNewest
  split <;> rfl

theorem bucket_withoutNewest (rl : RateLimiter) (key k : String) :
    ({ rl with order := rl.order.map (withoutNewest key) } : RateLimiter).bucket k =
      (rl.bucket k).map (withoutNewest key) := by
  have same : (fun b : Bucket => decide (b.key = k)) ∘ withoutNewest key = fun b => decide (b.key = k) :=
    funext fun b => by rw [Function.comp_apply, withoutNewest_key]
  rw [bucket, List.find?_map, same]
  rfl

/-- What a withdrawal does to the buckets. -/
theorem forget_cases (rl : RateLimiter) (key : String) :
    (rl.forget key = rl ∧ (rl.timesOf key).dropLast = rl.timesOf key) ∨
    (rl.forget key = { rl with order := rl.others key } ∧ (rl.timesOf key).dropLast = []) ∨
    rl.forget key = { rl with order := rl.order.map (withoutNewest key) } := by
  unfold forget timesOf
  cases rl.bucket key with
  | none => exact .inl ⟨rfl, rfl⟩
  | some b =>
    dsimp only [Option.map_some, Option.getD_some]
    -- no attempt, one, or more
    split
    next empty => exact .inl ⟨rfl, by rw [List.length_eq_zero_iff.mp empty]; rfl⟩
    next single =>
      obtain ⟨t, same⟩ := List.length_eq_one_iff.mp single
      exact .inr (.inl ⟨rfl, by rw [same]; rfl⟩)
    · exact .inr (.inr rfl)

theorem timesOf_forget (rl : RateLimiter) (key k : String) : (rl.forget key).timesOf k =
    if k = key then (rl.timesOf key).dropLast else rl.timesOf k := by
  rcases forget_cases rl key with ⟨same, last⟩ | ⟨gone, last⟩ | mapped
  · rw [same]
    split
    next here => rw [here, last]
    · rfl
  · rw [gone]
    split
    next here =>
      -- the only bucket of the key is gone
      have none : (rl.others key).find? (fun b => b.key = key) = none :=
        List.find?_eq_none.mpr fun b member same =>
          of_decide_eq_true (List.mem_filter.mp member).2 (of_decide_eq_true same)
      rw [here, last, timesOf, bucket, none]
      rfl
    next other => rw [timesOf, bucket, find?_others rl other, timesOf]
  · rw [mapped, timesOf, bucket_withoutNewest, timesOf, timesOf]
    -- the bucket is looked up by its key, which stays
    by_cases here : k = key
    · subst here
      rw [if_pos rfl]
      cases found : rl.bucket k with
      | none => rfl
      | some b => simp [withoutNewest, bucket_key found]
    · rw [if_neg here]
      cases found : rl.bucket k with
      | none => rfl
      | some b =>
        have away : b.key ≠ key := (bucket_key found).trans_ne here
        simp [withoutNewest, away]

theorem kept_forget {clients : Finset String} (kept : rl.Kept clients) (key : String) :
    (rl.forget key).Kept clients := by
  rcases forget_cases rl key with ⟨same, -⟩ | ⟨gone, -⟩ | mapped
  · rwa [same]
  · rw [gone]
    exact kept_of_sublist kept (others_sublist rl key)
  · rw [mapped]
    have keys : (rl.order.map (withoutNewest key)).map Bucket.key = rl.order.map Bucket.key := by
      rw [List.map_map]
      exact List.map_congr_left fun b _ => withoutNewest_key key b
    constructor
    · exact keys ▸ kept.unique
    · intro b member
      obtain ⟨c, listed, rfl⟩ := List.mem_map.mp member
      exact (withoutNewest_key key c).symm ▸ kept.known c listed
    · intro b member
      obtain ⟨c, listed, rfl⟩ := List.mem_map.mp member
      unfold withoutNewest
      split
      -- fewer times than before
      · exact fun t held => kept.seen c listed t (List.dropLast_subset _ held)
      · exact kept.seen c listed

theorem seen_forget {clock : Int} (seen : ∀ b ∈ rl.order, b.lastSeen ≤ clock) (key : String) :
    ∀ b ∈ (rl.forget key).order, b.lastSeen ≤ clock := by
  rcases forget_cases rl key with ⟨same, -⟩ | ⟨gone, -⟩ | mapped
  · rwa [same]
  · rw [gone]
    exact fun b member => seen b ((others_sublist rl key).subset member)
  · rw [mapped]
    intro b member
    obtain ⟨c, listed, rfl⟩ := List.mem_map.mp member
    unfold withoutNewest
    split
    · exact seen c listed
    · exact seen c listed

end RateLimiter

/-! ## The logins -/

/-- The times of the key's attempts that were not withdrawn. -/
def live (attempts : List Attempt) (key : String) : List Int :=
  (attempts.filter fun a => a.key = key ∧ a.withdrawn = false).map Attempt.time

theorem live_append (before later : List Attempt) (key : String) :
    live (before ++ later) key = live before key ++ live later key := by
  rw [live, List.filter_append, List.map_append]
  rfl

theorem live_single (a : Attempt) (key : String) :
    live [a] key = if a.key = key ∧ a.withdrawn = false then [a.time] else [] := by
  unfold live
  rw [List.filter_singleton]
  by_cases own : a.key = key ∧ a.withdrawn = false
  · simp [own]
  · rw [if_neg own, decide_eq_false own]
    rfl

namespace Logins

variable {s t : Logins}

theorem withdraw_cases {i : Nat} (step : s.withdraw i = some t) :
    ∃ a before later, s.attempts[i]? = some a ∧ s.attempts = before ++ a :: later ∧
      a.withdrawn = false ∧
      t = { s with
        limiter := s.limiter.forget a.key
        attempts := before ++ { a with withdrawn := true } :: later } := by
  unfold withdraw at step
  cases found : s.attempts[i]? with
  | none => simp [found] at step
  | some a =>
    rw [found] at step
    dsimp only at step
    obtain ⟨open_, made⟩ := Option.ite_none_left_eq_some.mp step
    rw [not_or, Bool.not_eq_true] at open_
    obtain ⟨bound, here⟩ := List.getElem?_eq_some_iff.mp found
    -- the list around the login
    have parts : s.attempts = s.attempts.take i ++ a :: s.attempts.drop (i + 1) := by
      rw [← here, ← List.drop_eq_getElem_cons bound, List.take_append_drop]
    rw [List.set_eq_take_append_cons_drop, if_pos bound] at made
    exact ⟨a, _, _, rfl, parts, open_.1, (Option.some.inj made).symm⟩

/-- A withdrawal takes no attempt made after the one it is for. -/
def Own (s : Logins) : Step → Prop
  | .forget i => ∀ a newest, s.attempts[i]? = some a →
      (s.limiter.timesOf a.key).getLast? = some newest → newest ≤ a.time
  | .tick _ | .attempt _ | .cleanup => True

/-- The limiter's settings, and what its buckets say about every client's attempts. -/
structure Limited (clients : Finset String) (limit : Nat) (window : Int) (s : Logins) : Prop where
  sameLimit : s.limiter.limit = limit
  sameWindow : s.limiter.window = window
  room : clients.card ≤ s.limiter.maxKeys
  kept : s.limiter.Kept clients
  seen : ∀ b ∈ s.limiter.order, b.lastSeen ≤ s.clock
  past : ∀ a ∈ s.attempts, a.time ≤ s.clock
  covers : ∀ key c, s.clock - window ≤ c →
    after c (live s.attempts key) ≤ after c (s.limiter.timesOf key)
  few : ∀ key a b, b - a < window →
    (live s.attempts key).countP (fun t => a ≤ t ∧ t ≤ b) ≤ limit

variable {clients : Finset String} {limit : Nat} {window : Int}

theorem limited_tick (before : Limited clients limit window s) (d : Nat) :
    Limited clients limit window { s with clock := s.clock + d } where
  sameLimit := before.sameLimit
  sameWindow := before.sameWindow
  room := before.room
  kept := before.kept
  seen b member := by
    have := before.seen b member
    dsimp only
    omega
  past a member := by
    have := before.past a member
    dsimp only
    omega
  covers key c recent := before.covers key c (by dsimp only at recent; omega)
  few := before.few

theorem limited_cleanup (before : Limited clients limit window s) :
    Limited clients limit window { s with limiter := s.limiter.cleanup s.clock } where
  sameLimit := before.sameLimit
  sameWindow := before.sameWindow
  room := before.room
  kept := RateLimiter.kept_removeStale before.kept _
  seen b member := before.seen b ((List.rdropWhile_prefix _ _).subset member)
  past := before.past
  covers key c recent := by
    have cutoff : s.clock - s.limiter.window ≤ c := before.sameWindow ▸ recent
    -- a stale bucket has no attempt that still counts
    exact (before.covers key c recent).trans (RateLimiter.after_removeStale before.kept cutoff key)
  few := before.few

/-- Attempts that count in an interval that starts late enough are in the window. -/
theorem countP_interval_le {times : List Int} {a b c : Int} (early : c < a) :
    times.countP (fun t => a ≤ t ∧ t ≤ b) ≤ after c times := by
  refine List.countP_mono_left fun t _ inside => ?_
  have := (of_decide_eq_true inside).1
  exact decide_eq_true (by omega)

theorem held_past (before : Limited clients limit window s) (key : String) :
    ∀ t ∈ s.limiter.held key s.clock, t ≤ s.clock := by
  intro t member
  have listed := (List.dropWhile_sublist _).subset member
  unfold RateLimiter.timesOf at listed
  cases found : (s.limiter.removeStale (s.clock - s.limiter.window)).bucket key with
  | none => simp [found] at listed
  | some b =>
    rw [found] at listed
    have old := (List.rdropWhile_prefix _ _).subset (RateLimiter.bucket_mem found)
    exact (before.kept.seen b old t listed).trans (before.seen b old)

/-- What counts against the key covers its attempts in the window. -/
theorem covers_held (before : Limited clients limit window s) (key : String) {c : Int}
    (recent : s.clock - window ≤ c) :
    after c (live s.attempts key) ≤ after c (s.limiter.held key s.clock) := by
  have cutoff : s.clock - s.limiter.window ≤ c := before.sameWindow ▸ recent
  calc after c (live s.attempts key)
      ≤ after c (s.limiter.timesOf key) := before.covers key c recent
    _ ≤ after c ((s.limiter.removeStale (s.clock - s.limiter.window)).timesOf key) :=
        RateLimiter.after_removeStale before.kept cutoff key
    _ = after c (s.limiter.held key s.clock) := RateLimiter.after_held cutoff

/-- The bucket at the front, with or without the new attempt. -/
theorem limited_front {key : String} {b : Bucket} {attempts : List Attempt}
    (before : Limited clients limit window s) (client : key ∈ clients) (named : b.key = key)
    (now : b.lastSeen = s.clock) (times : ∀ t ∈ b.times, t ≤ s.clock)
    (past : ∀ a ∈ attempts, a.time ≤ s.clock)
    (same : ∀ k, k ≠ key → live attempts k = live s.attempts k)
    (covers : ∀ c, s.clock - window ≤ c → after c (live attempts key) ≤ after c b.times)
    (few : ∀ x y, y - x < window →
      (live attempts key).countP (fun t => x ≤ t ∧ t ≤ y) ≤ limit) :
    Limited clients limit window { s with
      limiter := { s.limiter with
        order := b :: (s.limiter.removeStale (s.clock - s.limiter.window)).others key }
      attempts } := by
  have stale := RateLimiter.kept_removeStale before.kept (s.clock - s.limiter.window)
  obtain ⟨front, others⟩ := @RateLimiter.timesOf_front s.limiter _ _ named
    (s.limiter.removeStale (s.clock - s.limiter.window))
  refine ⟨before.sameLimit, before.sameWindow, before.room,
    RateLimiter.kept_front stale named client (now ▸ times), ?_, past, ?_, ?_⟩
  · intro c member
    -- the others were seen before, and are left as they are
    rcases List.mem_cons.mp member with rfl | listed
    · exact now.le
    · have part := (RateLimiter.others_sublist _ key).subset listed
      exact before.seen c ((List.rdropWhile_prefix _ _).subset part)
  · intro k c recent
    by_cases here : k = key
    · rw [here]
      exact (covers c recent).trans_eq (congrArg (after c) front.symm)
    · have cutoff : s.clock - s.limiter.window ≤ c := before.sameWindow ▸ recent
      dsimp only
      rw [same k here, others k here]
      exact (before.covers k c recent).trans (RateLimiter.after_removeStale before.kept cutoff k)
  · intro k x y short
    by_cases here : k = key
    · rw [here]
      exact few x y short
    · dsimp only
      rw [same k here]
      exact before.few k x y short

theorem attempt_step (s : Logins) (key : String) : s.step (.attempt key) = some { s with
    limiter := (s.limiter.attempt key s.clock).2
    attempts := if (s.limiter.attempt key s.clock).1.1 = true then
      s.attempts ++ [{ key, time := s.clock }] else s.attempts } :=
  rfl

/-- One more attempt where fewer than the limit count in the window. -/
theorem few_attempt {key : String} (before : Limited clients limit window s)
    (short : (s.limiter.held key s.clock).length < s.limiter.limit) {x y : Int} (narrow : y - x < window) :
    (live s.attempts key ++ [s.clock]).countP (fun t => x ≤ t ∧ t ≤ y) ≤ limit := by
  rw [List.countP_append]
  by_cases inside : x ≤ s.clock ∧ s.clock ≤ y
  · -- an interval around the new attempt lies in the window
    have early : s.clock - window < x := by omega
    have counted := @countP_interval_le (live s.attempts key) x y _ early
    have covered := covers_held before key (le_refl (s.clock - window))
    have all : after (s.clock - window) (s.limiter.held key s.clock) ≤
        (s.limiter.held key s.clock).length := List.countP_le_length
    have new : [s.clock].countP (fun t => x ≤ t ∧ t ≤ y) ≤ 1 := List.countP_le_length
    have limit := before.sameLimit
    omega
  -- another interval does not see the new attempt
  · have old := before.few key x y narrow
    have new : [s.clock].countP (fun t => x ≤ t ∧ t ≤ y) = 0 := by simp [inside]
    omega

theorem limited_attempt {key : String} (before : Limited clients limit window s)
    (client : key ∈ clients) (step : s.step (.attempt key) = some t) :
    Limited clients limit window t := by
  have stale := RateLimiter.kept_removeStale before.kept (s.clock - s.limiter.window)
  obtain ⟨b, named, now, after_, allowed | refused⟩ := @RateLimiter.attempt_cases s.limiter _ s.clock
    (RateLimiter.room_of_known stale before.room client)
  · obtain ⟨allowed, short, times⟩ := allowed
    rw [attempt_step, if_pos allowed, after_, Option.some.injEq] at step
    -- the new attempt is the last of its client
    have live_key : live (s.attempts ++ [{ key, time := s.clock }]) key =
        live s.attempts key ++ [s.clock] := by
      rw [live_append, live_single]
      simp
    rw [← step]
    refine limited_front before client named now ?_ ?_ ?_ ?_ ?_
    · rw [times]
      intro u member
      rcases List.mem_append.mp member with old | new
      · exact held_past before key u old
      · exact (List.mem_singleton.mp new).le
    · intro a member
      rcases List.mem_append.mp member with old | new
      · exact before.past a old
      · exact (congrArg Attempt.time (List.mem_singleton.mp new)).le
    · intro k other
      rw [live_append, live_single, if_neg fun own => other own.1.symm, List.append_nil]
    · intro c recent
      -- both gain the new attempt
      have := covers_held before key recent
      rw [live_key, times]
      simp only [after, List.countP_append] at this ⊢
      omega
    · intro x y narrow
      rw [live_key]
      exact few_attempt before short narrow
  · obtain ⟨refused, times⟩ := refused
    rw [attempt_step, if_neg (by simp [refused]), after_, Option.some.injEq] at step
    rw [← step]
    -- a refusal leaves the attempts, and at most drops expired times
    refine limited_front before client named now ?_ before.past (fun _ _ => rfl) ?_ (before.few key)
    · rw [times]
      exact held_past before key
    · intro c recent
      rw [times]
      exact covers_held before key recent

/-- A withdrawal takes one attempt off the client's list. -/
theorem live_withdrawn {a : Attempt} {older later : List Attempt} (open_ : a.withdrawn = false)
    (key : String) :
    live (older ++ a :: later) key =
        live older key ++ (if a.key = key then [a.time] else []) ++ live later key ∧
      live (older ++ { a with withdrawn := true } :: later) key = live older key ++ live later key := by
  constructor
  · rw [← List.singleton_append, live_append, live_append, live_single, List.append_assoc]
    simp [open_]
  · rw [← List.singleton_append, live_append, live_append, live_single]
    simp

theorem live_withdrawn_sublist {a : Attempt} {older later : List Attempt}
    (open_ : a.withdrawn = false) (key : String) :
    (live (older ++ { a with withdrawn := true } :: later) key).Sublist
      (live (older ++ a :: later) key) := by
  obtain ⟨before, rest⟩ := @live_withdrawn _ older later open_ key
  rw [before, rest]
  exact (List.sublist_append_left _ _).append (List.Sublist.refl _)

/-- An own withdrawal loses no more of the bucket than of the attempts. -/
theorem covers_withdrawn {a : Attempt} {older later : List Attempt} {times : List Int} {c : Int}
    (open_ : a.withdrawn = false) (own : ∀ newest, times.getLast? = some newest → newest ≤ a.time)
    (covers : after c (live (older ++ a :: later) a.key) ≤ after c times) :
    after c (live (older ++ { a with withdrawn := true } :: later) a.key) ≤ after c times.dropLast := by
  have fewer : after c (live (older ++ { a with withdrawn := true } :: later) a.key) ≤
      after c (live (older ++ a :: later) a.key) :=
    (live_withdrawn_sublist open_ a.key).countP_le
  obtain ⟨before, rest⟩ := @live_withdrawn _ older later open_ a.key
  cases times using List.reverseRecOn with
  | nil => exact fewer.trans covers
  | append_singleton init newest =>
    have made := own newest (List.getLast?_concat)
    rw [List.dropLast_concat]
    -- the newest time counts only where the login's own, no older, does
    by_cases counted : c < newest
    · have late : c < a.time := by omega
      rw [before] at covers
      rw [rest]
      simp only [after, List.countP_append, if_true, List.countP_singleton, late, counted,
        decide_true] at covers ⊢
      omega
    · have same : after c (init ++ [newest]) = after c init := by
        simp [after, List.countP_append, counted]
      exact (fewer.trans covers).trans_eq same

theorem limited_withdraw {i : Nat} (before : Limited clients limit window s) (own : s.Own (.forget i))
    (step : s.withdraw i = some t) : Limited clients limit window t := by
  obtain ⟨a, older, later, found, parts, open_, rfl⟩ := withdraw_cases step
  have settings : (s.limiter.forget a.key).limit = s.limiter.limit ∧
      (s.limiter.forget a.key).window = s.limiter.window ∧
      (s.limiter.forget a.key).maxKeys = s.limiter.maxKeys := by
    -- a withdrawal leaves the settings
    rcases RateLimiter.forget_cases s.limiter a.key with ⟨same, -⟩ | ⟨gone, -⟩ | mapped
    · rw [same]
      exact ⟨rfl, rfl, rfl⟩
    · rw [gone]
      exact ⟨rfl, rfl, rfl⟩
    · rw [mapped]
      exact ⟨rfl, rfl, rfl⟩
  have fewer : ∀ k, (live (older ++ { a with withdrawn := true } :: later) k).Sublist
      (live s.attempts k) := fun k => parts ▸ live_withdrawn_sublist open_ k
  constructor
  · exact settings.1.trans before.sameLimit
  · exact settings.2.1.trans before.sameWindow
  · exact before.room.trans_eq settings.2.2.symm
  · exact RateLimiter.kept_forget before.kept a.key
  · exact RateLimiter.seen_forget before.seen a.key
  · intro x member
    have old := before.past
    rw [parts] at old
    rcases List.mem_append.mp member with first | rest
    · exact old x (List.mem_append_left _ first)
    · rcases List.mem_cons.mp rest with rfl | last
      · exact old a (List.mem_append_right _ List.mem_cons_self)
      · exact old x (List.mem_append_right _ (List.mem_cons_of_mem _ last))
  · intro k c recent
    have covers := before.covers k c recent
    dsimp only
    rw [RateLimiter.timesOf_forget]
    split
    next here =>
      subst here
      rw [parts] at covers
      -- for its own client the withdrawal must take no later time
      exact covers_withdrawn open_ (fun newest => own a newest found) covers
    next other => exact (fewer k).countP_le.trans covers
  · intro k x y short
    exact (fewer k).countP_le.trans (before.few k x y short)

/-- Every step but an attempt of a client outside the set. -/
def Of (clients : Finset String) : Step → Prop
  | .attempt key => key ∈ clients
  | .tick _ | .forget _ | .cleanup => True

theorem limited_step {i : Step} (before : Limited clients limit window s)
    (permitted : s.Own i ∧ Of clients i) (step : s.step i = some t) :
    Limited clients limit window t := by
  obtain ⟨own, known⟩ := permitted
  cases i with
  | tick d =>
    cases step
    exact limited_tick before d
  | attempt key => exact limited_attempt before known step
  | forget i => exact limited_withdraw before own step
  | cleanup =>
    cases step
    exact limited_cleanup before

/-- Before the first login. -/
def start (clock : Int) (limit : Nat) (window : Int) (maxKeys : Nat) : Logins :=
  { clock, limiter := { newRateLimiter limit window with maxKeys } }

theorem limited_start {maxKeys : Nat} (room : clients.card ≤ maxKeys) (clock : Int) :
    Limited clients limit window (start clock limit window maxKeys) where
  sameLimit := rfl
  sameWindow := rfl
  room := room
  kept := ⟨List.nodup_nil, nofun, nofun⟩
  seen := nofun
  past := nofun
  covers _ _ _ := le_refl 0
  few _ _ _ _ := Nat.zero_le _

/-- The attempts of the key in the interval that were allowed and not withdrawn. -/
def checked (s : Logins) (key : String) (a b : Int) : List Attempt :=
  s.attempts.filter fun x => x.key = key ∧ x.withdrawn = false ∧ a ≤ x.time ∧ x.time ≤ b

theorem checked_length (s : Logins) (key : String) (a b : Int) :
    (s.checked key a b).length = (live s.attempts key).countP fun t => a ≤ t ∧ t ≤ b := by
  rw [checked, live, List.countP_map, List.countP_filter, List.countP_eq_length_filter]
  congr 2
  funext x
  simp only [Function.comp_apply]
  rw [← Bool.decide_and]
  exact decide_eq_decide.mpr (by tauto)

theorem attempts_limited {maxKeys : Nat} {clock : Int} {steps : List Step}
    (room : clients.card ≤ maxKeys) (known : ∀ key, .attempt key ∈ steps → key ∈ clients)
    (own : Along step Own (start clock limit window maxKeys) steps)
    (run : exec step (start clock limit window maxKeys) steps = some s) :
    ∀ key a b, b - a < window → (s.checked key a b).length ≤ limit := by
  have allKnown : ∀ i ∈ steps, Of clients i := by
    intro i member
    cases i with
    | attempt key => exact known key member
    | tick d => trivial
    | forget i => trivial
    | cleanup => trivial
  have limited := exec_invariant (p := Limited clients limit window)
    (fun _ _ _ before permitted step => limited_step before permitted step)
    (limited_start room clock) (own.and (along_of_forall allKnown)) run
  intro key a b short
  -- what was checked is what counts
  rw [checked_length]
  exact limited.few key a b short

/-- A withdrawn login, and the one that takes its place under a limit of one. -/
def retried : List Step := [.attempt "a", .tick 5, .forget 0, .attempt "a"]

theorem attempts_limited_retried : ∃ s, exec step (start 0 1 60 maxRateLimitKeys) retried = some s ∧
    ∀ key a b, b - a < 60 → (s.checked key a b).length ≤ 1 := by
  have ends : (exec step (start 0 1 60 maxRateLimitKeys) retried).isSome = true := by decide +kernel
  obtain ⟨s, run⟩ := Option.isSome_iff_exists.mp ends
  refine ⟨s, run, @attempts_limited s {"a"} _ _ _ _ retried (by decide) ?_ ?_ run⟩
  · intro key made
    simpa [retried] using made
  · -- only the withdrawal has something to say
    refine along_cons trivial rfl (along_cons trivial rfl (along_cons ?_ rfl
      (along_cons trivial rfl trivial)))
    intro a newest found last
    cases found
    cases last
    decide

/-- The first of five logins waits for a slot and gives up after the fifth came in: what it withdraws
is the fifth's time, while its own is the first to expire. -/
def overtaken : List Step :=
  [.attempt "a", .tick 1, .attempt "a", .tick 1, .attempt "a", .tick 1, .attempt "a", .tick 1,
    .attempt "a", .tick 1, .forget 0, .tick 54, .attempt "a", .tick 1, .attempt "a"]

theorem six_checked : ¬∀ (clients : Finset String) (limit maxKeys : Nat) (window clock : Int)
    (steps : List Step) (s : Logins), clients.card ≤ maxKeys →
    (∀ key, .attempt key ∈ steps → key ∈ clients) →
    exec step (start clock limit window maxKeys) steps = some s →
    ∀ key a b, b - a < window → (s.checked key a b).length ≤ limit := by
  intro claimed
  have counts : (exec step (start 0 5 60 maxRateLimitKeys) overtaken).map
      (fun s => (s.checked "a" 1 60).length) = some 6 := by decide +kernel
  obtain ⟨s, run, six⟩ := Option.map_eq_some_iff.mp counts
  -- six of them are inside one window
  have five := claimed {"a"} 5 maxRateLimitKeys 60 0 overtaken s (by decide) (by
    intro key made
    simpa [overtaken] using made) run "a" 1 60 (by decide)
  omega

end Logins

end Dockgraph.Auth
