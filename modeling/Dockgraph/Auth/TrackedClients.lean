import Dockgraph.Auth.BucketTable
import Dockgraph.Library.Suffix
import Dockgraph.Library.Transition

/-!
# The clients a limiter tracks

A client's answers come from its own bucket. A stale bucket says what a new one does, so only a client
whose bucket is handed to another one can tell that the table has a size.
-/
namespace Dockgraph.Auth

open Transition

/-! ## Buckets in order -/

structure Bucket.Sound (limit : Nat) (b : Bucket) : Prop where
  ordered : b.times.Pairwise (· ≤ ·)
  few : b.times.length ≤ limit
  seen : ∀ t ∈ b.times, t ≤ b.lastSeen
  refused : ∀ t ∈ b.refusedAt, t ≤ b.lastSeen

theorem Bucket.Sound.attempt {limit : Nat} {b : Bucket} (sound : b.Sound limit) (window : Int) :
    (b.attempt limit window b.lastSeen).2.Sound limit ∧
      (b.attempt limit window b.lastSeen).2.lastSeen = b.lastSeen := by
  have part : (b.expire (b.lastSeen - window)).times.Sublist b.times := List.dropWhile_sublist _
  have ordered := sound.ordered.sublist part
  have seen : ∀ t ∈ (b.expire (b.lastSeen - window)).times, t ≤ b.lastSeen :=
    fun t member => sound.seen t (part.subset member)
  rw [Bucket.attempt]
  dsimp only
  split
  · have few := part.length_le.trans sound.few
    split
    · exact ⟨⟨ordered, few, seen, fun t at_ => (Option.mem_some.mp at_).ge⟩, rfl⟩
    · exact ⟨⟨ordered, few, seen, sound.refused⟩, rfl⟩
  · next room =>
    refine ⟨⟨?_, ?_, ?_, sound.refused⟩, rfl⟩
    · refine List.pairwise_append.mpr ⟨ordered, List.pairwise_singleton _ _, fun t member now single => ?_⟩
      rw [List.mem_singleton.mp single]
      exact seen t member
    · rw [List.length_append, List.length_singleton]
      omega
    · intro t member
      rcases List.mem_append.mp member with old | new
      · exact seen t old
      · exact (List.mem_singleton.mp new).le

namespace RateLimiter

/-- The list is by the last attempt, latest first. -/
structure Tidy (rl : RateLimiter) (now : Int) : Prop where
  unique : (rl.order.map Bucket.key).Nodup
  sorted : rl.order.Pairwise fun a b => b.lastSeen ≤ a.lastSeen
  past : ∀ b ∈ rl.order, b.lastSeen ≤ now
  sound : ∀ b ∈ rl.order, b.Sound rl.limit
  room : rl.order.length ≤ rl.maxKeys

variable {rl : RateLimiter} {now cutoff : Int} {key client : String}

theorem Tidy.later (tidy : rl.Tidy now) {now' : Int} (later : now ≤ now') : rl.Tidy now' :=
  { tidy with past := fun b member => (tidy.past b member).trans later }

theorem Tidy.sublist (tidy : rl.Tidy now) {order : List Bucket} (part : order.Sublist rl.order) :
    ({ rl with order } : RateLimiter).Tidy now where
  unique := tidy.unique.sublist (part.map _)
  sorted := tidy.sorted.sublist part
  past b member := tidy.past b (part.subset member)
  sound b member := tidy.sound b (part.subset member)
  room := part.length_le.trans tidy.room

/-- What is left is what was seen after the cutoff, wherever it stands. -/
theorem Tidy.removeStale_order (tidy : rl.Tidy now) (cutoff : Int) :
    (rl.removeStale cutoff).order = rl.order.filter fun b => cutoff < b.lastSeen := by
  have ascending : rl.order.reverse.Pairwise fun a b => a.lastSeen ≤ b.lastSeen :=
    List.pairwise_reverse.mpr tidy.sorted
  have kept := Suffix.dropWhile_lt_of_le ascending (cutoff + 1)
  simp only [Int.lt_add_one_iff, Int.add_one_le_iff] at kept
  rw [removeStale, List.rdropWhile, kept, ← List.filter_reverse, List.reverse_reverse]

theorem Tidy.removeStale (tidy : rl.Tidy now) (cutoff : Int) : (rl.removeStale cutoff).Tidy now :=
  tidy.sublist (List.rdropWhile_prefix _ _).sublist

theorem bucket_eq_some_iff (unique : (rl.order.map Bucket.key).Nodup) {b : Bucket} :
    rl.bucket client = some b ↔ b ∈ rl.order ∧ b.key = client := by
  refine ⟨fun found => ⟨bucket_mem found, bucket_key found⟩, fun ⟨member, named⟩ => ?_⟩
  cases found : rl.bucket client with
  | none => exact absurd (decide_eq_true named) (List.find?_eq_none.mp found b member)
  | some c => rw [List.inj_on_of_nodup_map unique (bucket_mem found) member ((bucket_key found).trans named.symm)]

theorem Tidy.bucket_removeStale (tidy : rl.Tidy now) (cutoff : Int) (client : String) :
    (rl.removeStale cutoff).bucket client = (rl.bucket client).filter fun b => cutoff < b.lastSeen := by
  ext b
  rw [bucket_eq_some_iff (tidy.removeStale cutoff).unique, tidy.removeStale_order, List.mem_filter,
    Option.filter_eq_some_iff, bucket_eq_some_iff tidy.unique]
  tauto

/-! ## One call -/

/-- The bucket of the client after a touch. -/
theorem touch_fst (rl : RateLimiter) (key : String) (now : Int) :
    (rl.touch key now).1 = { (rl.bucket key).getD { key, lastSeen := now } with lastSeen := now } := by
  rw [touch]
  cases rl.bucket key <;> rfl

theorem touch_snd_sublist (rl : RateLimiter) (key : String) (now : Int) :
    (rl.touch key now).2.Sublist rl.order := by
  rw [touch]
  cases rl.bucket key with
  | some b => exact others_sublist rl key
  | none =>
    dsimp only
    split
    · exact List.dropLast_sublist _
    · exact List.Sublist.refl _

theorem Tidy.touch_snd (tidy : rl.Tidy now) (room : 0 < rl.maxKeys) (key : String) :
    (rl.touch key now).2.length < rl.maxKeys ∧ ∀ b ∈ (rl.touch key now).2, b.key ≠ key := by
  have bound := tidy.room
  rw [touch]
  cases found : rl.bucket key with
  | some b =>
    constructor
    · have fewer : (rl.others key).length < rl.order.length :=
        List.length_filter_lt_length_iff_exists.mpr ⟨b, bucket_mem found, by simp [bucket_key found]⟩
      exact fewer.trans_le bound
    · exact fun c member => of_decide_eq_true (List.mem_filter.mp member).2
  | none =>
    have absent : ∀ b ∈ rl.order, b.key ≠ key := fun b member named =>
      List.find?_eq_none.mp found b member (decide_eq_true named)
    dsimp only
    split
    · refine ⟨?_, fun b member => absent b (List.dropLast_subset _ member)⟩
      rw [List.length_dropLast]
      omega
    · next room => exact ⟨not_le.mp room, absent⟩

theorem Tidy.sound_bucket (tidy : rl.Tidy now) (key : String) :
    Bucket.Sound rl.limit { (rl.bucket key).getD { key, lastSeen := now } with lastSeen := now } := by
  cases found : rl.bucket key with
  | none => exact ⟨List.Pairwise.nil, Nat.zero_le _, by simp, by simp⟩
  | some b =>
    have sound := tidy.sound b (bucket_mem found)
    have past := tidy.past b (bucket_mem found)
    exact ⟨sound.ordered, sound.few, fun t member => (sound.seen t member).trans past,
      fun t refused => (sound.refused t refused).trans past⟩

theorem Tidy.attempt (tidy : rl.Tidy now) (room : 0 < rl.maxKeys) (key : String) :
    (rl.attempt key now).2.Tidy now := by
  have fresh := tidy.removeStale (now - rl.window)
  obtain ⟨few, others⟩ := fresh.touch_snd room key
  have part := touch_snd_sublist (rl.removeStale (now - rl.window)) key now
  have rest := fresh.sublist part
  have touched := fresh.sound_bucket key
  rw [← touch_fst] at touched
  have seen : ((rl.removeStale (now - rl.window)).touch key now).1.lastSeen = now := by rw [touch_fst]
  have named : ((rl.removeStale (now - rl.window)).touch key now).1.key = key := by
    rw [touch_fst]
    cases found : (rl.removeStale (now - rl.window)).bucket key with
    | none => rfl
    | some b =>
      have held := bucket_key found
      exact held
  rw [Table.attempt_eq]
  dsimp only
  generalize (rl.removeStale (now - rl.window)).touch key now = touch at *
  obtain ⟨sound, same⟩ := touched.attempt rl.window
  rw [seen] at sound same
  have key' := (Table.attempt_key touch.1 rl.limit rl.window now).trans named
  refine ⟨?_, List.pairwise_cons.mpr ⟨fun b member => ?_, rest.sorted⟩, ?_, ?_, few⟩
  · refine List.nodup_cons.mpr ⟨fun member => ?_, rest.unique⟩
    obtain ⟨b, listed, held⟩ := List.mem_map.mp member
    exact others b listed (held.trans key')
  · exact (rest.past b member).trans_eq same.symm
  · intro b member
    rcases List.mem_cons.mp member with rfl | listed
    · exact same.le
    · exact rest.past b listed
  · intro b member
    rcases List.mem_cons.mp member with rfl | listed
    · exact sound
    · exact rest.sound b listed

theorem forget_order (rl : RateLimiter) (key : String) : ∃ order, rl.forget key = { rl with order } := by
  rcases forget_cases rl key with ⟨kept, -⟩ | ⟨gone, -⟩ | mapped
  · exact ⟨_, kept⟩
  · exact ⟨_, gone⟩
  · exact ⟨_, mapped⟩

theorem Tidy.forget (tidy : rl.Tidy now) (key : String) : (rl.forget key).Tidy now := by
  rcases forget_cases rl key with ⟨same, -⟩ | ⟨gone, -⟩ | mapped
  · rwa [same]
  · rw [gone]
    exact tidy.sublist (others_sublist rl key)
  · have seen (b : Bucket) : (withoutNewest key b).lastSeen = b.lastSeen := by
      rw [withoutNewest]
      split <;> rfl
    rw [mapped]
    refine ⟨?_, ?_, ?_, ?_, ?_⟩
    · have keys : Bucket.key ∘ withoutNewest key = Bucket.key := funext (withoutNewest_key key)
      rw [List.map_map, keys]
      exact tidy.unique
    · refine List.pairwise_map.mpr (tidy.sorted.imp fun {a b} before => ?_)
      rwa [seen, seen]
    · intro b member
      obtain ⟨c, listed, rfl⟩ := List.mem_map.mp member
      exact (seen c).trans_le (tidy.past c listed)
    · intro b member
      obtain ⟨c, listed, rfl⟩ := List.mem_map.mp member
      have sound := tidy.sound c listed
      have part : c.times.dropLast.Sublist c.times := List.dropLast_sublist _
      rw [withoutNewest]
      split
      · exact ⟨sound.ordered.sublist part, part.length_le.trans sound.few,
          fun t held => sound.seen t (part.subset held), sound.refused⟩
      · exact sound
    · exact (List.length_map _).trans_le tidy.room

theorem Tidy.forall_fresh (tidy : rl.Tidy now) (cutoff : Int) :
    ∀ b ∈ (rl.removeStale cutoff).order, cutoff < b.lastSeen := by
  intro b member
  rw [tidy.removeStale_order] at member
  exact of_decide_eq_true (List.mem_filter.mp member).2

theorem Tidy.attempt_fresh (tidy : rl.Tidy now) (positive : 0 < rl.window) (key : String) :
    ∀ b ∈ (rl.attempt key now).2.order, now - rl.window < b.lastSeen := by
  have part := touch_snd_sublist (rl.removeStale (now - rl.window)) key now
  have touched := (tidy.removeStale (now - rl.window)).sound_bucket key
  rw [← touch_fst] at touched
  have seen : ((rl.removeStale (now - rl.window)).touch key now).1.lastSeen = now := by rw [touch_fst]
  have same := (touched.attempt rl.window).2
  rw [seen] at same
  rw [Table.attempt_eq]
  intro b member
  rcases List.mem_cons.mp member with rfl | listed
  · exact (show now - rl.window < now by omega).trans_eq same.symm
  · exact tidy.forall_fresh _ b (part.subset listed)

/-! ## The bucket of one client -/

/-- `Forget`, on the bucket. -/
def forgotten (b : Bucket) : Option Bucket :=
  match b.times.length with
  | 0 => some b
  | 1 => none
  | _ => some { b with times := b.times.dropLast }

theorem bucket_forget (rl : RateLimiter) (key client : String) :
    (rl.forget key).bucket client =
      if client = key then (rl.bucket client).bind forgotten else rl.bucket client := by
  by_cases same : client = key
  · subst same
    rw [if_pos rfl, forget]
    cases found : rl.bucket client with
    | none => exact found
    | some b =>
      rw [Option.bind_some, forgotten]
      dsimp only
      generalize b.times.length = n
      rcases n with _ | _ | n
      · exact found
      · refine List.find?_eq_none.mpr fun c member held => ?_
        exact of_decide_eq_true (List.mem_filter.mp member).2 (of_decide_eq_true held)
      · refine (bucket_withoutNewest rl client client).trans ?_
        rw [found, Option.map_some, withoutNewest, if_pos (bucket_key found)]
        rfl
  · rw [if_neg same]
    rcases forget_cases rl key with ⟨kept, -⟩ | ⟨gone, -⟩ | mapped
    · rw [kept]
    · rw [gone]
      exact find?_others rl same
    · rw [mapped, bucket_withoutNewest]
      cases held : rl.bucket client with
      | none => rfl
      | some c => rw [Option.map_some, withoutNewest, if_neg ((bucket_key held).trans_ne same)]

theorem bucket_attempt_self (rl : RateLimiter) (key : String) (now : Int) :
    let b : Bucket :=
      { ((rl.removeStale (now - rl.window)).bucket key).getD { key, lastSeen := now } with lastSeen := now }
    (rl.attempt key now).1 = (b.attempt rl.limit rl.window now).1 ∧
      (rl.attempt key now).2.bucket key = some (b.attempt rl.limit rl.window now).2 := by
  intro b
  have touched : ((rl.removeStale (now - rl.window)).touch key now).1 = b := touch_fst _ key now
  have named : b.key = key := by
    cases found : (rl.removeStale (now - rl.window)).bucket key with
    | none => simp only [b, found, Option.getD_none]
    | some c => simpa only [b, found, Option.getD_some] using bucket_key found
  rw [Table.attempt_eq, touched]
  refine ⟨rfl, List.find?_cons_of_pos ?_⟩
  rw [Table.attempt_key, named, decide_eq_true rfl]

/-- Another client's attempt takes the bucket, or leaves it. -/
theorem Tidy.bucket_attempt_other (tidy : rl.Tidy now) (other : client ≠ key)
    (spared : (rl.removeStale (now - rl.window)).bucket client ≠ none →
      (rl.attempt key now).2.bucket client ≠ none) :
    (rl.attempt key now).2.bucket client = (rl.removeStale (now - rl.window)).bucket client := by
  have fresh := tidy.removeStale (now - rl.window)
  have named : ((rl.removeStale (now - rl.window)).touch key now).1.key ≠ client := by
    rw [touch_fst]
    cases found : (rl.removeStale (now - rl.window)).bucket key with
    | none => exact Ne.symm other
    | some b =>
      have held := bucket_key found
      exact held.trans_ne (Ne.symm other)
  have rest : (rl.attempt key now).2.bucket client =
      ((rl.removeStale (now - rl.window)).touch key now).2.find? fun b => b.key = client := by
    rw [Table.attempt_eq]
    refine List.find?_cons_of_neg ?_
    rwa [Table.attempt_key, decide_eq_true_eq]
  have part := touch_snd_sublist (rl.removeStale (now - rl.window)) key now
  rw [rest] at spared ⊢
  generalize rl.removeStale (now - rl.window) = stale at *
  -- the bucket that is left is the client's only one
  cases found : stale.bucket client with
  | none =>
    refine List.find?_eq_none.mpr fun b member => ?_
    exact List.find?_eq_none.mp found b (part.subset member)
  | some b =>
    obtain ⟨c, left⟩ := Option.ne_none_iff_exists'.mp (spared (by rw [found]; exact Option.some_ne_none b))
    have member := part.subset (List.mem_of_find?_eq_some left)
    have held : c.key = client := of_decide_eq_true (List.find?_some (p := fun c : Bucket => decide (c.key = client)) left)
    rw [left, ← found, (bucket_eq_some_iff fresh.unique).mpr ⟨member, held⟩]

end RateLimiter

/-! ## Runs -/

inductive Call
  | tick (d : Nat)
  | attempt (key : String)
  | forget (key : String)
  | retryAfter (key : String)
  | cleanup

/-- The clock, the table, and the answers so far. -/
structure Clocked where
  now : Int
  table : Table
  answers : List (String × (Bool × Bool)) := []

namespace Clocked

def step (s : Clocked) : Call → Option Clocked
  | .tick d => some { s with now := s.now + d }
  | .attempt key =>
    (s.table.attempt key s.now).map fun (answer, table) =>
      { s with table, answers := s.answers ++ [(key, answer)] }
  | .forget key => some { s with table := s.table.forget key }
  | .retryAfter _ => some s
  | .cleanup => some { s with table := s.table.cleanup s.now }

def answersOf (client : String) (s : Clocked) : List (Bool × Bool) :=
  (s.answers.filter fun a => a.1 = client).map (·.2)

/-- Of the limiter the bucket of one client, when no other client has an effect on it. -/
structure Alone where
  now : Int
  bucket : Option Bucket
  answers : List (Bool × Bool) := []

/-- The client's own calls, on a bucket that is never removed for being stale and never handed on. -/
def Alone.step (client : String) (limit : Nat) (window : Int) (a : Alone) : Call → Alone
  | .tick d => { a with now := a.now + d }
  | .attempt key =>
    if key = client then
      let b : Bucket := { a.bucket.getD { key, lastSeen := a.now } with lastSeen := a.now }
      let (answer, b) := b.attempt limit window a.now
      { a with bucket := some b, answers := a.answers ++ [answer] }
    else a
  | .forget key => if key = client then { a with bucket := a.bucket.bind RateLimiter.forgotten } else a
  | .retryAfter _ => a
  | .cleanup => a

/-- The call does not hand the client's bucket to another client while it is not stale. -/
def Spares (client : String) (s : Clocked) : Call → Prop
  | .attempt key => client ∈ (s.table.removeStale (s.now - s.table.window)).attempts →
      ∀ answer table, s.table.attempt key s.now = some (answer, table) → client ∈ table.attempts
  | .tick _ => True
  | .forget _ => True
  | .retryAfter _ => True
  | .cleanup => True

/-- What every run keeps up. -/
structure Sound (limit : Nat) (window : Int) (maxKeys : Nat) (s : Clocked) : Prop where
  linked : s.table.Linked
  tidy : s.table.limiter.Tidy s.now
  sameLimit : s.table.limit = limit
  sameWindow : s.table.window = window
  sameRoom : s.table.maxKeys = maxKeys

variable {limit : Nat} {window now : Int} {maxKeys : Nat} {s : Clocked}

theorem Sound.of_order (sound : s.Sound limit window maxKeys) {table : Table} (linked : table.Linked)
    {order : List Bucket} (same : table.limiter = { s.table.limiter with order })
    (tidy : table.limiter.Tidy s.now) (answers : List (String × (Bool × Bool))) :
    ({ s with table, answers } : Clocked).Sound limit window maxKeys where
  linked := linked
  tidy := tidy
  sameLimit := (congrArg RateLimiter.limit same).trans sound.sameLimit
  sameWindow := (congrArg RateLimiter.window same).trans sound.sameWindow
  sameRoom := (congrArg RateLimiter.maxKeys same).trans sound.sameRoom

/-- No call fails. -/
theorem Sound.next (sound : s.Sound limit window maxKeys) (room : 0 < maxKeys) (call : Call) :
    ∃ t, s.step call = some t ∧ t.Sound limit window maxKeys := by
  have room' : 0 < s.table.limiter.maxKeys := room.trans_eq sound.sameRoom.symm
  cases call with
  | tick d =>
    have later : s.now ≤ s.now + d := Int.le_add_of_nonneg_right (Int.natCast_nonneg d)
    exact ⟨_, rfl, { sound with tidy := sound.tidy.later later }⟩
  | attempt key =>
    obtain ⟨table, done, linked, same⟩ := Table.attempt_linked sound.linked room' key s.now
    have made := same.trans (congrArg Prod.snd (Table.attempt_eq s.table.limiter key s.now))
    refine ⟨_, by rw [Clocked.step, done]; rfl, sound.of_order linked made ?_ _⟩
    rw [same]
    exact sound.tidy.attempt room' key
  | forget key =>
    obtain ⟨linked, same⟩ := Table.forget_linked sound.linked key
    obtain ⟨order, left⟩ := s.table.limiter.forget_order key
    refine ⟨_, rfl, sound.of_order linked (same.trans left) ?_ _⟩
    rw [same]
    exact sound.tidy.forget key
  | retryAfter key => exact ⟨s, rfl, sound⟩
  | cleanup =>
    obtain ⟨linked, same⟩ := Table.cleanup_linked sound.linked s.now
    refine ⟨_, rfl, sound.of_order linked same ?_ _⟩
    rw [same]
    exact sound.tidy.removeStale _

/-! ## One client -/

def timesOf (bucket : Option Bucket) : List Int := (bucket.map Bucket.times).getD []

def refusedAt (bucket : Option Bucket) : Option Int := bucket.bind Bucket.refusedAt

/-- Two buckets of a client say the same, but for what has expired. -/
structure Alike (cutoff : Int) (bucket other : Option Bucket) : Prop where
  times : timesOf bucket = timesOf other ∨ bucket = none ∧ ∀ t ∈ timesOf other, t ≤ cutoff
  refused : refusedAt bucket = refusedAt other ∨
    (∀ t ∈ refusedAt bucket, t ≤ cutoff) ∧ ∀ t ∈ refusedAt other, t ≤ cutoff

variable {bucket other : Option Bucket} {cutoff : Int}

theorem Alike.later (alike : Alike cutoff bucket other) {cutoff' : Int} (later : cutoff ≤ cutoff') :
    Alike cutoff' bucket other where
  times := alike.times.imp_right fun ⟨gone, old⟩ => ⟨gone, fun t member => (old t member).trans later⟩
  refused := alike.refused.imp_right fun ⟨old, old'⟩ =>
    ⟨fun t member => (old t member).trans later, fun t member => (old' t member).trans later⟩

/-- A bucket may go once it is stale. -/
theorem Alike.removeStale (alike : Alike cutoff bucket other) (sound : ∀ b ∈ bucket, b.Sound limit) :
    Alike cutoff (bucket.filter fun b => cutoff < b.lastSeen) other := by
  cases bucket with
  | none => exact alike
  | some b =>
    by_cases fresh : cutoff < b.lastSeen
    · rwa [Option.filter_some, if_pos (decide_eq_true fresh)]
    · rw [Option.filter_some, if_neg (by simpa using fresh)]
      have stale := not_lt.mp fresh
      have held := sound b rfl
      refine ⟨.inr ⟨rfl, ?_⟩, .inr ⟨by simp [refusedAt], ?_⟩⟩
      · rcases alike.times with same | ⟨gone, -⟩
        · rw [← same]
          exact fun t member => (held.seen t member).trans stale
        · cases gone
      · rcases alike.refused with same | ⟨-, old⟩
        · rw [← same]
          exact fun t member => (held.refused t member).trans stale
        · exact old

theorem timesOf_forgotten (bucket : Option Bucket) :
    timesOf (bucket.bind RateLimiter.forgotten) = (timesOf bucket).dropLast := by
  cases bucket with
  | none => rfl
  | some b =>
    rw [Option.bind_some, RateLimiter.forgotten, timesOf, timesOf]
    rcases times : b.times with _ | ⟨t, _ | ⟨t', rest⟩⟩
    · simp [times]
    · simp [times]
    · simp [times]

theorem refusedAt_forgotten (bucket : Option Bucket) :
    refusedAt (bucket.bind RateLimiter.forgotten) =
      if (timesOf bucket).length = 1 then none else refusedAt bucket := by
  cases bucket with
  | none => rfl
  | some b =>
    rw [Option.bind_some, RateLimiter.forgotten, timesOf]
    rcases times : b.times with _ | ⟨t, _ | ⟨t', rest⟩⟩
    · simp [times]
    · simp [times, refusedAt]
    · simp [times, refusedAt]

theorem Alike.forget (alike : Alike cutoff bucket other) :
    Alike cutoff (bucket.bind RateLimiter.forgotten) (other.bind RateLimiter.forgotten) := by
  constructor
  · rw [timesOf_forgotten, timesOf_forgotten]
    refine alike.times.imp (congrArg List.dropLast) fun ⟨gone, old⟩ => ⟨?_, fun t member => ?_⟩
    · rw [gone]
      rfl
    · exact old t (List.dropLast_subset _ member)
  · rw [refusedAt_forgotten, refusedAt_forgotten]
    rcases alike.times with same | ⟨rfl, -⟩
    · rw [same]
      split
      · exact .inl rfl
      · exact alike.refused
    · split
      next empty => cases empty
      · split
        · exact .inl rfl
        · exact alike.refused

theorem attempt_alike {b c : Bucket}
    (times : (b.times.dropWhile fun t => t ≤ now - window) = c.times.dropWhile fun t => t ≤ now - window)
    (refused : b.refusedAt = c.refusedAt ∨
      (∀ t ∈ b.refusedAt, t ≤ now - window) ∧ ∀ t ∈ c.refusedAt, t ≤ now - window) :
    (b.attempt limit window now).1 = (c.attempt limit window now).1 ∧
      Alike (now - window) (some (b.attempt limit window now).2) (some (c.attempt limit window now).2) := by
  have recent : (b.refusedAt.any fun t => t > now - window) = c.refusedAt.any fun t => t > now - window := by
    rcases refused with same | ⟨old, old'⟩
    · rw [same]
    · have none (o : Option Int) (old : ∀ t ∈ o, t ≤ now - window) : (o.any fun t => t > now - window) = false := by
        cases o with
        | none => rfl
        | some t => simpa using old t rfl
      rw [none _ old, none _ old']
  have same : (b.expire (now - window)).times = (c.expire (now - window)).times := times
  rw [Bucket.attempt, Bucket.attempt]
  dsimp only
  rw [same]
  split
  · rw [show (b.expire (now - window)).refusedAt = b.refusedAt from rfl,
      show (c.expire (now - window)).refusedAt = c.refusedAt from rfl, recent]
    refine ⟨rfl, ?_⟩
    dsimp only
    split
    · exact ⟨.inl rfl, .inl rfl⟩
    · exact ⟨.inl same, refused⟩
  · exact ⟨rfl, .inl rfl, refused⟩

/-- The answer, and what it leaves. -/
theorem Alike.attempt (alike : Alike (now - window) bucket other) (limit : Nat) (key : String) :
    let first : Bucket := { bucket.getD { key, lastSeen := now } with lastSeen := now }
    let second : Bucket := { other.getD { key, lastSeen := now } with lastSeen := now }
    (first.attempt limit window now).1 = (second.attempt limit window now).1 ∧
      Alike (now - window) (some (first.attempt limit window now).2)
        (some (second.attempt limit window now).2) := by
  intro first second
  have times (o : Option Bucket) : ({ o.getD { key, lastSeen := now } with lastSeen := now } : Bucket).times =
      timesOf o := by
    cases o <;> rfl
  have refused (o : Option Bucket) : ({ o.getD { key, lastSeen := now } with lastSeen := now } : Bucket).refusedAt =
      refusedAt o := by
    cases o <;> rfl
  refine attempt_alike ?_ ?_
  · rw [times, times]
    rcases alike.times with same | ⟨rfl, old⟩
    · rw [same]
    · exact (List.dropWhile_eq_nil_iff.mpr fun t member => decide_eq_true (old t member)).symm
  · rw [refused, refused]
    exact alike.refused

/-- The client's bucket in the table says what it would if the client were alone. -/
structure Follows (client : String) (s : Clocked) (a : Alone) : Prop where
  now : a.now = s.now
  alike : Alike (s.now - s.table.window) (s.table.limiter.bucket client) a.bucket

theorem answersOf_concat (client : String) (s : Clocked) (table : Table) (key : String) (answer : Bool × Bool) :
    ({ s with table, answers := s.answers ++ [(key, answer)] } : Clocked).answersOf client =
      s.answersOf client ++ if key = client then [answer] else [] := by
  rw [answersOf, List.filter_append, List.map_append, answersOf]
  by_cases own : key = client
  · simp [own]
  · simp [own]

/-- After the stale buckets are gone. -/
theorem Sound.alike_removeStale (sound : s.Sound limit window maxKeys) {client : String}
    (alike : Alike cutoff (s.table.limiter.bucket client) other) :
    Alike cutoff ((s.table.limiter.removeStale cutoff).bucket client) other := by
  rw [sound.tidy.bucket_removeStale]
  exact alike.removeStale fun b found => sound.tidy.sound b (RateLimiter.bucket_mem found)

theorem Sound.follows_attempt (sound : s.Sound limit window maxKeys) (room : 0 < maxKeys) {client key : String}
    {a : Alone} (follows : Follows client s a) (spares : Spares client s (.attempt key)) {t : Clocked}
    (done : s.step (.attempt key) = some t) :
    Follows client t (a.step client limit window (.attempt key)) ∧
      ∃ new, t.answersOf client = s.answersOf client ++ new ∧
        (a.step client limit window (.attempt key)).answers = a.answers ++ new := by
  have room' : 0 < s.table.limiter.maxKeys := room.trans_eq sound.sameRoom.symm
  obtain ⟨table, attempted, linked, same⟩ := Table.attempt_linked sound.linked room' key s.now
  rw [Clocked.step, attempted] at done
  obtain rfl := Option.some.inj done
  have keeps : table.window = s.table.window :=
    congrArg RateLimiter.window (same.trans (congrArg Prod.snd (Table.attempt_eq s.table.limiter key s.now)))
  have stale := sound.alike_removeStale follows.alike
  rw [answersOf_concat, Alone.step, follows.now, ← sound.sameLimit, ← sound.sameWindow]
  by_cases own : key = client
  · subst own
    obtain ⟨answer, left⟩ := RateLimiter.bucket_attempt_self s.table.limiter key s.now
    obtain ⟨agree, alike⟩ := stale.attempt s.table.limit key
    rw [if_pos rfl, if_pos rfl]
    refine ⟨⟨rfl, ?_⟩, [_], rfl, ?_⟩
    · dsimp only
      rw [keeps, same, left]
      exact alike
    · dsimp only
      rw [answer, ← agree]
      rfl
  · rw [if_neg own, if_neg own]
    -- another client's attempt; what it takes room from is not this client's bucket
    refine ⟨⟨follows.now, ?_⟩, [], rfl, (List.append_nil _).symm⟩
    dsimp only
    rw [keeps, same, sound.tidy.bucket_attempt_other (Ne.symm own) ?_]
    · exact stale
    · obtain ⟨fresh, left⟩ := Table.removeStale_linked sound.linked (s.now - s.table.window)
      have tracked := spares
      rw [Spares, fresh.mem_attempts, left] at tracked
      intro active
      have kept := tracked active _ table attempted
      rwa [linked.mem_attempts, same] at kept

theorem Sound.follows (sound : s.Sound limit window maxKeys) (room : 0 < maxKeys) {client : String}
    {a : Alone} (follows : Follows client s a) {call : Call} (spares : Spares client s call) {t : Clocked}
    (done : s.step call = some t) :
    Follows client t (a.step client limit window call) ∧
      ∃ new, t.answersOf client = s.answersOf client ++ new ∧
        (a.step client limit window call).answers = a.answers ++ new := by
  cases call with
  | tick d =>
    -- times that are not past the cutoff now will not be later
    obtain rfl := Option.some.inj done
    have later : s.now - s.table.window ≤ s.now + d - s.table.window := by omega
    refine ⟨⟨?_, follows.alike.later later⟩, [], (List.append_nil _).symm, (List.append_nil _).symm⟩
    rw [Alone.step, follows.now]
  | attempt key => exact sound.follows_attempt room follows spares done
  | forget key =>
    obtain rfl := Option.some.inj done
    obtain ⟨linked, same⟩ := Table.forget_linked sound.linked key
    obtain ⟨order, left⟩ := s.table.limiter.forget_order key
    have keeps : (s.table.forget key).window = s.table.window := congrArg RateLimiter.window (same.trans left)
    rw [Alone.step]
    by_cases own : key = client
    · subst own
      rw [if_pos rfl]
      refine ⟨⟨follows.now, ?_⟩, [], (List.append_nil _).symm, (List.append_nil _).symm⟩
      dsimp only
      rw [keeps, same, RateLimiter.bucket_forget, if_pos rfl]
      exact follows.alike.forget
    · rw [if_neg own]
      -- another client's bucket
      refine ⟨⟨follows.now, ?_⟩, [], (List.append_nil _).symm, (List.append_nil _).symm⟩
      dsimp only
      rw [keeps, same, RateLimiter.bucket_forget, if_neg (Ne.symm own)]
      exact follows.alike
  | retryAfter key =>
    obtain rfl := Option.some.inj done
    exact ⟨follows, [], (List.append_nil _).symm, (List.append_nil _).symm⟩
  | cleanup =>
    obtain rfl := Option.some.inj done
    obtain ⟨linked, same⟩ := Table.cleanup_linked sound.linked s.now
    refine ⟨⟨follows.now, ?_⟩, [], (List.append_nil _).symm, (List.append_nil _).symm⟩
    have keeps : (s.table.cleanup s.now).window = s.table.window := congrArg RateLimiter.window same
    dsimp only
    rw [keeps, same]
    exact sound.alike_removeStale follows.alike

/-- What holds of a table that has served some calls. -/
structure Consistent (maxKeys limit : Nat) (t : Table) : Prop where
  nodup : t.order.Nodup
  entry : ∀ key e, t.attempts.lookup key = some e ↔ e ∈ t.order ∧ (t.buckets e).key = key
  size : t.attempts.keys.card = t.order.length
  bounded : t.attempts.keys.card ≤ maxKeys
  latestFirst : (t.order.map t.buckets).Pairwise fun a b => b.lastSeen ≤ a.lastSeen
  ordered : ∀ e ∈ t.order, (t.buckets e).times.Pairwise (· ≤ ·)
  few : ∀ e ∈ t.order, (t.buckets e).times.length ≤ limit
  seen : ∀ e ∈ t.order, ∀ time ∈ (t.buckets e).times, time ≤ (t.buckets e).lastSeen

def start (limit : Nat) (window : Int) (maxKeys : Nat) (now : Int) : Clocked where
  now := now
  table := { limit, window, maxKeys }

theorem sound_start (limit : Nat) (window : Int) (maxKeys : Nat) (now : Int) :
    (start limit window maxKeys now).Sound limit window maxKeys where
  linked :=
    { nodup := List.nodup_nil
      entry := fun key e => by simp [start]
      allocated := fun e member => absurd member List.not_mem_nil }
  tidy :=
    { unique := List.nodup_nil
      sorted := List.Pairwise.nil
      past := fun b member => absurd member List.not_mem_nil
      sound := fun b member => absurd member List.not_mem_nil
      room := Nat.zero_le _ }
  sameLimit := rfl
  sameWindow := rfl
  sameRoom := rfl

theorem Sound.run (sound : s.Sound limit window maxKeys) (room : 0 < maxKeys) (calls : List Call) :
    ∃ t, exec step s calls = some t ∧ t.Sound limit window maxKeys := by
  induction calls generalizing s with
  | nil => exact ⟨s, rfl, sound⟩
  | cons call calls ih =>
    obtain ⟨u, done, kept⟩ := sound.next room call
    obtain ⟨t, rest, last⟩ := ih kept
    exact ⟨t, exec_cons.mpr ⟨u, done, rest⟩, last⟩

theorem Sound.consistent (sound : s.Sound limit window maxKeys) : Consistent maxKeys limit s.table where
  nodup := sound.linked.nodup
  entry := sound.linked.entry
  size := sound.linked.card
  bounded := by
    have room := sound.tidy.room
    rw [Table.limiter, List.length_map] at room
    rw [sound.linked.card, ← sound.sameRoom]
    exact room
  latestFirst := sound.tidy.sorted
  ordered e member := (sound.tidy.sound _ (List.mem_map_of_mem member)).ordered
  few e member := sound.sameLimit ▸ (sound.tidy.sound _ (List.mem_map_of_mem member)).few
  seen e member := (sound.tidy.sound _ (List.mem_map_of_mem member)).seen

theorem Sound.fresh (sound : s.Sound limit window maxKeys) (room : 0 < maxKeys) (positive : 0 < window)
    {call : Call} (removes : call = .cleanup ∨ ∃ key, call = .attempt key) {t : Clocked}
    (done : s.step call = some t) :
    ∀ e ∈ t.table.order, t.now - window < (t.table.buckets e).lastSeen := by
  rcases removes with rfl | ⟨key, rfl⟩
  · obtain rfl := Option.some.inj done
    obtain ⟨-, same⟩ := Table.cleanup_linked sound.linked s.now
    intro e member
    have listed : (s.table.cleanup s.now).buckets e ∈ (s.table.cleanup s.now).limiter.order :=
      List.mem_map_of_mem member
    rw [same] at listed
    rw [← sound.sameWindow]
    exact sound.tidy.forall_fresh _ _ listed
  · have room' : 0 < s.table.limiter.maxKeys := room.trans_eq sound.sameRoom.symm
    obtain ⟨table, attempted, -, same⟩ := Table.attempt_linked sound.linked room' key s.now
    rw [Clocked.step, attempted] at done
    obtain rfl := Option.some.inj done
    intro e member
    have listed : table.buckets e ∈ table.limiter.order := List.mem_map_of_mem member
    rw [same] at listed
    have long : 0 < s.table.limiter.window := positive.trans_eq sound.sameWindow.symm
    rw [← sound.sameWindow]
    exact sound.tidy.attempt_fresh long key _ listed

theorem Sound.answers (sound : s.Sound limit window maxKeys) (room : 0 < maxKeys) {client : String} {a : Alone}
    (follows : Follows client s a) {later : List Call} (spared : Along step (Spares client) s later) :
    ∃ t, exec step s later = some t ∧ ∃ new, t.answersOf client = s.answersOf client ++ new ∧
      (later.foldl (Alone.step client limit window) a).answers = a.answers ++ new := by
  induction later generalizing s a with
  | nil => exact ⟨s, rfl, [], (List.append_nil _).symm, (List.append_nil _).symm⟩
  | cons call later ih =>
    obtain ⟨u, done, kept⟩ := sound.next room call
    obtain ⟨follows', new, answer, answer'⟩ := sound.follows room follows spared.1 done
    obtain ⟨t, rest, last, answers, answers'⟩ := ih kept follows' (spared.2 u done)
    refine ⟨t, exec_cons.mpr ⟨u, done, rest⟩, new ++ last, ?_, ?_⟩
    · rw [answers, answer, List.append_assoc]
    · rw [List.foldl_cons, answers', answer', List.append_assoc]

/-- After any calls the table is consistent, and from then on a client that no other one displaces gets
the answers it would get alone. -/
theorem table_consistent (limit : Nat) {window : Int} {maxKeys : Nat} (positive : 0 < window)
    (room : 0 < maxKeys) (now : Int) (calls : List Call) :
    ∃ s, exec step (start limit window maxKeys now) calls = some s ∧
      Consistent maxKeys limit s.table ∧
      (∀ call, call = .cleanup ∨ (∃ key, call = .attempt key) → ∃ t, s.step call = some t ∧
        ∀ e ∈ t.table.order, t.now - window < (t.table.buckets e).lastSeen) ∧
      ∀ client later, Along step (Spares client) s later →
        ∃ t, exec step s later = some t ∧ t.answersOf client = s.answersOf client ++
          (later.foldl (Alone.step client limit window)
            { now := s.now, bucket := (s.table.attempts.lookup client).map s.table.buckets }).answers := by
  obtain ⟨s, run, sound⟩ := (sound_start limit window maxKeys now).run room calls
  refine ⟨s, run, sound.consistent, fun call removes => ?_, fun client later spared => ?_⟩
  · obtain ⟨t, done, -⟩ := sound.next room call
    exact ⟨t, done, sound.fresh room positive removes done⟩
  · have same : Follows client s
        { now := s.now, bucket := (s.table.attempts.lookup client).map s.table.buckets } := by
      refine ⟨rfl, ?_⟩
      rw [sound.linked.bucket_eq]
      exact ⟨.inl rfl, .inl rfl⟩
    obtain ⟨t, rest, new, answers, alone⟩ := sound.answers room same spared
    exact ⟨t, rest, by rw [answers, alone, List.nil_append]⟩

/-- Three clients in a table for two. -/
theorem table_consistent_full :
    ∃ s, exec step (start 5 60 2 0) [.attempt "a", .tick 1, .attempt "b", .attempt "c"] = some s ∧
      Consistent 2 5 s.table := by
  obtain ⟨s, run, consistent, -⟩ := table_consistent 5 (by decide : (0 : Int) < 60) (by decide : 0 < 2) 0
    [.attempt "a", .tick 1, .attempt "b", .attempt "c"]
  exact ⟨s, run, consistent⟩

end Clocked

end Dockgraph.Auth
