import Dockgraph.Auth.LoginLimit
import Mathlib.Data.Finmap

/-!
# The limiter's map and list (`auth/ratelimit.go`)

The map has the list element of each key, and an element is the place of one bucket in memory. With
both in step the table is the limiter that has the buckets themselves in a list.
-/
namespace Dockgraph.Auth

/-- A `*list.Element`; its `*bucket` never changes. -/
abbrev Element := Nat

structure Table where
  attempts : Finmap fun _ : String => Element := ∅
  order : List Element := []
  /-- The bucket of an element. -/
  buckets : Element → Bucket := fun _ => { key := "", lastSeen := 0 }
  /-- Elements from here on are not in use yet. -/
  next : Element := 0
  limit : Nat
  window : Int
  maxKeys : Nat

/-- The rest of `attempt`, once the bucket is found. -/
def Bucket.attempt (b : Bucket) (limit : Nat) (window now : Int) : (Bool × Bool) × Bucket :=
  let cutoff := now - window
  let b := b.expire cutoff
  if b.times.length ≥ limit then
    let firstRefusal := !b.refusedAt.any fun t => t > cutoff
    ((false, firstRefusal), if firstRefusal then { b with refusedAt := some now } else b)
  else ((true, false), { b with times := b.times ++ [now] })

namespace Table

def write (t : Table) (e : Element) (b : Bucket) : Table :=
  { t with buckets := Function.update t.buckets e b }

def remove (t : Table) (e : Element) : Table :=
  { t with
    attempts := t.attempts.erase (t.buckets e).key
    order := t.order.erase e }

def removeStale (t : Table) (cutoff : Int) : Table :=
  match _back : t.order.getLast? with
  | none => t
  | some e => if (t.buckets e).lastSeen > cutoff then t else (t.remove e).removeStale cutoff
termination_by t.order.length
decreasing_by
  rw [remove, List.length_erase_of_mem (List.mem_of_getLast? _back)]
  exact Nat.sub_one_lt (List.length_pos_of_mem (List.mem_of_getLast? _back)).ne'

/-- `MoveToFront` -/
def moveToFront (t : Table) (e : Element) : Table := { t with order := e :: t.order.erase e }

/-- The element of the key; `none` is a nil dereference. -/
def touch (t : Table) (key : String) (now : Int) : Option (Element × Table) :=
  let found : Option (Element × Table) :=
    match t.attempts.lookup key with
    | some e => some (e, t.moveToFront e)
    | none =>
      if t.attempts.keys.card ≥ t.maxKeys then
        match t.order.getLast? with
        | none => none
        | some e =>
          let b := t.buckets e
          let t := { t with attempts := t.attempts.erase b.key }
          let t := (t.write e { key, lastSeen := now }).moveToFront e
          some (e, { t with attempts := t.attempts.insert key e })
      else
        let e := t.next
        let t := t.write e { key, lastSeen := now }
        some (e, { t with attempts := t.attempts.insert key e, order := e :: t.order, next := e + 1 })
  found.map fun (e, t) => (e, t.write e { t.buckets e with lastSeen := now })

def attempt (t : Table) (key : String) (now : Int) : Option ((Bool × Bool) × Table) :=
  let t := t.removeStale (now - t.window)
  (t.touch key now).map fun (e, t) =>
    let (answer, b) := (t.buckets e).attempt t.limit t.window now
    (answer, t.write e b)

/-- Seconds until the oldest attempt expires. -/
def retryAfter (t : Table) (key : String) (now : Int) : Int :=
  match t.attempts.lookup key with
  | none => 0
  | some e =>
    match (t.buckets e).times with
    | [] => 0
    | oldest :: _ =>
      let seconds := (oldest + t.window - now).tdiv 1_000_000_000 + 1
      if seconds < 1 then 1 else seconds

def forget (t : Table) (key : String) : Table :=
  match t.attempts.lookup key with
  | none => t
  | some e =>
    let b := t.buckets e
    match b.times.length with
    | 0 => t
    | 1 => t.remove e
    | _ => t.write e { b with times := b.times.dropLast }

def cleanup (t : Table) (now : Int) : Table := t.removeStale (now - t.window)

/-! ## In step -/

/-- The map and the list have the same elements, each under the key of its bucket. -/
structure Linked (t : Table) : Prop where
  nodup : t.order.Nodup
  entry : ∀ key e, t.attempts.lookup key = some e ↔ e ∈ t.order ∧ (t.buckets e).key = key
  allocated : ∀ e ∈ t.order, e < t.next

/-- The buckets in their order. -/
def limiter (t : Table) : RateLimiter where
  order := t.order.map t.buckets
  limit := t.limit
  window := t.window
  maxKeys := t.maxKeys

variable {t : Table} {e : Element} {key : String}

theorem Linked.inj (linked : t.Linked) {e' : Element} (member : e ∈ t.order) (member' : e' ∈ t.order)
    (same : (t.buckets e).key = (t.buckets e').key) : e = e' := by
  have found := (linked.entry _ e).mpr ⟨member, same⟩
  have found' := (linked.entry _ e').mpr ⟨member', rfl⟩
  exact Option.some.inj (found.symm.trans found')

theorem Linked.keys_nodup (linked : t.Linked) : (t.limiter.order.map Bucket.key).Nodup := by
  rw [limiter, List.map_map]
  exact linked.nodup.map_on fun e member e' member' same => linked.inj member member' same

theorem Linked.card (linked : t.Linked) : t.attempts.keys.card = t.order.length := by
  have same : t.attempts.keys = (t.limiter.order.map Bucket.key).toFinset := by
    ext key
    rw [Finmap.mem_keys, ← Finmap.lookup_isSome, Option.isSome_iff_exists, List.mem_toFinset, limiter,
      List.map_map, List.mem_map]
    exact exists_congr fun e => linked.entry key e
  rw [same, List.toFinset_card_of_nodup linked.keys_nodup, limiter, List.length_map, List.length_map]

/-- The buckets without the one of an element. -/
theorem Linked.others_eq (linked : t.Linked) (member : e ∈ t.order) :
    t.limiter.others (t.buckets e).key = (t.order.erase e).map t.buckets := by
  rw [RateLimiter.others, limiter, List.filter_map, linked.nodup.erase_eq_filter]
  congr 1
  refine List.filter_congr fun e' member' => ?_
  have same : (t.buckets e').key = (t.buckets e).key ↔ e' = e :=
    ⟨linked.inj member' member, fun same => by rw [same]⟩
  rw [Function.comp_apply, Bool.eq_iff_iff, decide_eq_true_eq, bne_iff_ne]
  exact not_congr same

theorem Linked.remove (linked : t.Linked) (member : e ∈ t.order) : (t.remove e).Linked where
  nodup := linked.nodup.erase e
  entry key e' := by
    rw [Table.remove, linked.nodup.mem_erase_iff]
    by_cases own : key = (t.buckets e).key
    · rw [own, Finmap.lookup_erase]
      refine iff_of_false nofun fun ⟨⟨other, listed⟩, same⟩ => ?_
      exact other (linked.inj listed member same)
    · rw [Finmap.lookup_erase_ne own, linked.entry]
      refine ⟨fun ⟨listed, named⟩ => ⟨⟨?_, listed⟩, named⟩, fun ⟨⟨_, listed⟩, named⟩ => ⟨listed, named⟩⟩
      rintro rfl
      exact own named.symm
  allocated e' listed := linked.allocated e' (List.mem_of_mem_erase listed)

@[simp] theorem buckets_write (t : Table) (e : Element) (b : Bucket) : (t.write e b).buckets e = b :=
  Function.update_self ..

theorem buckets_write_of_ne {e' : Element} (other : e' ≠ e) (b : Bucket) :
    (t.write e b).buckets e' = t.buckets e' :=
  Function.update_of_ne other ..

/-- A bucket changes and keeps its key. -/
theorem Linked.write (linked : t.Linked) {b : Bucket} (named : b.key = (t.buckets e).key) :
    (t.write e b).Linked where
  nodup := linked.nodup
  entry key e' := by
    have same : ((t.write e b).buckets e').key = (t.buckets e').key := by
      by_cases own : e' = e
      · rw [own, buckets_write, named]
      · rw [buckets_write_of_ne own]
    rw [same]
    exact linked.entry key e'
  allocated := linked.allocated

theorem map_write {elements : List Element} (absent : e ∉ elements) (b : Bucket) :
    elements.map (t.write e b).buckets = elements.map t.buckets :=
  List.map_congr_left fun e' member => buckets_write_of_ne (by rintro rfl; exact absent member) b

theorem getLast_cases (linked : t.Linked) (back : t.order.getLast? = some e) :
    ∃ front, t.order = front ++ [e] ∧ t.order.erase e = front := by
  obtain ⟨front, split⟩ := List.getLast?_eq_some_iff.mp back
  refine ⟨front, split, ?_⟩
  have absent : e ∉ front := fun member => by
    have nodup := linked.nodup
    rw [split] at nodup
    exact (List.nodup_append.mp nodup).2.2 e member e (List.mem_singleton_self e) rfl
  rw [split, List.erase_append_right _ absent, List.erase_cons_head, List.append_nil]

theorem removeStale_linked (linked : t.Linked) (cutoff : Int) :
    (t.removeStale cutoff).Linked ∧
      (t.removeStale cutoff).limiter = t.limiter.removeStale cutoff := by
  fun_induction removeStale t cutoff with
  | case1 t empty =>
    refine ⟨linked, ?_⟩
    rw [limiter, RateLimiter.removeStale, List.getLast?_eq_none_iff.mp empty]
    rfl
  | case2 t e back active =>
    refine ⟨linked, ?_⟩
    obtain ⟨front, split, -⟩ := getLast_cases linked back
    rw [limiter, RateLimiter.removeStale, split, List.map_append, List.map_singleton,
      List.rdropWhile_concat_neg _ _ _ (by simpa using active)]
  | case3 t e back stale ih =>
    obtain ⟨front, split, rest⟩ := getLast_cases linked back
    obtain ⟨kept, same⟩ := ih (linked.remove (List.mem_of_getLast? back))
    refine ⟨kept, same.trans ?_⟩
    rw [limiter, limiter, RateLimiter.removeStale, RateLimiter.removeStale, split, List.map_append,
      List.map_singleton, List.rdropWhile_concat_pos _ _ _ (by simpa using stale)]
    simp only [remove, rest]

theorem Linked.bucket_eq (linked : t.Linked) (key : String) :
    t.limiter.bucket key = (t.attempts.lookup key).map t.buckets := by
  cases found : t.attempts.lookup key with
  | none =>
    refine List.find?_eq_none.mpr fun b member named => ?_
    obtain ⟨e, listed, rfl⟩ := List.mem_map.mp member
    have entry := (linked.entry key e).mpr ⟨listed, of_decide_eq_true named⟩
    rw [found] at entry
    cases entry
  | some e =>
    obtain ⟨listed, named⟩ := (linked.entry key e).mp found
    cases bucket : t.limiter.bucket key with
    | none =>
      have none := List.find?_eq_none.mp bucket (t.buckets e) (List.mem_map_of_mem listed)
      exact absurd (decide_eq_true named) none
    | some b =>
      obtain ⟨e', listed', rfl⟩ := List.mem_map.mp (RateLimiter.bucket_mem bucket)
      rw [linked.inj listed' listed ((RateLimiter.bucket_key bucket).trans named.symm), Option.map_some]

theorem Linked.mem_attempts (linked : t.Linked) : key ∈ t.attempts ↔ t.limiter.bucket key ≠ none := by
  rw [linked.bucket_eq, ← Finmap.lookup_isSome, Option.isSome_iff_ne_none, ne_eq, ne_eq, Option.map_eq_none_iff]

theorem Linked.moveToFront (linked : t.Linked) (member : e ∈ t.order) : (t.moveToFront e).Linked where
  nodup := List.nodup_cons.mpr ⟨linked.nodup.not_mem_erase, linked.nodup.erase e⟩
  entry key e' := (linked.entry key e').trans
    (and_congr_left fun _ => (List.perm_cons_erase member).mem_iff)
  allocated e' listed := linked.allocated e' ((List.perm_cons_erase member).mem_iff.mpr listed)

/-- An element that is not in the list goes to its front, with a bucket of a new key. -/
theorem Linked.enter (linked : t.Linked) (absent : e ∉ t.order) (new : t.attempts.lookup key = none)
    {b : Bucket} (named : b.key = key) {next : Element} (above : ∀ e' ∈ e :: t.order, e' < next) :
    ({ t.write e b with
      attempts := t.attempts.insert key e
      order := e :: t.order
      next := next } : Table).Linked where
  nodup := List.nodup_cons.mpr ⟨absent, linked.nodup⟩
  entry key' e' := by
    simp only [List.mem_cons]
    by_cases here : e' = e
    · subst here
      rw [buckets_write, named]
      by_cases own : key' = key
      · rw [own, Finmap.lookup_insert]
        simp
      · rw [Finmap.lookup_insert_of_ne _ own, linked.entry]
        exact iff_of_false (fun held => absent held.1) fun held => own held.2.symm
    · rw [buckets_write_of_ne here]
      by_cases own : key' = key
      · rw [own, Finmap.lookup_insert]
        refine iff_of_false (fun same => here (Option.some.inj same).symm) fun ⟨listed, held⟩ => ?_
        have entry := (linked.entry key e').mpr ⟨listed.resolve_left here, held⟩
        rw [new] at entry
        cases entry
      · rw [Finmap.lookup_insert_of_ne _ own, linked.entry]
        simp [here]
  allocated := above

theorem limiter_write {rest : List Element} (order : t.order = e :: rest) (absent : e ∉ rest) (b : Bucket) :
    (t.write e b).limiter = { t.limiter with order := b :: rest.map t.buckets } := by
  have buckets : (t.write e b).order.map (t.write e b).buckets = b :: rest.map t.buckets := by
    rw [show (t.write e b).order = e :: rest from order, List.map_cons, buckets_write, map_write absent]
  rw [limiter, buckets]
  rfl

/-- The table with a new element at the front, just seen. -/
def entered (t : Table) (e : Element) (key : String) (now : Int) (next : Element) : Table :=
  let t : Table :=
    { t.write e { key, lastSeen := now } with
      attempts := t.attempts.insert key e
      order := e :: t.order
      next := next }
  t.write e { t.buckets e with lastSeen := now }

theorem Linked.entered (linked : t.Linked) (absent : e ∉ t.order) (new : t.attempts.lookup key = none)
    {now : Int} {next : Element} (above : ∀ e' ∈ e :: t.order, e' < next) :
    (t.entered e key now next).Linked ∧
      (t.entered e key now next).buckets e = { key, lastSeen := now } ∧
      (t.entered e key now next).limiter =
        { t.limiter with order := { key, lastSeen := now } :: t.limiter.order } := by
  let b : Bucket := { key, lastSeen := now }
  have bucket : (t.entered e key now next).buckets e = b := by
    rw [Table.entered, buckets_write]
    exact congrArg (fun b : Bucket => { b with lastSeen := now }) (buckets_write t e b)
  refine ⟨(linked.enter absent new rfl above).write rfl, bucket, ?_⟩
  have others : t.order.map (t.entered e key now next).buckets = t.order.map t.buckets :=
    (map_write absent _).trans (map_write absent b)
  have order : (t.entered e key now next).order.map (t.entered e key now next).buckets =
      b :: t.order.map t.buckets := by
    rw [← others, ← bucket]
    rfl
  rw [limiter, order]
  rfl

/-- What `touch` leaves of the table, and the list of buckets in step with it. -/
structure Touched (t : Table) (key : String) (now : Int) (e : Element) (t' : Table) : Prop where
  linked : t'.Linked
  front : t'.order.head? = some e
  bucket : t'.buckets e = (t.limiter.touch key now).1
  limiter : t'.limiter =
    { t.limiter with order := (t.limiter.touch key now).1 :: (t.limiter.touch key now).2 }

section Touch

variable {now : Int}

theorem touch_known (linked : t.Linked) (found : t.attempts.lookup key = some e) :
    ∃ t', t.touch key now = some (e, t') ∧ t.Touched key now e t' := by
  have bucket := linked.bucket_eq key
  obtain ⟨member, named⟩ := (linked.entry key e).mp found
  rw [touch, found]
  refine ⟨_, rfl, (linked.moveToFront member).write rfl, rfl, ?_, ?_⟩
  · rw [buckets_write, RateLimiter.touch, bucket, found]
    rfl
  · rw [limiter_write rfl linked.nodup.not_mem_erase, RateLimiter.touch, bucket, found, ← named]
    simp only [Option.map_some, linked.others_eq member]
    rfl

/-- The element at the back changes hands. -/
theorem touch_full (linked : t.Linked) (room : 0 < t.maxKeys) (found : t.attempts.lookup key = none)
    (full : t.maxKeys ≤ t.attempts.keys.card) :
    ∃ e t', t.touch key now = some (e, t') ∧ t.Touched key now e t' := by
  have bucket := linked.bucket_eq key
  have length : t.limiter.order.length = t.order.length := List.length_map _
  have some : t.order ≠ [] := List.ne_nil_of_length_pos (by rw [← linked.card]; omega)
  obtain ⟨e, back⟩ := Option.ne_none_iff_exists'.mp (mt List.getLast?_eq_none_iff.mp some)
  obtain ⟨front, split, rest⟩ := getLast_cases linked back
  have member := List.mem_of_getLast? back
  -- as if the element were removed and entered anew
  have new : (t.remove e).attempts.lookup key = none := by
    by_cases own : key = (t.buckets e).key
    · rw [own]
      exact Finmap.lookup_erase ..
    · exact (Finmap.lookup_erase_ne own).trans found
  have above : ∀ e' ∈ e :: (t.remove e).order, e' < t.next := fun e' listed =>
    linked.allocated e' ((List.perm_cons_erase member).mem_iff.mpr listed)
  obtain ⟨kept, bucket', same⟩ := (linked.remove member).entered linked.nodup.not_mem_erase new above
  have last : (t.remove e).limiter.order = t.limiter.order.dropLast := by
    rw [limiter, limiter, split, List.map_append, List.map_singleton, List.dropLast_concat, remove, rest]
  have rest : (if t.limiter.order.length ≥ t.limiter.maxKeys then t.limiter.order.dropLast
      else t.limiter.order) = (t.remove e).limiter.order := by
    rw [if_pos (by rw [length, ← linked.card]; exact full), last]
  rw [touch, found]
  dsimp only
  rw [if_pos full, back]
  refine ⟨e, (t.remove e).entered e key now t.next, rfl, kept, rfl, ?_, ?_⟩
  · rw [RateLimiter.touch, bucket, found]
    exact bucket'
  · rw [same, ← rest, RateLimiter.touch, bucket, found]
    rfl

/-- A new element comes to the front. -/
theorem touch_new (linked : t.Linked) (found : t.attempts.lookup key = none)
    (free : ¬t.maxKeys ≤ t.attempts.keys.card) :
    ∃ e t', t.touch key now = some (e, t') ∧ t.Touched key now e t' := by
  have bucket := linked.bucket_eq key
  have length : t.limiter.order.length = t.order.length := List.length_map _
  have absent : t.next ∉ t.order := fun member => Nat.lt_irrefl _ (linked.allocated _ member)
  have above : ∀ e' ∈ t.next :: t.order, e' < t.next + 1 := fun e' listed => by
    rcases List.mem_cons.mp listed with rfl | listed
    · exact Nat.lt_succ_self _
    · exact Nat.lt_succ_of_lt (linked.allocated e' listed)
  obtain ⟨kept, bucket', same⟩ := linked.entered absent found above
  have rest : (if t.limiter.order.length ≥ t.limiter.maxKeys then t.limiter.order.dropLast
      else t.limiter.order) = t.limiter.order :=
    if_neg (by rw [length, ← linked.card]; exact free)
  rw [touch, found]
  dsimp only
  rw [if_neg free]
  refine ⟨t.next, t.entered t.next key now (t.next + 1), rfl, kept, rfl, ?_, ?_⟩
  · rw [RateLimiter.touch, bucket, found]
    exact bucket'
  · rw [RateLimiter.touch, bucket, found]
    conv_lhs => rw [same, ← rest]
    rfl

theorem touch_linked (linked : t.Linked) (room : 0 < t.maxKeys) (key : String) (now : Int) :
    ∃ e t', t.touch key now = some (e, t') ∧ t.Touched key now e t' := by
  cases found : t.attempts.lookup key with
  | some e => exact ⟨e, touch_known linked found⟩
  | none =>
    by_cases full : t.maxKeys ≤ t.attempts.keys.card
    · exact touch_full linked room found full
    · exact touch_new linked found full

end Touch

theorem attempt_key (b : Bucket) (limit : Nat) (window now : Int) :
    (b.attempt limit window now).2.key = b.key := by
  rw [Bucket.attempt]
  dsimp only
  split
  · split <;> rfl
  · rfl

theorem attempt_eq (rl : RateLimiter) (key : String) (now : Int) :
    let touched := (rl.removeStale (now - rl.window)).touch key now
    let after := touched.1.attempt rl.limit rl.window now
    rl.attempt key now = (after.1, { rl with order := after.2 :: touched.2 }) := by
  intro touched after
  have limit : (rl.removeStale (now - rl.window)).limit = rl.limit := rfl
  rw [show after = touched.1.attempt rl.limit rl.window now from rfl, RateLimiter.attempt, Bucket.attempt]
  simp only [limit]
  split
  · rfl
  · rfl

/-- An attempt on the table is one on its buckets, and never fails. -/
theorem attempt_linked (linked : t.Linked) (room : 0 < t.maxKeys) (key : String) (now : Int) :
    ∃ t', t.attempt key now = some ((t.limiter.attempt key now).1, t') ∧ t'.Linked ∧
      t'.limiter = (t.limiter.attempt key now).2 := by
  obtain ⟨fresh, stale⟩ := removeStale_linked linked (now - t.window)
  have maxKeys : (t.removeStale (now - t.window)).maxKeys = t.maxKeys := congrArg RateLimiter.maxKeys stale
  obtain ⟨e, t', touched, kept, front, bucket, same⟩ := touch_linked fresh (maxKeys ▸ room) key now
  rw [stale] at bucket same
  obtain ⟨rest, order⟩ := List.head?_eq_some_iff.mp front
  have absent : e ∉ rest := (List.nodup_cons.mp (order ▸ kept.nodup)).1
  have limit : t'.limit = t.limit := congrArg RateLimiter.limit same
  have window : t'.window = t.window := congrArg RateLimiter.window same
  have others : rest.map t'.buckets = ((t.limiter.removeStale (now - t.window)).touch key now).2 := by
    have both := congrArg RateLimiter.order same
    rw [limiter, order] at both
    exact (List.cons.inj both).2
  refine ⟨t'.write e ((t'.buckets e).attempt t'.limit t'.window now).2, ?_, kept.write (attempt_key ..), ?_⟩
  · rw [Table.attempt, touched, Option.map_some, attempt_eq]
    dsimp only
    rw [limit, window, bucket]
    rfl
  · rw [limiter_write order absent, attempt_eq, same, others, limit, window, bucket]
    rfl

theorem forget_linked (linked : t.Linked) (key : String) :
    (t.forget key).Linked ∧ (t.forget key).limiter = t.limiter.forget key := by
  rw [forget, RateLimiter.forget, linked.bucket_eq]
  cases found : t.attempts.lookup key with
  | none => exact ⟨linked, rfl⟩
  | some e =>
    obtain ⟨member, rfl⟩ := (linked.entry key e).mp found
    dsimp only [Option.map_some]
    generalize (t.buckets e).times.length = n
    rcases n with _ | _ | n
    · exact ⟨linked, rfl⟩
    · refine ⟨linked.remove member, ?_⟩
      rw [linked.others_eq member]
      rfl
    · refine ⟨linked.write rfl, ?_⟩
      have order : t.order.map (t.write e { t.buckets e with times := (t.buckets e).times.dropLast }).buckets =
          t.limiter.order.map fun c =>
            if c.key = (t.buckets e).key then { c with times := c.times.dropLast } else c := by
        rw [limiter, List.map_map]
        refine List.map_congr_left fun e' listed => ?_
        rw [Function.comp_apply]
        by_cases own : e' = e
        · rw [own, buckets_write, if_pos rfl]
        · rw [buckets_write_of_ne own, if_neg fun same => own (linked.inj listed member same)]
      rw [← order]
      rfl

theorem cleanup_linked (linked : t.Linked) (now : Int) :
    (t.cleanup now).Linked ∧ (t.cleanup now).limiter = t.limiter.cleanup now :=
  removeStale_linked linked (now - t.window)

end Table

end Dockgraph.Auth
