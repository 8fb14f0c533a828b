import Mathlib.Data.List.Basic
import Mathlib.Data.List.TakeDrop

/-!
# Buffered reading

A stream read through a buffer, a delimiter or a number of elements at a time, whatever each read
under the buffer delivers. What an operation returns depends on what is left of the stream alone,
except for where a full buffer cuts a slice.
-/
namespace Dockgraph.Bufio

/-- A buffer over a stream that ends. -/
structure Reader (α : Type) where
  size : Nat
  size_pos : 0 < size
  /-- What was read and not taken yet. -/
  buffered : List α := []
  /-- What was not read yet. -/
  rest : List α
  /-- How much the next reads deliver at most, beyond a first element each. -/
  reads : List Nat
  /-- The end is told with the last elements, not by a read of its own. -/
  early : Bool
  /-- The end was told and not passed on yet. -/
  ended : Bool := false
  rest_of_ended : ended = true → rest = []

namespace Reader

variable {α : Type}

def minReadBufferSize : Nat := 16

def newReaderSize (stream : List α) (reads : List Nat) (early : Bool) (size : Nat) : Reader α :=
  { size := max size minReadBufferSize, size_pos := by simp only [minReadBufferSize]; omega
    rest := stream, reads, early, rest_of_ended := by simp }

/-- All that is left of the stream. -/
def remaining (r : Reader α) : List α := r.buffered ++ r.rest

@[simp] theorem remaining_new (stream : List α) (reads : List Nat) (early : Bool) (size : Nat) :
    (newReaderSize stream reads early size).remaining = stream := rfl

/-- Passes the end on. -/
def readErr (r : Reader α) : Reader α := { r with ended := false, rest_of_ended := by simp }

@[simp] theorem remaining_readErr (r : Reader α) : r.readErr.remaining = r.remaining := rfl

/-- How many of `n` elements the next read delivers. -/
def share (r : Reader α) (n : Nat) : Nat := min n (r.reads.headD n + 1)

theorem share_pos (r : Reader α) {n : Nat} (some : 0 < n) : 0 < r.share n := by
  simp only [share]
  omega

/-- A read of up to `n` elements of the stream, past the buffer. -/
def fetch (r : Reader α) (n : Nat) : List α × Reader α :=
  (r.rest.take (r.share n),
    { r with
      rest := r.rest.drop (r.share n)
      reads := r.reads.tail
      ended := r.rest.isEmpty || r.early && (r.rest.drop (r.share n)).isEmpty
      rest_of_ended := by simp +contextual [or_imp] })

def fill (r : Reader α) : Reader α :=
  let (bytes, r') := r.fetch (r.size - r.buffered.length)
  { r' with buffered := r.buffered ++ bytes }

@[simp] theorem remaining_fill (r : Reader α) : r.fill.remaining = r.remaining := by
  simp [fill, fetch, remaining]

/-- What reads are still to come: elements and the end. -/
def left (r : Reader α) : Nat := r.rest.length + if r.ended then 0 else 1

theorem left_fill (r : Reader α) (going : ¬ r.ended) (room : r.buffered.length < r.size) :
    r.fill.left < r.left := by
  have some := r.share_pos (n := r.size - r.buffered.length) (by omega)
  rcases empty : r.rest with _ | ⟨a, rest⟩
  · simp [fill, fetch, left, empty, going]
  · simp only [fill, fetch, left, empty, going, List.length_drop, List.length_cons]
    rw [if_neg Bool.false_ne_true]
    split <;> omega

/-! ## Slices up to a delimiter -/

/-- Why a slice stops: at its delimiter, at a full buffer or at the end of the stream. -/
inductive Stop where
  | delim
  | full
  | eof
  deriving DecidableEq

variable [DecidableEq α]

def readSlice (d : α) (r : Reader α) : List α × Stop × Reader α :=
  if d ∈ r.buffered then
    let i := r.buffered.idxOf d
    (r.buffered.take (i + 1), .delim, { r with buffered := r.buffered.drop (i + 1) })
  else if r.ended then (r.buffered, .eof, { r with buffered := [] }.readErr)
  else if r.size ≤ r.buffered.length then (r.buffered, .full, { r with buffered := [] })
  else readSlice d r.fill
termination_by r.left
decreasing_by exact r.left_fill ‹_› (by omega)

/-- A slice and what it leaves make up what was left before. -/
theorem readSlice_append (d : α) (r : Reader α) :
    (readSlice d r).1 ++ (readSlice d r).2.2.remaining = r.remaining := by
  fun_induction readSlice d r with
  | case1 r found i => rw [remaining, remaining, ← List.append_assoc, List.take_append_drop]
  | case2 r lacks ended => simp [remaining, readErr]
  | case3 r lacks going full => simp [remaining]
  | case4 r lacks going room ih => rw [ih, remaining_fill]

/-- What a slice tells of its elements. -/
def Sliced (d : α) (slice : List α) : Stop → List α → Prop
  | .delim, _ => d ∈ slice ∧ slice.length = slice.idxOf d + 1
  | .full, _ => d ∉ slice ∧ slice ≠ []
  | .eof, after => d ∉ slice ∧ after = []

theorem sliced_readSlice (d : α) (r : Reader α) :
    Sliced d (readSlice d r).1 (readSlice d r).2.1 (readSlice d r).2.2.remaining := by
  fun_induction readSlice d r with
  | case1 r found i =>
    have within : i < r.buffered.length := List.idxOf_lt_length_of_mem found
    have apart := List.take_append_drop (i + 1) r.buffered
    have kept : d ∈ r.buffered.take (i + 1) := by
      rw [List.mem_take_iff_idxOf_lt found]
      omega
    have first : (r.buffered.take (i + 1) ++ r.buffered.drop (i + 1)).idxOf d =
        (r.buffered.take (i + 1)).idxOf d := List.idxOf_append_of_mem kept
    rw [apart] at first
    refine ⟨kept, ?_⟩
    rw [← first, List.length_take]
    omega
  | case2 r lacks ended => simp [Sliced, lacks, remaining, readErr, r.rest_of_ended ended]
  | case3 r lacks going full =>
    refine ⟨lacks, ?_⟩
    have some := r.size_pos
    exact List.length_pos_iff.mp (by omega : 0 < r.buffered.length)
  | case4 r lacks going room ih => exact ih

/-- Past a slice that a full buffer cut, the delimiter is that much nearer. -/
theorem slice_full {d : α} {slice after remaining : List α} (whole : slice ++ after = remaining)
    (sliced : Sliced d slice .full after) :
    remaining.idxOf d = slice.length + after.idxOf d := by
  rw [← whole, List.idxOf_append_of_notMem sliced.1]

/-- A slice that no full buffer cut is what the stream holds through its first delimiter. -/
theorem slice_stops {d : α} {slice after remaining : List α} {stop : Stop} (whole : slice ++ after = remaining)
    (sliced : Sliced d slice stop after) (uncut : stop ≠ .full) :
    slice = remaining.take (remaining.idxOf d + 1) ∧ after = remaining.drop (remaining.idxOf d + 1) ∧
      (stop = .delim ↔ d ∈ remaining) := by
  cases stop with
  | delim =>
    obtain ⟨found, length⟩ := sliced
    rw [← whole, List.idxOf_append_of_mem found, ← length]
    simp [found]
  | full => exact absurd rfl uncut
  | eof =>
    obtain ⟨lacks, nothing⟩ := sliced
    rw [nothing, List.append_nil] at whole
    subst whole
    simp [nothing, lacks, List.take_of_length_le, List.drop_of_length_le]

omit [DecidableEq α]

/-! ## The next element -/

/-- The next element, left in place; none at the end of the stream. -/
def peek (r : Reader α) : Option α × Reader α :=
  match _ : r.buffered with
  | a :: _ => (some a, r)
  | [] => if r.ended then (none, r.readErr) else peek r.fill
termination_by r.left
decreasing_by exact r.left_fill ‹_› (by simp [‹r.buffered = []›, r.size_pos])

theorem exists_peek (r : Reader α) :
    ∃ r', peek r = (r.remaining.head?, r') ∧ r'.remaining = r.remaining := by
  fun_induction peek r with
  | case1 r a rest buffered => exact ⟨r, by simp [remaining, buffered], rfl⟩
  | case2 r empty ended => exact ⟨r.readErr, by simp [remaining, empty, r.rest_of_ended ended], rfl⟩
  | case3 r empty going ih => rwa [remaining_fill] at ih

/-! ## A number of elements -/

/-- One read of up to `n` elements; the flag tells the end. -/
def read (n : Nat) (r : Reader α) : List α × Bool × Reader α :=
  if r.buffered ≠ [] then (r.buffered.take n, false, { r with buffered := r.buffered.drop n })
  else if r.ended then ([], true, r.readErr)
  else if r.size ≤ n then
    -- past the buffer
    ((r.fetch n).1, (r.fetch n).2.ended, (r.fetch n).2.readErr)
  else if r.fill.buffered = [] then ([], r.fill.ended, r.fill.readErr)
  else (r.fill.buffered.take n, false, { r.fill with buffered := r.fill.buffered.drop n })

theorem read_append (n : Nat) (r : Reader α) : (read n r).1 ++ (read n r).2.2.remaining = r.remaining := by
  unfold read
  split_ifs with held ended past nothing
  · rw [remaining, remaining, ← List.append_assoc, List.take_append_drop]
  · rfl
  · simp [remaining, fetch, readErr, not_not.mp held]
  · rw [List.nil_append, remaining_readErr, remaining_fill]
  · rw [← r.remaining_fill, remaining, remaining, ← List.append_assoc, List.take_append_drop]

theorem read_length (n : Nat) (r : Reader α) : (read n r).1.length ≤ n := by
  have share : r.share n ≤ n := Nat.min_le_left _ _
  unfold read
  split_ifs
  · exact List.length_take_le _ _
  · exact Nat.zero_le n
  · exact Nat.le_trans (List.length_take_le _ _) share
  · exact Nat.zero_le n
  · exact List.length_take_le _ _

/-- A read that does not tell the end delivers something. -/
theorem read_going {n : Nat} (some : 0 < n) {r : Reader α} (going : (read n r).2.1 = false) :
    (read n r).1 ≠ [] := by
  have taken {xs : List α} (kept : xs ≠ []) {k : Nat} (pos : 0 < k) : xs.take k ≠ [] := by
    rw [ne_eq, List.take_eq_nil_iff, not_or]
    exact ⟨Nat.ne_of_gt pos, kept⟩
  unfold read at going ⊢
  split_ifs at going ⊢ with held ended past nothing
  · exact taken held some
  · refine taken ?_ (r.share_pos some)
    rintro none
    simp [fetch, none] at going
  · -- an empty buffer after a read means that nothing was left
    have room : 0 < r.share (r.size - r.buffered.length) := r.share_pos (by simp [not_not.mp held, r.size_pos])
    have none : r.rest = [] := by
      by_contra left
      exact taken left room (List.append_eq_nil_iff.mp nothing).2
    simp [fill, fetch, none] at going
  · exact taken nothing some

theorem read_end {n : Nat} {r : Reader α} (last : (read n r).2.1 = true) :
    (read n r).2.2.remaining = [] := by
  unfold read at last ⊢
  split_ifs at last ⊢ with held ended past nothing
  · simp [remaining, readErr, not_not.mp held, r.rest_of_ended ended]
  · have none : (r.fetch n).2.rest = [] := (r.fetch n).2.rest_of_ended last
    rw [remaining_readErr, remaining, none]
    simpa [fetch] using held
  · have none : r.fill.rest = [] := r.fill.rest_of_ended last
    rw [remaining_readErr, remaining, none, nothing, List.append_nil]

inductive FullError where
  | eof
  | unexpectedEOF
  deriving DecidableEq

def readFull.loop (n : Nat) (got : List α) (r : Reader α) : Except FullError (List α) × Reader α :=
  if n ≤ got.length then (.ok got, r)
  else
    let p := r.read (n - got.length)
    let got' := got ++ p.1
    if _ : p.2.1 then
      if n ≤ got'.length then (.ok got', p.2.2)
      else (.error (if got' = [] then .eof else .unexpectedEOF), p.2.2)
    else readFull.loop n got' p.2.2
termination_by n - got.length
decreasing_by
  have some : 0 < (r.read (n - got.length)).1.length :=
    List.length_pos_iff.mpr (read_going (by omega) (by simpa using ‹¬_ = true›))
  rw [List.length_append]
  omega

/-- `n` elements, or an error where the stream ends before them. -/
def readFull (n : Nat) (r : Reader α) : Except FullError (List α) × Reader α := readFull.loop n [] r

/-- The elements it is after, or the error where the stream is too short. -/
structure Filled (n : Nat) (stream : List α) (p : Except FullError (List α) × Reader α) : Prop where
  enough : n ≤ stream.length → p.1 = .ok (stream.take n) ∧ p.2.remaining = stream.drop n
  short : stream.length < n →
    p.1 = .error (if stream = [] then .eof else .unexpectedEOF) ∧ p.2.remaining = []

theorem filled_loop (n : Nat) (got : List α) (r : Reader α) (within : got.length ≤ n) :
    Filled n (got ++ r.remaining) (readFull.loop n got r) := by
  fun_induction readFull.loop n got r with
  | case1 got r done =>
    have exactly : got.length = n := Nat.le_antisymm within done
    constructor
    · intro enough
      simp [← exactly]
    · intro short
      simp only [List.length_append] at short
      omega
  | case2 got r more p got' ended done =>
    have whole : got ++ r.remaining = got' ++ p.2.2.remaining := by
      rw [← read_append (n - got.length) r, List.append_assoc]
    have nothing : p.2.2.remaining = [] := read_end ended
    have exactly : got'.length = n := by
      have fits : p.1.length ≤ n - got.length := read_length _ r
      simp only [got', List.length_append] at done ⊢
      omega
    rw [whole, nothing, List.append_nil]
    constructor
    · intro enough
      simp [← exactly, nothing]
    · intro short
      omega
  | case3 got r more p got' ended missing =>
    have whole : got ++ r.remaining = got' ++ p.2.2.remaining := by
      rw [← read_append (n - got.length) r, List.append_assoc]
    have nothing : p.2.2.remaining = [] := read_end ended
    rw [whole, nothing, List.append_nil]
    exact ⟨fun enough => absurd enough missing, fun _ => ⟨rfl, nothing⟩⟩
  | case4 got r more p got' going ih =>
    have whole : got ++ r.remaining = got' ++ p.2.2.remaining := by
      rw [← read_append (n - got.length) r, List.append_assoc]
    rw [whole]
    apply ih
    have fits : p.1.length ≤ n - got.length := read_length _ r
    simp only [got', List.length_append]
    omega

theorem filled_readFull (n : Nat) (r : Reader α) : Filled n r.remaining (readFull n r) :=
  filled_loop n [] r (Nat.zero_le n)

theorem Filled.of_ok {n : Nat} {stream xs : List α} {p : Except FullError (List α) × Reader α}
    (filled : Filled n stream p) (ok : p.1 = .ok xs) :
    n ≤ stream.length ∧ xs = stream.take n ∧ p.2.remaining = stream.drop n := by
  by_cases enough : n ≤ stream.length
  · obtain ⟨fst, snd⟩ := filled.enough enough
    rw [ok] at fst
    exact ⟨enough, Except.ok.inj fst, snd⟩
  · rw [(filled.short (by omega)).1] at ok
    cases ok

theorem readFull_append {xs ys : List α} {r : Reader α} (left : r.remaining = xs ++ ys) :
    ∃ r', r.readFull xs.length = (.ok xs, r') ∧ r'.remaining = ys := by
  obtain ⟨ok, after⟩ := (filled_readFull xs.length r).enough (by simp [left])
  rw [left, List.take_left] at ok
  rw [left, List.drop_left] at after
  exact ⟨_, Prod.ext ok rfl, after⟩

theorem readFull_nil {n : Nat} (some : 0 < n) {r : Reader α} (left : r.remaining = []) :
    ∃ r', r.readFull n = (.error .eof, r') := by
  obtain ⟨error, -⟩ := (filled_readFull n r).short (by simpa [left] using some)
  rw [if_pos left] at error
  exact ⟨_, Prod.ext error rfl⟩

end Reader

end Dockgraph.Bufio
