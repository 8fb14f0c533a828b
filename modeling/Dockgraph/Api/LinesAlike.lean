import Dockgraph.Api.LogReader

/-!
# Raw and multiplexed streams read alike

The lines of a log, written raw or in frames, against what successive calls of `next` return. A
frame's lines lose a trailing `'\r'` before they are cut; a raw line is cut first, so that a
`'\r'` inside a long line may end what is left of it and is lost as well.
-/
namespace Dockgraph.Api

open Bufio

/-! ## Trimming and cutting -/

theorem trimSuffix_concat (b : List UInt8) (c : UInt8) : trimSuffix (b ++ [c]) [c] = b := by
  simp [trimSuffix]

theorem trimSuffix_of_ne {b : List UInt8} {c : UInt8} (other : b.getLast? ≠ some c) :
    trimSuffix b [c] = b :=
  if_neg (mt List.singleton_suffix_iff_getLast?_eq_some.mp other)

theorem trimSuffix_of_notMem {b : List UInt8} {c : UInt8} (lacks : c ∉ b) : trimSuffix b [c] = b :=
  trimSuffix_of_ne fun last => lacks (List.mem_of_getLast? last)

/-- Trimming leaves what comes before the last byte. -/
theorem take_trimSuffix {b : List UInt8} {c : UInt8} {n : Nat} (past : n < b.length) :
    (trimSuffix b [c]).take n = b.take n := by
  unfold trimSuffix
  split
  · rw [List.take_take, List.length_singleton, Nat.min_eq_left (by omega)]
  · rfl

theorem trimLineEnding_of_notMem {b : List UInt8} (lacks : newline ∉ b) :
    trimLineEnding b = trimSuffix b [carriageReturn] := by
  rw [trimLineEnding, trimSuffix_of_notMem lacks]

/-- A cut line loses its newline, or the cut has taken it. -/
theorem trimLineEnding_take {b whole : List UInt8} (lacks : newline ∉ b) (ending : whole = b ∨ whole = b ++ [newline])
    (n : Nat) : trimLineEnding (whole.take n) = trimSuffix (b.take n) [carriageReturn] := by
  have cut : newline ∉ b.take n := fun member => lacks (List.mem_of_mem_take member)
  rcases ending with rfl | rfl
  · exact trimLineEnding_of_notMem cut
  · rcases Nat.lt_or_ge b.length n with fits | long
    · rw [List.take_of_length_le (by simpa using Nat.succ_le_of_lt fits), List.take_of_length_le fits.le, trimLineEnding,
        trimSuffix_concat]
    · rw [List.take_append_of_le_length long]
      exact trimLineEnding_of_notMem cut

/-- The byte a line is cut at is no carriage return. -/
def CutApart (body : List UInt8) : Prop :=
  body.length ≤ maxLogLineSize ∨ body[maxLogLineSize - 1]? ≠ some carriageReturn

/-- Cutting and trimming commute unless the cut comes right after a carriage return. -/
theorem cut_trim_iff (body : List UInt8) :
    trimSuffix (body.take maxLogLineSize) [carriageReturn] =
      (trimSuffix body [carriageReturn]).take maxLogLineSize ↔ CutApart body := by
  by_cases short : body.length ≤ maxLogLineSize
  · have shorter : (trimSuffix body [carriageReturn]).length ≤ body.length := by
      unfold trimSuffix
      split <;> simp
    simp [CutApart, short, List.take_of_length_le, shorter.trans short]
  · have last : (body.take maxLogLineSize).getLast? = body[maxLogLineSize - 1]? := by
      rw [List.getLast?_take, if_neg (by decide), List.getElem?_eq_getElem (by omega), Option.some_or]
    rw [take_trimSuffix (by omega), CutApart, or_iff_right short, ← last]
    constructor
    · intro same returns
      rw [trimSuffix, if_pos (List.singleton_suffix_iff_getLast?_eq_some.mpr returns)] at same
      have lengths := congrArg List.length same
      simp only [List.length_take, List.length_singleton, maxLogLineSize] at lengths short
      omega
    · exact trimSuffix_of_ne

/-! ## Logs -/

/-- A line of a log and how it ends. -/
structure LogText where
  text : List UInt8
  /-- Ended by `"\r\n"`, not by `"\n"`. -/
  crlf : Bool
  digit : ∃ c ∈ text.head?, 48 ≤ c ∧ c ≤ 57
  oneLine : newline ∉ text

namespace LogText

/-- What comes before the newline. -/
def body (t : LogText) : List UInt8 := if t.crlf then t.text ++ [carriageReturn] else t.text

/-- The line to be returned: without one trailing `'\r'`, then cut. -/
def line (t : LogText) : List UInt8 := (trimSuffix t.body [carriageReturn]).take maxLogLineSize

theorem body_text {t : LogText} (plain : t.crlf = false) : t.body = t.text := by
  simp [body, plain]

theorem newline_notMem (t : LogText) : newline ∉ t.body := by
  unfold body
  split
  · simpa [newline, carriageReturn] using t.oneLine
  · exact t.oneLine

/-- No line starts like a frame. -/
theorem exists_first (t : LogText) : ∃ c rest, t.body = c :: rest ∧ maxStreamType < c := by
  obtain ⟨c, first, low, high⟩ := t.digit
  have above : maxStreamType < c := UInt8.lt_of_lt_of_le (by decide : maxStreamType < 48) low
  obtain ⟨rest, text⟩ : ∃ rest, t.text = c :: rest := List.head?_eq_some_iff.mp first
  unfold body
  split
  · exact ⟨c, rest ++ [carriageReturn], by simp [text], above⟩
  · exact ⟨c, rest, text, above⟩

theorem body_ne_nil (t : LogText) : t.body ≠ [] := by
  obtain ⟨c, rest, body, -⟩ := t.exists_first
  simp [body]

end LogText

/-- The bytes of lines in a row; the last need not be ended. -/
def joined (ended : Bool) : List LogText → List UInt8
  | [] => []
  | [t] => t.body ++ if ended then [newline] else []
  | t :: u :: ts => t.body ++ newline :: joined ended (u :: ts)

/-- `binary.BigEndian.PutUint32`. -/
def putUint32 (n : Nat) : List UInt8 :=
  [UInt8.ofNat (n / 2 ^ 24), UInt8.ofNat (n / 2 ^ 16), UInt8.ofNat (n / 2 ^ 8), UInt8.ofNat n]

theorem bigEndianUint32_put {n : Nat} (fits : n < 2 ^ 32) : bigEndianUint32 (putUint32 n) = n := by
  simp only [bigEndianUint32, putUint32, UInt8.toNat_ofNat']
  omega

def frameHeader (kind : UInt8) (size : Nat) : List UInt8 := [kind, 0, 0, 0] ++ putUint32 size

@[simp] theorem length_frameHeader (kind : UInt8) (size : Nat) :
    (frameHeader kind size).length = frameHeaderSize := rfl

@[simp] theorem getD_frameHeader (kind : UInt8) (size : Nat) : (frameHeader kind size).getD 0 0 = kind := rfl

theorem valid_frameHeader {kind : UInt8} (kind_le : kind ≤ maxStreamType) (size : Nat) :
    ¬ InvalidHeader (frameHeader kind size) := by
  simpa [InvalidHeader, frameHeader] using kind_le

theorem bigEndianUint32_frameHeader (kind : UInt8) {size : Nat} (fits : size < 2 ^ 32) :
    bigEndianUint32 ((frameHeader kind size).drop 4) = size := bigEndianUint32_put fits

/-- A frame of whole lines. -/
structure LogFrame where
  kind : UInt8
  lines : List LogText
  ended : Bool
  kind_le : kind ≤ maxStreamType
  some_line : lines ≠ []
  fits : (joined ended lines).length ≤ maxLogFrameSize

namespace LogFrame

def bytes (f : LogFrame) : List UInt8 :=
  frameHeader f.kind (joined f.ended f.lines).length ++ joined f.ended f.lines

def stream (f : LogFrame) : String := if f.kind ≥ 2 then streamStderr else streamStdout

def expected (f : LogFrame) : List LogLineReader.Line := f.lines.map fun t => (f.stream, t.line)

end LogFrame

/-- A header no frame has. -/
inductive BadHeader where
  | corrupt (header : List UInt8) (length : header.length = frameHeaderSize) (invalid : InvalidHeader header)
  | oversized (kind : UInt8) (size : Nat) (kind_le : kind ≤ maxStreamType) (large : maxLogFrameSize < size)
    (fits : size < 2 ^ 32)

namespace BadHeader

def bytes : BadHeader → List UInt8
  | corrupt header _ _ => header
  | oversized kind size _ _ _ => frameHeader kind size

def error : BadHeader → LogReadError
  | corrupt _ _ _ => .invalidLogFrame
  | oversized _ size _ _ _ => .logFrameTooLarge size

end BadHeader

/-- A log as Docker sends it. -/
inductive SentLog where
  | raw (lines : List LogText) (ended : Bool)
  | multiplexed (frames : List LogFrame)
  /-- Frames, a bad header and anything after it. -/
  | broken (frames : List LogFrame) (some_frame : frames ≠ []) (bad : BadHeader) (after : List UInt8)

namespace SentLog

def bytes : SentLog → List UInt8
  | raw lines ended => joined ended lines
  | multiplexed frames => frames.flatMap LogFrame.bytes
  | broken frames _ bad after => frames.flatMap LogFrame.bytes ++ (bad.bytes ++ after)

def expected : SentLog → List LogLineReader.Line
  | raw lines _ => lines.map fun t => (streamStdout, t.line)
  | multiplexed frames | broken frames _ _ _ => frames.flatMap LogFrame.expected

def error : SentLog → LogReadError
  | raw _ _ | multiplexed _ => .eof
  | broken _ _ bad _ => bad.error

end SentLog

/-- What `n` calls of `next` return. -/
def LogLineReader.nexts : Nat → LogLineReader → List (Except LogReadError LogLineReader.Line)
  | 0, _ => []
  | n + 1, l => l.next.1 :: nexts n l.next.2

/-- The calls return these lines and then this error. -/
def LogLineReader.Yields (l : LogLineReader) (lines : List LogLineReader.Line) (error : LogReadError) : Prop :=
  l.nexts (lines.length + 1) = lines.map .ok ++ [.error error]

/-- The stream's lines are returned however its reads fall. -/
def SentLog.ReadsAlike (s : SentLog) : Prop :=
  ∀ reads early, (newLogLineReader s.bytes reads early).Yields s.expected s.error

/-- No raw line is cut right after a carriage return. -/
def SentLog.CutsApart : SentLog → Prop
  | .raw lines _ => ∀ t ∈ lines, CutApart t.body
  | .multiplexed _ | .broken _ _ _ _ => True

/-! ## Raw streams -/

namespace LogLineReader

/-- What a raw line becomes that has begun with `line`. -/
def rawLine (line s : List UInt8) : List UInt8 :=
  line ++ (s.take (s.idxOf newline + 1)).take (maxLogLineSize - line.length)

/-- A slice that a full buffer cut belongs to the line. -/
theorem rawLine_slice {line slice after s : List UInt8} (whole : slice ++ after = s)
    (nearer : s.idxOf newline = slice.length + after.idxOf newline) :
    rawLine (line ++ slice.take (maxLogLineSize - line.length)) after = rawLine line s := by
  have room : maxLogLineSize - (line.length + min (maxLogLineSize - line.length) slice.length) =
      maxLogLineSize - line.length - slice.length := by omega
  rw [rawLine, rawLine, nearer, ← whole, Nat.add_assoc, List.take_length_add_append, List.take_append,
    List.length_append, List.length_take, room, List.append_assoc]

/-- A line that has begun with `line` is read on from `s`. -/
structure ReadOn (line s : List UInt8) (p : Except LogReadError Line × Reader UInt8) : Prop where
  after : p.2.remaining = s.drop (s.idxOf newline + 1)
  ok : newline ∈ s ∨ rawLine line s ≠ [] → p.1 = .ok (streamStdout, trimLineEnding (rawLine line s))
  eof : newline ∉ s → rawLine line s = [] → p.1 = .error .eof

theorem nextRaw_loop (line : List UInt8) (r : Reader UInt8) :
    ReadOn line r.remaining (nextRaw.loop line r) := by
  fun_induction nextRaw.loop line r with
  | case1 line r slice line' full ih =>
    have whole : slice.1 ++ slice.2.2.remaining = r.remaining := Reader.readSlice_append newline r
    have sliced : Reader.Sliced newline slice.1 .full slice.2.2.remaining :=
      full ▸ Reader.sliced_readSlice newline r
    have nearer := Reader.slice_full whole sliced
    have same : rawLine line' slice.2.2.remaining = rawLine line r.remaining := rawLine_slice whole nearer
    constructor
    · rw [ih.after, nearer, ← whole, Nat.add_assoc, List.drop_length_add_append]
    · intro some
      rw [← whole, List.mem_append, or_iff_right sliced.1, whole, ← same] at some
      rw [ih.ok some, same]
    · intro lacks nothing
      rw [← whole, List.mem_append, or_iff_right sliced.1] at lacks
      exact ih.eof lacks (same ▸ nothing)
  | case2 line r slice line' more stops =>
    obtain ⟨cut, after, delim⟩ :=
      Reader.slice_stops (Reader.readSlice_append newline r) (Reader.sliced_readSlice newline r) more
    have read : line' = rawLine line r.remaining := congrArg (line ++ List.take _ ·) cut
    refine ⟨after, fun _ => by rw [← read], fun lacks nothing => ?_⟩
    rw [← read] at nothing
    exact absurd (stops.imp delim.mp List.length_pos_iff.mp) (not_or.mpr ⟨lacks, not_not.mpr nothing⟩)
  | case3 line r slice line' more stops =>
    obtain ⟨cut, after, delim⟩ :=
      Reader.slice_stops (Reader.readSlice_append newline r) (Reader.sliced_readSlice newline r) more
    have read : line' = rawLine line r.remaining := congrArg (line ++ List.take _ ·) cut
    refine ⟨after, fun some => absurd ?_ stops, fun _ _ => rfl⟩
    rw [← read] at some
    exact some.imp delim.mpr List.length_pos_iff.mpr

theorem nextRaw_ok {l : LogLineReader} {body whole : List UInt8} (lacks : newline ∉ body)
    (ending : whole = body ∨ whole = body ++ [newline]) (some : whole ≠ [])
    (first : l.r.remaining.take (l.r.remaining.idxOf newline + 1) = whole) :
    l.nextRaw.1 = .ok (streamStdout, trimSuffix (body.take maxLogLineSize) [carriageReturn]) := by
  have line : rawLine [] l.r.remaining = whole.take maxLogLineSize := by simp [rawLine, first]
  have kept : rawLine [] l.r.remaining ≠ [] := by simpa [line, maxLogLineSize] using some
  rw [← trimLineEnding_take lacks ending, ← line]
  exact (nextRaw_loop [] l.r).ok (.inr kept)

/-- A line up to its newline. -/
theorem nextRaw_newline {l : LogLineReader} {body after : List UInt8} (lacks : newline ∉ body)
    (left : l.r.remaining = body ++ newline :: after) :
    ∃ r, l.nextRaw =
        (.ok (streamStdout, trimSuffix (body.take maxLogLineSize) [carriageReturn]), { l with r }) ∧
      r.remaining = after := by
  have place : l.r.remaining.idxOf newline = body.length := by
    rw [left, List.idxOf_append_of_notMem lacks, List.idxOf_cons_self, Nat.add_zero]
  have first : l.r.remaining.take (l.r.remaining.idxOf newline + 1) = body ++ [newline] := by
    rw [place, left, List.take_length_add_append]
    rfl
  refine ⟨_, Prod.ext (nextRaw_ok lacks (.inr rfl) (by simp) first) rfl, ?_⟩
  rw [(nextRaw_loop [] l.r).after, place, left, List.drop_length_add_append]
  rfl

/-- A last line without a newline. -/
theorem nextRaw_last {l : LogLineReader} {body : List UInt8} (lacks : newline ∉ body) (some : body ≠ [])
    (left : l.r.remaining = body) :
    ∃ r, l.nextRaw =
        (.ok (streamStdout, trimSuffix (body.take maxLogLineSize) [carriageReturn]), { l with r }) ∧
      r.remaining = [] := by
  have place : l.r.remaining.idxOf newline = body.length := by rw [left, List.idxOf_of_notMem lacks]
  have first : l.r.remaining.take (l.r.remaining.idxOf newline + 1) = body := by
    rw [place, left, List.take_of_length_le (Nat.le_succ _)]
  refine ⟨_, Prod.ext (nextRaw_ok lacks (.inl rfl) some first) rfl, ?_⟩
  rw [(nextRaw_loop [] l.r).after, place, left, List.drop_of_length_le (Nat.le_succ _)]

theorem nextRaw_end {l : LogLineReader} (left : l.r.remaining = []) : l.nextRaw.1 = .error .eof := by
  have on := nextRaw_loop [] l.r
  rw [left] at on
  exact on.eof List.not_mem_nil rfl

/-! ## Runs of calls -/

theorem next_raw {l : LogLineReader} (detected : l.detected = true) (raw : l.raw = true) :
    l.next = l.nextRaw := by
  simp [next, detect, detected, raw]

theorem next_multiplexed {l : LogLineReader} (detected : l.detected = true) (raw : l.raw = false) :
    l.next = l.nextMultiplexed := by
  simp [next, detect, detected, raw]

theorem yields_error {l : LogLineReader} {error : LogReadError} (fails : l.next.1 = .error error) :
    l.Yields [] error := by
  simp [Yields, nexts, fails]

theorem Yields.cons {l l' : LogLineReader} {line : Line} {lines : List Line} {error : LogReadError}
    (next : l.next = (.ok line, l')) (onward : l'.Yields lines error) : l.Yields (line :: lines) error := by
  simp only [Yields, List.length_cons, nexts, next, List.map_cons, List.cons_append]
  exact congrArg _ onward

/-- Readers whose next calls agree yield alike. -/
theorem Yields.of_next_eq {l l' : LogLineReader} {lines : List Line} {error : LogReadError}
    (same : l.next = l'.next) (yields : l'.Yields lines error) : l.Yields lines error := by
  simpa [Yields, nexts, same] using yields

theorem yields_raw_end {l : LogLineReader} (detected : l.detected = true) (raw : l.raw = true)
    (left : l.r.remaining = []) : l.Yields [] .eof :=
  yields_error ((congrArg Prod.fst (next_raw detected raw)).trans (nextRaw_end left))

theorem yields_raw (ended : Bool) (lines : List LogText) {l : LogLineReader} (detected : l.detected = true)
    (raw : l.raw = true) (left : l.r.remaining = joined ended lines) :
    l.Yields (lines.map fun t =>
      (streamStdout, trimSuffix (t.body.take maxLogLineSize) [carriageReturn])) .eof := by
  fun_induction joined ended lines generalizing l with
  | case1 => exact yields_raw_end detected raw left
  | case2 t =>
    obtain ⟨r, next, after⟩ : ∃ r, l.nextRaw = (.ok (streamStdout,
        trimSuffix (t.body.take maxLogLineSize) [carriageReturn]), { l with r }) ∧ r.remaining = [] := by
      cases ended with
      | true => exact nextRaw_newline t.newline_notMem left
      | false => exact nextRaw_last t.newline_notMem t.body_ne_nil (left.trans (List.append_nil _))
    rw [← next_raw detected raw] at next
    exact .cons next (yields_raw_end detected raw after)
  | case3 t u ts ih =>
    obtain ⟨r, next, after⟩ := nextRaw_newline t.newline_notMem left
    rw [← next_raw detected raw] at next
    exact .cons next (ih detected raw after)

end LogLineReader

/-! ## Multiplexed streams -/

theorem joined_ended {lines : List LogText} (some : lines ≠ []) :
    joined true lines = joined false lines ++ [newline] := by
  induction lines with
  | nil => exact absurd rfl some
  | cons t ts ih =>
    cases ts with
    | nil => simp [joined]
    | cons u us => simp [joined, ih (List.cons_ne_nil u us)]

theorem joined_intercalate (lines : List LogText) :
    joined false lines = [newline].intercalate (lines.map LogText.body) := by
  induction lines with
  | nil => rfl
  | cons t ts ih =>
    cases ts with
    | nil => simp [joined]
    | cons u us => simp [joined, ih, List.intercalate_cons_cons]

theorem joined_ne_nil {lines : List LogText} (some : lines ≠ []) : joined false lines ≠ [] := by
  match lines, some with
  | [t], _ => simpa [joined] using t.body_ne_nil
  | t :: u :: ts, _ => simp [joined]

theorem getLast?_joined (lines : List LogText) : (joined false lines).getLast? ≠ some newline := by
  induction lines with
  | nil => simp [joined]
  | cons t ts ih =>
    cases ts with
    | nil => exact fun last => t.newline_notMem (List.mem_of_getLast? (by simpa [joined] using last))
    | cons u us =>
      have rest : joined false (u :: us) ≠ [] := joined_ne_nil (List.cons_ne_nil u us)
      rwa [joined, List.getLast?_append_of_ne_nil _ (List.cons_ne_nil _ _), ← List.singleton_append,
        List.getLast?_append_of_ne_nil _ rest]

theorem trimSuffix_joined {lines : List LogText} (some : lines ≠ []) (ended : Bool) :
    trimSuffix (joined ended lines) [newline] = joined false lines := by
  cases ended with
  | true => rw [joined_ended some, trimSuffix_concat]
  | false => exact trimSuffix_of_ne (getLast?_joined lines)

theorem splitLines_joined {lines : List LogText} (some : lines ≠ []) (ended : Bool) :
    splitLines (joined ended lines) = lines.map LogText.line := by
  have apart : (joined false lines).splitOn newline = lines.map LogText.body := by
    rw [joined_intercalate, List.splitOn_intercalate]
    · simpa using fun t _ => t.newline_notMem
    · simpa using some
  simp only [splitLines, trimSuffix_joined some, List.length_eq_zero_iff, joined_ne_nil some, if_false,
    apart, List.map_map]
  apply List.map_congr_left
  intro t _
  simp [LogText.line, trimLineEnding_of_notMem t.newline_notMem]

namespace LogLineReader

theorem readFrame_frame {l : LogLineReader} {f : LogFrame} {after : List UInt8}
    (left : l.r.remaining = f.bytes ++ after) :
    ∃ r, l.readFrame = (.ok (), { l with
        r, pendingStream := f.stream, pending := f.lines.map LogText.line }) ∧ r.remaining = after := by
  rw [LogFrame.bytes, List.append_assoc] at left
  obtain ⟨r, header, next⟩ := Reader.readFull_append left
  obtain ⟨r', payload, next'⟩ := Reader.readFull_append next
  refine ⟨r', ?_, next'⟩
  have size := bigEndianUint32_frameHeader f.kind (f.fits.trans_lt (by decide))
  rw [length_frameHeader] at header
  simp only [readFrame, header, if_neg (valid_frameHeader f.kind_le _), size, if_neg f.fits.not_gt,
    payload, getD_frameHeader, splitLines_joined f.some_line]
  rfl

theorem readFrame_bad {l : LogLineReader} {bad : BadHeader} {after : List UInt8}
    (left : l.r.remaining = bad.bytes ++ after) : l.readFrame.1 = .error bad.error := by
  obtain ⟨r, header, -⟩ := Reader.readFull_append left
  cases bad with
  | corrupt bytes length invalid =>
    rw [BadHeader.bytes, length] at header
    simp only [readFrame, header, if_pos invalid]
    rfl
  | oversized kind size kind_le large fits =>
    rw [BadHeader.bytes, length_frameHeader] at header
    simp only [readFrame, header, if_neg (valid_frameHeader kind_le _),
      bigEndianUint32_frameHeader kind fits, if_pos large]
    rfl

theorem readFrame_end {l : LogLineReader} (left : l.r.remaining = []) : l.readFrame.1 = .error .eof := by
  obtain ⟨r, header⟩ := Reader.readFull_nil (by decide : 0 < frameHeaderSize) left
  simp only [readFrame, header]
  rfl

theorem nextMultiplexed_error {l : LogLineReader} {error : LogReadError} (pending : l.pending = [])
    (fails : l.readFrame.1 = .error error) : l.nextMultiplexed.1 = .error error := by
  rw [nextMultiplexed]
  split
  next line rest some => simp [pending] at some
  split
  next e l' read =>
    rw [read] at fails
    exact congrArg Except.error (Except.error.inj fails)
  next l' read => simp [read] at fails

theorem nextMultiplexed_frame {l l' : LogLineReader} (pending : l.pending = [])
    (read : l.readFrame = (.ok (), l')) : l.nextMultiplexed = l'.nextMultiplexed := by
  rw [nextMultiplexed]
  split
  next line rest some => simp [pending] at some
  split
  next e l'' other => simp [read] at other
  next l'' other =>
    cases read.symm.trans other
    rfl

/-- The lines of the current frame come before the next frame is read. -/
theorem yields_pending {lines : List (List UInt8)} {l : LogLineReader} {later : List Line} {error : LogReadError}
    (detected : l.detected = true) (raw : l.raw = false) (pending : l.pending = lines)
    (yields : ({ l with pending := [] } : LogLineReader).Yields later error) :
    l.Yields (lines.map (fun line => (l.pendingStream, line)) ++ later) error := by
  induction lines generalizing l with
  | nil =>
    rw [← pending] at yields
    exact yields
  | cons line lines ih =>
    have next : l.next = (.ok (l.pendingStream, line), { l with pending := lines }) := by
      rw [next_multiplexed detected raw, nextMultiplexed]
      split
      next first rest some =>
        rw [pending] at some
        cases some
        rfl
      next none => simp [pending] at none
    exact .cons next (ih detected raw rfl yields)

/-- The lines of the frames come in order, then what the rest of the stream yields. -/
theorem yields_frames {frames : List LogFrame} {after : List UInt8} {error : LogReadError}
    (ending : ∀ l : LogLineReader, l.r.remaining = after → l.readFrame.1 = .error error)
    {l : LogLineReader} (detected : l.detected = true) (raw : l.raw = false) (pending : l.pending = [])
    (left : l.r.remaining = frames.flatMap LogFrame.bytes ++ after) :
    l.Yields (frames.flatMap LogFrame.expected) error := by
  induction frames generalizing l with
  | nil =>
    apply yields_error
    rw [next_multiplexed detected raw]
    exact nextMultiplexed_error pending (ending l left)
  | cons f frames ih =>
    rw [List.flatMap_cons, List.append_assoc] at left
    obtain ⟨r, read, next⟩ := readFrame_frame left
    have same := nextMultiplexed_frame pending read
    rw [← next_multiplexed detected raw, ← next_multiplexed (by exact detected) (by exact raw)] at same
    apply Yields.of_next_eq same
    have lines : f.expected = (f.lines.map LogText.line).map fun line => (f.stream, line) := by
      simp [LogFrame.expected]
    rw [List.flatMap_cons, lines]
    exact yields_pending detected raw rfl (ih detected raw rfl next)

/-! ## The shape of a stream -/

/-- The first byte tells the shape, and stays. -/
theorem next_first {l : LogLineReader} {first : UInt8} {rest : List UInt8} (fresh : l.detected = false)
    (left : l.r.remaining = first :: rest) :
    ∃ r, l.next = ({ l with r, raw := first > maxStreamType, detected := true } : LogLineReader).next ∧
      r.remaining = first :: rest := by
  obtain ⟨r, peeked, same⟩ := l.r.exists_peek
  rw [left, List.head?_cons] at peeked
  refine ⟨r, ?_, same.trans left⟩
  simp only [next, detect, fresh, peeked, if_true, Bool.false_eq_true, if_false]

theorem next_empty {l : LogLineReader} (fresh : l.detected = false) (left : l.r.remaining = []) :
    l.next.1 = .error .eof := by
  obtain ⟨r, peeked, -⟩ := l.r.exists_peek
  rw [left, List.head?_nil] at peeked
  simp only [next, detect, fresh, peeked, Bool.false_eq_true, if_false]

end LogLineReader

theorem yields_raw_log (lines : List LogText) (ended : Bool) (reads : List Nat) (early : Bool) :
    (newLogLineReader (joined ended lines) reads early).Yields
      (lines.map fun t => (streamStdout, trimSuffix (t.body.take maxLogLineSize) [carriageReturn])) .eof := by
  match lines with
  | [] => exact LogLineReader.yields_error (LogLineReader.next_empty rfl rfl)
  | t :: ts =>
    obtain ⟨c, rest, starts, above⟩ : ∃ c rest, joined ended (t :: ts) = c :: rest ∧ maxStreamType < c := by
      obtain ⟨c, rest, body, above⟩ := t.exists_first
      cases ts with
      | nil => exact ⟨c, rest ++ _, by simp only [joined, body]; rfl, above⟩
      | cons u us => exact ⟨c, rest ++ newline :: joined ended (u :: us), by simp [joined, body], above⟩
    obtain ⟨r, shape, left⟩ := LogLineReader.next_first (l := newLogLineReader _ reads early) rfl starts
    exact .of_next_eq shape (LogLineReader.yields_raw ended (t :: ts) rfl (decide_eq_true above) (left.trans starts.symm))

theorem yields_frames_log {frames : List LogFrame} {after : List UInt8} {error : LogReadError}
    (some_frame : frames ≠ [])
    (ending : ∀ l : LogLineReader, l.r.remaining = after → l.readFrame.1 = .error error)
    (reads : List Nat) (early : Bool) :
    (newLogLineReader (frames.flatMap LogFrame.bytes ++ after) reads early).Yields
      (frames.flatMap LogFrame.expected) error := by
  match frames, some_frame with
  | f :: fs, _ =>
    obtain ⟨rest, starts⟩ : ∃ rest, (f :: fs).flatMap LogFrame.bytes ++ after = f.kind :: rest := ⟨_, rfl⟩
    obtain ⟨r, shape, left⟩ := LogLineReader.next_first (l := newLogLineReader _ reads early) rfl starts
    exact .of_next_eq shape (LogLineReader.yields_frames ending rfl
      (decide_eq_false (UInt8.not_lt.mpr f.kind_le)) rfl (left.trans starts.symm))

/-- A reader yields one list of lines. -/
theorem LogLineReader.Yields.map_unique {l : LogLineReader} {α : Type} {xs : List α} {f g : α → Line}
    {error : LogReadError} (one : l.Yields (xs.map f) error) :
    l.Yields (xs.map g) error ↔ ∀ x ∈ xs, f x = g x := by
  unfold Yields at one ⊢
  rw [List.length_map] at one ⊢
  rw [one, List.append_left_inj, List.map_map, List.map_map, List.map_inj_left]
  simp

theorem readsAlike_raw_iff (lines : List LogText) (ended : Bool) :
    (SentLog.raw lines ended).ReadsAlike ↔ ∀ t ∈ lines, CutApart t.body := by
  have read := yields_raw_log lines ended
  constructor
  · intro alike t member
    have same := (read [] true).map_unique.mp (alike [] true) t member
    exact (cut_trim_iff t.body).mp (Prod.mk.inj same).2
  · intro apart reads early
    apply (read reads early).map_unique.mpr
    intro t member
    exact congrArg _ ((cut_trim_iff t.body).mpr (apart t member))

/-- Every line is returned as the stream has it, however its reads fall, unless it is a raw line cut right
after a carriage return. -/
theorem readsAlike_iff (s : SentLog) : s.ReadsAlike ↔ s.CutsApart := by
  match s with
  | .raw lines ended => exact readsAlike_raw_iff lines ended
  | .multiplexed [] =>
    exact iff_of_true (fun reads early => LogLineReader.yields_error (LogLineReader.next_empty rfl rfl)) trivial
  | .multiplexed (f :: fs) =>
    refine iff_of_true (fun reads early => ?_) trivial
    have read := yields_frames_log (List.cons_ne_nil f fs) (fun l left => l.readFrame_end left) reads early
    rwa [List.append_nil] at read
  | .broken frames some_frame bad after =>
    exact iff_of_true (yields_frames_log some_frame fun l left => LogLineReader.readFrame_bad left) trivial

/-- A line that is cut right after a carriage return. -/
def cutReturn : LogText where
  text := List.replicate (maxLogLineSize - 1) 48 ++ [carriageReturn, 48]
  crlf := false
  digit := ⟨48, rfl, by decide⟩
  oneLine := by simp [newline, carriageReturn]

theorem cutReturn_lost : ¬ (SentLog.raw [cutReturn] true).ReadsAlike := by
  rw [readsAlike_raw_iff]
  intro apart
  rcases apart cutReturn (List.mem_singleton_self _) with short | other
  · rw [LogText.body_text rfl, cutReturn, List.length_append, List.length_replicate] at short
    exact absurd short (by decide)
  · apply other
    simp [cutReturn, LogText.body]

end Dockgraph.Api
