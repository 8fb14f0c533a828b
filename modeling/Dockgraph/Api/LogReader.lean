import Dockgraph.Api.LogLines
import Dockgraph.Library.Bufio

/-!
# Reading a log stream (`api/log_reader.go`)

A stream of a container without a TTY is multiplexed into frames, one of a container with a TTY is
raw. Bytes are kept as they come.
-/
namespace Dockgraph.Api

open Bufio

def streamStdout : String := "stdout"

def streamStderr : String := "stderr"

def frameHeaderSize : Nat := 8

def maxStreamType : UInt8 := 3

def maxLogFrameSize : Nat := 1 * 2 ^ 20

def logReadBufferSize : Nat := 4 * 2 ^ 10

inductive LogReadError where
  | eof
  | unexpectedEOF
  | invalidLogFrame
  | logFrameTooLarge (size : Nat)
  deriving DecidableEq

def LogReadError.ofFull : Reader.FullError → LogReadError
  | .eof => .eof
  | .unexpectedEOF => .unexpectedEOF

/-- The byte `'\n'`. -/
def newline : UInt8 := 10

/-- The byte `'\r'`. -/
def carriageReturn : UInt8 := 13

/-- `bytes.TrimSuffix`. -/
def trimSuffix (b suffix : List UInt8) : List UInt8 :=
  if suffix <:+ b then b.take (b.length - suffix.length) else b

def trimLineEnding (b : List UInt8) : List UInt8 :=
  trimSuffix (trimSuffix b [newline]) [carriageReturn]

def splitLines (payload : List UInt8) : List (List UInt8) :=
  let payload := trimSuffix payload [newline]
  if payload.length = 0 then []
  else (payload.splitOn newline).map fun p => (trimLineEnding p).take maxLogLineSize

/-- `binary.BigEndian.Uint32`. -/
def bigEndianUint32 : List UInt8 → Nat
  | [a, b, c, d] => ((a.toNat * 2 ^ 8 + b.toNat) * 2 ^ 8 + c.toNat) * 2 ^ 8 + d.toNat
  | _ => 0

/-- The first bytes are not those of a frame's header. -/
def InvalidHeader (header : List UInt8) : Prop :=
  header.getD 0 0 > maxStreamType ∨ header.getD 1 0 ≠ 0 ∨ header.getD 2 0 ≠ 0 ∨ header.getD 3 0 ≠ 0

instance (header : List UInt8) : Decidable (InvalidHeader header) :=
  inferInstanceAs (Decidable (_ ∨ _))

structure LogLineReader where
  r : Reader UInt8
  detected : Bool := false
  raw : Bool := false
  /-- The lines of the current frame not yet returned, all from `pendingStream`. -/
  pending : List (List UInt8) := []
  pendingStream : String := ""

def newLogLineReader (stream : List UInt8) (reads : List Nat) (early : Bool) : LogLineReader :=
  { r := .newReaderSize stream reads early logReadBufferSize }

namespace LogLineReader

/-- A line with the stream it came from. -/
abbrev Line := String × List UInt8

/-- The loop of `nextRaw`. -/
def nextRaw.loop (line : List UInt8) (r : Reader UInt8) : Except LogReadError Line × Reader UInt8 :=
  let slice := r.readSlice newline
  let line' := line ++ slice.1.take (maxLogLineSize - line.length)
  if _ : slice.2.1 = .full then nextRaw.loop line' slice.2.2
  else if slice.2.1 = .delim ∨ line'.length > 0 then (.ok (streamStdout, trimLineEnding line'), slice.2.2)
  else (.error .eof, slice.2.2)
termination_by r.remaining.length
decreasing_by
  have sliced := Reader.sliced_readSlice newline r
  rw [show (r.readSlice newline).2.1 = .full from ‹_›] at sliced
  have some : 0 < (r.readSlice newline).1.length := List.length_pos_iff.mpr sliced.2
  rw [← Reader.readSlice_append newline r, List.length_append]
  omega

def nextRaw (l : LogLineReader) : Except LogReadError Line × LogLineReader :=
  let (line, r) := nextRaw.loop [] l.r
  (line, { l with r })

def readFrame (l : LogLineReader) : Except LogReadError Unit × LogLineReader :=
  match l.r.readFull frameHeaderSize with
  | (.error e, r) => (.error (.ofFull e), { l with r })
  | (.ok header, r) =>
    if InvalidHeader header then (.error .invalidLogFrame, { l with r })
    else
      let size := bigEndianUint32 (header.drop 4)
      if size > maxLogFrameSize then (.error (.logFrameTooLarge size), { l with r })
      else match r.readFull size with
        | (.error e, r) => (.error (.ofFull e), { l with r })
        | (.ok payload, r) =>
          (.ok (), { l with
            r
            pendingStream := if header.getD 0 0 ≥ 2 then streamStderr else streamStdout
            pending := splitLines payload })

theorem readFrame_consumes {l l' : LogLineReader} (read : l.readFrame = (.ok (), l')) :
    l'.r.remaining.length < l.r.remaining.length := by
  have header := Reader.filled_readFull frameHeaderSize l.r
  unfold readFrame at read
  split at read
  · cases read
  next bytes r ok =>
    rw [ok] at header
    obtain ⟨enough, -, after⟩ := header.of_ok rfl
    dsimp only at read
    split at read
    · cases read
    split at read
    · cases read
    split at read
    · cases read
    next payload r' ok' =>
      have body := Reader.filled_readFull (bigEndianUint32 (bytes.drop 4)) r
      rw [ok'] at body
      obtain ⟨-, -, after'⟩ := body.of_ok rfl
      cases read
      simp only [frameHeaderSize] at enough after after'
      simp only [after', after, List.length_drop]
      omega

def nextMultiplexed (l : LogLineReader) : Except LogReadError Line × LogLineReader :=
  match l.pending with
  | line :: pending => (.ok (l.pendingStream, line), { l with pending })
  | [] =>
    match _ : l.readFrame with
    | (.error e, l') => (.error e, l')
    | (.ok (), l') => nextMultiplexed l'
termination_by l.r.remaining.length
decreasing_by exact readFrame_consumes ‹_›

/-- The shape of the stream, by its first byte. -/
def detect (l : LogLineReader) : Except LogReadError Unit × LogLineReader :=
  if l.detected then (.ok (), l)
  else
    match l.r.peek with
    | (none, r) => (.error .eof, { l with r })
    | (some first, r) => (.ok (), { l with r, raw := first > maxStreamType, detected := true })

def next (l : LogLineReader) : Except LogReadError Line × LogLineReader :=
  match l.detect with
  | (.error e, l) => (.error e, l)
  | (.ok (), l) => if l.raw then l.nextRaw else l.nextMultiplexed

end LogLineReader

end Dockgraph.Api
