import Dockgraph.Library.Text

/-!
# HTTP responses

What a client sees of a response, as a handler makes it by calls on its writer (`net/http`): the header map
counts as it is when the status is written, informational responses go out at once, and what is in the map
at the end may follow the body as trailers.
-/
namespace Dockgraph.Http

abbrev Bytes := List UInt8

/-- The values under each name. -/
abbrev Header := String → List String

namespace Header

def none : Header := fun _ => []

def set (h : Header) (name value : String) : Header := fun n => if n = name then [value] else h n

def add (h g : Header) : Header := fun n => h n ++ g n

@[simp] theorem none_apply (n : String) : none n = [] := rfl

@[simp] theorem set_apply (h : Header) (name value n : String) :
    h.set name value n = if n = name then [value] else h n := rfl

@[simp] theorem add_apply (h g : Header) (n : String) : h.add g n = h n ++ g n := rfl

@[simp] theorem none_add (h : Header) : none.add h = h := rfl

end Header

/-- What a handler does with its writer. -/
inductive Call
  /-- The header map is changed. -/
  | header (f : Header → Header)
  | writeHeader (code : Nat)
  | write (p : Bytes)
  | flush
  | hijack
  /-- The connection is given up. -/
  | abort

structure Response where
  header : Header := .none
  infos : List (Nat × Header) := []
  head : Option (Nat × Header) := Option.none
  body : Bytes := []
  hijacked : Bool := false
  aborted : Bool := false

def bodyAllowedForStatus (status : Nat) : Bool := !(100 ≤ status && status ≤ 199) && status ≠ 204 && status ≠ 304

/-- The length a response's header promises. -/
def contentLength (h : Header) : Option Nat :=
  (h "Content-Length").head?.bind fun value => Text.parseUint value.toList 63

namespace Response

def writeHeader (r : Response) (code : Nat) : Response :=
  if r.head.isSome then r
  else if code < 100 ∨ 999 < code then { r with aborted := true }
  else if code ≤ 199 ∧ code ≠ 101 then { r with infos := r.infos ++ [(code, r.header)] }
  else { r with head := some (code, r.header) }

/-- The status is written at last with the first byte. -/
def begun (r : Response) : Response := if r.head.isSome then r else r.writeHeader 200

def write (r : Response) (p : Bytes) : Response :=
  match r.begun.head with
  | none => r.begun
  | some (status, h) =>
    if !bodyAllowedForStatus status ∨ (contentLength h).any fun n => n < r.begun.body.length + p.length then r.begun
    else { r.begun with body := r.begun.body ++ p }

def call (r : Response) : Call → Response
  | .header f => { r with header := f r.header }
  | .writeHeader code => r.writeHeader code
  | .write p => r.write p
  | .flush => r.begun
  | .hijack => { r with hijacked := true }
  | .abort => { r with aborted := true }

def run (r : Response) (calls : List Call) : Response := calls.foldl call r

/-- The names announced as trailers. -/
def announced (r : Response) : List String :=
  match r.head with
  | none => []
  | some (_, h) => (h "Trailer").flatMap fun names =>
    (Text.split ',' names.toList).map fun name => String.ofList (Text.trimSpace name)

def trailer (r : Response) (name : String) : List String :=
  r.header ("Trailer:" ++ name) ++ if name ∈ r.announced then r.header name else []

end Response

/-- What a client sees of a response. -/
@[ext]
structure Seen where
  infos : List (Nat × Header)
  head : Option (Nat × Header)
  body : Bytes
  trailer : Header
  hijacked : Bool
  aborted : Bool

namespace Response

/-- The handler has returned. -/
def seen (r : Response) : Seen :=
  ⟨r.begun.infos, r.begun.head, r.begun.body, r.begun.trailer, r.begun.hijacked, r.begun.aborted⟩

variable {r : Response} {status : Nat} {h : Header}

theorem run_append (r : Response) (calls more : List Call) : r.run (calls ++ more) = (r.run calls).run more :=
  List.foldl_append

theorem begun_of_head (head : r.head = some (status, h)) : r.begun = r := if_pos (by simp [head])

theorem writeHeader_final (fresh : r.head = none) (final : 200 ≤ status) (valid : status ≤ 999) :
    r.writeHeader status = { r with head := some (status, r.header) } := by
  have known : r.head.isSome = false := by simp [fresh]
  rw [writeHeader, if_neg (by simp [known]), if_neg (by omega), if_neg (by omega)]

theorem write_of_room (head : r.head = some (status, h)) (allowed : bodyAllowedForStatus status = true) {p : Bytes}
    (room : ∀ n, contentLength h = some n → r.body.length + p.length ≤ n) :
    r.write p = { r with body := r.body ++ p } := by
  have fits : (contentLength h).any (fun n => decide (n < r.body.length + p.length)) = false := by
    cases length : contentLength h with
    | none => rfl
    | some n => simpa using room n length
  simp [write, begun_of_head head, head, allowed, fits]

/-- What is written arrives, as long as the header has promised no less. -/
theorem run_writes (head : r.head = some (status, h)) (allowed : bodyAllowedForStatus status = true)
    (chunks : List Bytes) (room : ∀ n, contentLength h = some n → r.body.length + chunks.flatten.length ≤ n) :
    r.run (chunks.flatMap fun p => [.write p, .flush]) = { r with body := r.body ++ chunks.flatten } := by
  -- by the writes to come
  induction chunks generalizing r with
  | nil => simp [run]
  | cons p chunks ih =>
    have first : r.write p = { r with body := r.body ++ p } := by
      refine write_of_room head allowed fun n promised => ?_
      have := room n promised
      simp only [List.flatten_cons, List.length_append] at this
      omega
    have flushed : ({ r with body := r.body ++ p } : Response).begun = { r with body := r.body ++ p } :=
      begun_of_head head
    have rest := ih (r := { r with body := r.body ++ p }) head fun n promised => by
      simpa [Nat.add_assoc] using room n promised
    rw [List.flatMap_cons, run_append]
    simp only [run, List.foldl_cons, List.foldl_nil, call, first, flushed]
    simpa [run, List.append_assoc] using rest

end Response

/-! ## Responses without trailers -/

/-- A header map that asks for no trailers. -/
structure Quiet (h : Header) : Prop where
  unannounced : h "Trailer" = []
  unnamed : ∀ name, h ("Trailer:" ++ name) = []

theorem quiet_none : Quiet .none := ⟨rfl, fun _ => rfl⟩

theorem Quiet.set {h : Header} (quiet : Quiet h) {name : String} (other : name.toList.head? ≠ some 'T') (value : String) :
    Quiet (h.set name value) := by
  refine ⟨?_, fun trailer => ?_⟩
  · have apart : "Trailer" ≠ name := by
      rintro rfl
      exact other rfl
    simpa [apart] using quiet.unannounced
  · have apart : "Trailer:" ++ trailer ≠ name := by
      rintro rfl
      exact other (by rw [String.toList_append]; rfl)
    simpa [apart] using quiet.unnamed trailer

/-- What a client sees of a response whose header asks for no trailers. -/
theorem Response.seen_of_quiet {r : Response} {status : Nat} {h : Header} (head : r.head = some (status, h))
    (quiet : Quiet h) (same : r.header = h) : r.seen = ⟨r.infos, r.head, r.body, .none, r.hijacked, r.aborted⟩ := by
  have announced : r.announced = [] := by simp [announced, head, quiet.unannounced]
  rw [seen, begun_of_head head]
  congr 1
  funext name
  simp [trailer, announced, same, quiet.unnamed]

end Dockgraph.Http
