import Dockgraph.Library.Base64
import Dockgraph.Library.Checks
import Dockgraph.Library.Text
import Dockgraph.Library.Transition
import Mathlib.Algebra.BigOperators.Group.List.Basic
import Mathlib.Algebra.GroupWithZero.Nat

/-!
# Passwords (`auth/password.go`)

A hashed password is a text that names the parameters it was derived with. Argon2 itself is a
parameter; its text is read and written here.
-/
namespace Dockgraph.Auth

open Text Checks Transition

/-! ## The text of a hash -/

def argon2Version : Nat := 19
def argon2Time : UInt32 := 1
def argon2Memory : UInt32 := 64 * 1024
def argon2Threads : UInt8 := 4
def argon2SaltLen : Nat := 16
def argon2KeyLen : UInt32 := 32
def minHashSaltLen : Nat := 8
def minHashKeyLen : Nat := 16
def maxHashMemory : UInt32 := 128 * 1024
def maxHashTime : UInt32 := 10

structure Argon2Hash where
  salt : List UInt8
  key : List UInt8
  time : UInt32
  /-- In KiB. -/
  memory : UInt32
  threads : UInt8
  deriving DecidableEq

inductive ParamError
  /-- `want name=<number>`. -/
  | want (name : String) (got : List Char)
  | number (name : String) (value : List Char)

inductive HashError
  | format
  | parseVersion (e : ParamError)
  | version (n : Nat)
  /-- `want m=<KiB>,t=<passes>,p=<lanes>`. -/
  | params (field : List Char)
  | parseParams (e : ParamError)
  | time
  | threads
  | memory
  | decodeSalt
  | saltTooShort (n : Nat)
  | decodeKey
  | keyTooShort (n : Nat)

def parseParam (field : List Char) (name : String) (bits : Nat) : Except ParamError Nat := do
  let label := (name ++ "=").toList
  refuse (label.isPrefixOf field = false) (.want name field)
  let value := field.drop label.length
  orError (parseUint value bits) (.number name value)

def parseParams (field : List Char) : Except HashError (UInt32 × UInt32 × UInt8) :=
  match split ',' field with
  | [memory, time, threads] => do
    let m ← (parseParam memory "m" 32).mapError .parseParams
    let t ← (parseParam time "t" 32).mapError .parseParams
    let p ← (parseParam threads "p" 8).mapError .parseParams
    return (.ofNat m, .ofNat t, .ofNat p)
  | _ => .error (.params field)

def decodeHash (encoded : String) : Except HashError Argon2Hash :=
  match split '$' encoded.toList with
  | [_, kind, version, params, salt, key] => do
    refuse (kind ≠ "argon2id".toList) .format
    let version ← (parseParam version "v" 32).mapError .parseVersion
    refuse (version ≠ argon2Version) (.version version)
    let (memory, time, threads) ← parseParams params
    refuse (time < 1 ∨ time > maxHashTime) .time
    refuse (threads < 1) .threads
    refuse (memory < 8 * threads.toUInt32 ∨ memory > maxHashMemory) .memory
    let salt ← orError (Base64.decodeStd (.ofList salt)) .decodeSalt
    refuse (salt.length < minHashSaltLen) (.saltTooShort salt.length)
    let key ← orError (Base64.decodeStd (.ofList key)) .decodeKey
    refuse (key.length < minHashKeyLen) (.keyTooShort key.length)
    return { salt, key, time, memory, threads }
  | _ => .error .format

/-- `name=n`. -/
def paramText (name : String) (n : Nat) : List Char := (name ++ "=").toList ++ Nat.toDigits 10 n

/-- The parameters in the text of a hash. -/
def paramsText (m t : UInt32) (p : UInt8) : List Char :=
  paramText "m" m.toNat ++ ',' :: (paramText "t" t.toNat ++ ',' :: paramText "p" p.toNat)

/-- The text of a hash. -/
def Argon2Hash.text (h : Argon2Hash) : String :=
  .ofList ('$' :: ("argon2id".toList ++ '$' :: (paramText "v" argon2Version ++
    '$' :: (paramsText h.memory h.time h.threads ++
      '$' :: ((Base64.encodeStd h.salt).toList ++ '$' :: (Base64.encodeStd h.key).toList)))))

def encodeHash (salt key : List UInt8) : String :=
  Argon2Hash.text { salt, key, time := argon2Time, memory := argon2Memory, threads := argon2Threads }

/-- The parameters a server accepts. -/
structure Argon2Hash.InBounds (h : Argon2Hash) : Prop where
  time : 1 ≤ h.time ∧ h.time ≤ maxHashTime
  threads : 1 ≤ h.threads
  memory : 8 * h.threads.toUInt32 ≤ h.memory ∧ h.memory ≤ maxHashMemory
  salt : minHashSaltLen ≤ h.salt.length
  key : minHashKeyLen ≤ h.key.length

theorem parseParam_paramText {name : String} {n bits : Nat} (small : n < 2 ^ bits) :
    parseParam (paramText name n) name bits = .ok n := by
  have labelled : (name ++ "=").toList.isPrefixOf (paramText name n) = true :=
    List.isPrefixOf_iff_prefix.mpr (List.prefix_append _ _)
  have passes : ¬(name ++ "=").toList.isPrefixOf (paramText name n) = false := ne_false_of_eq_true labelled
  refine bind_ok.mpr ⟨(), refuse_ok.mpr passes, ?_⟩
  simp [paramText, parseUint_toDigits small]

/-- A parameter's text holds no separator. -/
theorem not_mem_paramText {name : String} {sep : Char} (n : Nat) (other : sep ∉ (name ++ "=").toList)
    (letter : sep.isDigit = false) : sep ∉ paramText name n := by
  rw [paramText, List.mem_append, not_or]
  refine ⟨other, fun member => ?_⟩
  rw [Nat.isDigit_of_mem_toDigits (by decide) (by decide) member] at letter
  cases letter

theorem parseParams_text (m t : UInt32) (p : UInt8) : parseParams (paramsText m t p) = .ok (m, t, p) := by
  have parts : split ',' (paramsText m t p) =
      [paramText "m" m.toNat, paramText "t" t.toNat, paramText "p" p.toNat] := by
    rw [paramsText, split_append (not_mem_paramText _ (by decide) (by decide)),
      split_append (not_mem_paramText _ (by decide) (by decide)), split_of_not_mem (not_mem_paramText _ (by decide) (by decide))]
  unfold parseParams
  rw [parts]
  dsimp only
  rw [parseParam_paramText m.toNat_lt, parseParam_paramText t.toNat_lt, parseParam_paramText p.toNat_lt]
  change Except.ok (UInt32.ofNat m.toNat, UInt32.ofNat t.toNat, UInt8.ofNat p.toNat) = _
  simp

/-- The fields of the text of a hash. -/
theorem split_text (h : Argon2Hash) : split '$' h.text.toList =
    [[], "argon2id".toList, paramText "v" argon2Version, paramsText h.memory h.time h.threads,
      (Base64.encodeStd h.salt).toList, (Base64.encodeStd h.key).toList] := by
  have encoded (bs : List UInt8) : '$' ∉ (Base64.encodeStd bs).toList :=
    fun member => Base64.forall_mem_encodeStd (p := (· ≠ '$')) (by decide +kernel) bs '$' member rfl
  have m : '$' ∉ paramText "m" h.memory.toNat := not_mem_paramText _ (by decide) (by decide)
  have t : '$' ∉ paramText "t" h.time.toNat := not_mem_paramText _ (by decide) (by decide)
  have p : '$' ∉ paramText "p" h.threads.toNat := not_mem_paramText _ (by decide) (by decide)
  have params : '$' ∉ paramsText h.memory h.time h.threads := by
    simp [paramsText, m, t, p]
  have kind : '$' ∉ "argon2id".toList := by decide
  have version : '$' ∉ paramText "v" argon2Version := not_mem_paramText _ (by decide) (by decide)
  have letters : h.text.toList = '$' :: ("argon2id".toList ++ '$' :: (paramText "v" argon2Version ++
      '$' :: (paramsText h.memory h.time h.threads ++
        '$' :: ((Base64.encodeStd h.salt).toList ++ '$' :: (Base64.encodeStd h.key).toList)))) :=
    String.toList_ofList
  rw [letters, split, if_pos rfl, split_append kind, split_append version, split_append params,
    split_append (encoded _), split_of_not_mem (encoded _)]

/-- What is read from the text of a hash within bounds is the hash. -/
theorem decodeHash_text {h : Argon2Hash} (bounds : h.InBounds) : decodeHash h.text = .ok h := by
  obtain ⟨time, threads, memory, salt, key⟩ := bounds
  have version : parseParam (paramText "v" argon2Version) "v" 32 = .ok argon2Version :=
    parseParam_paramText (by decide)
  have salted : Base64.decodeStd (.ofList (Base64.encodeStd h.salt).toList) = some h.salt := by
    rw [String.ofList_toList, Base64.decodeStd_encodeStd]
  have keyed : Base64.decodeStd (.ofList (Base64.encodeStd h.key).toList) = some h.key := by
    rw [String.ofList_toList, Base64.decodeStd_encodeStd]
  unfold decodeHash
  rw [split_text]
  simp only [bind_ok, refuse_ok, orError_ok, mapError_ok, parseParams_text]
  exact ⟨(), not_not.mpr rfl, _, version, (), not_not.mpr rfl, _, rfl,
    (), not_or.mpr ⟨UInt32.not_lt.mpr time.1, UInt32.not_lt.mpr time.2⟩, (), UInt8.not_lt.mpr threads,
    (), not_or.mpr ⟨UInt32.not_lt.mpr memory.1, UInt32.not_lt.mpr memory.2⟩,
    _, salted, (), not_lt.mpr salt, _, keyed, (), not_lt.mpr key, rfl⟩

/-- Only hashes within bounds are read. -/
theorem decodeHash_inBounds {s : String} {h : Argon2Hash} (decoded : decodeHash s = .ok h) : h.InBounds := by
  unfold decodeHash at decoded
  split at decoded
  case h_1 =>
    simp only [bind_ok, refuse_ok, orError_ok, mapError_ok] at decoded
    obtain ⟨_, _, _, _, _, _, ⟨memory, time, threads⟩, _, _, inTime, _, lanes, _, inMemory, salt, _, _, long,
      key, _, _, strong, whole⟩ := decoded
    cases whole
    rw [not_or] at inTime inMemory
    exact ⟨⟨UInt32.not_lt.mp inTime.1, UInt32.not_lt.mp inTime.2⟩, UInt8.not_lt.mp lanes,
      ⟨UInt32.not_lt.mp inMemory.1, UInt32.not_lt.mp inMemory.2⟩, not_lt.mp long, not_lt.mp strong⟩
  case h_2 => cases decoded

/-- The hashes that any text at all is read as are those within bounds, and each of them is read back
from its own text. -/
theorem decodeHash_exact (h : Argon2Hash) :
    (decodeHash h.text = .ok h ↔ h.InBounds) ∧ ((∃ s, decodeHash s = .ok h) ↔ h.InBounds) := by
  refine ⟨⟨decodeHash_inBounds, decodeHash_text⟩, ?_, fun bounds => ⟨h.text, decodeHash_text bounds⟩⟩
  rintro ⟨s, decoded⟩
  exact decodeHash_inBounds decoded

/-! ## Checks -/

/-- `argon2.IDKey` of a password, a salt, the passes, the memory, the lanes and the key's length. It
panics without a pass or a lane. -/
structure Argon2 where
  idKey : List UInt8 → List UInt8 → UInt32 → UInt32 → UInt8 → UInt32 → List UInt8
  length_idKey : ∀ password salt time memory threads keyLen, 1 ≤ time → 1 ≤ threads →
    (idKey password salt time memory threads keyLen).length = keyLen.toNat

variable (argon2 : Argon2)

/-- `salt` is what is read from the random source. -/
def hashPassword (password salt : List UInt8) : String :=
  encodeHash salt (argon2.idKey password salt argon2Time argon2Memory argon2Threads argon2KeyLen)

def checkPassword (password : List UInt8) (encoded : String) : Except HashError Bool := do
  let h ← decodeHash encoded
  let actualKey := argon2.idKey password h.salt h.time h.memory h.threads (.ofNat h.key.length)
  return actualKey = h.key

/-- The hash the server makes of a password. -/
def ownHash (password salt : List UInt8) : Argon2Hash :=
  { salt, key := argon2.idKey password salt argon2Time argon2Memory argon2Threads argon2KeyLen
    time := argon2Time, memory := argon2Memory, threads := argon2Threads }

theorem length_ownKey (password salt : List UInt8) : (ownHash argon2 password salt).key.length = 32 :=
  argon2.length_idKey password salt argon2Time argon2Memory argon2Threads argon2KeyLen (by decide) (by decide)

theorem ownHash_inBounds (password : List UInt8) {salt : List UInt8} (long : salt.length = argon2SaltLen) :
    (ownHash argon2 password salt).InBounds := by
  have time : 1 ≤ argon2Time ∧ argon2Time ≤ maxHashTime := by decide
  have threads : 1 ≤ argon2Threads := by decide
  have memory : 8 * argon2Threads.toUInt32 ≤ argon2Memory ∧ argon2Memory ≤ maxHashMemory := by decide
  refine ⟨time, threads, memory, ?_, ?_⟩
  · have salted : (ownHash argon2 password salt).salt.length = 16 := long
    rw [salted]
    decide
  · rw [length_ownKey]
    decide

/-- Against a hash the server made, a password is right exactly when it derives the same key. -/
theorem checkPassword_hashPassword (password other salt : List UInt8) (long : salt.length = argon2SaltLen) :
    checkPassword argon2 other (hashPassword argon2 password salt) =
      .ok (decide ((ownHash argon2 other salt).key = (ownHash argon2 password salt).key)) := by
  have text : hashPassword argon2 password salt = (ownHash argon2 password salt).text := rfl
  have keyLen : UInt32.ofNat (ownHash argon2 password salt).key.length = argon2KeyLen := by
    rw [length_ownKey]
    rfl
  unfold checkPassword
  rw [text, decodeHash_text (ownHash_inBounds argon2 password long)]
  simp only [bind, Except.bind, pure, Except.pure, keyLen]
  rfl

/-! ## One check at a time -/

def maxConcurrentChecks : Nat := 1

inductive CheckState
  | waiting
  | running
  | answered (result : Except HashError Bool)
  /-- `ErrBusy`. -/
  | busy

/-- A call of `CheckPasswordBounded`. -/
structure Check where
  password : List UInt8
  encoded : String
  state : CheckState := .waiting

def Check.isRunning (c : Check) : Bool :=
  match c.state with
  | .running => true
  | _ => false

/-- The memory a check holds, in KiB. -/
def Check.memory (c : Check) : Nat :=
  if c.isRunning then (decodeHash c.encoded).toOption.elim 0 fun h => h.memory.toNat else 0

/-- The calls of the process; `taken` is the number of values in `checkSlots`. -/
structure CheckSlots where
  taken : Nat := 0
  calls : List Check := []

namespace CheckSlots

inductive Step
  | call (password : List UInt8) (encoded : String)
  /-- A waiting call takes a slot. -/
  | acquire (i : Nat)
  /-- The context of a waiting call ends. -/
  | giveUp (i : Nat)
  /-- A check is done, and its slot is free again. -/
  | finish (i : Nat)

def step (s : CheckSlots) : Step → Option CheckSlots
  | .call password encoded => some { s with calls := s.calls ++ [{ password, encoded }] }
  | .acquire i =>
    match s.calls[i]? with
    | some c =>
      match c.state with
      | .waiting =>
        if s.taken < maxConcurrentChecks then
          some { taken := s.taken + 1, calls := s.calls.set i { c with state := .running } }
        else none
      | _ => none
    | none => none
  | .giveUp i =>
    match s.calls[i]? with
    | some c =>
      match c.state with
      | .waiting => some { s with calls := s.calls.set i { c with state := .busy } }
      | _ => none
    | none => none
  | .finish i =>
    match s.calls[i]? with
    | some c =>
      match c.state with
      | .running =>
        let result := checkPassword argon2 c.password c.encoded
        some { taken := s.taken - 1, calls := s.calls.set i { c with state := .answered result } }
      | _ => none
    | none => none

variable {argon2} {s t : CheckSlots}

/-- Each taken slot is a running check's, and each answer that of the password. -/
structure Held (argon2 : Argon2) (s : CheckSlots) : Prop where
  taken : s.taken = s.calls.countP Check.isRunning
  bounded : s.taken ≤ maxConcurrentChecks
  answers : ∀ c ∈ s.calls, ∀ r, c.state = .answered r → r = checkPassword argon2 c.password c.encoded

/-- What a step does to the call it is about. -/
theorem step_cases {i : Step} (made : s.step argon2 i = some t) :
    (∃ c : Check, c.state = .waiting ∧ t = { s with calls := s.calls ++ [c] }) ∨
    (∃ n c next taken, s.calls[n]? = some c ∧ t = { taken, calls := s.calls.set n next } ∧
      next.password = c.password ∧ next.encoded = c.encoded ∧
      (c.state = .waiting ∧ next.state = .running ∧ s.taken < maxConcurrentChecks ∧ taken = s.taken + 1 ∨
        c.state = .waiting ∧ next.state = .busy ∧ taken = s.taken ∨
        c.state = .running ∧ next.state = .answered (checkPassword argon2 c.password c.encoded) ∧
          taken = s.taken - 1)) := by
  cases i with
  | call password encoded =>
    cases made
    exact .inl ⟨{ password, encoded }, rfl, rfl⟩
  | acquire n =>
    right
    simp only [step] at made
    split at made
    case h_1 c found =>
      split at made
      case h_1 waits =>
        rw [Option.ite_none_right_eq_some] at made
        obtain ⟨free, same⟩ := made
        cases same
        exact ⟨n, c, _, _, found, rfl, rfl, rfl, .inl ⟨waits, rfl, free, rfl⟩⟩
      case h_2 => cases made
    case h_2 => cases made
  | giveUp n =>
    right
    simp only [step] at made
    split at made
    case h_1 c found =>
      split at made
      case h_1 waits =>
        cases made
        exact ⟨n, c, _, _, found, rfl, rfl, rfl, .inr (.inl ⟨waits, rfl, rfl⟩)⟩
      case h_2 => cases made
    case h_2 => cases made
  | finish n =>
    right
    simp only [step] at made
    split at made
    case h_1 c found =>
      split at made
      case h_1 runs =>
        cases made
        exact ⟨n, c, _, _, found, rfl, rfl, rfl, .inr (.inr ⟨runs, rfl, rfl⟩)⟩
      case h_2 => cases made
    case h_2 => cases made

theorem countP_set {cs : List Check} {n : Nat} {c next : Check} (found : cs[n]? = some c) :
    (cs.set n next).countP Check.isRunning + (if c.isRunning then 1 else 0) =
      cs.countP Check.isRunning + if next.isRunning then 1 else 0 := by
  induction cs generalizing n with
  | nil => cases found
  | cons d cs ih =>
    cases n with
    | zero =>
      cases found
      simp only [List.set_cons_zero, List.countP_cons]
      omega
    | succ n =>
      have rest := ih found
      simp only [List.set_cons_succ, List.countP_cons]
      omega

theorem held_step {i : Step} (held : Held argon2 s) (made : s.step argon2 i = some t) : Held argon2 t := by
  obtain ⟨taken, bounded, answers⟩ := held
  rcases step_cases made with ⟨c, waits, rfl⟩ | ⟨n, c, next, taken', found, rfl, pw, hash, change⟩
  · refine ⟨?_, bounded, ?_⟩
    · simp [taken, List.countP_append, Check.isRunning, waits]
    · intro d member r answered
      rcases List.mem_append.mp member with old | new
      · exact answers d old r answered
      · rw [List.mem_singleton.mp new, waits] at answered
        cases answered
  · have count : (s.calls.set n next).countP Check.isRunning + (if c.isRunning then 1 else 0) =
        s.calls.countP Check.isRunning + if next.isRunning then 1 else 0 := countP_set found
    -- only the call that moved can be newly answered
    have kept (own : ∀ r, next.state = .answered r → r = checkPassword argon2 c.password c.encoded) :
        ∀ d ∈ s.calls.set n next, ∀ r, d.state = .answered r → r = checkPassword argon2 d.password d.encoded := by
      intro d member r answered
      rcases List.mem_or_eq_of_mem_set member with old | rfl
      · exact answers d old r answered
      · rw [pw, hash]
        exact own r answered
    -- it got a slot, gave up, or left its slot with an answer
    rcases change with ⟨before, after, free, rfl⟩ | ⟨before, after, rfl⟩ | ⟨before, after, rfl⟩
    · have ran : c.isRunning = false := by simp [Check.isRunning, before]
      have runs : next.isRunning = true := by simp [Check.isRunning, after]
      simp only [ran, runs, Bool.false_eq_true, if_false, if_true] at count
      exact ⟨by dsimp only; omega, free, kept fun r answered => by simp [after] at answered⟩
    · have ran : c.isRunning = false := by simp [Check.isRunning, before]
      have runs : next.isRunning = false := by simp [Check.isRunning, after]
      simp only [ran, runs, Bool.false_eq_true, if_false] at count
      exact ⟨by dsimp only; omega, bounded, kept fun r answered => by simp [after] at answered⟩
    · have ran : c.isRunning = true := by simp [Check.isRunning, before]
      have runs : next.isRunning = false := by simp [Check.isRunning, after]
      simp only [ran, runs, Bool.false_eq_true, if_false, if_true] at count
      refine ⟨by dsimp only; omega, (Nat.sub_le _ _).trans bounded, kept fun r answered => ?_⟩
      rw [after] at answered
      exact (CheckState.answered.inj answered).symm

theorem memory_le (c : Check) : c.memory ≤ if c.isRunning then maxHashMemory.toNat else 0 := by
  unfold Check.memory
  split
  case isTrue =>
    cases read : decodeHash c.encoded with
    | error e => exact Nat.zero_le _
    | ok h => exact (decodeHash_inBounds read).memory.2
  case isFalse => exact le_rfl

theorem sum_memory_le (cs : List Check) :
    (cs.map Check.memory).sum ≤ cs.countP Check.isRunning * maxHashMemory.toNat := by
  induction cs with
  | nil => simp
  | cons c cs ih =>
    have here := memory_le c
    rw [List.map_cons, List.sum_cons, List.countP_cons, Nat.add_mul]
    cases runs : c.isRunning
    · simp only [runs, Bool.false_eq_true, if_false] at here ⊢
      omega
    · simp only [runs, if_true] at here ⊢
      omega

/-- However logins arrive, wait, give up and are checked, the checks of the process together hold at
most the memory of one hash within bounds. An answered call has the answer of its own password, and
while no check runs a slot is free: a waiting call can always go on. -/
theorem checks_bounded {steps : List Step} (run : exec (step argon2) {} steps = some s) :
    (s.calls.map Check.memory).sum ≤ maxConcurrentChecks * maxHashMemory.toNat ∧
      (∀ c ∈ s.calls, ∀ r, c.state = .answered r → r = checkPassword argon2 c.password c.encoded) ∧
      ((∀ c ∈ s.calls, c.isRunning = false) → s.taken < maxConcurrentChecks) := by
  have start : Held argon2 {} := ⟨rfl, Nat.zero_le _, by simp⟩
  have held : Held argon2 s :=
    exec_invariant (fun _ _ _ before _ made => held_step before made) start
      (along_of_forall (p := fun _ => True) fun _ _ => trivial) run
  refine ⟨(sum_memory_le s.calls).trans (Nat.mul_le_mul_right _ (held.taken ▸ held.bounded)), held.answers, ?_⟩
  intro idle
  have none : s.calls.countP Check.isRunning = 0 := List.countP_eq_zero.mpr fun c member => by simp [idle c member]
  rw [held.taken, none]
  decide

/-- Keys of zeros. -/
def zeroKeys : Argon2 where
  idKey _ _ _ _ _ n := List.replicate n.toNat 0
  length_idKey := by simp

/-- The hash of a password, of zeros. -/
def zeroHash : String := hashPassword zeroKeys [1] (List.replicate 16 0)

/-- One login is checked and answered, a second gives up meanwhile, and a third is being checked. -/
def queue : List Step :=
  [.call [1] zeroHash, .acquire 0, .call [2] zeroHash, .giveUp 1, .finish 0, .call [3] zeroHash, .acquire 2]

theorem checks_bounded_queue : ∃ s, exec (step zeroKeys) {} queue = some s ∧
    (s.calls.map Check.memory).sum = argon2Memory.toNat ∧
    (s.calls.map Check.memory).sum ≤ maxConcurrentChecks * maxHashMemory.toNat := by
  have run : exec (step zeroKeys) {} queue = some { taken := 1, calls := [
      { password := [1], encoded := zeroHash, state := .answered (checkPassword zeroKeys [1] zeroHash) },
      { password := [2], encoded := zeroHash, state := .busy },
      { password := [3], encoded := zeroHash, state := .running }] } := rfl
  refine ⟨_, run, ?_, (checks_bounded run).1⟩
  have read : decodeHash zeroHash = .ok (ownHash zeroKeys [1] (List.replicate 16 0)) :=
    decodeHash_text (ownHash_inBounds zeroKeys [1] rfl)
  simp [Check.memory, Check.isRunning, read, Except.toOption, ownHash]

end CheckSlots

end Dockgraph.Auth
