import Mathlib.Data.List.Basic

/-!
# Base64, URL-safe and unpadded

Three bytes are four six-bit values. A decoder is lenient: it skips line breaks, and it does not
check the bits left over at the end.
-/
namespace Dockgraph.Base64

def alphabet : List Char :=
  "ABCDEFGHIJKLMNOPQRSTUVWXYZabcdefghijklmnopqrstuvwxyz0123456789-_".toList

def digit (n : Nat) : Char := alphabet.getD n 'A'

/-- The value of a character of the alphabet. -/
def value (c : Char) : Option Nat :=
  if 'A' ≤ c ∧ c ≤ 'Z' then some (c.toNat - 'A'.toNat)
  else if 'a' ≤ c ∧ c ≤ 'z' then some (c.toNat - 'a'.toNat + 26)
  else if '0' ≤ c ∧ c ≤ '9' then some (c.toNat - '0'.toNat + 52)
  else if c = '-' then some 62
  else if c = '_' then some 63
  else none

/-- The six-bit values of the bytes. -/
def sextets : List UInt8 → List Nat
  | a :: b :: c :: rest =>
    a.toNat / 4 :: (a.toNat % 4 * 16 + b.toNat / 16) :: (b.toNat % 16 * 4 + c.toNat / 64) ::
      c.toNat % 64 :: sextets rest
  | [a, b] => [a.toNat / 4, a.toNat % 4 * 16 + b.toNat / 16, b.toNat % 16 * 4]
  | [a] => [a.toNat / 4, a.toNat % 4 * 16]
  | [] => []

/-- The bytes of the six-bit values. -/
def bytes : List Nat → Option (List UInt8)
  | a :: b :: c :: d :: rest =>
    (bytes rest).map fun bs =>
      .ofNat (a * 4 + b / 16) :: .ofNat (b % 16 * 16 + c / 4) :: .ofNat (c % 4 * 64 + d) :: bs
  | [a, b, c] => some [.ofNat (a * 4 + b / 16), .ofNat (b % 16 * 16 + c / 4)]
  | [a, b] => some [.ofNat (a * 4 + b / 16)]
  | [_] => none
  | [] => some []

def encode (bs : List UInt8) : String := .ofList ((sextets bs).map digit)

def decode (s : String) : Option (List UInt8) :=
  ((s.toList.filter fun c => c ≠ '\n' ∧ c ≠ '\r').mapM value).bind bytes

theorem value_digit {n : Nat} (small : n < 64) : value (digit n) = some n := by
  revert n
  decide +kernel

theorem sextets_lt (bs : List UInt8) : ∀ n ∈ sextets bs, n < 64 := by
  fun_induction sextets bs with
  | case1 a b c rest ih =>
    have := a.toNat_lt
    have := b.toNat_lt
    have := c.toNat_lt
    simp only [List.forall_mem_cons]
    exact ⟨by omega, by omega, by omega, by omega, ih⟩
  | case2 a b =>
    have := a.toNat_lt
    have := b.toNat_lt
    simp only [List.forall_mem_cons]
    exact ⟨by omega, by omega, by omega, nofun⟩
  | case3 a =>
    have := a.toNat_lt
    simp only [List.forall_mem_cons]
    exact ⟨by omega, by omega, nofun⟩
  | case4 => exact nofun

theorem ofNat_eq {n : Nat} {a : UInt8} (same : n = a.toNat) : UInt8.ofNat n = a := by
  rw [same, UInt8.ofNat_toNat]

theorem bytes_sextets (bs : List UInt8) : bytes (sextets bs) = some bs := by
  fun_induction sextets bs with
  | case1 a b c rest ih =>
    have := a.toNat_lt
    have := b.toNat_lt
    have := c.toNat_lt
    rw [bytes, ih, Option.map_some, ofNat_eq (a := a) (by omega), ofNat_eq (a := b) (by omega),
      ofNat_eq (a := c) (by omega)]
  | case2 a b =>
    have := b.toNat_lt
    rw [bytes, ofNat_eq (a := a) (by omega), ofNat_eq (a := b) (by omega)]
  | case3 a => rw [bytes, ofNat_eq (a := a) (by omega)]
  | case4 => rfl

theorem mapM_value (ns : List Nat) (small : ∀ n ∈ ns, n < 64) :
    (ns.map digit).mapM value = some ns := by
  induction ns with
  | nil => rfl
  | cons n ns ih =>
    rw [List.forall_mem_cons] at small
    simp [value_digit small.1, ih small.2]

/-- What holds of the alphabet holds of every encoded text. -/
theorem forall_mem_encode {p : Char → Prop} (letters : ∀ n < 64, p (digit n)) (bs : List UInt8) :
    ∀ c ∈ (encode bs).toList, p c := by
  intro c member
  rw [encode, String.toList_ofList] at member
  obtain ⟨n, listed, rfl⟩ := List.mem_map.mp member
  exact letters n (sextets_lt bs n listed)

theorem decode_encode (bs : List UInt8) : decode (encode bs) = some bs := by
  have kept : (encode bs).toList.filter (fun c => c ≠ '\n' ∧ c ≠ '\r') = (encode bs).toList :=
    List.filter_eq_self.mpr (forall_mem_encode (by decide +kernel) bs)
  rw [decode, kept, encode, String.toList_ofList, mapM_value _ (sextets_lt bs)]
  exact bytes_sextets bs

theorem encode_injective {as bs : List UInt8} (same : encode as = encode bs) : as = bs := by
  have decoded := congrArg decode same
  rw [decode_encode, decode_encode] at decoded
  exact Option.some.inj decoded

/-! ## The standard alphabet -/

/-- The last two characters of the alphabet are others. -/
def standard (c : Char) : Char := if c = '-' then '+' else if c = '_' then '/' else c

def urlSafe (c : Char) : Option Char :=
  if c = '+' then some '-' else if c = '/' then some '_' else if c = '-' ∨ c = '_' then none else some c

def encodeStd (bs : List UInt8) : String := .ofList ((encode bs).toList.map standard)

def decodeStd (s : String) : Option (List UInt8) :=
  (s.toList.mapM urlSafe).bind fun cs => decode (.ofList cs)

theorem urlSafe_standard {c : Char} (letter : c ≠ '+' ∧ c ≠ '/') : urlSafe (standard c) = some c := by
  unfold standard
  split
  case isTrue dash =>
    subst dash
    rfl
  case isFalse dash =>
    split
    case isTrue low =>
      subst low
      rfl
    case isFalse low => simp [urlSafe, dash, low, letter]

theorem forall_mem_encodeStd {p : Char → Prop} (letters : ∀ n < 64, p (standard (digit n))) (bs : List UInt8) :
    ∀ c ∈ (encodeStd bs).toList, p c := by
  intro c member
  rw [encodeStd, String.toList_ofList] at member
  obtain ⟨d, listed, rfl⟩ := List.mem_map.mp member
  exact forall_mem_encode (p := fun d => p (standard d)) letters bs d listed

theorem decodeStd_encodeStd (bs : List UInt8) : decodeStd (encodeStd bs) = some bs := by
  have letters : ∀ c ∈ (encode bs).toList, c ≠ '+' ∧ c ≠ '/' := forall_mem_encode (by decide +kernel) bs
  have back (cs : List Char) (plain : ∀ c ∈ cs, c ≠ '+' ∧ c ≠ '/') :
      (cs.map standard).mapM urlSafe = some cs := by
    induction cs with
    | nil => rfl
    | cons c cs ih =>
      rw [List.forall_mem_cons] at plain
      simp [urlSafe_standard plain.1, ih plain.2]
  rw [decodeStd, encodeStd, String.toList_ofList, back _ letters, Option.bind_some, String.ofList_toList,
    decode_encode]

end Dockgraph.Base64
