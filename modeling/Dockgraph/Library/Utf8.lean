import Mathlib.Data.List.Infix

/-!
# UTF-8 boundaries

The bytes of a text, and the places between its characters among them: the first byte of a
character is told apart from the bytes that continue one.
-/
namespace Dockgraph.Utf8

/-- The bytes of a text. -/
def bytes (s : List Char) : List UInt8 := s.flatMap String.utf8EncodeChar

/-- A byte that does not continue a character. -/
def runeStart (b : UInt8) : Bool := b &&& 0xC0 != 0x80

theorem runeStart_iff (b : UInt8) : runeStart b = true ↔ b.toNat < 0x80 ∨ 0xC0 ≤ b.toNat := by
  have mask : ∀ v : BitVec 8, (v &&& 0xC0#8 != 0x80#8) = decide (v.toNat < 0x80 ∨ 0xC0 ≤ v.toNat) := by
    decide +kernel
  have same : runeStart b = (b.toBitVec &&& 0xC0#8 != 0x80#8) := by
    rw [Bool.eq_iff_iff]
    simp [runeStart, ← UInt8.toBitVec_inj]
  rw [same, mask b.toBitVec]
  simp

theorem runeStart_lead {n : Nat} (lead : n < 0x80 ∨ 0xC0 ≤ n) (small : n < 256) :
    runeStart (UInt8.ofNat n) = true := by
  rw [runeStart_iff, UInt8.toNat_ofNat_of_lt' small]
  exact lead

theorem runeStart_tail (n : Nat) : runeStart (UInt8.ofNat (n % 0x40 + 0x80)) = false := by
  have small : n % 0x40 + 0x80 < 256 := by omega
  rw [Bool.eq_false_iff, ne_eq, runeStart_iff, UInt8.toNat_ofNat_of_lt' small]
  omega

/-- One leading byte, and then only bytes that continue it. -/
theorem encode_shape (c : Char) :
    ∃ b tail, String.utf8EncodeChar c = b :: tail ∧ runeStart b = true ∧
      ∀ x ∈ tail, runeStart x = false := by
  have top : c.val.toNat < 0x110000 := by
    rcases c.valid with low | high
    · exact lt_trans low (by decide)
    · exact high.2
  unfold String.utf8EncodeChar
  by_cases one : c.val.toNat ≤ 0x7f
  · rw [if_pos one]
    exact ⟨_, [], rfl, runeStart_lead (.inl (by omega)) (by omega), by simp⟩
  rw [if_neg one]
  by_cases two : c.val.toNat ≤ 0x7ff
  · rw [if_pos two]
    refine ⟨_, _, rfl, runeStart_lead (.inr (by omega)) (by omega), ?_⟩
    simp only [List.mem_singleton]
    rintro x rfl
    exact runeStart_tail _
  rw [if_neg two]
  by_cases three : c.val.toNat ≤ 0xffff
  · rw [if_pos three]
    refine ⟨_, _, rfl, runeStart_lead (.inr (by omega)) (by omega), ?_⟩
    simp only [List.mem_cons, List.not_mem_nil, or_false]
    rintro x (rfl | rfl) <;> exact runeStart_tail _
  · rw [if_neg three]
    refine ⟨_, _, rfl, runeStart_lead (.inr (by omega)) (by omega), ?_⟩
    simp only [List.mem_cons, List.not_mem_nil, or_false]
    rintro x (rfl | rfl | rfl) <;> exact runeStart_tail _

@[simp] theorem bytes_nil : bytes [] = [] := rfl

@[simp] theorem bytes_cons (c : Char) (s : List Char) :
    bytes (c :: s) = String.utf8EncodeChar c ++ bytes s := rfl

@[simp] theorem bytes_append (s t : List Char) : bytes (s ++ t) = bytes s ++ bytes t := by
  simp [bytes]

/-! ## Boundaries -/

/-- The text could be cut before byte `k`. -/
def Boundary (bs : List UInt8) (k : Nat) : Prop := k = 0 ∨ ∀ b, bs[k]? = some b → runeStart b = true

/-- After a whole number of characters a text may be cut. -/
theorem boundary_length (s t : List Char) : Boundary (bytes (s ++ t)) (bytes s).length := by
  right
  intro b next
  cases t with
  | nil => simp at next
  | cons c t =>
    obtain ⟨lead, tail, shape, starts, _⟩ := encode_shape c
    rw [bytes_append, List.getElem?_append_right le_rfl, Nat.sub_self, bytes_cons, shape] at next
    cases next
    exact starts

/-- A text may be cut nowhere else. -/
theorem exists_chars_of_boundary {s : List Char} {k : Nat} (inside : k ≤ (bytes s).length)
    (boundary : Boundary (bytes s) k) : ∃ front, front <+: s ∧ (bytes front).length = k := by
  induction s generalizing k with
  | nil => exact ⟨[], List.prefix_rfl, by simpa using (Nat.le_zero.mp inside).symm⟩
  | cons c s ih =>
    obtain ⟨lead, tail, shape, _, continues⟩ := encode_shape c
    rcases Nat.eq_zero_or_pos k with rfl | positive
    · exact ⟨[], List.nil_prefix, rfl⟩
    have starts := boundary.resolve_left positive.ne'
    by_cases within : k < (String.utf8EncodeChar c).length
    · -- inside the first character every byte continues it
      have member : (String.utf8EncodeChar c)[k] ∈ tail := by
        obtain ⟨j, rfl⟩ := Nat.exists_eq_succ_of_ne_zero positive.ne'
        simp [shape]
      have start := starts (String.utf8EncodeChar c)[k] (by simp [List.getElem?_append_left within])
      rw [continues _ member] at start
      exact absurd start Bool.false_ne_true
    · have reach : (String.utf8EncodeChar c).length ≤ k := not_lt.mp within
      obtain ⟨front, first, long⟩ := ih (k := k - (String.utf8EncodeChar c).length)
        (by rw [bytes_cons, List.length_append] at inside; omega)
        (.inr fun b next => starts b (by rwa [bytes_cons, List.getElem?_append_right reach]))
      refine ⟨c :: front, (List.prefix_cons_inj c).mpr first, ?_⟩
      rw [bytes_cons, List.length_append, long]
      omega

theorem bytes_mono {front s : List Char} (first : front <+: s) : bytes front <+: bytes s := by
  obtain ⟨rest, rfl⟩ := first
  rw [bytes_append]
  exact List.prefix_append _ _

/-- Prefixes of one text with as many bytes are the same. -/
theorem eq_of_length_bytes {a b s : List Char} (first : a <+: s) (second : b <+: s)
    (same : (bytes a).length = (bytes b).length) : a = b := by
  have grows {x y : List Char} (shorter : x <+: y) (long : (bytes y).length ≤ (bytes x).length) : x = y := by
    obtain ⟨rest, rfl⟩ := shorter
    cases rest with
    | nil => simp
    | cons c rest =>
      obtain ⟨lead, tail, shape, _⟩ := encode_shape c
      simp only [bytes_append, bytes_cons, shape, List.cons_append, List.length_append, List.length_cons] at long
      omega
  rcases List.prefix_or_prefix_of_prefix first second with shorter | shorter
  · exact grows shorter same.ge
  · exact (grows shorter same.le).symm

/-! ## The longest text that fits -/

/-- As many whole characters from the front as fit in `limit` bytes. -/
def fit : Nat → List Char → List Char
  | _, [] => []
  | limit, c :: s =>
    if (String.utf8EncodeChar c).length ≤ limit then
      c :: fit (limit - (String.utf8EncodeChar c).length) s
    else []

theorem fit_isPrefix (limit : Nat) (s : List Char) : fit limit s <+: s := by
  induction s generalizing limit with
  | nil => exact List.prefix_rfl
  | cons c s ih =>
    rw [fit]
    split
    · exact (List.prefix_cons_inj c).mpr (ih _)
    · exact List.nil_prefix

theorem length_bytes_fit_le (limit : Nat) (s : List Char) : (bytes (fit limit s)).length ≤ limit := by
  induction s generalizing limit with
  | nil => simp [fit]
  | cons c s ih =>
    rw [fit]
    split
    case isTrue fits =>
      have rest := ih (limit - (String.utf8EncodeChar c).length)
      rw [bytes_cons, List.length_append]
      omega
    case isFalse => simp

/-- No longer run of whole characters fits. -/
theorem isPrefix_fit {limit : Nat} {front s : List Char} (first : front <+: s)
    (fits : (bytes front).length ≤ limit) : front <+: fit limit s := by
  induction s generalizing limit front with
  | nil => simpa [fit] using first
  | cons c s ih =>
    cases front with
    | nil => exact List.nil_prefix
    | cons d front =>
      obtain ⟨rfl, rest⟩ := List.cons_prefix_cons.mp first
      rw [bytes_cons, List.length_append] at fits
      rw [fit, if_pos (by omega)]
      exact (List.prefix_cons_inj d).mpr (ih rest (by omega))

theorem fit_eq_self {limit : Nat} {s : List Char} (fits : (bytes s).length ≤ limit) : fit limit s = s :=
  (fit_isPrefix limit s).eq_of_length_le (isPrefix_fit List.prefix_rfl fits).length_le

end Dockgraph.Utf8
