import Mathlib.Data.List.Basic
import Mathlib.Data.String.Basic
import Mathlib.Tactic.Ring

/-!
# RFC 3339 timestamps

`time.Parse` with the layout `time.RFC3339Nano`, as nanoseconds, and the fixed-width UTC text that
sorts as a string in the order of time.
-/
namespace Dockgraph.Timestamp

/-! ## The calendar -/

def isLeap (year : Nat) : Prop := year % 4 = 0 ∧ (year % 100 ≠ 0 ∨ year % 400 = 0)

instance (year : Nat) : Decidable (isLeap year) := inferInstanceAs (Decidable (_ ∧ _))

def daysIn (year month : Nat) : Nat :=
  if month = 2 then if isLeap year then 29 else 28
  else if month ∈ [4, 6, 9, 11] then 30
  else 31

/-- Days from the first of January of year 0. -/
def daysBeforeYear (year : Nat) : Nat :=
  365 * year + (year + 3) / 4 + (year + 399) / 400 - (year + 99) / 100

def daysBeforeMonth (year : Nat) : Nat → Nat
  | 0 => 0
  | 1 => 0
  | month + 2 => daysBeforeMonth year (month + 1) + daysIn year (month + 1)

/-- Nanoseconds from the start of year 0, UTC. -/
def nanoseconds (year month day hour minute second nano : Nat) : Nat :=
  ((((daysBeforeYear year + daysBeforeMonth year month + (day - 1)) * 24 + hour) * 60 + minute) * 60 +
    second) * 10 ^ 9 + nano

/-! ## Parsing -/

/-- A number of exactly so many digits. -/
def number (acc : Nat) : Nat → List Char → Option (Nat × List Char)
  | 0, cs => some (acc, cs)
  | _ + 1, [] => none
  | w + 1, c :: cs => if c.isDigit then number (10 * acc + (c.toNat - '0'.toNat)) w cs else none

def literal (c : Char) : List Char → Option (List Char)
  | [] => none
  | d :: cs => if d = c then some cs else none

/-- An hour may have one digit. -/
def hourNumber (cs : List Char) : Option (Nat × List Char) :=
  match number 0 2 cs with
  | some parsed => some parsed
  | none => number 0 1 cs

/-- The fraction of a second in nanoseconds; digits past the ninth are dropped. -/
def fraction : List Char → Nat × List Char
  | [] => (0, [])
  | c :: cs =>
    let digits := cs.takeWhile Char.isDigit
    if (c = '.' ∨ c = ',') ∧ digits ≠ [] then
      let kept := digits.take 9
      (kept.foldl (fun n d => 10 * n + (d.toNat - '0'.toNat)) 0 * 10 ^ (9 - kept.length),
        cs.dropWhile Char.isDigit)
    else (0, c :: cs)

/-- The offset in minutes east of UTC at the end of a timestamp. -/
def zone : List Char → Option Int
  | ['Z'] => some 0
  | [] => none
  | sign :: cs => do
    let (hour, cs) ← number 0 2 cs
    let cs ← literal ':' cs
    let (minute, cs) ← number 0 2 cs
    if cs ≠ [] ∨ hour > 24 ∨ minute > 60 then none
    else if sign = '+' then some (hour * 60 + minute)
    else if sign = '-' then some (-(hour * 60 + minute))
    else none

/-- `time.Parse(time.RFC3339Nano, s)`. -/
def timeParse (s : String) : Option Int := do
  let (year, cs) ← number 0 4 s.toList
  let cs ← literal '-' cs
  let (month, cs) ← number 0 2 cs
  let cs ← literal '-' cs
  let (day, cs) ← number 0 2 cs
  let cs ← literal 'T' cs
  let (hour, cs) ← hourNumber cs
  let cs ← literal ':' cs
  let (minute, cs) ← number 0 2 cs
  let cs ← literal ':' cs
  let (second, cs) ← number 0 2 cs
  let (nano, cs) := fraction cs
  let offset ← zone cs
  if 1 ≤ month ∧ month ≤ 12 ∧ 1 ≤ day ∧ day ≤ daysIn year month ∧ hour < 24 ∧ minute < 60 ∧
      second < 60 then
    some (nanoseconds year month day hour minute second nano - offset * (60 * 10 ^ 9))
  else none

theorem timeParse_empty : timeParse "" = none := by decide

/-! ## Fixed width -/

/-- A number of so many digits, with leading zeros. -/
def pad : Nat → Nat → List Char
  | 0, _ => []
  | w + 1, n => Nat.digitChar (n / 10 ^ w % 10) :: pad w n

/-- Year, month and day of a day, counted from the first of January of year 1. -/
def civil (days : Int) : Int × Nat × Nat :=
  -- years that start in March, in cycles of 400
  let shifted := days + 306
  let ofCycle := (shifted % 146097).toNat
  let yearOfCycle := (ofCycle - ofCycle / 1460 + ofCycle / 36524 - ofCycle / 146096) / 365
  let ofYear := ofCycle - (365 * yearOfCycle + yearOfCycle / 4 - yearOfCycle / 100)
  let fromMarch := (5 * ofYear + 2) / 153
  let month := if fromMarch < 10 then fromMarch + 3 else fromMarch - 9
  let year := yearOfCycle + shifted / 146097 * 400
  (if month ≤ 2 then year + 1 else year, month, ofYear - (153 * fromMarch + 2) / 5 + 1)

/-- A year has four digits at least. -/
def yearText (year : Int) : List Char :=
  let digits := if year.natAbs < 10000 then pad 4 year.natAbs else Nat.toDigits 10 year.natAbs
  if year < 0 then '-' :: digits else digits

/-- `t.UTC().Format(time.RFC3339)` of nanoseconds from the first of January of year 1. -/
def rfc3339 (time : Int) : String :=
  let seconds := time / 10 ^ 9
  let (year, month, day) := civil (seconds / 86400)
  let clock := (seconds % 86400).toNat
  String.ofList (yearText year ++ '-' :: (pad 2 month ++ '-' :: (pad 2 day ++ 'T' ::
    (pad 2 (clock / 3600) ++ ':' :: (pad 2 (clock / 60 % 60) ++ ':' :: (pad 2 (clock % 60) ++ ['Z']))))))

example : rfc3339 0 = "0001-01-01T00:00:00Z" := by decide

example : rfc3339 ((62135596800 + 1709210096) * 10 ^ 9) = "2024-02-29T12:34:56Z" := by decide

/-- A time of the years 0 to 9999, to the nanosecond. -/
structure Stamp where
  year : Nat
  month : Nat
  day : Nat
  hour : Nat
  minute : Nat
  second : Nat
  nano : Nat
  year_lt : year < 10000
  month_pos : 1 ≤ month
  month_le : month ≤ 12
  day_pos : 1 ≤ day
  day_le : day ≤ daysIn year month
  hour_lt : hour < 24
  minute_lt : minute < 60
  second_lt : second < 60
  nano_lt : nano < 10 ^ 9

namespace Stamp

/-- `2006-01-02T15:04:05.000000000Z`. -/
def chars (t : Stamp) : List Char :=
  pad 4 t.year ++ '-' :: (pad 2 t.month ++ '-' :: (pad 2 t.day ++ 'T' :: (pad 2 t.hour ++ ':' ::
    (pad 2 t.minute ++ ':' :: (pad 2 t.second ++ '.' :: (pad 9 t.nano ++ ['Z']))))))

def text (t : Stamp) : String := String.ofList t.chars

def instant (t : Stamp) : Nat :=
  nanoseconds t.year t.month t.day t.hour t.minute t.second t.nano

end Stamp

/-! ## Reading a fixed-width timestamp -/

theorem digitChar_isDigit {d : Nat} (small : d < 10) : (Nat.digitChar d).isDigit = true := by
  revert d
  decide

theorem digitChar_toNat {d : Nat} (small : d < 10) : (Nat.digitChar d).toNat - '0'.toNat = d := by
  revert d
  decide

theorem mod_ten_pow_succ (n w : Nat) : n % 10 ^ (w + 1) = n / 10 ^ w % 10 * 10 ^ w + n % 10 ^ w := by
  rw [Nat.pow_succ, Nat.mod_mul]
  ring

theorem pad_isDigit (w n : Nat) : ∀ c ∈ pad w n, c.isDigit = true := by
  induction w with
  | zero => exact nofun
  | succ w ih =>
    intro c member
    rcases List.mem_cons.mp member with rfl | member
    · exact digitChar_isDigit (Nat.mod_lt _ (by decide))
    · exact ih c member

@[simp]
theorem length_pad (w n : Nat) : (pad w n).length = w := by
  induction w with
  | zero => rfl
  | succ w ih => rw [pad, List.length_cons, ih]

theorem foldl_pad (acc w n : Nat) :
    (pad w n).foldl (fun n d => 10 * n + (d.toNat - '0'.toNat)) acc = acc * 10 ^ w + n % 10 ^ w := by
  induction w generalizing acc with
  | zero => simp [pad, Nat.mod_one]
  | succ w ih =>
    rw [pad, List.foldl_cons, digitChar_toNat (Nat.mod_lt _ (by decide)), ih, mod_ten_pow_succ]
    ring

theorem number_digits {ds : List Char} (digits : ∀ d ∈ ds, d.isDigit = true) (acc : Nat)
    (rest : List Char) :
    number acc ds.length (ds ++ rest) =
      some (ds.foldl (fun n d => 10 * n + (d.toNat - '0'.toNat)) acc, rest) := by
  induction ds generalizing acc with
  | nil => rfl
  | cons d ds ih =>
    rw [List.forall_mem_cons] at digits
    rw [List.length_cons, List.cons_append, number, if_pos digits.1, ih digits.2, List.foldl_cons]

theorem number_pad {w n : Nat} (small : n < 10 ^ w) (rest : List Char) :
    number 0 w (pad w n ++ rest) = some (n, rest) := by
  have read := number_digits (pad_isDigit w n) 0 rest
  rwa [length_pad, foldl_pad, Nat.zero_mul, Nat.zero_add, Nat.mod_eq_of_lt small] at read

@[simp]
theorem literal_self (c : Char) (cs : List Char) : literal c (c :: cs) = some cs := if_pos rfl

theorem fraction_pad {nano : Nat} (small : nano < 10 ^ 9) :
    fraction ('.' :: (pad 9 nano ++ ['Z'])) = (nano, ['Z']) := by
  have digits : (pad 9 nano ++ ['Z']).takeWhile Char.isDigit = pad 9 nano := by
    rw [List.takeWhile_append_of_pos (pad_isDigit 9 nano)]
    simp
  have rest : (pad 9 nano ++ ['Z']).dropWhile Char.isDigit = ['Z'] := by
    rw [List.dropWhile_append_of_pos (pad_isDigit 9 nano)]
    rfl
  have some : pad 9 nano ≠ [] := List.cons_ne_nil _ _
  rw [fraction, digits, rest]
  dsimp only
  rw [if_pos ⟨.inl rfl, some⟩, List.take_of_length_le (by rw [length_pad]), foldl_pad, length_pad,
    Nat.mod_eq_of_lt small]
  norm_num

theorem hourNumber_pad {n : Nat} {cs rest : List Char}
    (read : number 0 2 (pad 2 n ++ cs) = some (n, rest)) :
    hourNumber (pad 2 n ++ cs) = some (n, rest) := by
  rw [hourNumber, read]

namespace Stamp

theorem day_lt (t : Stamp) : t.day < 10 ^ 2 := by
  have le := t.day_le
  unfold daysIn at le
  split_ifs at le <;> omega

theorem timeParse_text (t : Stamp) : timeParse t.text = some (t.instant : Int) := by
  have year := number_pad (w := 4) t.year_lt
  have month := number_pad (w := 2) (n := t.month) (by have := t.month_le; omega)
  have day := number_pad t.day_lt
  have hour := number_pad (w := 2) (n := t.hour) (by have := t.hour_lt; omega)
  have minute := number_pad (w := 2) (n := t.minute) (by have := t.minute_lt; omega)
  have second := number_pad (w := 2) (n := t.second) (by have := t.second_lt; omega)
  have valid : 1 ≤ t.month ∧ t.month ≤ 12 ∧ 1 ≤ t.day ∧ t.day ≤ daysIn t.year t.month ∧ t.hour < 24 ∧
      t.minute < 60 ∧ t.second < 60 :=
    ⟨t.month_pos, t.month_le, t.day_pos, t.day_le, t.hour_lt, t.minute_lt, t.second_lt⟩
  have hours (cs : List Char) := hourNumber_pad (hour cs)
  rw [timeParse, text, String.toList_ofList, chars, year, Option.bind_eq_bind, Option.bind_some]
  dsimp only [Option.bind_eq_bind]
  rw [literal_self, Option.bind_some, month, Option.bind_some]
  dsimp only
  rw [literal_self, Option.bind_some, day, Option.bind_some]
  dsimp only
  rw [literal_self, Option.bind_some, hours, Option.bind_some]
  dsimp only
  rw [literal_self, Option.bind_some, minute, Option.bind_some]
  dsimp only
  rw [literal_self, Option.bind_some, second, Option.bind_some, fraction_pad t.nano_lt]
  dsimp only
  rw [zone, Option.bind_some, if_pos valid, Int.zero_mul, Int.sub_zero]
  rfl

end Stamp

/-! ## Text order and time order -/

theorem digitChar_lt {c d : Nat} (smallC : c < 10) (smallD : d < 10) :
    Nat.digitChar c < Nat.digitChar d ↔ c < d := by
  have table : ∀ c < 10, ∀ d < 10, Nat.digitChar c < Nat.digitChar d ↔ c < d := by decide
  exact table c smallC d smallD

theorem digitChar_inj {c d : Nat} (smallC : c < 10) (smallD : d < 10) :
    Nat.digitChar c = Nat.digitChar d ↔ c = d := by
  have table : ∀ c < 10, ∀ d < 10, Nat.digitChar c = Nat.digitChar d ↔ c = d := by decide
  exact table c smallC d smallD

theorem lex_lt {a b r t k : Nat} (less : a < b ∨ a = b ∧ r < t) (small : r < k) :
    a * k + r < b * k + t := by
  rcases less with lt | ⟨rfl, lt⟩
  · have := Nat.mul_le_mul_right k (Nat.succ_le_of_lt lt)
    rw [Nat.succ_mul] at this
    omega
  · omega

theorem lex_step {a b r t k : Nat} {below : Prop}
    (less : a < b ∨ a = b ∧ (r < t ∨ r = t ∧ below)) (small : r < k) :
    a * k + r < b * k + t ∨ a * k + r = b * k + t ∧ below := by
  rcases less with lt | ⟨rfl, lt | ⟨rfl, rest⟩⟩
  · exact .inl (lex_lt (.inl lt) small)
  · exact .inl (lex_lt (.inr ⟨rfl, lt⟩) small)
  · exact .inr ⟨rfl, rest⟩

/-- The first of two digits decides, whatever is below it. -/
theorem lex_digit {a b r t m : Nat} (smallR : r < m) (smallT : t < m) :
    a * m + r < b * m + t ↔ a < b ∨ a = b ∧ r < t := by
  refine ⟨fun less => ?_, fun less => lex_lt less smallR⟩
  rcases Nat.lt_trichotomy a b with lt | rfl | gt
  · exact .inl lt
  · exact .inr ⟨rfl, Nat.lt_of_add_lt_add_left less⟩
  · have := lex_lt (t := r) (.inl gt) smallT
    omega

theorem lex_digit_eq {a b r t m : Nat} (smallR : r < m) (smallT : t < m) :
    a * m + r = b * m + t ↔ a = b ∧ r = t := by
  constructor
  · intro same
    have notLess := mt (lex_digit (a := a) (b := b) smallR smallT).mpr (by omega)
    have notMore := mt (lex_digit (a := b) (b := a) smallT smallR).mpr (by omega)
    omega
  · rintro ⟨rfl, rfl⟩
    rfl

theorem pad_append_lt (w m n : Nat) (xs ys : List Char) :
    pad w m ++ xs < pad w n ++ ys ↔
      m % 10 ^ w < n % 10 ^ w ∨ m % 10 ^ w = n % 10 ^ w ∧ xs < ys := by
  induction w with
  | zero => simp [pad, Nat.mod_one]
  | succ w ih =>
    have smallM : m / 10 ^ w % 10 < 10 := Nat.mod_lt _ (by decide)
    have smallN : n / 10 ^ w % 10 < 10 := Nat.mod_lt _ (by decide)
    have restM : m % 10 ^ w < 10 ^ w := Nat.mod_lt _ (Nat.pow_pos (by decide))
    have restN : n % 10 ^ w < 10 ^ w := Nat.mod_lt _ (Nat.pow_pos (by decide))
    rw [pad, pad, List.cons_append, List.cons_append, List.cons_lt_cons_iff, digitChar_lt smallM smallN,
      digitChar_inj smallM smallN, ih, mod_ten_pow_succ m, mod_ten_pow_succ n, lex_digit restM restN,
      lex_digit_eq restM restN]
    tauto

theorem pad_append_lt_of_lt {w m n : Nat} (smallM : m < 10 ^ w) (smallN : n < 10 ^ w)
    (xs ys : List Char) : pad w m ++ xs < pad w n ++ ys ↔ m < n ∨ m = n ∧ xs < ys := by
  rw [pad_append_lt, Nat.mod_eq_of_lt smallM, Nat.mod_eq_of_lt smallN]

theorem daysBeforeYear_succ (year : Nat) :
    daysBeforeYear (year + 1) = daysBeforeYear year + if isLeap year then 366 else 365 := by
  have four : (year + 1 + 3) / 4 = (year + 3) / 4 + if year % 4 = 0 then 1 else 0 := by
    split <;> omega
  have hundred : (year + 1 + 99) / 100 = (year + 99) / 100 + if year % 100 = 0 then 1 else 0 := by
    split <;> omega
  have fourHundred : (year + 1 + 399) / 400 = (year + 399) / 400 + if year % 400 = 0 then 1 else 0 := by
    split <;> omega
  have le : (year + 99) / 100 ≤ 365 * year := by omega
  unfold daysBeforeYear isLeap
  rw [four, hundred, fourHundred]
  generalize (year + 3) / 4 = a at *
  generalize (year + 99) / 100 = b at *
  generalize (year + 399) / 400 = c at *
  by_cases first : year % 4 = 0
  · by_cases second : year % 100 = 0
    · by_cases third : year % 400 = 0 <;> simp [first, second, third] <;> omega
    · have third : year % 400 ≠ 0 := by omega
      simp [first, second, third]
      omega
  · have second : year % 100 ≠ 0 := by omega
    have third : year % 400 ≠ 0 := by omega
    simp [first, second, third]
    omega

theorem daysBeforeYear_mono {a b : Nat} (le : a ≤ b) : daysBeforeYear a ≤ daysBeforeYear b :=
  monotone_nat_of_le_succ (fun year => by rw [daysBeforeYear_succ]; omega) le

theorem daysBeforeMonth_succ (year : Nat) {month : Nat} (pos : 1 ≤ month) :
    daysBeforeMonth year (month + 1) = daysBeforeMonth year month + daysIn year month := by
  obtain ⟨m, rfl⟩ := Nat.exists_eq_add_of_le' pos
  rfl

theorem daysBeforeMonth_mono (year : Nat) {a b : Nat} (le : a ≤ b) :
    daysBeforeMonth year a ≤ daysBeforeMonth year b := by
  refine monotone_nat_of_le_succ (fun month => ?_) le
  rcases Nat.eq_zero_or_pos month with rfl | pos
  · exact le_refl 0
  · rw [daysBeforeMonth_succ year pos]
    omega

theorem daysBeforeMonth_december (year : Nat) :
    daysBeforeMonth year 13 = if isLeap year then 366 else 365 := by
  by_cases leap : isLeap year
  · simp [daysBeforeMonth, daysIn, leap]
  · simp [daysBeforeMonth, daysIn, leap]

/-- A day of an earlier month, or an earlier day of the same month. -/
theorem dayOfYear_lt {year m d n e : Nat} (posM : 1 ≤ m) (posD : 1 ≤ d) (leD : d ≤ daysIn year m)
    (posE : 1 ≤ e) (earlier : m < n ∨ m = n ∧ d < e) :
    daysBeforeMonth year m + (d - 1) < daysBeforeMonth year n + (e - 1) := by
  rcases earlier with lt | ⟨rfl, lt⟩
  · have := daysBeforeMonth_mono year (Nat.succ_le_of_lt lt)
    rw [Nat.succ_eq_add_one, daysBeforeMonth_succ year posM] at this
    omega
  · omega

namespace Stamp

def days (t : Stamp) : Nat :=
  daysBeforeYear t.year + daysBeforeMonth t.year t.month + (t.day - 1)

theorem days_lt_next_year (t : Stamp) : t.days < daysBeforeYear (t.year + 1) := by
  have le := daysBeforeMonth_mono t.year (Nat.succ_le_succ t.month_le)
  rw [Nat.succ_eq_add_one, daysBeforeMonth_succ t.year t.month_pos, daysBeforeMonth_december] at le
  have day := t.day_le
  have pos := t.day_pos
  rw [daysBeforeYear_succ, days]
  omega

theorem days_lt {s t : Stamp} (earlier : s.year < t.year ∨ s.year = t.year ∧
    (s.month < t.month ∨ s.month = t.month ∧ s.day < t.day)) : s.days < t.days := by
  rcases earlier with lt | ⟨same, earlier⟩
  · have := daysBeforeYear_mono (Nat.succ_le_of_lt lt)
    have := s.days_lt_next_year
    rw [Nat.succ_eq_add_one] at *
    unfold days at *
    omega
  · have := dayOfYear_lt s.month_pos s.day_pos s.day_le t.day_pos earlier
    unfold days
    rw [← same]
    omega

theorem instant_eq (t : Stamp) :
    t.instant = (((t.days * 24 + t.hour) * 60 + t.minute) * 60 + t.second) * 10 ^ 9 + t.nano := rfl

/-- Text order is the order of the fields, the year first. -/
theorem text_lt_fields {s t : Stamp} (less : s.text < t.text) :
    s.year < t.year ∨ s.year = t.year ∧ (s.month < t.month ∨ s.month = t.month ∧ (s.day < t.day ∨
      s.day = t.day ∧ (s.hour < t.hour ∨ s.hour = t.hour ∧ (s.minute < t.minute ∨
        s.minute = t.minute ∧ (s.second < t.second ∨ s.second = t.second ∧ s.nano < t.nano))))) := by
  have month (r : Stamp) : r.month < 10 ^ 2 := by have := r.month_le; omega
  have hour (r : Stamp) : r.hour < 10 ^ 2 := by have := r.hour_lt; omega
  have minute (r : Stamp) : r.minute < 10 ^ 2 := by have := r.minute_lt; omega
  have second (r : Stamp) : r.second < 10 ^ 2 := by have := r.second_lt; omega
  rw [String.lt_iff, text, text, String.toList_ofList, String.toList_ofList, chars, chars] at less
  simpa only [pad_append_lt_of_lt (w := 4) s.year_lt t.year_lt, pad_append_lt_of_lt (month s) (month t),
    pad_append_lt_of_lt s.day_lt t.day_lt, pad_append_lt_of_lt (hour s) (hour t),
    pad_append_lt_of_lt (minute s) (minute t), pad_append_lt_of_lt (second s) (second t),
    pad_append_lt_of_lt s.nano_lt t.nano_lt, List.cons_lt_cons_self, List.lt_irrefl, and_false,
    or_false] using less

theorem instant_lt_of_text_lt {s t : Stamp} (less : s.text < t.text) : s.instant < t.instant := by
  have fields : s.days < t.days ∨ s.days = t.days ∧ (s.hour < t.hour ∨ s.hour = t.hour ∧
      (s.minute < t.minute ∨ s.minute = t.minute ∧ (s.second < t.second ∨ s.second = t.second ∧
        s.nano < t.nano))) := by
    rcases text_lt_fields less with lt | ⟨year, lt | ⟨month, lt | ⟨day, rest⟩⟩⟩
    · exact .inl (days_lt (.inl lt))
    · exact .inl (days_lt (.inr ⟨year, .inl lt⟩))
    · exact .inl (days_lt (.inr ⟨year, .inr ⟨month, lt⟩⟩))
    · exact .inr ⟨by rw [days, days, year, month, day], rest⟩
  rw [instant_eq, instant_eq]
  exact lex_lt (lex_step (lex_step (lex_step fields s.hour_lt) s.minute_lt) s.second_lt) s.nano_lt

theorem text_lt_iff {s t : Stamp} : s.text < t.text ↔ s.instant < t.instant := by
  constructor
  · exact instant_lt_of_text_lt
  · intro less
    rcases lt_trichotomy s.text t.text with lt | same | gt
    · exact lt
    · have parsed := congrArg timeParse same
      rw [timeParse_text, timeParse_text, Option.some.injEq, Nat.cast_inj] at parsed
      omega
    · have := instant_lt_of_text_lt gt
      omega

end Stamp

end Dockgraph.Timestamp
