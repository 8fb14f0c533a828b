import Mathlib.Algebra.Group.Int.Defs
import Mathlib.Algebra.Group.Nat.Defs
import Mathlib.Data.List.SplitBy
import Mathlib.Data.List.TakeWhile

/-!
# Text

Splitting and trimming lists of characters, and the decimal text of a 64-bit integer.
-/
namespace Dockgraph.Text

/-- `unicode.IsSpace`. -/
def isSpace (c : Char) : Bool :=
  c.toNat ∈ [0x09, 0x0A, 0x0B, 0x0C, 0x0D, 0x20, 0x85, 0xA0, 0x1680, 0x2028, 0x2029, 0x202F, 0x205F,
    0x3000] ∨ 0x2000 ≤ c.toNat ∧ c.toNat ≤ 0x200A

/-- `strings.TrimSpace`. -/
def trimSpace (cs : List Char) : List Char :=
  ((cs.dropWhile isSpace).reverse.dropWhile isSpace).reverse

/-- `strings.Split` by one character: the parts between its occurrences. -/
def split (sep : Char) : List Char → List (List Char)
  | [] => [[]]
  | c :: cs =>
    if c = sep then [] :: split sep cs
    else match split sep cs with
      | [] => [[c]]
      | part :: rest => (c :: part) :: rest

/-- `strings.Cut`: the text before and after the first separator. -/
def cut (sep : Char) : List Char → Option (List Char × List Char)
  | [] => none
  | c :: cs => if c = sep then some ([], cs) else (cut sep cs).map fun p => (c :: p.1, p.2)

/-- The longest runs of characters that are in a class or outside it, in order. -/
def runs (p : Char → Bool) (cs : List Char) : List (List Char) := cs.splitBy fun c d => p c == p d

/-- Whether a number starts with a minus sign, and its digits. -/
def sign : List Char → Bool × List Char
  | '-' :: ds => (true, ds)
  | '+' :: ds => (false, ds)
  | ds => (false, ds)

/-- `strconv.ParseInt(s, 10, 64)`. -/
def parseInt (s : String) : Option Int :=
  let (negative, digits) := sign s.toList
  if digits = [] ∨ ¬digits.all Char.isDigit then none
  else
    let n := digits.foldl (fun n d => 10 * n + (d.toNat - '0'.toNat)) 0
    if negative then if n ≤ 2 ^ 63 then some (-n) else none
    else if n < 2 ^ 63 then some n else none

/-! ## Splitting -/

theorem split_cons_ne {sep c : Char} (other : c ≠ sep) {cs part : List Char}
    {rest : List (List Char)} (tail : split sep cs = part :: rest) :
    split sep (c :: cs) = (c :: part) :: rest := by
  rw [split, if_neg other, tail]

theorem split_of_not_mem {sep : Char} {cs : List Char} (absent : sep ∉ cs) :
    split sep cs = [cs] := by
  induction cs with
  | nil => rfl
  | cons c cs ih =>
    rw [List.mem_cons, not_or] at absent
    exact split_cons_ne (Ne.symm absent.1) (ih absent.2)

theorem split_append {sep : Char} {cs : List Char} (absent : sep ∉ cs) (rest : List Char) :
    split sep (cs ++ sep :: rest) = cs :: split sep rest := by
  induction cs with
  | nil => rw [List.nil_append, split, if_pos rfl]
  | cons c cs ih =>
    rw [List.mem_cons, not_or] at absent
    exact split_cons_ne (Ne.symm absent.1) (ih absent.2)

theorem split_ne_nil (sep : Char) (cs : List Char) : split sep cs ≠ [] := by
  cases cs with
  | nil => exact List.cons_ne_nil _ _
  | cons c cs =>
    rw [split]
    split
    · exact List.cons_ne_nil _ _
    · split <;> exact List.cons_ne_nil _ _

/-- A text with a separator in the middle. -/
theorem split_append_sep (sep : Char) (cs ds : List Char) :
    split sep (cs ++ sep :: ds) = split sep cs ++ split sep ds := by
  induction cs with
  | nil => exact if_pos rfl
  | cons c cs ih =>
    rw [List.cons_append, split, split, ih]
    by_cases same : c = sep
    · rw [if_pos same, if_pos same, List.cons_append]
    · obtain ⟨part, rest, parts⟩ := List.exists_cons_of_ne_nil (split_ne_nil sep cs)
      rw [if_neg same, if_neg same, parts, List.cons_append]
      rfl

theorem length_split (sep : Char) (cs : List Char) : (split sep cs).length = cs.count sep + 1 := by
  induction cs with
  | nil => rfl
  | cons c cs ih =>
    obtain ⟨part, rest, parts⟩ := List.exists_cons_of_ne_nil (split_ne_nil sep cs)
    rw [parts, List.length_cons] at ih
    rw [split, parts]
    by_cases same : c = sep
    · subst same
      rw [if_pos rfl, List.count_cons_self, List.length_cons, List.length_cons, ih]
    · rw [if_neg same, List.count_cons_of_ne same, ← ih, List.length_cons]

theorem split_inj {sep : Char} {cs ds : List Char} (same : split sep cs = split sep ds) : cs = ds := by
  induction cs generalizing ds with
  | nil =>
    cases ds with
    | nil => rfl
    | cons d ds =>
      obtain ⟨part, rest, parts⟩ := List.exists_cons_of_ne_nil (split_ne_nil sep ds)
      by_cases sepHere : d = sep <;> simp [split, sepHere, parts] at same
  | cons c cs ih =>
    obtain ⟨part, rest, parts⟩ := List.exists_cons_of_ne_nil (split_ne_nil sep cs)
    cases ds with
    | nil => by_cases sepHere : c = sep <;> simp [split, sepHere, parts] at same
    | cons d ds =>
      obtain ⟨part', rest', parts'⟩ := List.exists_cons_of_ne_nil (split_ne_nil sep ds)
      by_cases here : c = sep
      · by_cases there : d = sep
        · rw [split, split, if_pos here, if_pos there] at same
          rw [here, there, ih (List.cons.inj same).2]
        · simp [split, here, there, parts'] at same
      · by_cases there : d = sep
        · simp [split, here, there, parts] at same
        · simp only [split, here, there, parts, parts', if_false, List.cons.injEq] at same
          obtain ⟨⟨rfl, rfl⟩, rfl⟩ := same
          rw [ih (parts.trans parts'.symm)]

/-- A text whose last parts are another's ends with it, behind a separator. -/
theorem split_append_eq {sep : Char} {cs ds : List Char} {front : List (List Char)} (before : front ≠ [])
    (same : split sep cs = front ++ split sep ds) : ∃ pre, cs = pre ++ sep :: ds := by
  induction cs generalizing front with
  | nil =>
    obtain ⟨first, front, rfl⟩ := List.exists_cons_of_ne_nil before
    obtain ⟨part, rest, parts⟩ := List.exists_cons_of_ne_nil (split_ne_nil sep ds)
    simp [split, parts] at same
  | cons c cs ih =>
    obtain ⟨first, front, rfl⟩ := List.exists_cons_of_ne_nil before
    by_cases here : c = sep
    · rw [split, if_pos here, List.cons_append] at same
      have rest := (List.cons.inj same).2
      by_cases last : front = []
      · subst last
        exact ⟨[], by rw [here, split_inj rest, List.nil_append]⟩
      · obtain ⟨pre, rfl⟩ := ih last rest
        exact ⟨c :: pre, rfl⟩
    · obtain ⟨part, rest, parts⟩ := List.exists_cons_of_ne_nil (split_ne_nil sep cs)
      rw [split_cons_ne here parts, List.cons_append, List.cons.injEq] at same
      obtain ⟨pre, rfl⟩ := ih (List.cons_ne_nil part front) (by rw [parts, same.2, List.cons_append])
      exact ⟨c :: pre, rfl⟩

theorem cut_append {sep : Char} {cs : List Char} (absent : sep ∉ cs) (rest : List Char) :
    cut sep (cs ++ sep :: rest) = some (cs, rest) := by
  induction cs with
  | nil => rw [List.nil_append, cut, if_pos rfl]
  | cons c cs ih =>
    rw [List.mem_cons, not_or] at absent
    rw [List.cons_append, cut, if_neg (Ne.symm absent.1), ih absent.2, Option.map_some]

theorem cut_append_of_not_mem {sep : Char} {cs : List Char} (absent : sep ∉ cs) (rest : List Char) :
    cut sep (cs ++ rest) = (cut sep rest).map fun p => (cs ++ p.1, p.2) := by
  induction cs with
  | nil => simp
  | cons c cs ih =>
    rw [List.mem_cons, not_or] at absent
    rw [List.cons_append, cut, if_neg (Ne.symm absent.1), ih absent.2, Option.map_map]
    rfl

/-- Two beginnings without a stop, each followed by nothing or by a stop, are determined by the whole. -/
theorem split_at_stop {α : Type} {stop : α → Prop} {xs ys us vs : List α} (hx : ∀ x ∈ xs, ¬stop x)
    (hy : ∀ y ∈ ys, ¬stop y) (hu : ∀ u ∈ us.head?, stop u) (hv : ∀ v ∈ vs.head?, stop v)
    (same : xs ++ us = ys ++ vs) : xs = ys ∧ us = vs := by
  induction xs generalizing ys with
  | nil =>
    cases ys with
    | nil => exact ⟨rfl, same⟩
    | cons y ys =>
      rw [List.nil_append, List.cons_append] at same
      exact absurd (hu y (by rw [same]; rfl)) (hy y List.mem_cons_self)
  | cons x xs ih =>
    cases ys with
    | nil =>
      rw [List.nil_append, List.cons_append] at same
      exact absurd (hv x (by rw [← same]; rfl)) (hx x List.mem_cons_self)
    | cons y ys =>
      obtain ⟨rfl, rest⟩ := List.cons.inj same
      obtain ⟨rfl, rfl⟩ := ih (fun x member => hx x (List.mem_cons_of_mem _ member))
        (fun y member => hy y (List.mem_cons_of_mem _ member)) rest
      exact ⟨rfl, rfl⟩

/-- A text up to its first separator, and what follows, are determined by the whole. -/
theorem split_at_first {α : Type} {sep : α} {xs ys us vs : List α} (hx : sep ∉ xs) (hy : sep ∉ ys)
    (same : xs ++ sep :: us = ys ++ sep :: vs) : xs = ys ∧ us = vs := by
  induction xs generalizing ys with
  | nil =>
    cases ys with
    | nil => exact ⟨rfl, by simpa using same⟩
    | cons y ys =>
      obtain ⟨rfl, _⟩ := List.cons.inj same
      exact absurd List.mem_cons_self hy
  | cons x xs ih =>
    cases ys with
    | nil =>
      obtain ⟨rfl, _⟩ := List.cons.inj same
      exact absurd List.mem_cons_self hx
    | cons y ys =>
      obtain ⟨rfl, rest⟩ := List.cons.inj same
      obtain ⟨rfl, rfl⟩ := ih (fun h => hx (List.mem_cons_of_mem _ h))
        (fun h => hy (List.mem_cons_of_mem _ h)) rest
      exact ⟨rfl, rfl⟩

/-- A text from its last separator, and what precedes, are determined by the whole. -/
theorem split_at_last {α : Type} {sep : α} {xs ys us vs : List α} (hu : sep ∉ us) (hv : sep ∉ vs)
    (same : xs ++ sep :: us = ys ++ sep :: vs) : xs = ys ∧ us = vs := by
  have backwards : us.reverse ++ sep :: xs.reverse = vs.reverse ++ sep :: ys.reverse := by
    simpa using congrArg List.reverse same
  obtain ⟨last, first⟩ := split_at_first (by simpa using hu) (by simpa using hv) backwards
  exact ⟨List.reverse_inj.mp first, List.reverse_inj.mp last⟩

theorem trimSpace_cons_space (cs : List Char) : trimSpace (' ' :: cs) = trimSpace cs := by
  have space : isSpace ' ' = true := by decide
  rw [trimSpace, List.dropWhile_cons_of_pos space, trimSpace]

theorem dropWhile_isSpace {cs : List Char} (solid : ∀ c ∈ cs, isSpace c = false) :
    cs.dropWhile isSpace = cs := by
  cases cs with
  | nil => rfl
  | cons c cs => exact List.dropWhile_cons_of_neg (by simp [solid c List.mem_cons_self])

theorem trimSpace_of_solid {cs : List Char} (solid : ∀ c ∈ cs, isSpace c = false) :
    trimSpace cs = cs := by
  rw [trimSpace, dropWhile_isSpace solid, dropWhile_isSpace, List.reverse_reverse]
  exact fun c member => solid c (List.mem_reverse.mp member)

/-! ## Runs -/

/-- The first run of a text, in the class or outside it, and the rest. -/
structure FirstRun (p : Char → Bool) (inside : Bool) (run rest : List Char) : Prop where
  nonempty : run ≠ []
  uniform : ∀ c ∈ run, p c = inside
  ends : ∀ c ∈ rest.head?, p c ≠ inside

theorem runs_append {p : Char → Bool} {cs ds : List Char}
    (boundary : ∀ c ∈ cs.getLast?, ∀ d ∈ ds.head?, p c ≠ p d) :
    runs p (cs ++ ds) = runs p cs ++ runs p ds :=
  List.splitBy_append fun c last d next => beq_false_of_ne (boundary c last d next)

theorem FirstRun.runs_append {p : Char → Bool} {inside : Bool} {run rest : List Char}
    (first : FirstRun p inside run rest) : runs p (run ++ rest) = run :: runs p rest := by
  have boundary : ∀ c ∈ run.getLast?, ∀ d ∈ rest.head?, p c ≠ p d := by
    intro c last d next
    rw [first.uniform c (List.mem_of_getLast? last)]
    exact (first.ends d next).symm
  have whole : run.IsChain fun c d => (p c == p d) = true := by
    refine (List.pairwise_of_forall_mem_list fun c member d other => ?_).isChain
    rw [first.uniform c member, first.uniform d other, beq_self_eq_true]
  have alone : runs p run = [run] := List.splitBy_of_isChain first.nonempty whole
  rw [Text.runs_append boundary, alone, List.singleton_append]

theorem FirstRun.all_eq {p : Char → Bool} {inside : Bool} {run rest : List Char}
    (first : FirstRun p inside run rest) : run.all p = inside := by
  cases inside with
  | true => exact List.all_eq_true.mpr first.uniform
  | false =>
    refine List.all_eq_false.mpr ⟨run.head first.nonempty, List.head_mem first.nonempty, ?_⟩
    simp [first.uniform _ (List.head_mem first.nonempty)]

/-- A property of texts holds of all when it goes from the rest to the text with its first run. -/
theorem runs_induction (p : Char → Bool) {motive : List Char → Prop} (nil : motive [])
    (append : ∀ inside run rest, FirstRun p inside run rest → motive rest → motive (run ++ rest)) :
    ∀ cs, motive cs
  | [] => nil
  | c :: cs => by
    have first : FirstRun p (p c) (c :: cs.takeWhile fun d => p d == p c)
        (cs.dropWhile fun d => p d == p c) := by
      refine ⟨List.cons_ne_nil _ _, ?_, ?_⟩
      · intro d member
        rcases List.mem_cons.mp member with rfl | later
        · rfl
        · have same : (p d == p c) = true := List.mem_takeWhile_imp (p := fun d => p d == p c) later
          exact eq_of_beq same
      · intro d next same
        have stopped := List.head?_dropWhile_not (fun d => p d == p c) cs
        rw [Option.mem_def.mp next] at stopped
        simp [same] at stopped
    have whole := append (p c) _ _ first (runs_induction p nil append _)
    rwa [List.cons_append, List.takeWhile_append_dropWhile] at whole
termination_by cs => cs.length
decreasing_by
  exact Nat.lt_succ_of_le (List.length_dropWhile_le _ _)

/-! ## Numbers -/

/-- A property of every decimal digit and of the minus sign holds along a printed integer. -/
theorem forall_mem_toString {p : Char → Prop} (digits : ∀ c : Char, c.isDigit → p c) (minus : p '-')
    (n : Int) : ∀ c ∈ (toString n).toList, p c := by
  have natural (k : Nat) (c : Char) (member : c ∈ Nat.toDigits 10 k) : p c :=
    digits c (Nat.isDigit_of_mem_toDigits (by decide) (by decide) member)
  cases n with
  | ofNat k =>
    intro c member
    exact natural k c (by simpa [Int.repr] using member)
  | negSucc k =>
    intro c member
    have listed : c = '-' ∨ c ∈ Nat.toDigits 10 (k + 1) := by simpa [Int.repr] using member
    rcases listed with rfl | listed
    · exact minus
    · exact natural (k + 1) c listed

theorem foldl_toDigits (n : Nat) :
    (Nat.toDigits 10 n).foldl (fun n d => 10 * n + (d.toNat - '0'.toNat)) 0 = n := by
  rw [← Nat.ofDigitChars_eq_foldl]
  exact Nat.ofDigitChars_toDigits (by decide) (by decide)

theorem sign_toDigits (n : Nat) : sign (Nat.toDigits 10 n) = (false, Nat.toDigits 10 n) := by
  have digit (c : Char) (member : c ∈ Nat.toDigits 10 n) : c.isDigit :=
    Nat.isDigit_of_mem_toDigits (by decide) (by decide) member
  generalize Nat.toDigits 10 n = ds at digit
  unfold sign
  split
  · exact absurd (digit '-' List.mem_cons_self) (by decide)
  · exact absurd (digit '+' List.mem_cons_self) (by decide)
  · rfl

/-- The value of a sign and digits, of any size. -/
def readInt (cs : List Char) : Int :=
  let (negative, digits) := sign cs
  let n : Nat := digits.foldl (fun n d => 10 * n + (d.toNat - '0'.toNat)) 0
  if negative then -n else n

theorem readInt_toString (n : Int) : readInt (toString n).toList = n := by
  cases n with
  | ofNat k =>
    have read : sign (toString (Int.ofNat k)).toList = (false, Nat.toDigits 10 k) := by
      rw [← sign_toDigits]
      simp [Int.repr]
    simp only [readInt, read, foldl_toDigits]
    rfl
  | negSucc k =>
    have read : sign (toString (Int.negSucc k)).toList = (true, Nat.toDigits 10 (k + 1)) := by
      simp [Int.repr, sign]
    simp only [readInt, read, foldl_toDigits, if_true]
    rfl

theorem toString_inj {m n : Int} (same : toString m = toString n) : m = n := by
  have read := congrArg (fun s => readInt s.toList) same
  simpa only [readInt_toString] using read

theorem parseInt_toString {n : Int} (low : -2 ^ 63 ≤ n) (high : n < 2 ^ 63) :
    parseInt (toString n) = some n := by
  have digits (k : Nat) : ¬(Nat.toDigits 10 k = [] ∨ ¬(Nat.toDigits 10 k).all Char.isDigit) := by
    have all : (Nat.toDigits 10 k).all Char.isDigit = true :=
      List.all_eq_true.mpr fun c => Nat.isDigit_of_mem_toDigits (by decide) (by decide)
    simp [all, Nat.toDigits_ne_nil]
  cases n with
  | ofNat k =>
    have read : sign (toString (Int.ofNat k)).toList = (false, Nat.toDigits 10 k) := by
      rw [← sign_toDigits]
      simp [Int.repr]
    rw [parseInt, read]
    dsimp only
    have small : k < 2 ^ 63 := Int.ofNat_lt.mp high
    rw [if_neg (digits k), foldl_toDigits, if_neg (by decide), if_pos small]
    rfl
  | negSucc k =>
    have read : sign (toString (Int.negSucc k)).toList = (true, Nat.toDigits 10 (k + 1)) := by
      simp [Int.repr, sign]
    rw [parseInt, read]
    dsimp only
    rw [if_neg (digits (k + 1)), foldl_toDigits, if_pos rfl, if_pos (by omega)]
    rfl

/-- `strconv.ParseUint(s, 10, bits)`. -/
def parseUint (cs : List Char) (bits : Nat) : Option Nat :=
  if cs = [] ∨ ¬cs.all Char.isDigit then none
  else
    let n := cs.foldl (fun n d => 10 * n + (d.toNat - '0'.toNat)) 0
    if n < 2 ^ bits then some n else none

theorem parseUint_toDigits_eq (n bits : Nat) :
    parseUint (Nat.toDigits 10 n) bits = if n < 2 ^ bits then some n else none := by
  have digits : (Nat.toDigits 10 n).all Char.isDigit = true :=
    List.all_eq_true.mpr fun c => Nat.isDigit_of_mem_toDigits (by decide) (by decide)
  rw [parseUint, if_neg (by simp [digits, Nat.toDigits_ne_nil])]
  dsimp only
  rw [foldl_toDigits]

theorem parseUint_toDigits {n bits : Nat} (small : n < 2 ^ bits) : parseUint (Nat.toDigits 10 n) bits = some n := by
  rw [parseUint_toDigits_eq, if_pos small]

end Dockgraph.Text
