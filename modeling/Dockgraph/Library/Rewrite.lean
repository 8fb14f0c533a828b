import Mathlib.Data.List.Infix

/-!
# Rewriting a text from left to right

A rule reads the text from a place on: it says what is written for what it read, and where to go on.
Where it does not apply, a character is copied.
-/
namespace Dockgraph.Rewrite

universe u

variable {α : Type u}

/-- What is written, and the text left. -/
abbrev Rule (α : Type u) := List α → Option (List α × List α)

/-- At most so many steps. -/
def scan (rule : Rule α) : Nat → List α → List α
  | 0, s => s
  | n + 1, s =>
    match rule s with
    | some (new, rest) => new ++ scan rule n rest
    | none =>
      match s with
      | [] => []
      | c :: cs => c :: scan rule n cs

/-- A rule reads a character or more, so one step for each is enough. -/
def replaceAll (rule : Rule α) (s : List α) : List α := scan rule s.length s

variable {rule : Rule α} {s t : List α}

theorem scan_some {n : Nat} {new rest : List α} (applied : rule s = some (new, rest)) :
    scan rule (n + 1) s = new ++ scan rule n rest := by
  rw [scan.eq_def]
  dsimp only
  rw [applied]

theorem scan_nil_none {n : Nat} (absent : rule [] = none) : scan rule (n + 1) [] = [] := by
  rw [scan.eq_def]
  dsimp only
  rw [absent]

theorem scan_cons_none {n : Nat} {c : α} (absent : rule (c :: s) = none) :
    scan rule (n + 1) (c :: s) = c :: scan rule n s := by
  rw [scan.eq_def]
  dsimp only
  rw [absent]

/-- A rule that only copies changes nothing. -/
theorem scan_eq_self {p : α → Prop}
    (copies : ∀ t, (∀ c ∈ t, p c) → ∀ new rest, rule t = some (new, rest) → new ++ rest = t)
    (n : Nat) (s : List α) (all : ∀ c ∈ s, p c) : scan rule n s = s := by
  induction n generalizing s with
  | zero => rfl
  | succ n ih =>
    cases applied : rule s with
    | some written =>
      obtain ⟨new, rest⟩ := written
      have same := copies s all new rest applied
      have tail : ∀ c ∈ rest, p c := fun c member => all c (same ▸ List.mem_append_right new member)
      rw [scan_some applied, ih rest tail, same]
    | none =>
      cases s with
      | nil => exact scan_nil_none applied
      | cons c cs =>
        rw [scan_cons_none applied, ih cs fun d member => all d (List.mem_cons_of_mem c member)]

/-- A rule that applies nowhere in the first part leaves it. -/
theorem replaceAll_append {first : List α}
    (absent : ∀ t, t ≠ [] → t <:+ first → rule (t ++ s) = none) :
    replaceAll rule (first ++ s) = first ++ replaceAll rule s := by
  unfold replaceAll
  induction first with
  | nil => rfl
  | cons c cs ih =>
    have here : rule (c :: (cs ++ s)) = none :=
      absent (c :: cs) (List.cons_ne_nil c cs) List.suffix_rfl
    have rest := ih fun t present suffix => absent t present (suffix.trans (List.suffix_cons c cs))
    rw [List.cons_append, List.length_cons, scan_cons_none here, rest, List.cons_append]

/-- A rule that reads a character or more wherever it applies. -/
def Reads (rule : Rule α) : Prop :=
  ∀ s new rest, rule s = some (new, rest) → ∃ read, read ≠ [] ∧ s = read ++ rest

theorem Reads.nil (reads : Reads rule) : rule [] = none := by
  cases applied : rule [] with
  | none => rfl
  | some written =>
    obtain ⟨read, present, same⟩ := reads [] written.1 written.2 applied
    exact absurd (List.append_eq_nil_iff.mp same.symm).1 present

theorem Reads.length_lt (reads : Reads rule) {new rest : List α} (applied : rule s = some (new, rest)) :
    rest.length < s.length := by
  obtain ⟨read, present, rfl⟩ := reads s new rest applied
  have := List.length_pos_of_ne_nil present
  rw [List.length_append]
  omega

/-- More steps than characters change nothing. -/
theorem Reads.scan_eq (reads : Reads rule) {n : Nat} (enough : s.length ≤ n) :
    scan rule n s = replaceAll rule s := by
  unfold replaceAll
  induction n using Nat.strong_induction_on generalizing s with
  | _ n ih =>
    -- both scans take the same first step, and what is left is shorter
    have step {m : Nat} {rest : List α} (left : rest.length ≤ m) (less : m < n) :
        scan rule m rest = scan rule rest.length rest := ih m less left
    cases n with
    | zero =>
      cases List.length_eq_zero_iff.mp (Nat.le_zero.mp enough)
      rfl
    | succ n =>
      cases s with
      | nil => exact scan_nil_none reads.nil
      | cons c cs =>
        have short : cs.length ≤ n := Nat.le_of_succ_le_succ enough
        rw [List.length_cons]
        cases applied : rule (c :: cs) with
        | some written =>
          obtain ⟨new, rest⟩ := written
          have less := reads.length_lt applied
          rw [List.length_cons] at less
          rw [scan_some applied, scan_some applied, step (by omega) (by omega),
            step (m := cs.length) (by omega) (by omega)]
        | none => rw [scan_cons_none applied, scan_cons_none applied, step short (by omega)]

theorem Reads.replaceAll_some (reads : Reads rule) {new rest : List α}
    (applied : rule s = some (new, rest)) : replaceAll rule s = new ++ replaceAll rule rest := by
  have less := reads.length_lt applied
  have positive : s.length = s.length - 1 + 1 := by omega
  rw [replaceAll, positive, scan_some applied, reads.scan_eq (by omega)]

theorem replaceAll_cons_none {c : α} (absent : rule (c :: s) = none) :
    replaceAll rule (c :: s) = c :: replaceAll rule s := scan_cons_none absent

/-- A place that no match reads across is rewritten by itself. -/
theorem Reads.replaceAll_append_of_not_across (reads : Reads rule) (first s : List α)
    (across : ∀ t, t ≠ [] → t <:+ first → ∀ new rest, rule (t ++ s) = some (new, rest) →
      s.length ≤ rest.length) :
    ∃ out, replaceAll rule (first ++ s) = out ++ replaceAll rule s := by
  induction size : first.length using Nat.strong_induction_on generalizing first with
  | _ size ih =>
    cases first with
    | nil => exact ⟨[], rfl⟩
    | cons c cs =>
      cases applied : rule (c :: cs ++ s) with
      | none =>
        obtain ⟨out, same⟩ := ih cs.length (by rw [← size]; exact Nat.lt_succ_self _) cs
          (fun t present suffix => across t present (suffix.trans (List.suffix_cons c cs))) rfl
        refine ⟨c :: out, ?_⟩
        have here : rule (c :: (cs ++ s)) = none := applied
        rw [List.cons_append, replaceAll_cons_none here, same, List.cons_append]
      | some written =>
        obtain ⟨new, rest⟩ := written
        obtain ⟨read, present, whole⟩ := reads _ new rest applied
        have long := across (c :: cs) (List.cons_ne_nil c cs) List.suffix_rfl new rest applied
        -- the match ends before the place
        have parts : read ++ rest = (c :: cs) ++ s := whole.symm
        obtain ⟨more, rfl, split⟩ : ∃ more, rest = more ++ s ∧ c :: cs = read ++ more := by
          rcases List.append_eq_append_iff.mp parts with ⟨more, first, rest⟩ | ⟨more, first, last⟩
          · exact ⟨more, rest, first⟩
          · have sizes := congrArg List.length last
            rw [List.length_append] at sizes
            have none : more = [] := List.length_eq_zero_iff.mp (by omega)
            subst none
            exact ⟨[], by rw [last, List.nil_append, List.nil_append], by simpa using first.symm⟩
        have positive := List.length_pos_of_ne_nil present
        obtain ⟨out, same⟩ := ih more.length (by rw [← size, split, List.length_append]; omega) more
          (fun t present suffix =>
            across t present (suffix.trans (split ▸ List.suffix_append read more))) rfl
        refine ⟨new ++ out, ?_⟩
        rw [reads.replaceAll_some applied, same, List.append_assoc]

/-! ## The places of a scan -/

/-- The scan of a text comes to a place: what is left of the text there. -/
inductive Reaches (rule : Rule α) : List α → List α → Prop
  | here (s : List α) : Reaches rule s s
  | copied {c : α} {s t : List α} : rule (c :: s) = none → Reaches rule s t → Reaches rule (c :: s) t
  | read {s new rest t : List α} : rule s = some (new, rest) → Reaches rule rest t → Reaches rule s t

namespace Reaches

variable {u : List α}

theorem suffix (reads : Reads rule) (reaches : Reaches rule s t) : t <:+ s := by
  induction reaches with
  | here => exact List.suffix_rfl
  | copied _ _ ih => exact ih.trans (List.suffix_cons _ _)
  | read applied _ ih =>
    obtain ⟨read, -, rfl⟩ := reads _ _ _ applied
    exact ih.trans (List.suffix_append _ _)

theorem trans (first : Reaches rule s t) (last : Reaches rule t u) : Reaches rule s u := by
  induction first with
  | here => exact last
  | copied absent _ ih => exact .copied absent (ih last)
  | read applied _ ih => exact .read applied (ih last)

/-- A scan takes one way. -/
theorem linear (first : Reaches rule s t) (second : Reaches rule s u) : Reaches rule t u ∨ Reaches rule u t := by
  induction first with
  | here => exact .inl second
  | copied absent way ih =>
    cases second with
    | here => exact .inr (.copied absent way)
    | copied _ more => exact ih more
    | read applied => rw [absent] at applied; cases applied
  | read applied way ih =>
    cases second with
    | here => exact .inr (.read applied way)
    | copied absent => rw [absent] at applied; cases applied
    | read applied' more =>
      rw [applied] at applied'
      cases applied'
      exact ih more

/-- What a match reads is not come to. -/
theorem not_inside (reads : Reads rule) {new rest : List α} (reaches : Reaches rule s u)
    (applied : rule u = some (new, rest)) (inside : t <:+ u) (first : t ≠ u) (suffix : rest <:+ t)
    (last : rest ≠ t) : ¬Reaches rule s t := by
  intro other
  rcases reaches.linear other with on | back
  · cases on with
    | here => exact first rfl
    | copied absent => rw [absent] at applied; cases applied
    | read applied' more =>
      rw [applied] at applied'
      cases applied'
      exact last (suffix.eq_of_length_le (more.suffix reads).length_le)
  · exact first (inside.eq_of_length_le (back.suffix reads).length_le)

end Reaches

/-- A place is come to, or lies within what a match reads. -/
theorem Reads.reaches_or_inside (reads : Reads rule) {first : List α} : Reaches rule (first ++ t) t ∨
    ∃ u new rest, Reaches rule (first ++ t) u ∧ rule u = some (new, rest) ∧ t <:+ u ∧ t ≠ u ∧ rest <:+ t ∧
      rest ≠ t := by
  induction size : first.length using Nat.strong_induction_on generalizing first with
  | _ size ih =>
    cases first with
    | nil => exact .inl (.here t)
    | cons c cs =>
      have proper : t ≠ c :: cs ++ t := by
        intro same
        have sizes := congrArg List.length same
        rw [List.length_append, List.length_cons] at sizes
        omega
      cases applied : rule (c :: cs ++ t) with
      | none =>
        rcases ih cs.length (by rw [← size]; exact Nat.lt_succ_self _) rfl with reached | ⟨u, new, rest, reached, inside⟩
        · exact .inl (.copied applied reached)
        · exact .inr ⟨u, new, rest, .copied applied reached, inside⟩
      | some written =>
        obtain ⟨new, rest⟩ := written
        obtain ⟨read, present, whole⟩ := reads _ new rest applied
        have into : rest <:+ c :: cs ++ t := whole ▸ List.suffix_append read rest
        -- the match ends before the place, or at it, or reads across it
        rcases List.suffix_or_suffix_of_suffix into (List.suffix_append (c :: cs) t) with across | before
        · by_cases same : rest = t
          · subst same
            exact .inl (.read applied (.here rest))
          · exact .inr ⟨_, new, rest, .here _, applied, List.suffix_append _ _, proper, across, same⟩
        · obtain ⟨more, rfl⟩ := before
          have shorter := reads.length_lt applied
          simp only [List.length_append] at shorter
          rcases ih more.length (by rw [← size]; omega) rfl with reached | ⟨u, new', rest', reached, inside⟩
          · exact .inl (.read applied reached)
          · exact .inr ⟨u, new', rest', .read applied reached, inside⟩

/-- The places where a scan applies the rule. -/
def places (rule : Rule α) : Nat → List α → List (List α)
  | 0, _ => []
  | n + 1, s =>
    match rule s with
    | some (_, rest) => s :: places rule n rest
    | none =>
      match s with
      | [] => []
      | _ :: cs => places rule n cs

theorem places_some {n : Nat} {new rest : List α} (applied : rule s = some (new, rest)) :
    places rule (n + 1) s = s :: places rule n rest := by
  rw [places.eq_def]
  dsimp only
  rw [applied]

theorem places_cons_none {n : Nat} {c : α} (absent : rule (c :: s) = none) :
    places rule (n + 1) (c :: s) = places rule n s := by
  rw [places.eq_def]
  dsimp only
  rw [absent]

theorem Reads.mem_places (reads : Reads rule) {n : Nat} (enough : s.length ≤ n) :
    t ∈ places rule n s ↔ Reaches rule s t ∧ (rule t).isSome := by
  induction n generalizing s with
  | zero =>
    cases List.length_eq_zero_iff.mp (Nat.le_zero.mp enough)
    refine ⟨fun member => absurd member List.not_mem_nil, fun ⟨way, applies⟩ => ?_⟩
    cases List.eq_nil_of_suffix_nil (way.suffix reads)
    rw [reads.nil] at applies
    cases applies
  | succ n ih =>
    cases applied : rule s with
    | some written =>
      obtain ⟨new, rest⟩ := written
      have less := reads.length_lt applied
      rw [places_some applied, List.mem_cons, ih (by omega)]
      constructor
      · rintro (rfl | ⟨way, applies⟩)
        · exact ⟨.here t, by rw [applied]; rfl⟩
        · exact ⟨.read applied way, applies⟩
      · rintro ⟨way, applies⟩
        cases way with
        | here => exact .inl rfl
        | copied absent => rw [absent] at applied; cases applied
        | read applied' way =>
          rw [applied] at applied'
          cases applied'
          exact .inr ⟨way, applies⟩
    | none =>
      cases s with
      | nil =>
        rw [places.eq_def]
        dsimp only
        rw [applied]
        refine ⟨fun member => absurd member List.not_mem_nil, fun ⟨way, applies⟩ => ?_⟩
        cases List.eq_nil_of_suffix_nil (way.suffix reads)
        rw [applied] at applies
        cases applies
      | cons c cs =>
        rw [places_cons_none applied, ih (Nat.le_of_succ_le_succ enough)]
        constructor
        · rintro ⟨way, applies⟩
          exact ⟨.copied applied way, applies⟩
        · rintro ⟨way, applies⟩
          cases way with
          | here => rw [applied] at applies; cases applies
          | copied _ way => exact ⟨way, applies⟩
          | read applied' => rw [applied] at applied'; cases applied'

/-- Texts within a text were replaced by one other, each given with the text after it. -/
inductive Replaced (shown : List α) : List α → List α → List (List α × List α) → Prop
  | nil : Replaced shown [] [] []
  | keep (c : α) {s t : List α} {parts : List (List α × List α)} : Replaced shown s t parts →
      Replaced shown (c :: s) (c :: t) parts
  | replace (value : List α) {s t : List α} {parts : List (List α × List α)} : Replaced shown s t parts →
      Replaced shown (value ++ s) (shown ++ t) ((value, s) :: parts)

theorem Replaced.append {shown : List α} {parts : List (List α × List α)} (first : List α)
    (replaced : Replaced shown s t parts) : Replaced shown (first ++ s) (first ++ t) parts := by
  induction first with
  | nil => exact replaced
  | cons c cs ih => exact ih.keep c

/-! ## Redaction -/

/-- Parts of a text were replaced by covers: texts of nothing but covering characters. -/
inductive Redacted (cover : α → Prop) : List α → List α → Prop
  | nil : Redacted cover [] []
  | keep (c : α) {s t : List α} : Redacted cover s t → Redacted cover (c :: s) (c :: t)
  | mask (hidden shown : List α) {s t : List α} : (∀ c ∈ shown, cover c) → Redacted cover s t →
      Redacted cover (hidden ++ s) (shown ++ t)

namespace Redacted

variable {cover : α → Prop} {u v : List α}

theorem refl (s : List α) : Redacted cover s s := by
  induction s with
  | nil => exact nil
  | cons c s ih => exact ih.keep c

theorem append (first : Redacted cover s t) (last : Redacted cover u v) :
    Redacted cover (s ++ u) (t ++ v) := by
  induction first with
  | nil => exact last
  | keep c _ ih => exact ih.keep c
  | mask hidden shown covers _ ih =>
    rw [List.append_assoc, List.append_assoc]
    exact mask hidden shown covers ih

/-- A whole text under a cover. -/
theorem whole (hidden : List α) {shown : List α} (covers : ∀ c ∈ shown, cover c) :
    Redacted cover hidden shown := by
  have := mask hidden shown covers nil
  rwa [List.append_nil, List.append_nil] at this

/-- What was redacted in parts was redacted part by part. -/
theorem of_append {first last : List α} (redacted : Redacted cover (first ++ last) t) :
    ∃ a b, t = a ++ b ∧ Redacted cover first a ∧ Redacted cover last b := by
  generalize whole : first ++ last = s at redacted
  induction redacted generalizing first with
  | nil =>
    obtain ⟨rfl, rfl⟩ := List.append_eq_nil_iff.mp whole
    exact ⟨[], [], rfl, nil, nil⟩
  | @keep c s t rest ih =>
    cases first with
    | nil =>
      rw [List.nil_append] at whole
      exact ⟨[], c :: t, rfl, nil, whole ▸ rest.keep c⟩
    | cons d first =>
      obtain ⟨rfl, same⟩ := List.cons.inj whole
      obtain ⟨a, b, rfl, left, right⟩ := ih same
      exact ⟨d :: a, b, rfl, left.keep d, right⟩
  | @mask hidden shown s t covers rest ih =>
    -- the part that ends inside what is hidden gets the cover's left side: nothing
    rcases List.append_eq_append_iff.mp whole with ⟨more, rfl, rfl⟩ | ⟨more, rfl, rfl⟩
    · exact ⟨[], shown ++ t, rfl, Redacted.whole first nofun, mask more shown covers rest⟩
    · obtain ⟨a, b, rfl, left, right⟩ := ih rfl
      exact ⟨shown ++ a, b, by rw [List.append_assoc], mask hidden shown covers left, right⟩

theorem covered (redacted : Redacted cover s t) (all : ∀ c ∈ s, cover c) : ∀ c ∈ t, cover c := by
  induction redacted with
  | nil => exact nofun
  | keep c _ ih =>
    rw [List.forall_mem_cons] at all ⊢
    exact ⟨all.1, ih all.2⟩
  | mask hidden shown covers _ ih =>
    rw [List.forall_mem_append] at all ⊢
    exact ⟨covers, ih all.2⟩

theorem trans (first : Redacted cover s t) (last : Redacted cover t u) : Redacted cover s u := by
  induction first generalizing u with
  | nil => exact last
  | keep c _ ih =>
    rw [← List.singleton_append] at last ⊢
    obtain ⟨a, b, rfl, here, rest⟩ := of_append last
    exact here.append (ih rest)
  | mask hidden shown covers _ ih =>
    obtain ⟨a, b, rfl, here, rest⟩ := of_append last
    exact mask hidden a (here.covered covers) (ih rest)

theorem mono {wider : α → Prop} (wide : ∀ c, cover c → wider c) (redacted : Redacted cover s t) :
    Redacted wider s t := by
  induction redacted with
  | nil => exact nil
  | keep c _ ih => exact ih.keep c
  | mask hidden shown covers _ ih => exact mask hidden shown (fun c member => wide c (covers c member)) ih

end Redacted

/-- A rule that redacts what it reads redacts the text. -/
theorem redacted_scan {cover : α → Prop}
    (redacts : ∀ s new rest, rule s = some (new, rest) → ∃ read, s = read ++ rest ∧ Redacted cover read new)
    (n : Nat) (s : List α) : Redacted cover s (scan rule n s) := by
  induction n generalizing s with
  | zero => exact .refl s
  | succ n ih =>
    cases applied : rule s with
    | some written =>
      obtain ⟨new, rest⟩ := written
      rw [scan_some applied]
      obtain ⟨read, rfl, redacted⟩ := redacts s new rest applied
      exact redacted.append (ih rest)
    | none =>
      cases s with
      | nil =>
        rw [scan_nil_none applied]
        exact .nil
      | cons c cs =>
        rw [scan_cons_none applied]
        exact (ih cs).keep c

end Dockgraph.Rewrite
