import Dockgraph.Secrets.CredentialKeys
import Dockgraph.Secrets.Formats

/-!
# Which members of JSON are masked

The scan goes on from the closing quote of a masked value, so it never tries the value itself as the
key of a member. What it skips otherwise is no member, or has a key that is not sensitive.
-/
namespace Dockgraph.Secrets

open Rewrite

/-! ## Masking all members -/

section

variable (pattern : List Char → Option Member) (quote : String)

/-- The text from a member's value on, with its opening quote. -/
def Member.opened (m : Member) : List Char := quote.toList ++ m.value ++ quote.toList ++ m.rest

/-- A member with its value's place in the text: the value, and what comes after it. -/
def Member.part (m : Member) : List Char × List Char := (m.value, quote.toList ++ m.rest)

/-- The values that are masked. -/
def maskedValues (s : List Char) : List (List Char × List Char) :=
  (places (memberRule pattern quote) s.length s).filterMap fun t =>
    (pattern t).bind fun m => if isSensitiveKey m.key then some (m.part quote) else none

/-- The loop ends, what it writes is the text with values of members masked, and the value of every member
with a sensitive key is one of them. `Free` says which places count, by the text before them. -/
structure Complete (Free : List Char → Prop) (s : List Char) : Prop where
  terminates : ∀ n, s.length ≤ n → scan (memberRule pattern quote) n s = maskMembers pattern quote s
  masks : Replaced masked s (maskMembers pattern quote s) (maskedValues pattern quote s)
  values : ∀ part ∈ maskedValues pattern quote s,
    ∃ t m, t <:+ s ∧ pattern t = some m ∧ isSensitiveKey m.key = true ∧ part = m.part quote
  covers : ∀ before t m, s = before ++ t → Free before → pattern t = some m → isSensitiveKey m.key = true →
    m.part quote ∈ maskedValues pattern quote s

/-- A member with a sensitive key has for its value the sensitive key of another. -/
def Chained (s : List Char) : Prop :=
  ∃ t m n, t <:+ s ∧ pattern t = some m ∧ isSensitiveKey m.key = true ∧ pattern (m.opened quote) = some n ∧
    isSensitiveKey n.key = true

end

/-- No backslash stands before the place. -/
def Unescaped (before : List Char) : Prop := before.getLast? ≠ some '\\'

instance (before : List Char) : Decidable (Unescaped before) :=
  inferInstanceAs (Decidable (before.getLast? ≠ some '\\'))

/-! ## Keys -/

/-- No benign word reads across a quote. -/
theorem replaceAll_benign_quote (first last : List Char) :
    ∃ out, replaceAll benignRule (first ++ '"' :: last) = out ++ replaceAll benignRule last := by
  have noQuote : ∀ word ∈ benignWords, '"' ∉ word.toList := by decide
  rw [← List.singleton_append, ← List.append_assoc]
  refine benignRule_reads.replaceAll_append_of_not_across _ last fun t present suffix new rest applied => ?_
  obtain ⟨-, benign, listed, split⟩ := benignRule_some applied
  -- the place is at the quote or before it
  have quoted : '"' ∈ t := by
    obtain ⟨front, same⟩ := suffix
    rcases List.eq_nil_or_concat t with rfl | ⟨more, c, rfl⟩
    · exact absurd rfl present
    · rw [List.concat_eq_append, ← List.append_assoc] at same
      rw [List.concat_eq_append, (List.append_inj' same rfl).2]
      simp
  rcases List.append_eq_append_iff.mp split with ⟨more, inside, -⟩ | ⟨left, -, after⟩
  · exact absurd (inside ▸ List.mem_append_left more quoted) (noQuote benign listed)
  · rw [after, List.length_append]
    omega

/-- What is sensitive after a quote is sensitive with what comes before it. -/
theorem isSensitiveKey_append (first : List Char) {last : List Char} (sensitive : isSensitiveKey last = true) :
    isSensitiveKey (first ++ '"' :: last) = true := by
  rw [isSensitiveKey_iff] at sensitive ⊢
  have upper : toUpper (first ++ '"' :: last) = toUpper first ++ '"' :: toUpper last := by
    simp [toUpper, toUpperChar]
  refine ⟨fun working => ?_, ?_⟩
  · have noQuote : ∀ key ∈ notSensitiveKeys, '"' ∉ key.toList := by decide
    apply noQuote _ working
    rw [String.toList_ofList, upper]
    simp
  rcases sensitive.2 with named | ⟨word, listed, contains⟩
  · left
    obtain ⟨word, listed, contains⟩ := List.any_eq_true.mp named
    refine List.any_eq_true.mpr ⟨word, listed, ?_⟩
    rw [decide_eq_true_eq] at contains ⊢
    have part : toUpper last <:+: toUpper (first ++ '"' :: last) := by
      rw [upper]
      exact ((List.suffix_cons _ _).trans (List.suffix_append _ _)).isInfix
    exact List.IsInfix.trans contains part
  · right
    refine ⟨word, listed, ?_⟩
    obtain ⟨out, same⟩ := replaceAll_benign_quote (toUpper first) (toUpper last)
    rw [upper, same]
    exact List.IsInfix.trans contains (List.suffix_append out _).isInfix

/-! ## Quoted strings -/

/-- The characters around a colon. -/
def Separates (c : Char) : Prop := isWhite c = true ∨ c = ':'

/-- How strings are written: each ends with the quote, a quote within one does not count as a place, and from
there the string ends where it does from its start. -/
structure Quoting (quote : String) (string : List Char → Option (List Char × List Char))
    (Free : List Char → Prop) : Prop where
  closes : Closes quote string
  opens : ∃ c tail, quote.toList = c :: tail ∧ c ∉ tail ∧ ¬Separates c
  plain : ∀ text rest, (∀ c ∈ text, Separates c) → string (text ++ quote.toList ++ rest) = some (text, rest)
  within : ∀ s first last rest, string s = some (first ++ last, rest) → last ≠ [] →
    ∀ u, after quote (last ++ quote.toList ++ rest) = some u →
      (∀ before, ¬Free (before ++ first)) ∧ ∃ key, last = '"' :: key ∧ string u = some (key, rest)
  free : ∀ before c, Separates c → Free (before ++ [c])

theorem separates_of_jsonColon {s sep rest : List Char} (read : jsonColon s = some (sep, rest)) :
    (∀ c ∈ sep, Separates c) ∧ sep ≠ [] := by
  unfold jsonColon at read
  dsimp only at read
  split at read
  next behind colon =>
    cases read
    have white (t : List Char) (c : Char) (member : c ∈ (run isWhite t).1) : Separates c :=
      .inl (List.mem_takeWhile_imp member)
    refine ⟨fun c member => ?_, by simp⟩
    rcases List.mem_append.mp member with before | member
    · exact white s c before
    · rcases List.mem_cons.mp member with rfl | behind
      · exact .inr rfl
      · exact white _ c behind
  next => cases read

theorem not_separates_quote : ¬Separates '"' := by
  rintro (white | colon)
  · exact absurd white (by decide)
  · exact absurd colon (by decide)

theorem not_separates_backslash : ¬Separates '\\' := by
  rintro (white | colon)
  · exact absurd white (by decide)
  · exact absurd colon (by decide)

theorem jsonString_cons {c : Char} {s : List Char} (noQuote : c ≠ '"') (noBackslash : c ≠ '\\') :
    jsonString (c :: s) = (jsonString s).map fun p => (c :: p.1, p.2) := by
  cases s with
  | nil => simp [jsonString, noBackslash]
  | cons d s => simp [jsonString, noBackslash]

theorem after_append (quote : String) (s : List Char) : after quote (quote.toList ++ s) = some s := by
  rw [after, if_pos (List.isPrefixOf_iff_prefix.mpr (List.prefix_append _ _)), ← String.length_toList,
    List.drop_left]

theorem plain_of_escapedJSONString {s text rest : List Char} (read : escapedJSONString s = some (text, rest)) :
    ∀ c ∈ text, c ≠ '"' ∧ c ≠ '\\' := by
  intro c member
  unfold escapedJSONString at read
  obtain ⟨behind, -, same⟩ := Option.map_eq_some_iff.mp read
  cases same
  simpa using List.mem_takeWhile_imp member

theorem jsonString_plain {text : List Char} (rest : List Char) (separates : ∀ c ∈ text, Separates c) :
    jsonString (text ++ "\"".toList ++ rest) = some (text, rest) := by
  induction text with
  | nil => rfl
  | cons c text ih =>
    rw [List.forall_mem_cons] at separates
    have noQuote : c ≠ '"' := by
      rintro rfl
      exact not_separates_quote separates.1
    have noBackslash : c ≠ '\\' := by
      rintro rfl
      exact not_separates_backslash separates.1
    rw [List.cons_append, List.cons_append, jsonString_cons noQuote noBackslash, ih separates.2]
    rfl

/-- A quote within a string is the second of an escape, and the string goes on behind it. -/
theorem jsonString_within {s first key rest : List Char} (read : jsonString s = some (first ++ '"' :: key, rest)) :
    (∃ more, first = more ++ ['\\']) ∧ jsonString (key ++ "\"".toList ++ rest) = some (key, rest) := by
  -- the cases are the function's own
  induction s using jsonString.induct generalizing first with
  | case1 => cases read
  | case2 s =>
    rw [jsonString] at read
    simp at read
  | case3 s =>
    rw [jsonString, if_pos rfl] at read
    cases read
  | case4 c s other ih =>
    rw [jsonString, if_neg other] at read
    obtain ⟨⟨before, behind⟩, inner, same⟩ := Option.map_eq_some_iff.mp read
    cases first with
    | nil => cases same
    | cons d first =>
      cases first with
      | nil =>
        -- this escape is the one
        cases same
        refine ⟨⟨[], rfl⟩, ?_⟩
        have whole := jsonString_closes _ _ _ inner
        rw [← whole]
        exact inner
      | cons e first =>
        cases same
        obtain ⟨⟨more, rfl⟩, rest⟩ := ih inner
        exact ⟨⟨'\\' :: c :: more, rfl⟩, rest⟩
  | case5 => cases read
  | case6 c s notQuote notEscape notLast ih =>
    rw [jsonString] at read
    · obtain ⟨⟨before, behind⟩, inner, same⟩ := Option.map_eq_some_iff.mp read
      cases first with
      | nil =>
        cases same
        exact absurd rfl (notQuote · )
      | cons d first =>
        cases same
        obtain ⟨⟨more, rfl⟩, rest⟩ := ih inner
        exact ⟨⟨c :: more, rfl⟩, rest⟩
    all_goals assumption

theorem json_quoting : Quoting "\"" jsonString Unescaped where
  closes := jsonString_closes
  opens := ⟨'"', [], rfl, List.not_mem_nil, not_separates_quote⟩
  plain _ := jsonString_plain
  within s first last rest read present u opened := by
    cases last with
    | nil => exact absurd rfl present
    | cons c key =>
      have same := eq_of_after opened
      obtain ⟨rfl, rfl⟩ := List.cons.inj same
      obtain ⟨⟨more, rfl⟩, inner⟩ := jsonString_within read
      refine ⟨fun before free => free ?_, key, rfl, inner⟩
      simp
  free before c separates := by
    intro last
    rw [List.getLast?_append, List.getLast?_singleton] at last
    cases last
    exact not_separates_backslash separates

theorem escaped_quoting : Quoting "\\\"" escapedJSONString fun _ => True where
  closes := escapedJSONString_closes
  opens := ⟨'\\', ['"'], rfl, by decide, not_separates_backslash⟩
  plain text rest separates := by
    have all : ∀ c ∈ text, decide (c ≠ '"' ∧ c ≠ '\\') = true := by
      intro c member
      rw [decide_eq_true_eq]
      constructor
      · rintro rfl
        exact not_separates_quote (separates _ member)
      · rintro rfl
        exact not_separates_backslash (separates _ member)
    have first : run (fun c => decide (c ≠ '"' ∧ c ≠ '\\')) (text ++ "\\\"".toList ++ rest) =
        (text, "\\\"".toList ++ rest) := by
      rw [List.append_assoc, run, List.takeWhile_append_of_pos all, List.dropWhile_append_of_pos all]
      simp
    rw [escapedJSONString, first]
    dsimp only
    rw [after_append]
    rfl
  within s first last rest read present u opened := by
    cases last with
    | nil => exact absurd rfl present
    | cons c key =>
      have starts : c :: (key ++ "\\\"".toList ++ rest) = '\\' :: '"' :: u := eq_of_after opened
      have plain := (plain_of_escapedJSONString read c (by simp)).2
      exact absurd (List.cons.inj starts).1 plain
  free _ _ _ := trivial

/-! ## Members -/

/-- A text that starts with a member, part by part. -/
structure Spelled (quote : String) (string : List Char → Option (List Char × List Char)) (s : List Char)
    (m : Member) : Prop where
  whole : s = quote.toList ++ m.key ++ quote.toList ++ (m.sep ++ m.opened quote)
  key : string (m.key ++ quote.toList ++ (m.sep ++ m.opened quote)) = some (m.key, m.sep ++ m.opened quote)
  colon : jsonColon (m.sep ++ m.opened quote) = some (m.sep, m.opened quote)
  value : string (m.value ++ quote.toList ++ m.rest) = some (m.value, m.rest)

section Members

variable {quote : String} {string : List Char → Option (List Char × List Char)} {Free : List Char → Prop}
  {s t : List Char} {m n : Member}

theorem member_iff_spelled (closes : Closes quote string) :
    member quote string s = some m ↔ Spelled quote string s m := by
  constructor
  · intro read
    simp only [member, Option.bind_eq_bind, Option.bind_eq_some_iff, Prod.exists] at read
    obtain ⟨s₁, opened, key, s₂, keyed, sep, s₃, colon, s₄, valued, value, s₅, closed, same⟩ := read
    cases same
    have text := closes _ _ _ closed
    have value : s₃ = quote.toList ++ value ++ quote.toList ++ s₅ := by
      rw [eq_of_after valued, text]
      simp only [List.append_assoc]
    have sep := eq_of_jsonColon colon
    have key := closes _ _ _ keyed
    subst value
    subst sep
    subst key
    refine ⟨?_, keyed, colon, text ▸ closed⟩
    rw [eq_of_after opened]
    simp only [Member.opened, List.append_assoc]
  · rintro ⟨rfl, key, colon, value⟩
    have first : after quote (quote.toList ++ m.key ++ quote.toList ++ (m.sep ++ m.opened quote)) =
        some (m.key ++ quote.toList ++ (m.sep ++ m.opened quote)) := by
      rw [List.append_assoc, List.append_assoc, after_append, List.append_assoc]
    have second : after quote (m.opened quote) = some (m.value ++ quote.toList ++ m.rest) := by
      rw [Member.opened, List.append_assoc, List.append_assoc, after_append, List.append_assoc]
    simp only [member, Option.bind_eq_bind, first, key, colon, second, value, Option.bind_some]
    rfl

theorem memberRule_plain {pattern : List Char → Option Member} (read : pattern s = some m)
    (plain : isSensitiveKey m.key = false) : memberRule pattern quote s = some (m.head quote, m.opened quote) := by
  rw [memberRule, read, Option.map_some, plain, Bool.not_false, if_pos rfl]
  rfl

theorem memberRule_sensitive {pattern : List Char → Option Member} (read : pattern s = some m)
    (sensitive : isSensitiveKey m.key = true) :
    memberRule pattern quote s = some (m.head quote ++ quote.toList ++ masked, quote.toList ++ m.rest) := by
  rw [memberRule, read, Option.map_some, sensitive]
  rfl

theorem isSome_memberRule {pattern : List Char → Option Member} :
    (memberRule pattern quote s).isSome ↔ ∃ m, pattern s = some m := by
  rw [memberRule, Option.isSome_map, Option.isSome_iff_exists]

variable (quoting : Quoting quote string Free)
include quoting

theorem Quoting.reads : Reads (memberRule (member quote string) quote) := by
  intro s new rest applied
  obtain ⟨c, tail, start, -⟩ := quoting.opens
  obtain ⟨m, read, same⟩ := Option.map_eq_some_iff.mp applied
  have whole := eq_of_member quoting.closes read
  split at same <;> cases same
  · refine ⟨m.head quote, ?_, whole⟩
    simp [Member.head, start]
  · refine ⟨m.head quote ++ quote.toList ++ m.value, ?_, by simpa using whole⟩
    simp [Member.head, start]

/-- A quote in a text with its opening quote is that one, or in the text. -/
theorem Quoting.split_opened {front mid text rest u : List Char} (same : front ++ mid = quote.toList ++ text)
    (proper : front ≠ []) (opened : after quote (mid ++ rest) = some u) :
    ∃ more, front = quote.toList ++ more ∧ text = more ++ mid := by
  rcases List.append_eq_append_iff.mp same with ⟨more, split, inside⟩ | ⟨more, first, last⟩
  · -- the place is inside the opening quote, or at its end
    obtain ⟨c, tail, start, once, -⟩ := quoting.opens
    cases more with
    | nil =>
      refine ⟨[], ?_, by simpa using inside.symm⟩
      rw [split, List.append_nil, List.append_nil]
    | cons d more =>
      have starts := eq_of_after opened
      rw [inside, start] at starts
      obtain ⟨rfl, -⟩ := List.cons.inj starts
      cases front with
      | nil => exact absurd rfl proper
      | cons e front =>
        rw [start] at split
        obtain ⟨-, rest⟩ := List.cons.inj split
        exact absurd (rest ▸ by simp) once
  · exact ⟨more, first, last⟩

/-- A place inside a string. -/
theorem Quoting.inside_string {text rest v : List Char} (read : string (text ++ quote.toList ++ rest) = some (text, rest))
    (inside : t <:+ quote.toList ++ text ++ quote.toList ++ rest)
    (first : t ≠ quote.toList ++ text ++ quote.toList ++ rest) (suffix : quote.toList ++ rest <:+ t)
    (last : quote.toList ++ rest ≠ t) (opened : after quote t = some v) :
    ∃ front key more, quote.toList ++ text ++ quote.toList ++ rest = front ++ t ∧
      (∀ before, ¬Free (before ++ front)) ∧ text = more ++ '"' :: key ∧ string v = some (key, rest) := by
  obtain ⟨mid, rfl⟩ := suffix
  obtain ⟨front, whole⟩ := inside
  have same : front ++ mid = quote.toList ++ text := by
    rw [← List.append_assoc, List.append_assoc _ quote.toList] at whole
    exact List.append_cancel_right whole
  have proper : front ≠ [] := by
    rintro rfl
    exact first whole
  have present : mid ≠ [] := by
    rintro rfl
    exact last rfl
  obtain ⟨more, rfl, rfl⟩ := quoting.split_opened same proper opened
  rw [← List.append_assoc] at opened
  obtain ⟨bound, key, rfl, ends⟩ := quoting.within _ more mid rest read present v opened
  refine ⟨_, key, more, whole.symm, fun before => ?_, rfl, ends⟩
  rw [← List.append_assoc]
  exact bound (before ++ quote.toList)

omit quoting in
theorem Spelled.after_eq (spelled : Spelled quote string s m) :
    after quote s = some (m.key ++ quote.toList ++ (m.sep ++ m.opened quote)) := by
  rw [spelled.whole, List.append_assoc, List.append_assoc, after_append, List.append_assoc]

omit quoting in
/-- Members that go on alike after their keys have the same value. -/
theorem Spelled.eq_of_rest (first : Spelled quote string s m) (second : Spelled quote string t n)
    (same : m.sep ++ m.opened quote = n.sep ++ n.opened quote) :
    m.sep = n.sep ∧ m.value = n.value ∧ m.rest = n.rest := by
  have colon := first.colon
  rw [same, second.colon] at colon
  obtain ⟨sep, opened⟩ := Prod.mk.inj (Option.some.inj colon)
  have text : m.value ++ quote.toList ++ m.rest = n.value ++ quote.toList ++ n.rest := by
    unfold Member.opened at opened
    simpa only [List.append_assoc, List.append_cancel_left_eq] using opened.symm
  have value := first.value
  rw [text, second.value] at value
  obtain ⟨value, rest⟩ := Prod.mk.inj (Option.some.inj value)
  exact ⟨sep.symm, value.symm, rest.symm⟩

/-- The closing quote of a key opens what is no credential's name. -/
theorem Quoting.plain_of_closing (outer : Spelled quote string s m)
    (inner : Spelled quote string (quote.toList ++ (m.sep ++ m.opened quote)) n) : isSensitiveKey n.key = false := by
  have separates := (separates_of_jsonColon outer.colon).1
  have text : m.sep ++ m.opened quote = n.key ++ quote.toList ++ (n.sep ++ n.opened quote) := by
    have whole := inner.whole
    rw [List.append_assoc, List.append_assoc] at whole
    rw [List.append_assoc]
    exact List.append_cancel_left whole
  have keyed := inner.key
  have direct := quoting.plain m.sep (m.value ++ quote.toList ++ m.rest) separates
  rw [← text, Member.opened, List.append_assoc quote.toList, List.append_assoc quote.toList, ← List.append_assoc,
    direct] at keyed
  obtain ⟨same, -⟩ := Prod.mk.inj (Option.some.inj keyed)
  rw [← same]
  refine isSensitiveKey_of_letterless fun c member => ?_
  rcases separates c member with white | rfl
  · simp only [isWhite, List.mem_cons, List.not_mem_nil, or_false, decide_eq_true_eq] at white
    rcases white with rfl | rfl | rfl | rfl | rfl <;> decide
  · decide

/-- No member starts behind the quote that closes another's key and before its value. -/
theorem Quoting.not_between (outer : Spelled quote string s m) (inner : Spelled quote string t n)
    (behind : t <:+ quote.toList ++ (m.sep ++ m.opened quote)) (suffix : m.opened quote <:+ t)
    (last : m.opened quote ≠ t) (sensitive : isSensitiveKey n.key = true) : False := by
  obtain ⟨mid, rfl⟩ := suffix
  obtain ⟨front, whole⟩ := behind
  have same : front ++ mid = quote.toList ++ m.sep := by
    rw [← List.append_assoc, ← List.append_assoc] at whole
    exact List.append_cancel_right whole
  have present : mid ≠ [] := by
    rintro rfl
    exact last rfl
  by_cases proper : front = []
  · subst proper
    rw [List.nil_append] at same
    subst same
    rw [List.append_assoc] at inner
    rw [quoting.plain_of_closing outer inner] at sensitive
    cases sensitive
  · have opened := inner.after_eq
    obtain ⟨more, -, text⟩ := quoting.split_opened same proper opened
    obtain ⟨c, tail, start, -, plain⟩ := quoting.opens
    have starts := eq_of_after opened
    rw [start] at starts
    cases mid with
    | nil => exact absurd rfl present
    | cons d mid =>
      obtain ⟨rfl, -⟩ := List.cons.inj starts
      exact absurd ((separates_of_jsonColon outer.colon).1 d (text ▸ by simp)) plain

/-- A member that starts between another and its value starts in that one's key. -/
theorem Quoting.inside_head (outer : Spelled quote string s m) (inner : Spelled quote string t n)
    (inside : t <:+ s) (first : t ≠ s) (suffix : m.opened quote <:+ t) (last : m.opened quote ≠ t)
    (sensitive : isSensitiveKey n.key = true) :
    ∃ front more, s = front ++ t ∧ (∀ before, ¬Free (before ++ front)) ∧ m.key = more ++ '"' :: n.key ∧
      n.sep = m.sep ∧ n.value = m.value ∧ n.rest = m.rest := by
  have closing : quote.toList ++ (m.sep ++ m.opened quote) <:+ s := by
    rw [outer.whole, List.append_assoc _ quote.toList]
    exact List.suffix_append _ _
  rcases List.suffix_or_suffix_of_suffix closing inside with before | behind
  · by_cases here : quote.toList ++ (m.sep ++ m.opened quote) = t
    · subst here
      rw [quoting.plain_of_closing outer inner] at sensitive
      cases sensitive
    · obtain ⟨front, key, more, whole, bound, text, ends⟩ := quoting.inside_string outer.key (outer.whole ▸ inside)
        (outer.whole ▸ first) before here inner.after_eq
      rw [inner.key] at ends
      obtain ⟨rfl, rest⟩ := Prod.mk.inj (Option.some.inj ends)
      exact ⟨front, more, outer.whole.trans whole, bound, text, inner.eq_of_rest outer rest⟩
  · exact (quoting.not_between outer inner behind suffix last sensitive).elim

/-- A member that starts inside another's value. -/
theorem Quoting.inside_value (outer : Spelled quote string s m) (inner : Spelled quote string t n)
    (inside : t <:+ m.opened quote) (first : t ≠ m.opened quote) (suffix : quote.toList ++ m.rest <:+ t)
    (last : quote.toList ++ m.rest ≠ t) :
    ∃ front more, m.opened quote = front ++ t ∧ (∀ before, ¬Free (before ++ front)) ∧
      m.value = more ++ '"' :: n.key ∧ Spelled quote string (m.opened quote) { n with key := m.value } := by
  obtain ⟨front, key, more, whole, bound, text, ends⟩ := quoting.inside_string outer.value inside first suffix last
    inner.after_eq
  rw [inner.key] at ends
  obtain ⟨rfl, rest⟩ := Prod.mk.inj (Option.some.inj ends)
  refine ⟨front, more, whole, bound, text, ?_, ?_, inner.colon, inner.value⟩
  · rw [Member.opened, ← rest]
    rfl
  · have valued := outer.value
    rw [← rest] at valued
    exact valued

/-! ## The scan -/

theorem Quoting.mem_maskedValues {part : List Char × List Char} :
    part ∈ maskedValues (member quote string) quote s ↔ ∃ t m, Reaches (memberRule (member quote string) quote) s t ∧
      member quote string t = some m ∧ isSensitiveKey m.key = true ∧ part = m.part quote := by
  simp only [maskedValues, List.mem_filterMap, quoting.reads.mem_places le_rfl, isSome_memberRule,
    Option.bind_eq_some_iff, Option.ite_none_right_eq_some, Option.some.injEq]
  constructor
  · rintro ⟨t, ⟨way, -⟩, m, read, sensitive, same⟩
    exact ⟨t, m, way, read, sensitive, same.symm⟩
  · rintro ⟨t, m, way, read, sensitive, same⟩
    exact ⟨t, ⟨way, m, read⟩, m, read, sensitive, same.symm⟩

theorem Quoting.replaced_scan {n : Nat} (enough : s.length ≤ n) :
    Replaced masked s (scan (memberRule (member quote string) quote) n s)
      ((places (memberRule (member quote string) quote) n s).filterMap fun t =>
        (member quote string t).bind fun m => if isSensitiveKey m.key then some (m.part quote) else none) := by
  induction n generalizing s with
  | zero =>
    cases List.length_eq_zero_iff.mp (Nat.le_zero.mp enough)
    exact .nil
  | succ n ih =>
    cases read : member quote string s with
    | some m =>
      have whole := eq_of_member quoting.closes read
      cases sensitive : isSensitiveKey m.key with
      | false =>
        have applied : memberRule (member quote string) quote s =
            some (m.head quote, m.opened quote) := memberRule_plain read sensitive
        have less := quoting.reads.length_lt applied
        rw [scan_some applied, places_some applied, List.filterMap_cons, read, Option.bind_some, sensitive]
        have rest := (ih (s := m.opened quote) (by omega)).append (m.head quote)
        rw [show m.head quote ++ m.opened quote = s from whole.symm] at rest
        exact rest
      | true =>
        have applied : memberRule (member quote string) quote s =
            some (m.head quote ++ quote.toList ++ masked, quote.toList ++ m.rest) := memberRule_sensitive read sensitive
        have less := quoting.reads.length_lt applied
        rw [scan_some applied, places_some applied, List.filterMap_cons, read, Option.bind_some, sensitive]
        have rest := ((ih (s := quote.toList ++ m.rest) (by omega)).replace m.value).append
          (m.head quote ++ quote.toList)
        have text : m.head quote ++ quote.toList ++ (m.value ++ (quote.toList ++ m.rest)) = s := by
          rw [whole]
          simp only [List.append_assoc]
        rw [text, ← List.append_assoc] at rest
        exact rest
    | none =>
      have absent : memberRule (member quote string) quote s = none := by rw [memberRule, read]; rfl
      cases s with
      | nil =>
        rw [scan_nil_none absent, places.eq_def]
        dsimp only
        rw [absent]
        exact .nil
      | cons c cs =>
        rw [scan_cons_none absent, places_cons_none absent]
        exact (ih (Nat.le_of_succ_le_succ enough)).keep c

/-- A value's opening quote is a place that counts. -/
theorem Quoting.free_opened (outer : Spelled quote string s m) (before : List Char) :
    Free (before ++ m.head quote) := by
  obtain ⟨separates, present⟩ := separates_of_jsonColon outer.colon
  rcases List.eq_nil_or_concat m.sep with none | ⟨sep, c, last⟩
  · exact absurd none present
  · rw [Member.head, last, List.concat_eq_append, ← List.append_assoc, ← List.append_assoc]
    exact quoting.free _ c (separates c (by simp [last]))

omit quoting in
theorem Spelled.opened_suffix (spelled : Spelled quote string s m) : m.opened quote <:+ s := by
  rw [spelled.whole, ← List.append_assoc]
  exact List.suffix_append _ _

theorem Quoting.length_opened_lt (spelled : Spelled quote string s m) :
    (quote.toList ++ m.rest).length < (m.opened quote).length ∧ (m.opened quote).length < s.length := by
  obtain ⟨c, tail, start, -⟩ := quoting.opens
  rw [spelled.whole]
  simp only [Member.opened, List.length_append, start, List.length_cons]
  omega

omit quoting in
/-- The value of a member is the key of the one it opens. -/
theorem Spelled.value_eq_key (outer : Spelled quote string s m) (second : Spelled quote string (m.opened quote) n) :
    m.value = n.key ∧ m.rest = n.sep ++ n.opened quote := by
  have text : m.value ++ quote.toList ++ m.rest = n.key ++ quote.toList ++ (n.sep ++ n.opened quote) := by
    have whole := second.whole
    rw [Member.opened] at whole
    simpa only [List.append_assoc, List.append_cancel_left_eq] using whole
  have value := outer.value
  rw [text, second.key] at value
  obtain ⟨key, rest⟩ := Prod.mk.inj (Option.some.inj value)
  exact ⟨key.symm, rest.symm⟩

/-- A member with a sensitive key that the scan passes over starts in the key or the value of another, after a
backslash, or is the value of a masked one. -/
theorem Quoting.passed_cases {u new rest : List Char} (spelled : Spelled quote string t n)
    (sensitive : isSensitiveKey n.key = true) (applied : memberRule (member quote string) quote u = some (new, rest))
    (inside : t <:+ u) (first : t ≠ u) (suffix : rest <:+ t) (last : rest ≠ t) :
    ∃ m, Spelled quote string u m ∧
      ((∃ front more, u = front ++ t ∧ (∀ before, ¬Free (before ++ front)) ∧ m.key = more ++ '"' :: n.key ∧
          n.sep = m.sep ∧ n.value = m.value ∧ n.rest = m.rest) ∨
        isSensitiveKey m.key = true ∧ t = m.opened quote ∨
        isSensitiveKey m.key = true ∧ ∃ front more, m.opened quote = front ++ t ∧
          (∀ before, ¬Free (before ++ front)) ∧ m.value = more ++ '"' :: n.key ∧
          Spelled quote string (m.opened quote) { n with key := m.value }) := by
  obtain ⟨m, read⟩ := isSome_memberRule.mp (Option.isSome_of_eq_some applied)
  have outer := (member_iff_spelled quoting.closes).mp read
  refine ⟨m, outer, ?_⟩
  cases plain : isSensitiveKey m.key with
  | false =>
    rw [memberRule_plain read plain] at applied
    cases applied
    exact .inl (quoting.inside_head outer spelled inside first suffix last sensitive)
  | true =>
    rw [memberRule_sensitive read plain] at applied
    cases applied
    -- before the value, at it, or inside it
    rcases List.suffix_or_suffix_of_suffix outer.opened_suffix inside with before | behind
    · by_cases here : m.opened quote = t
      · exact .inr (.inl ⟨rfl, here.symm⟩)
      · exact .inl (quoting.inside_head outer spelled inside first before here sensitive)
    · by_cases here : t = m.opened quote
      · exact .inr (.inl ⟨rfl, here⟩)
      · exact .inr (.inr ⟨rfl, quoting.inside_value outer spelled behind here suffix last⟩)

/-- The scan comes to the first of two chained members. -/
theorem Quoting.exists_reached (chained : Chained (member quote string) quote s) :
    ∃ t m n, Reaches (memberRule (member quote string) quote) s t ∧ Spelled quote string t m ∧
      isSensitiveKey m.key = true ∧ Spelled quote string (m.opened quote) n ∧ isSensitiveKey n.key = true := by
  obtain ⟨t, m, n, ⟨before, rfl⟩, read, sensitive, value, sensitive'⟩ := chained
  have spelled := (member_iff_spelled quoting.closes).mp read
  have second := (member_iff_spelled quoting.closes).mp value
  rcases quoting.reads.reaches_or_inside with reached | ⟨u, new, rest, reached, applied, inside, first, suffix, last⟩
  · exact ⟨t, m, n, reached, spelled, sensitive, second, sensitive'⟩
  · obtain ⟨o, outer, in_key | ⟨masks, rfl⟩ | ⟨masks, in_value⟩⟩ :=
      quoting.passed_cases spelled sensitive applied inside first suffix last
    · obtain ⟨-, more, -, -, key, -, value, rest⟩ := in_key
      have same : m.opened quote = o.opened quote := by rw [Member.opened, value, rest]; rfl
      exact ⟨u, o, n, reached, outer, key ▸ isSensitiveKey_append more sensitive, same ▸ second, sensitive'⟩
    · exact ⟨u, o, m, reached, outer, masks, spelled, sensitive⟩
    · obtain ⟨-, more, -, -, key, chain⟩ := in_value
      exact ⟨u, o, _, reached, outer, masks, chain, key ▸ isSensitiveKey_append more sensitive⟩

/-- A member with the same value as the one that is opened by a value starts in what the outer member reads. -/
theorem Quoting.inside_opened {u before : List Char} {o : Member} (split : before ++ t = s)
    (outer : Spelled quote string t m) (second : Spelled quote string (m.opened quote) n)
    (sensitive : isSensitiveKey n.key = true) (behind : u <:+ s) (other : Spelled quote string u o)
    (masks : isSensitiveKey o.key = true) (opened : o.opened quote = n.opened quote) :
    u <:+ m.opened quote ∧ quote.toList ++ m.rest <:+ u ∧ (quote.toList ++ m.rest).length < u.length := by
  have placed : before ++ m.head quote ++ m.opened quote = s := by
    rw [← split, List.append_assoc]
    exact congrArg (before ++ ·) (eq_of_member quoting.closes ((member_iff_spelled quoting.closes).mpr outer)).symm
  have sizes := quoting.length_opened_lt outer
  have sizes' := quoting.length_opened_lt second
  have sizesOther := quoting.length_opened_lt other
  by_cases here : u = m.opened quote
  · subst here
    refine ⟨List.suffix_rfl, ?_, by omega⟩
    rw [Member.opened, List.append_assoc]
    exact List.suffix_append _ _
  rcases List.suffix_or_suffix_of_suffix behind (placed ▸ List.suffix_append _ _) with within | around
  · have inside := quoting.inside_head second other within here (opened ▸ other.opened_suffix)
      (fun same => by rw [← same, opened] at sizesOther; omega) masks
    obtain ⟨-, -, -, -, -, sep, -, -⟩ := inside
    -- both go on alike after their keys
    have rest : quote.toList ++ m.rest = quote.toList ++ (o.sep ++ o.opened quote) := by
      rw [sep, opened, (outer.value_eq_key second).2]
    refine ⟨within, ?_, ?_⟩
    · rw [rest, other.whole, List.append_assoc _ quote.toList]
      exact List.suffix_append _ _
    · obtain ⟨c, tail, start, -⟩ := quoting.opens
      rw [rest, other.whole]
      simp only [List.length_append, start, List.length_cons]
      omega
  · -- the opened member would start at a place that does not count
    obtain ⟨front, -, whole, bound, -⟩ := quoting.inside_head other second around (Ne.symm here)
      (opened ▸ second.opened_suffix) (fun same => by rw [← same, opened] at sizes'; omega) sensitive
    obtain ⟨before', split'⟩ := behind
    have free := quoting.free_opened outer before
    rw [whole, ← List.append_assoc, ← placed] at split'
    rw [← List.append_cancel_right split'] at free
    exact absurd free (bound before')

/-- The value of a masked member is not masked as that of a member it is the key of. -/
theorem Quoting.not_mem_of_chained (reached : Reaches (memberRule (member quote string) quote) s t)
    (outer : Spelled quote string t m) (sensitive : isSensitiveKey m.key = true)
    (second : Spelled quote string (m.opened quote) n) (sensitive' : isSensitiveKey n.key = true) :
    n.part quote ∉ maskedValues (member quote string) quote s := by
  intro covered
  obtain ⟨u, o, reached', read, masks, same⟩ := quoting.mem_maskedValues.mp covered
  have other := (member_iff_spelled quoting.closes).mp read
  obtain ⟨value, tail⟩ := Prod.mk.inj same
  have opened : o.opened quote = n.opened quote := by
    rw [Member.opened, Member.opened, value, List.append_assoc, List.append_assoc _ quote.toList, tail]
  obtain ⟨before, split⟩ := reached.suffix quoting.reads
  obtain ⟨within, suffix, long⟩ := quoting.inside_opened split outer second sensitive' (reached'.suffix quoting.reads)
    other masks opened
  have applied : memberRule (member quote string) quote t =
      some (m.head quote ++ quote.toList ++ masked, quote.toList ++ m.rest) :=
    memberRule_sensitive ((member_iff_spelled quoting.closes).mpr outer) sensitive
  refine reached.not_inside quoting.reads applied (within.trans outer.opened_suffix) ?_ suffix ?_ reached'
  · rintro rfl
    exact absurd within.length_le (not_le_of_gt (quoting.length_opened_lt outer).2)
  · rintro rfl
    exact lt_irrefl _ long

theorem Quoting.complete_iff (s : List Char) :
    Complete (member quote string) quote Free s ↔ ¬Chained (member quote string) quote s := by
  constructor
  · intro complete chained
    obtain ⟨t, m, n, reached, outer, sensitive, second, sensitive'⟩ := quoting.exists_reached chained
    obtain ⟨before, split⟩ := reached.suffix quoting.reads
    refine quoting.not_mem_of_chained reached outer sensitive second sensitive' ?_
    refine complete.covers (before ++ m.head quote) (m.opened quote) n ?_ (quoting.free_opened outer before)
      ((member_iff_spelled quoting.closes).mpr second) sensitive'
    rw [← split, List.append_assoc]
    exact congrArg (before ++ ·) (eq_of_member quoting.closes ((member_iff_spelled quoting.closes).mpr outer))
  · intro apart
    refine ⟨fun n enough => quoting.reads.scan_eq enough, quoting.replaced_scan le_rfl, fun part member => ?_, ?_⟩
    · obtain ⟨t, m, reached, read, sensitive, same⟩ := quoting.mem_maskedValues.mp member
      exact ⟨t, m, reached.suffix quoting.reads, read, sensitive, same⟩
    · rintro before t m rfl free read sensitive
      have spelled := (member_iff_spelled quoting.closes).mp read
      rcases quoting.reads.reaches_or_inside with reached | ⟨u, new, rest, reached, applied, inside, first, suffix, last⟩
      · exact quoting.mem_maskedValues.mpr ⟨t, m, reached, read, sensitive, rfl⟩
      obtain ⟨front', split⟩ := reached.suffix quoting.reads
      -- a place that is passed over stands after a backslash, or after a member it is chained to
      obtain ⟨o, outer, in_key | ⟨masks, rfl⟩ | ⟨masks, in_value⟩⟩ :=
        quoting.passed_cases spelled sensitive applied inside first suffix last
      · obtain ⟨front, -, whole, bound, -⟩ := in_key
        rw [whole, ← List.append_assoc] at split
        rw [← List.append_cancel_right split] at free
        exact absurd free (bound front')
      · exact absurd ⟨u, o, m, reached.suffix quoting.reads, (member_iff_spelled quoting.closes).mpr outer, masks, read,
          sensitive⟩ apart
      · obtain ⟨front, -, whole, bound, -⟩ := in_value
        have text := eq_of_member quoting.closes ((member_iff_spelled quoting.closes).mpr outer)
        change u = o.head quote ++ o.opened quote at text
        rw [text, whole, ← List.append_assoc, ← List.append_assoc] at split
        rw [← List.append_cancel_right split] at free
        exact absurd free (bound (front' ++ o.head quote))

end Members

/-- Masking is complete unless the value of a sensitive member is itself the key of one. -/
theorem maskMembers_complete_iff (s : List Char) :
    (Complete jsonMember "\"" Unescaped s ↔ ¬Chained jsonMember "\"" s) ∧
      (Complete escapedJSONMember "\\\"" (fun _ => True) s ↔ ¬Chained escapedJSONMember "\\\"" s) :=
  ⟨json_quoting.complete_iff s, escaped_quoting.complete_iff s⟩

/-- A masked value that is the key of a member: its value is left. -/
theorem maskMembers_not_complete :
    ¬∀ s, Complete jsonMember "\"" Unescaped s ∧ Complete escapedJSONMember "\\\"" (fun _ => True) s := by
  intro all
  have complete := (all "\"password\":\"secret\":\"x\"".toList).1
  have covered := complete.covers "\"password\":".toList "\"secret\":\"x\"".toList
    ⟨"secret".toList, ":".toList, "x".toList, []⟩ (by decide +kernel) (by decide +kernel) rfl (by decide +kernel)
  have left : (Member.part "\"" ⟨"secret".toList, ":".toList, "x".toList, []⟩) ∉
      maskedValues jsonMember "\"" "\"password\":\"secret\":\"x\"".toList := by decide +kernel
  exact left covered

end Dockgraph.Secrets
