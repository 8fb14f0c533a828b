import Dockgraph.Secrets.FlagValues

/-!
# Values that leave no trace

After a sensitive flag a value of one word is written as one mask, and the masker goes on as after any other
such value. Texts and command lines that differ in such values only are masked alike.
-/
namespace Dockgraph.Secrets

open Text

/-- A value that is one word without quotes. -/
structure PlainValue (v : List Char) : Prop where
  nonempty : v ≠ []
  chars : ∀ c ∈ v, isNameChar c = true
  noDash : v.head? ≠ some '-'
  short : byteLen v ≤ maxValueLen

section

variable {m : Masker} {name v v' : List Char}

theorem PlainValue.absent (plain : PlainValue v) {c : Char} (other : isNameChar c = false) : c ∉ v := fun member => by
  simp [plain.chars c member] at other

/-- Nothing in a word of name characters closes a quote or splits it. -/
theorem cut_nameChars {w : List Char} (chars : ∀ c ∈ w, isNameChar c = true) (quote : Quote) :
    Text.cut quote.char w = none := by
  have other : isNameChar quote.char = false := by cases quote <;> decide
  have absent : quote.char ∉ w := fun member => by simp [chars _ member] at other
  have whole := cut_append_of_not_mem absent []
  rwa [List.append_nil] at whole

theorem firstRun_nameChars {w : List Char} (nonempty : w ≠ []) (chars : ∀ c ∈ w, isNameChar c = true) :
    FirstRun isBreak false w [] :=
  ⟨nonempty, fun c member => isBreak_of_isNameChar (chars c member), by simp⟩

theorem parts_nameChars {w : List Char} (m : Masker) (chars : ∀ c ∈ w, isNameChar c = true) : m.parts w = m.word w := by
  have ascii : isASCII w = true :=
    List.all_eq_true.mpr fun c member => decide_eq_true (ascii_of_isNameChar (chars c member))
  rw [Masker.parts, if_pos (.inl ascii)]

theorem trailingQuotes_nameChars {w : List Char} (chars : ∀ c ∈ w, isNameChar c = true) : trailingQuotes w = [] := by
  rw [trailingQuotes, List.rtakeWhile_eq_nil_iff]
  intro nonempty quote
  have last := chars _ (List.getLast_mem nonempty)
  have other (c : Char) (quote : isShellQuote c = true) : isNameChar c = false := by
    simp only [isShellQuote, Bool.or_eq_true, decide_eq_true_eq] at quote
    rcases quote with rfl | rfl <;> decide
  simp [other _ quote] at last

theorem PlainValue.maskWord (plain : PlainValue v) (m : Masker) :
    m.maskWord v false = (masked, { m with maskedValue := true }) := by
  have quotes := trailingQuotes_nameChars plain.chars
  cases v with
  | nil => exact absurd rfl plain.nonempty
  | cons c rest =>
    have single : c ≠ '\'' := by
      rintro rfl
      exact plain.absent (by decide) List.mem_cons_self
    have double : c ≠ '"' := by
      rintro rfl
      exact plain.absent (by decide) List.mem_cons_self
    have opens : closingQuote c false = none := by simp [closingQuote, single, double]
    simp [Masker.maskWord, opens, quotes]

theorem Ready.plainWord (ready : Ready m) (plain : PlainValue v) :
    m.word v = (masked, { m with expect := .anything, maskedValue := true }) := by
  have read : m.word v = { m with expect := .anything }.maskWord v false := by
    rw [Masker.word, ready.quote]
    simp [ready.connValue, ready.expect, Masker.announced, plain.noDash]
  rw [read, plain.maskWord]

/-! ## Command lines -/

theorem Ready.plainText (ready : Ready m) (plain : PlainValue v) (arg : Bool) :
    m.text v arg = (masked,
      { m with expect := .anything, maskedValue := true, quote := none, connValue := false }) := by
  have words := @Masker.words_word m arg false v [] (firstRun_nameChars plain.nonempty plain.chars)
  rw [List.append_nil, parts_nameChars _ plain.chars, ready.reset.plainWord plain] at words
  rw [Masker.text, if_neg plain.nonempty, words]
  -- the later passes find nothing in a mask
  have mask : ∀ c ∈ masked, isPlain c = true := Masks.masked.plain
  simp [Masker.words, runs, maskJSONMembers_of_plain mask, maskXMLElements_of_plain mask]

theorem PlainValue.reading (plain : PlainValue v) (m : Masker) :
    m.reading v = { m with shellCommand := false, optionValue := false } := by
  cases v with
  | nil => exact absurd rfl plain.nonempty
  | cons c rest =>
    have dash : c ≠ '-' := fun same => plain.noDash (congrArg some same)
    have plus : c ≠ '+' := by
      rintro rfl
      exact plain.absent (by decide) List.mem_cons_self
    have command : isShellCommandFlag (c :: rest) = false := by
      unfold isShellCommandFlag
      split
      next same => exact absurd (List.cons.inj same).1 dash
      · rfl
    have other {option : List Char} (starts : option.head? = some '-') : c :: rest ≠ option := by
      rintro rfl
      exact dash (Option.some.inj starts)
    have option : isShellOptionWithValue (c :: rest) = false := by
      unfold isShellOptionWithValue
      simp only [Bool.or_eq_false_iff, decide_eq_false_iff_not]
      refine ⟨⟨other (by decide), other (by decide)⟩, ?_⟩
      simp [dash, plus]
    simp [Masker.reading, command, option]

/-- Command lines that differ in plain values after sensitive flags. -/
inductive ArgsAlike : List (List Char) → List (List Char) → Prop
  | nil : ArgsAlike [] []
  | same (a : List Char) {as as' : List (List Char)} : ArgsAlike as as' → ArgsAlike (a :: as) (a :: as')
  | value {name v v' : List Char} {as as' : List (List Char)} (flag : FlagName name) (plain : PlainValue v)
      (plain' : PlainValue v') : ArgsAlike as as' → ArgsAlike (flagText name :: v :: as) (flagText name :: v' :: as')

/-- The next plain value is masked: it is in an open quote, in a connection string or announced. -/
inductive Awaits (m : Masker) : Prop
  | quoted (quote : Quote) (opened : m.quote = some quote)
  | connection (opened : m.quote = none) (value : m.connValue = true)
  | ready (ready : Ready m)

theorem Awaits.reset (awaits : Awaits m) : Awaits { m with maskedValue := false } := by
  cases awaits with
  | quoted quote opened => exact .quoted quote opened
  | connection opened value => exact .connection opened value
  | ready ready => exact .ready ready.reset

theorem FlagName.awaits (flag : FlagName name) (m : Masker) : Awaits (m.word (flagText name)).2 := by
  cases opened : m.quote with
  | some quote =>
    have cut := cut_nameChars flag.isNameChar_of_mem quote
    exact .quoted quote (by simp [Masker.word, opened, Masker.continueQuoted, cut])
  | none =>
    cases value : m.connValue with
    | true =>
      have absent : ';' ∉ flagText name := flag.absent (by decide)
      exact .connection (by simp [Masker.word, opened, value]) (by simp [Masker.word, opened, value, absent])
    | false =>
      rw [flag.word ⟨opened, value⟩]
      exact .ready ⟨opened, value, rfl⟩

theorem Awaits.word_plain (awaits : Awaits m) (plain : PlainValue v) (plain' : PlainValue v') :
    m.word v = m.word v' := by
  cases awaits with
  | quoted quote opened =>
    have cut := cut_nameChars plain.chars quote
    have cut' := cut_nameChars plain'.chars quote
    simp [Masker.word, opened, Masker.continueQuoted, cut, cut']
  | connection opened value =>
    have absent : ';' ∉ v := plain.absent (by decide)
    have absent' : ';' ∉ v' := plain'.absent (by decide)
    simp [Masker.word, opened, value, trailingQuotes_nameChars plain.chars, trailingQuotes_nameChars plain'.chars,
      absent, absent']
  | ready ready => rw [ready.plainWord plain, ready.plainWord plain']

/-- Words and the breaks between them that differ in plain values after sensitive flags. -/
inductive RunsAlike : List (List Char) → List (List Char) → Prop
  | nil : RunsAlike [] []
  | same (run : List Char) {rest rest' : List (List Char)} : RunsAlike rest rest' → RunsAlike (run :: rest) (run :: rest')
  | value {name gap v v' : List Char} {rest rest' : List (List Char)} (flag : FlagName name)
      (gap_break : gap.all isBreak = true) (plain : PlainValue v) (plain' : PlainValue v') : RunsAlike rest rest' →
      RunsAlike (flagText name :: gap :: v :: rest) (flagText name :: gap :: v' :: rest')

theorem words_alike {rest rest' : List (List Char)} (alike : RunsAlike rest rest') (arg inValue : Bool) :
    m.words arg inValue rest = m.words arg inValue rest' := by
  -- by words: in a text a quote or a connection string may be open at the flag
  induction alike generalizing m inValue with
  | nil => rfl
  | same run _ ih =>
    rw [Masker.words, Masker.words]
    split <;> simp only [ih]
  | @value name gap v v' rest rest' flag breaks plain plain' _ ih =>
    have flagWord : (flagText name).all isBreak = false :=
      (firstRun_nameChars (List.cons_ne_nil _ _) flag.isNameChar_of_mem).all_eq
    have word : v.all isBreak = false := (firstRun_nameChars plain.nonempty plain.chars).all_eq
    have word' : v'.all isBreak = false := (firstRun_nameChars plain'.nonempty plain'.chars).all_eq
    have awaits := (flag.awaits { m with maskedValue := false }).reset
    have same := awaits.word_plain plain plain'
    simp only [Masker.words, flagWord, breaks, word, word', if_true, Bool.false_eq_true, if_false,
      parts_nameChars _ flag.isNameChar_of_mem, parts_nameChars _ plain.chars, parts_nameChars _ plain'.chars, same, ih]

/-- Texts that differ in plain values after sensitive flags. -/
structure OutputsAlike (s s' : List Char) : Prop where
  filled : s ≠ [] ∧ s' ≠ []
  short : byteLen s ≤ maxValueLen ∧ byteLen s' ≤ maxValueLen
  words : RunsAlike (runs isBreak s) (runs isBreak s')

theorem maskValue_alike {s s' : List Char} (alike : OutputsAlike s s') : maskValue s = maskValue s' := by
  have same := @words_alike {} _ _ alike.words false false
  simp [maskValue, Masker.text, alike.filled, Nat.not_lt.mpr alike.short.1, Nat.not_lt.mpr alike.short.2, same]

end

end Dockgraph.Secrets
