import Dockgraph.Secrets.FlagValues

/-!
# The value of a pair is hidden

A pair is a sensitive key, `=` and a value. No URL or DSN starts in the key, so every branch that may
read the word masks it whole or masks what comes after `=`.
-/
namespace Dockgraph.Secrets

open Rewrite Text

/-- Quotes, up to two dashes, a sensitive key; the value may be any text. -/
structure PairKey (q d k : List Char) : Prop where
  quoted : ∀ c ∈ q, isShellQuote c = true
  dashed : ∀ c ∈ d, c = '-'
  few : d.length ≤ 2
  named : isKeyName k = true
  sensitive : isSensitiveKey k = true

/-! ## Rewriting after the key -/

/-- The characters a key has before its `=`. -/
def isHeadChar (c : Char) : Bool := isShellQuote c || isNameChar c

section

variable {head t s w : List Char} {rule : Rule Char}

/-- A text with another character cannot start in a head. -/
theorem after_head {opening : String} (foreign : opening.toList.any fun c => !isHeadChar c)
    (equals : '=' ∉ opening.toList) (heads : ∀ c ∈ t, isHeadChar c = true) (s : List Char) :
    after opening (t ++ '=' :: s) = none := by
  refine if_neg fun starts => ?_
  have inside : opening.toList <+: t ++ '=' :: s := List.isPrefixOf_iff_prefix.mp starts
  have whole : t ++ ['='] <+: t ++ '=' :: s := by simp
  -- the text ends in the head, or reaches past its `=`
  rcases List.prefix_or_prefix_of_prefix inside whole with short | long
  · obtain ⟨c, member, other⟩ := List.any_eq_true.mp foreign
    rcases List.mem_append.mp (short.subset member) with early | last
    · simp [heads c early] at other
    · exact equals (List.mem_singleton.mp last ▸ member)
  · exact equals (long.subset (by simp))

/-- A run that does not take `=` stops in the head or at its `=`. -/
theorem run_head {p : Char → Bool} (stops : p '=' = false) (heads : ∀ c ∈ t, isHeadChar c = true)
    (s : List Char) : ∃ rest, (run p (t ++ '=' :: s)).2 = rest ++ '=' :: s ∧
      ∀ c ∈ rest, isHeadChar c = true := by
  refine ⟨t.dropWhile p, ?_, fun c member => heads c ((List.dropWhile_suffix p).subset member)⟩
  simp only [run]
  rw [List.dropWhile_append]
  split
  next taken =>
    rw [List.isEmpty_iff.mp taken, List.dropWhile_cons_of_neg (by simp [stops])]
    rfl
  · rfl

/-- A rule that applies nowhere in a head. -/
def Skips (rule : Rule Char) : Prop :=
  ∀ t s, (∀ c ∈ t, isHeadChar c = true) → rule (t ++ '=' :: s) = none

theorem Skips.replaceAll (skips : Skips rule) (heads : ∀ c ∈ head, isHeadChar c = true)
    (s : List Char) : ∃ s', replaceAll rule (head ++ '=' :: s) = head ++ '=' :: s' := by
  refine ⟨Rewrite.replaceAll rule s, ?_⟩
  -- nowhere up to `=`
  have absent : ∀ t, t ≠ [] → t <:+ head ++ ['='] → rule (t ++ s) = none := by
    intro t present suffix
    rcases List.suffix_concat_iff.mp suffix with rfl | ⟨t, rfl, inside⟩
    · exact absurd rfl present
    · rw [List.append_assoc]
      exact skips t s fun c member => heads c (inside.subset member)
  simpa using replaceAll_append absent

theorem oracleURLRule_skips : Skips oracleURLRule := by
  intro t s heads
  simp [oracleURLRule, after_head (by decide : "jdbc:oracle:".toList.any _ = true) (by decide) heads]

theorem goDSNRule_skips : Skips goDSNRule := by
  intro t s heads
  simp only [goDSNRule]
  -- its user stops at `=`, where a colon would have to be
  obtain ⟨rest, stopped, others⟩ := @run_head t
    (fun c => c ∉ [':', '@', '\'', '"', '=', ',', ';'] ∧ !isWhite c) (by decide) heads s
  rw [stopped]
  simp [after_head (by decide : ":".toList.any _ = true) (by decide) others]

theorem urlScheme_head (heads : ∀ c ∈ t, isHeadChar c = true) (s : List Char) :
    urlScheme (t ++ '=' :: s) = none := by
  cases t with
  | nil => rfl
  | cons c t =>
    rw [List.forall_mem_cons] at heads
    obtain ⟨rest, stopped, others⟩ := @run_head t
      (fun c => c.isAlphanum ∨ c ∈ ['+', '.', '-']) (by decide) heads.2 s
    simp only [urlScheme, List.cons_append]
    -- the scheme stops before `://`
    rw [stopped]
    simp [after_head (by decide : "://".toList.any _ = true) (by decide) others]

theorem urlUserinfoRule_skips : Skips urlUserinfoRule := by
  intro t s heads
  simp [urlUserinfoRule, urlScheme_head heads s]

theorem urlPasswordRule_skips : Skips urlPasswordRule := by
  intro t s heads
  simp [urlPasswordRule, urlScheme_head heads s]

theorem queryParamRule_skips : Skips queryParamRule := by
  intro t s heads
  cases t with
  | nil => rfl
  | cons c t =>
    -- no parameter starts in a key
    have other : c ∉ ['?', '&', ';'] := by
      have foreign : ['?', '&', ';'].any isHeadChar = false := by decide
      intro member
      exact List.any_eq_false.mp foreign c member (heads c List.mem_cons_self)
    simp only [queryParamRule, List.cons_append, if_neg other]
    rfl

theorem maskURLs_head (heads : ∀ c ∈ head, isHeadChar c = true) (s : List Char) :
    ∃ s', maskURLs (head ++ '=' :: s) = head ++ '=' :: s' := by
  unfold maskURLs
  -- each pass keeps the head, so the next one meets it again
  split
  · obtain ⟨s₁, userinfo⟩ := urlUserinfoRule_skips.replaceAll heads s
    obtain ⟨s₂, password⟩ := urlPasswordRule_skips.replaceAll heads s₁
    rw [userinfo, password]
    exact queryParamRule_skips.replaceAll heads s₂
  split
  · exact ⟨s, rfl⟩
  · exact queryParamRule_skips.replaceAll heads s

theorem maskDSNs_head (heads : ∀ c ∈ head, isHeadChar c = true) (s : List Char) :
    ∃ s', maskDSNs (head ++ '=' :: s) = head ++ '=' :: s' := by
  have oracle : ∃ s', (if Contains (head ++ '=' :: s) "jdbc:oracle:" then
      replaceAll oracleURLRule (head ++ '=' :: s) else head ++ '=' :: s) = head ++ '=' :: s' := by
    split
    · exact oracleURLRule_skips.replaceAll heads s
    · exact ⟨s, rfl⟩
  obtain ⟨s₁, same⟩ := oracle
  unfold maskDSNs
  rw [same]
  dsimp only
  split
  · exact goDSNRule_skips.replaceAll heads s₁
  · exact ⟨s₁, rfl⟩

end

/-! ## The key -/

theorem isNameChar_of_start {c : Char} (start : isNameStart c = true) : isNameChar c = true := by
  simp only [isNameStart, Bool.or_eq_true, decide_eq_true_eq] at start
  rcases start with letter | rfl
  · simp [isNameChar, Char.isAlphanum, letter]
  · decide

theorem isKeyName_chars {k : List Char} (name : isKeyName k = true) : ∀ c ∈ k, isNameChar c = true := by
  cases k with
  | nil => simp
  | cons c k =>
    simp only [isKeyName, Bool.and_eq_true, List.all_eq_true] at name
    exact List.forall_mem_cons.mpr ⟨isNameChar_of_start name.1, name.2⟩

namespace PairKey

variable {q d k : List Char} (pair : PairKey q d k)

include pair

theorem heads : ∀ c ∈ q ++ d ++ k, isHeadChar c = true := by
  have dash : isHeadChar '-' = true := by decide
  refine List.forall_mem_append.mpr ⟨List.forall_mem_append.mpr ⟨?_, ?_⟩, ?_⟩
  · intro c member
    simp [isHeadChar, pair.quoted c member]
  · intro c member
    rw [pair.dashed c member, dash]
  · intro c member
    simp [isHeadChar, isKeyName_chars pair.named c member]

theorem absent {c : Char} (foreign : isHeadChar c = false) : c ∉ q ++ d ++ k := fun member => by
  simp [pair.heads c member] at foreign

/-- Neither a quote nor a dash opens the identifier. -/
theorem opens {p : Char → Bool} (refuses : ∀ c, isNameStart c = true → p c = false) :
    (∀ s, (k ++ s).dropWhile p = k ++ s) ∧ k.takeWhile p = [] := by
  have named := pair.named
  cases k with
  | nil => cases named
  | cons c k =>
    simp only [isKeyName, Bool.and_eq_true] at named
    have refused := refuses c named.1
    simp [refused]

theorem flag : (flagName (d ++ k)).1 = k ∧ dashes (d ++ k) = d := by
  have only : ∀ c ∈ d, decide (c = '-') = true := fun c member => by simp [pair.dashed c member]
  obtain ⟨drops, takes⟩ := @opens q d k pair (fun c => decide (c = '-')) fun c start =>
    decide_eq_false (by rintro rfl; exact absurd start (by decide))
  have whole := drops []
  rw [List.append_nil] at whole
  constructor
  · rw [flagName, List.dropWhile_append_of_pos only, whole]
  · rw [dashes, List.takeWhile_append_of_pos only, takes, List.append_nil]

theorem unquote_eq (s : List Char) : unquote (q ++ d ++ k ++ s) = d ++ k ++ s := by
  have starts (c : Char) (start : isNameStart c = true) : isShellQuote c = false := by
    by_contra quote
    simp only [isShellQuote, Bool.not_eq_false, Bool.or_eq_true, decide_eq_true_eq] at quote
    rcases quote with rfl | rfl <;> exact absurd start (by decide)
  obtain ⟨drops, -⟩ := pair.opens starts
  rw [unquote, List.append_assoc q d k, List.append_assoc q (d ++ k) s,
    List.dropWhile_append_of_pos pair.quoted]
  -- a dash or the identifier stops the quotes
  cases d with
  | nil => exact drops s
  | cons c d =>
    have dash : c = '-' := pair.dashed c List.mem_cons_self
    subst dash
    rfl

end PairKey

/-! ## The mask of the value -/

/-- `Masked`, with nothing but such characters around it. -/
def Quoted (around : Char → Prop) (text : List Char) : Prop :=
  ∃ before behind, text = before ++ masked ++ behind ∧ (∀ c ∈ before, around c) ∧
    ∀ c ∈ behind, around c

theorem quoted_trailing (w : List Char) :
    Quoted (isShellQuote · = true) (masked ++ trailingQuotes w) :=
  ⟨[], trailingQuotes w, rfl, by simp, fun _ member => List.mem_rtakeWhile_imp member⟩

theorem Quoted.mono {around wider : Char → Prop} {text : List Char} (quoted : Quoted around text)
    (wide : ∀ c, around c → wider c) : Quoted wider text := by
  obtain ⟨before, behind, same, left, right⟩ := quoted
  exact ⟨before, behind, same, fun c member => wide c (left c member),
    fun c member => wide c (right c member)⟩

/-- Without braces, a quote closes as it opens. -/
theorem closingQuote_shell {c : Char} {quote : Quote} (opens : closingQuote c false = some quote) :
    isShellQuote c = true ∧ quote.char = c := by
  unfold closingQuote at opens
  split at opens
  next single =>
    cases opens
    exact ⟨single ▸ by decide, single.symm⟩
  split at opens
  next double =>
    cases opens
    exact ⟨double ▸ by decide, double.symm⟩
  · simp at opens

theorem maskWord_quoted (m : Masker) (w : List Char) :
    Quoted (isShellQuote · = true) (m.maskWord w false).1 := by
  -- an empty value, one without a quote, and one in quotes, closed or not
  cases w with
  | nil => exact ⟨[], [], rfl, by simp, by simp⟩
  | cons c rest =>
    unfold Masker.maskWord
    dsimp only
    split
    · exact quoted_trailing _
    next quote opens =>
      obtain ⟨open', close⟩ := closingQuote_shell opens
      have opening : ∀ d ∈ [c], isShellQuote d = true := by simpa using open'
      split
      · exact ⟨[c], [], by simp, opening, by simp⟩
      next before behind _ =>
        refine ⟨[c], quote.char :: trailingQuotes behind, by simp, opening, ?_⟩
        rw [close]
        exact List.forall_mem_cons.mpr ⟨open', fun d member => List.mem_rtakeWhile_imp member⟩

/-! ## The word -/

section

variable {q d k : List Char}

theorem not_isKeyName_of_equals {key : List Char} (equals : '=' ∈ key) : isKeyName key = false := by
  by_contra named
  exact absurd (isKeyName_chars (Bool.not_eq_false _ ▸ named) '=' equals) (by decide)

theorem PairKey.not_isHeaderKey (pair : PairKey q d k) (v : List Char) :
    isHeaderKey (unquote (q ++ d ++ k ++ '=' :: v)) = false := by
  rw [pair.unquote_eq, isHeaderKey, Bool.and_eq_false_iff]
  -- its last character is `=`, or what comes before it holds one
  cases v with
  | nil => left; simp
  | cons c v =>
    right
    exact not_isKeyName_of_equals (by simp)

theorem PairKey.maskKeyValue (pair : PairKey q d k) (m : Masker) (v : List Char) :
    m.maskKeyValue (q ++ d ++ k ++ '=' :: v) = none := by
  have colon : ':' ∉ d ++ k ++ ['='] := by
    have absent := pair.absent (c := ':') (by decide)
    simp only [List.mem_append, not_or] at absent ⊢
    exact ⟨⟨absent.1.2, absent.2⟩, by decide⟩
  have read := Text.cut_append_of_not_mem colon v
  rw [List.append_assoc, List.singleton_append] at read
  rw [Masker.maskKeyValue, pair.unquote_eq, read]
  -- a colon can only come in the value, so the key would hold `=`
  cases Text.cut ':' v with
  | none => rfl
  | some p =>
    have named : isKeyName (d ++ (k ++ '=' :: p.1)) = false := not_isKeyName_of_equals (by simp)
    simp [named]

theorem PairKey.maskPair (pair : PairKey q d k) (m : Masker) (v : List Char) :
    ∃ m' place, m.maskPair (q ++ d ++ k ++ '=' :: v) false = some (q ++ d ++ k ++ '=' :: place, m') ∧
      Quoted (isShellQuote · = true) place := by
  have equals := pair.absent (c := '=') (by decide)
  obtain ⟨name, dashed⟩ := pair.flag
  have key := pair.unquote_eq []
  rw [List.append_nil, List.append_nil] at key
  have isPair : isPairKey (d ++ k) = true := by
    rw [isPairKey, dashed, name, pair.named, Bool.and_true]
    exact decide_eq_true pair.few
  -- one round of the loop finds the key
  have fuel : (q ++ d ++ k ++ '=' :: v).length = (q ++ d ++ k ++ v).length + 1 := by
    simp
    omega
  rw [Masker.maskPair, fuel, Masker.maskPairAfter, Text.cut_append equals]
  simp only [key, isPair, name, pair.sensitive]
  rw [if_neg (by simp), if_pos (.inl trivial)]
  -- whether the next word is announced changes nothing in this one
  split
  · exact ⟨_, (m.maskWord v false).1, congrArg some (Prod.ext (by simp) rfl), maskWord_quoted m v⟩
  · exact ⟨_, (m.maskWord v false).1, congrArg some (Prod.ext (by simp) rfl), maskWord_quoted m v⟩

theorem PairKey.scanned (pair : PairKey q d k) (m : Masker) (v : List Char) :
    ∃ place, (m.scanned (q ++ d ++ k ++ '=' :: v)).1 = q ++ d ++ k ++ '=' :: place ∧
      Quoted (isShellQuote · = true) place := by
  obtain ⟨v₁, urls⟩ := maskURLs_head pair.heads v
  obtain ⟨v₂, dsns⟩ := maskDSNs_head pair.heads v₁
  obtain ⟨m', place, read, quoted⟩ := pair.maskPair m v₂
  have equals : '=' ∈ q ++ d ++ k ++ '=' :: v₂ := by simp
  refine ⟨place, ?_, quoted⟩
  rw [Masker.scanned, urls, dsns]
  dsimp only
  -- of the branches before the pair's, none reads a word with this key
  rw [if_neg fun flag => flag.2 equals, pair.not_isHeaderKey, if_neg (by simp), pair.maskKeyValue, read]

theorem PairKey.not_isAuthScheme (pair : PairKey q d k) (v : List Char) :
    isAuthScheme (q ++ d ++ k ++ '=' :: v) = false := by
  -- no scheme folds to a text with `=`
  have schemes : ∀ scheme ∈ authSchemes, '=' ∉ scheme.toList.map foldChar := by decide
  refine List.any_eq_false.mpr fun scheme member same => ?_
  rw [pair.unquote_eq, equalFold, decide_eq_true_eq] at same
  refine schemes scheme member (same ▸ List.mem_map.mpr ⟨'=', by simp, by decide⟩)

/-- A character other than `=` comes before the first colon of a user and a password. -/
theorem isUserPassword_head {t : List Char} (heads : ∀ c ∈ t, isHeadChar c = true) (v : List Char) :
    isUserPassword (t ++ '=' :: v) = false := by
  have dropped : ∃ t', (if (t ++ '=' :: v).head?.any isShellQuote then (t ++ '=' :: v).tail
      else t ++ '=' :: v) = t' ++ '=' :: v ∧ ∀ c ∈ t', isHeadChar c = true := by
    split
    next quote =>
      cases t with
      | nil => exact absurd quote (by simp [isShellQuote])
      | cons c t => exact ⟨t, rfl, (List.forall_mem_cons.mp heads).2⟩
    · exact ⟨t, rfl, heads⟩
  obtain ⟨t', same, others⟩ := dropped
  unfold isUserPassword
  rw [same]
  dsimp only
  cases t' with
  | nil => rfl
  | cons c t' =>
    obtain ⟨rest, stopped, heads⟩ := @run_head t' (fun c => isNameChar c || c = '@') (by decide)
      (List.forall_mem_cons.mp others).2 v
    simp only [List.cons_append, stopped]
    -- the user ends in the head or at `=`, never before a colon
    have noColon : ∀ d s, rest ++ '=' :: v ≠ ':' :: d :: s := by
      intro d s same
      cases rest with
      | nil => cases (List.cons.inj same).1
      | cons e rest =>
        have head := heads e List.mem_cons_self
        rw [(List.cons.inj same).1] at head
        exact absurd head (by decide)
    rw [Bool.and_eq_false_iff]
    right
    split
    next d s same => exact absurd same (noColon d s)
    · rfl

/-- What an earlier word announced does not matter. -/
theorem PairKey.announced (pair : PairKey q d k) (m : Masker) (expected : Expectation)
    (v : List Char) : m.announced expected (q ++ d ++ k ++ '=' :: v) = none ∨
      ∃ read, m.announced expected (q ++ d ++ k ++ '=' :: v) = some read ∧
        Quoted (isShellQuote · = true) read.1 := by
  have word := maskWord_quoted m (q ++ d ++ k ++ '=' :: v)
  unfold Masker.announced
  split
  · exact .inl rfl
  -- one case for each expectation
  cases expected with
  | anything => exact .inl rfl
  | value => exact .inr ⟨_, rfl, word⟩
  | headerValue =>
    dsimp only
    rw [pair.not_isAuthScheme]
    exact .inr ⟨_, rfl, word⟩
  | userinfo =>
    have noPassword : hasUserPassword (q ++ d ++ k ++ '=' :: v) = false := by
      rw [hasUserPassword, isUserPassword_head pair.heads, Bool.false_and]
    dsimp only
    rw [noPassword]
    exact .inl rfl
  | equals =>
    have noEquals : ∀ s, q ++ d ++ k ++ '=' :: v ≠ '=' :: s := by
      intro s same
      have named := pair.named
      have absent := pair.absent (c := '=') (by decide)
      cases whole : q ++ d ++ k with
      | nil =>
        rw [(List.append_eq_nil_iff.mp whole).2] at named
        cases named
      | cons c rest =>
        rw [whole] at same absent
        exact absent ((List.cons.inj same).1 ▸ List.mem_cons_self)
    dsimp only
    split
    next same => exact absurd same (noEquals [])
    next value _ same => exact absurd same (noEquals value)
    · exact .inl rfl

/-- What may stand around a mask: a quote, or the brace that closes a connection string's value. -/
def Around (m : Masker) (c : Char) : Prop :=
  isShellQuote c = true ∨ m.quote = some .brace ∧ c = '}'

/-- What is written for a pair: a mask with quotes around it, after the key or in its place. -/
structure PairText (m : Masker) (q d k head place : List Char) : Prop where
  head : head = [] ∨ head = q ++ d ++ k ++ ['=']
  place : Quoted (Around m) place

theorem continueQuoted_quoted {m : Masker} {quote : Quote} (opened : m.quote = some quote)
    (w : List Char) : Quoted (Around m) (m.continueQuoted quote w).1 := by
  unfold Masker.continueQuoted
  split
  · exact ⟨[], [], rfl, by simp, by simp⟩
  next before behind _ =>
    refine ⟨[], quote.char :: trailingQuotes behind, rfl, by simp, List.forall_mem_cons.mpr ⟨?_, ?_⟩⟩
    · cases quote with
      | single => exact .inl (by decide)
      | double => exact .inl (by decide)
      | brace => exact .inr ⟨opened, rfl⟩
    · exact fun c member => .inl (List.mem_rtakeWhile_imp member)

/-- Whatever the words before announced or left open, only a mask is written for the value. -/
theorem PairKey.word (pair : PairKey q d k) (m : Masker) (v : List Char) :
    ∃ head place, PairText m q d k head place ∧
      (m.word (q ++ d ++ k ++ '=' :: v)).1 = head ++ place := by
  have shell (c : Char) (quote : isShellQuote c = true) : Around m c := .inl quote
  unfold Masker.word
  split
  next quote opened =>
    exact ⟨[], _, ⟨.inl rfl, continueQuoted_quoted opened _⟩, rfl⟩
  split
  · exact ⟨[], _, ⟨.inl rfl, (quoted_trailing _).mono shell⟩, rfl⟩
  · dsimp only
    -- what was announced reads the word, or the word is read for itself
    rcases pair.announced { m with expect := .anything } m.expect v with none | ⟨read, some, quoted⟩
    · obtain ⟨place, same, quoted⟩ := pair.scanned { m with expect := .anything } v
      rw [none, Option.getD_none, same]
      exact ⟨q ++ d ++ k ++ ['='], place, ⟨.inr rfl, quoted.mono shell⟩, by simp⟩
    · rw [some, Option.getD_some]
      exact ⟨[], read.1, ⟨.inl rfl, quoted.mono shell⟩, rfl⟩

end

/-! ## The text -/

/-- In shell text, words are read one by one. -/
theorem words_append (m : Masker) (first last : List (List Char)) :
    (m.words false false (first ++ last)).1 =
      (m.words false false first).1 ++ ((m.words false false first).2.words false false last).1 := by
  -- in shell text no value goes on, so only the masker is carried over
  induction first generalizing m with
  | nil => rfl
  | cons part first ih =>
    rw [List.cons_append, Masker.words, Masker.words]
    split
    · simp [ih]
    · simp [ih]

/-- The masker that reads a word of shell text, after the text before it. -/
def maskerAfter (before : List Char) : Masker :=
  { (({} : Masker).words false false (runs isBreak before)).2 with maskedValue := false }

/-- What is written for the text before a word. -/
def writtenFor (before : List Char) : List Char :=
  (({} : Masker).words false false (runs isBreak before)).1

section

variable {q d k v before after : List Char}

theorem not_isBreak_of_isHeadChar {c : Char} (head : isHeadChar c = true) : isBreak c = false := by
  by_contra found
  simp only [isBreak, isWhite, Bool.not_eq_false, Bool.or_eq_true, decide_eq_true_eq,
    List.mem_cons, List.not_mem_nil, or_false] at found
  rcases found with (rfl | rfl | rfl | rfl | rfl) | rfl <;> exact absurd head (by decide)

theorem ascii_of_isHeadChar {c : Char} (head : isHeadChar c = true) : c.toNat < 0x80 := by
  simp only [isHeadChar, isShellQuote, Bool.or_eq_true, decide_eq_true_eq] at head
  rcases head with (rfl | rfl) | name
  · decide
  · decide
  · exact ascii_of_isNameChar name

theorem PairKey.isASCII (pair : PairKey q d k) (ascii : isASCII v = true) :
    isASCII (q ++ d ++ k ++ '=' :: v) = true := by
  refine List.all_eq_true.mpr (List.forall_mem_append.mpr ⟨fun c member => ?_, ?_⟩)
  · exact decide_eq_true (ascii_of_isHeadChar (pair.heads c member))
  · exact List.forall_mem_cons.mpr ⟨by decide, List.all_eq_true.mp ascii⟩

theorem PairKey.firstRun (pair : PairKey q d k) (solid : ∀ c ∈ v, isBreak c = false)
    (starts : ∀ c ∈ after.head?, isBreak c = true) :
    FirstRun isBreak false (q ++ d ++ k ++ '=' :: v) after := by
  refine ⟨by simp, List.forall_mem_append.mpr ⟨fun c member => ?_, ?_⟩, fun c next => ?_⟩
  · exact not_isBreak_of_isHeadChar (pair.heads c member)
  · exact List.forall_mem_cons.mpr ⟨by decide, solid⟩
  · simp [starts c next]

/-- What the loop of `text` writes around a pair. -/
theorem PairKey.written (pair : PairKey q d k) (ascii : Secrets.isASCII v = true)
    (solid : ∀ c ∈ v, isBreak c = false) (ends : ∀ c ∈ before.getLast?, isBreak c = true)
    (starts : ∀ c ∈ after.head?, isBreak c = true) :
    ∃ right, writtenFor (before ++ (q ++ d ++ k ++ '=' :: v) ++ after) =
      writtenFor before ++ ((maskerAfter before).word (q ++ d ++ k ++ '=' :: v)).1 ++ right := by
  have first := pair.firstRun solid starts
  have boundary : ∀ c ∈ before.getLast?, ∀ e ∈ (q ++ d ++ k ++ '=' :: v ++ after).head?,
      isBreak c ≠ isBreak e := by
    intro c last e next
    rw [List.head?_append_of_ne_nil _ first.nonempty] at next
    rw [ends c last, first.uniform e (List.mem_of_head? next)]
    decide
  have parts : (maskerAfter before).parts (q ++ d ++ k ++ '=' :: v) =
      (maskerAfter before).word (q ++ d ++ k ++ '=' :: v) := by
    rw [Masker.parts, if_pos (.inl (pair.isASCII ascii))]
  rw [writtenFor, List.append_assoc before, Text.runs_append boundary, words_append, Masker.words_word first]
  rw [maskerAfter] at parts
  dsimp only
  rw [parts, if_neg (by simp)]
  exact ⟨_, (List.append_assoc _ _ _).symm⟩

/-- Both passes over the text that was written. -/
theorem redacted_passes {cover : Char → Prop} (star : cover '*') (double : cover '"') (s : List Char) :
    Redacted cover s (maskXMLElements (maskJSONMembers s)) :=
  (redacted_maskJSONMembers star double s).trans (redacted_maskXMLElements star _)

theorem maskValue_eq {s : List Char} (short : byteLen s ≤ maxValueLen) (present : s ≠ []) :
    maskValue s = maskXMLElements (maskJSONMembers (writtenFor s)) := by
  rw [maskValue, if_neg (by omega), Masker.text, if_neg present]
  rfl

/-- A character of the passes' masks. -/
def Hides (c : Char) : Prop := c = '*' ∨ c = '"'

/-- What is written for a pair is a mask with quotes around it, after the key or in its place; and
in the value of a text only mask characters and such quotes stand there. -/
theorem pairWord_masked (pair : PairKey q d k) (ascii : isASCII v = true) :
    (∀ m : Masker, ∃ head place, PairText m q d k head place ∧
      (m.word (q ++ d ++ k ++ '=' :: v)).1 = head ++ place) ∧
    ∀ before after, (∀ c ∈ v, isBreak c = false) → (∀ c ∈ before.getLast?, isBreak c = true) →
      (∀ c ∈ after.head?, isBreak c = true) →
      byteLen (before ++ (q ++ d ++ k ++ '=' :: v) ++ after) ≤ maxValueLen →
      ∃ head place right, PairText (maskerAfter before) q d k head place ∧
        ((maskerAfter before).word (q ++ d ++ k ++ '=' :: v)).1 = head ++ place ∧
        writtenFor (before ++ (q ++ d ++ k ++ '=' :: v) ++ after) =
          writtenFor before ++ (head ++ place) ++ right ∧
        ∃ left' head' place' right',
          maskValue (before ++ (q ++ d ++ k ++ '=' :: v) ++ after) =
            left' ++ (head' ++ place') ++ right' ∧
          Redacted Hides (writtenFor before) left' ∧ Redacted Hides head head' ∧
          Redacted Hides place place' ∧ Redacted Hides right right' ∧
          ∀ c ∈ place', c = '*' ∨ Around (maskerAfter before) c := by
  refine ⟨fun m => pair.word m v, fun before after solid ends starts short => ?_⟩
  obtain ⟨head, place, text, word⟩ := pair.word (maskerAfter before) v
  obtain ⟨right, written⟩ := pair.written ascii solid ends starts
  rw [word] at written
  refine ⟨head, place, right, text, word, written, ?_⟩
  -- the passes redact the three parts one by one
  have passes : Redacted Hides _ _ := redacted_passes (.inl rfl) (.inr rfl)
    (writtenFor (before ++ (q ++ d ++ k ++ '=' :: v) ++ after))
  rw [← maskValue_eq short (by simp), written] at passes
  obtain ⟨front, right', whole, fronts, rights⟩ := passes.of_append
  obtain ⟨left', middle, rfl, lefts, middles⟩ := fronts.of_append
  obtain ⟨head', place', rfl, headed, placed⟩ := middles.of_append
  refine ⟨left', head', place', right', whole, lefts, headed, placed, rights, ?_⟩
  have wide : ∀ c, Hides c → c = '*' ∨ Around (maskerAfter before) c := by
    rintro c (star | double)
    · exact .inl star
    · exact .inr (.inl (double ▸ by decide))
  refine (placed.mono wide).covered ?_
  obtain ⟨first, last, rfl, firsts, lasts⟩ := text.place
  refine List.forall_mem_append.mpr ⟨List.forall_mem_append.mpr ⟨fun c member => ?_, fun c member => ?_⟩,
    fun c member => ?_⟩
  · exact .inr (firsts c member)
  · exact .inl (eq_star_of_mem_masked member)
  · exact .inr (lasts c member)

end

theorem pairKey_password : PairKey [] [] "password".toList :=
  ⟨by simp, by simp, by decide, by decide +kernel, by decide +kernel⟩

theorem pairWord_masked_password : ∃ head place right,
    PairText (maskerAfter ['a', ' ']) [] [] "password".toList head place ∧
      writtenFor (['a', ' '] ++ ([] ++ [] ++ "password".toList ++ '=' :: ['x']) ++ [' ', 'b']) =
        writtenFor ['a', ' '] ++ (head ++ place) ++ right := by
  obtain ⟨head, place, right, text, -, written, -⟩ :=
    (pairWord_masked pairKey_password (v := ['x']) (by decide)).2 ['a', ' '] [' ', 'b']
      (by simp [isBreak, isWhite]) (by simp [isBreak, isWhite]) (by simp [isBreak, isWhite])
      (by decide +kernel)
  exact ⟨head, place, right, text, written⟩

/-- The brace that closes a value an earlier word left open stays, and is no quote of a shell. -/
theorem brace_stays : ¬∀ before q d k v : List Char, PairKey q d k → isASCII v = true →
    (∀ c ∈ v, isBreak c = false) → (∀ c ∈ before.getLast?, isBreak c = true) →
    ∃ head place, (head = [] ∨ head = q ++ d ++ k ++ ['=']) ∧
      Quoted (isShellQuote · = true) place ∧
      ((maskerAfter before).word (q ++ d ++ k ++ '=' :: v)).1 = head ++ place := by
  intro all
  have written : ((maskerAfter "Server=db;Password=\x7ba ".toList).word
      ([] ++ [] ++ "password".toList ++ '=' :: ['x', '}', 'y'])).1 = masked ++ ['}'] := by
    decide +kernel
  obtain ⟨head, place, heads, ⟨first, last, rfl, firsts, lasts⟩, same⟩ :=
    all "Server=db;Password=\x7ba ".toList [] [] "password".toList ['x', '}', 'y'] pairKey_password
      (by decide) (by simp [isBreak, isWhite]) (by simp [isBreak, isWhite])
  rw [written] at same
  -- the brace stands in none of the parts
  have brace : '}' ∈ head ++ (first ++ masked ++ last) := by rw [← same]; simp
  have refused : isShellQuote '}' = false := by decide
  simp only [List.mem_append] at brace
  rcases brace with inHead | (inFirst | inMask) | inLast
  · rcases heads with rfl | rfl
    · cases inHead
    · exact absurd inHead (by decide +kernel)
  · simp [firsts '}' inFirst] at refused
  · exact absurd (eq_star_of_mem_masked inMask) (by decide)
  · simp [lasts '}' inLast] at refused

end Dockgraph.Secrets
