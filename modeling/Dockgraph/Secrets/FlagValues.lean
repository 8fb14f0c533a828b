import Dockgraph.Secrets.Masker

/-!
# The value after a sensitive flag is hidden

A sensitive flag leaves the masker ready for a value, and separators keep it ready. What it writes
from the value on is masks and punctuation, without a letter, so no member or element is left in it.
-/
namespace Dockgraph.Secrets

open Rewrite Text

/-- The characters that may stand between values. -/
def isSeparator (c : Char) : Bool := isBreak c || isUnicodeSpace c

theorem isSeparator_of_break {s : List Char} (breaks : ∀ c ∈ s, isBreak c = true) :
    ∀ c ∈ s, isSeparator c = true := fun c member => by
  simp [isSeparator, breaks c member]

theorem isSeparator_of_unicodeSpace {s : List Char} (spaces : ∀ c ∈ s, isUnicodeSpace c = true) :
    ∀ c ∈ s, isSeparator c = true := fun c member => by
  simp [isSeparator, spaces c member]

/-- Masks and punctuation. -/
inductive Masks : List Char → Prop
  | nil : Masks []
  | mask {s : List Char} : Masks s → Masks (masked ++ s)
  | keep {c : Char} {s : List Char} : c ∈ valuePunctuation → Masks s → Masks (c :: s)

/-- Runs of masks and punctuation, dashes before them, between separators. -/
inductive Hidden : List Char → Prop
  | nil : Hidden []
  | separator {c : Char} {s : List Char} : isSeparator c = true → Hidden s → Hidden (c :: s)
  | run {dashes body s : List Char} : (∀ c ∈ dashes, c = '-') → Masks body →
      (∀ c ∈ s.head?, isSeparator c = true) → Hidden s → Hidden (dashes ++ body ++ s)

namespace Masks

variable {s t : List Char}

theorem append (first : Masks s) (last : Masks t) : Masks (s ++ t) := by
  induction first with
  | nil => exact last
  | mask _ ih =>
    rw [List.append_assoc]
    exact ih.mask
  | keep kept _ ih => exact ih.keep kept

theorem masked : Masks masked := by
  have := nil.mask
  rwa [List.append_nil] at this

theorem of_punctuation (kept : ∀ c ∈ s, c ∈ valuePunctuation) : Masks s := by
  induction s with
  | nil => exact nil
  | cons c s ih =>
    rw [List.forall_mem_cons] at kept
    exact (ih kept.2).keep kept.1

theorem hidden (masks : Masks s) : Hidden s := by
  have := @Hidden.run [] s [] (by simp) masks (by simp) .nil
  rwa [List.nil_append, List.append_nil] at this

end Masks

theorem Hidden.append {s t : List Char} (first : Hidden s)
    (starts : ∀ c ∈ t.head?, isSeparator c = true) (last : Hidden t) : Hidden (s ++ t) := by
  -- by the runs of the first text: only its last one meets the second
  induction first with
  | nil => exact last
  | separator space _ ih => exact ih.separator space
  | @run dashes body s only masks ends _ ih =>
    rw [List.append_assoc]
    refine .run only masks ?_ ih
    cases s with
    | nil => exact starts
    | cons c s => exact ends

theorem Hidden.separators {s t : List Char} (spaces : ∀ c ∈ s, isSeparator c = true)
    (hidden : Hidden t) : Hidden (s ++ t) := by
  induction s with
  | nil => exact hidden
  | cons c s ih =>
    rw [List.forall_mem_cons] at spaces
    exact (ih spaces.2).separator spaces.1

/-! ## What masking a word writes -/

theorem trailingQuotes_masks (w : List Char) : Masks (trailingQuotes w) := by
  refine .of_punctuation fun c member => ?_
  have quote : isShellQuote c = true := List.mem_rtakeWhile_imp member
  simp only [isShellQuote, Bool.or_eq_true, decide_eq_true_eq] at quote
  rcases quote with rfl | rfl <;> decide

theorem Quote.char_mem (quote : Quote) : quote.char ∈ valuePunctuation := by
  cases quote <;> decide

theorem closingQuote_some {c : Char} {braces : Bool} {quote : Quote}
    (opens : closingQuote c braces = some quote) : c ∈ valuePunctuation := by
  unfold closingQuote at opens
  -- one case for each quote, and no other character opens a value
  split at opens
  next single => exact single ▸ by decide
  split at opens
  next double => exact double ▸ by decide
  split at opens
  next brace => exact brace.1 ▸ by decide
  · cases opens

theorem maskWord_masks (m : Masker) (w : List Char) (braces : Bool) :
    Masks (m.maskWord w braces).1 := by
  cases w with
  | nil => exact .masked
  | cons c rest =>
    unfold Masker.maskWord
    dsimp only
    split
    · exact Masks.masked.append (trailingQuotes_masks _)
    next quote opens =>
      have opening := closingQuote_some opens
      split
      · exact Masks.masked.keep opening
      next before behind _ =>
        exact .keep opening (Masks.masked.append (.keep quote.char_mem (trailingQuotes_masks behind)))

theorem maskWord_maskedValue (m : Masker) (w : List Char) (braces : Bool) :
    (m.maskWord w braces).2.maskedValue = true := by
  cases w with
  | nil => rfl
  | cons c rest =>
    unfold Masker.maskWord
    dsimp only
    split
    · rfl
    · split <;> rfl

theorem maskRuns_masks (inRun : Bool) (w : List Char) : Masks (maskRuns inRun w) := by
  -- whatever was read before: a run is masked where it starts
  induction w generalizing inRun with
  | nil => exact .nil
  | cons c w ih =>
    rw [maskRuns]
    split
    next kept => exact (ih false).keep kept
    split
    · exact ih true
    · exact (ih true).mask

theorem maskInValue_hidden (w : List Char) : Hidden (maskInValue w) := by
  have only : ∀ c ∈ dashes w, c = '-' := fun c member => by
    simpa using List.mem_takeWhile_imp member
  have := Hidden.run only (maskRuns_masks false (flagName w).1) (by simp) .nil
  rwa [List.append_nil] at this

/-! ## Inside a value -/

/-- What a loop writes for a text: nothing of it is left, and spaces stay at the start. -/
structure Covers (p : Char → Bool) (s out : List Char) : Prop where
  hidden : Hidden out
  starts : (∀ c ∈ s.head?, p c = true) → ∀ c ∈ out.head?, isSeparator c = true

section

variable {p : Char → Bool} {run rest out new : List Char}

theorem covers_nil (p : Char → Bool) : Covers p [] [] := ⟨.nil, by simp⟩

theorem Covers.space (covers : Covers p rest out) (first : FirstRun p true run rest)
    (spaces : ∀ c ∈ run, isSeparator c = true) : Covers p (run ++ rest) (run ++ out) := by
  refine ⟨.separators spaces covers.hidden, fun _ c next => ?_⟩
  rw [List.head?_append_of_ne_nil run first.nonempty] at next
  exact spaces c (List.mem_of_head? next)

theorem Covers.word (covers : Covers p rest out) (first : FirstRun p false run rest)
    (hidden : Hidden new) : Covers p (run ++ rest) (new ++ out) := by
  have space : ∀ c ∈ rest.head?, p c = true := fun c next => by simpa using first.ends c next
  refine ⟨hidden.append (covers.starts space) covers.hidden, fun starts => ?_⟩
  -- a word does not start with a space
  have outside := first.uniform _ (List.head_mem first.nonempty)
  have inside := starts (run.head first.nonempty) (by
    rw [List.head?_append_of_ne_nil run first.nonempty, List.head?_eq_some_head first.nonempty]
    rfl)
  simp [outside] at inside

end

namespace Masker

theorem spaced_inValue (m : Masker) (w : List Char) :
    Covers isUnicodeSpace w (m.spaced true (runs isUnicodeSpace w)).1 ∧
      (m.spaced true (runs isUnicodeSpace w)).2.2 = true := by
  -- once inside a value, every word is hidden whatever the masker reads in it
  induction w using runs_induction isUnicodeSpace generalizing m with
  | nil => exact ⟨covers_nil _, rfl⟩
  | append inside run rest first ih =>
    cases inside with
    | true =>
      rw [spaced_space first]
      have spaces := isSeparator_of_unicodeSpace first.uniform
      exact ⟨(ih m).1.space first spaces, (ih m).2⟩
    | false =>
      rw [spaced_part first]
      exact ⟨(ih _).1.word first (maskInValue_hidden _), (ih _).2⟩

theorem words_inValue (m : Masker) (s : List Char) :
    Covers isBreak s (m.words true true (runs isBreak s)).1 := by
  induction s using runs_induction isBreak generalizing m with
  | nil => exact covers_nil _
  | append inside run rest first ih =>
    cases inside with
    | true =>
      rw [words_space first]
      have spaces := isSeparator_of_break first.uniform
      exact (ih m).space first spaces
    | false =>
      rw [words_word first]
      exact (ih _).word first (maskInValue_hidden _)

end Masker

/-! ## The value -/

/-- The masker expects a value, and nothing is left open. -/
structure Ready (m : Masker) : Prop where
  quote : m.quote = none
  connValue : m.connValue = false
  expect : m.expect = .value

/-- No dash comes right after separators a text starts with. -/
def NoDash (s : List Char) : Prop :=
  ∀ spaces rest, s = spaces ++ rest → (∀ c ∈ spaces, isSeparator c = true) → rest.head? ≠ some '-'

section

variable {m : Masker} {run rest s w : List Char}

theorem NoDash.behind (noDash : NoDash (run ++ rest)) (spaces : ∀ c ∈ run, isSeparator c = true) :
    NoDash rest := by
  intro more last same others
  refine noDash (run ++ more) last (by rw [same, List.append_assoc]) ?_
  exact List.forall_mem_append.mpr ⟨spaces, others⟩

theorem NoDash.first (noDash : NoDash (run ++ rest)) : NoDash run := by
  intro spaces last same others dash
  refine noDash spaces (last ++ rest) (by rw [same, List.append_assoc]) others ?_
  rw [List.head?_append, dash, Option.some_or]

theorem Ready.reset (ready : Ready m) : Ready { m with maskedValue := false } :=
  ⟨ready.quote, ready.connValue, ready.expect⟩

theorem Ready.word (ready : Ready m) (noDash : NoDash w) :
    Hidden (m.word w).1 ∧ (m.word w).2.maskedValue = true := by
  have first : w.head? ≠ some '-' := noDash [] w rfl (by simp)
  -- no branch comes before the announced value
  have read : m.word w = { m with expect := .anything }.maskWord w false := by
    rw [Masker.word, ready.quote]
    simp [ready.connValue, ready.expect, Masker.announced, first]
  rw [read]
  exact ⟨(maskWord_masks _ w false).hidden, maskWord_maskedValue _ w false⟩

theorem Ready.spaced (ready : Ready m) (noDash : NoDash w) :
    Covers isUnicodeSpace w (m.spaced false (runs isUnicodeSpace w)).1 ∧
      ((m.spaced false (runs isUnicodeSpace w)).2.2 = true ∨
        Ready (m.spaced false (runs isUnicodeSpace w)).2.1 ∧ ∀ c ∈ w, isUnicodeSpace c = true) := by
  -- by runs: spaces keep the masker ready, and the first other run is the value
  induction w using runs_induction isUnicodeSpace with
  | nil => exact ⟨covers_nil _, .inr ⟨ready, by simp⟩⟩
  | append inside run rest first ih =>
    cases inside with
    | true =>
      have spaces := isSeparator_of_unicodeSpace first.uniform
      obtain ⟨covers, reached⟩ := ih (noDash.behind spaces)
      rw [Masker.spaced_space first]
      refine ⟨covers.space first spaces, reached.imp_right fun still => ⟨still.1, ?_⟩⟩
      exact List.forall_mem_append.mpr ⟨first.uniform, still.2⟩
    | false =>
      obtain ⟨hidden, value⟩ := ready.reset.word noDash.first
      rw [Masker.spaced_part first]
      dsimp only
      -- the rest of the word goes on in the value
      rw [value, Bool.or_true]
      have after := Masker.spaced_inValue ({ m with maskedValue := false }.word run).2 rest
      exact ⟨after.1.word first hidden, .inl after.2⟩

/-- A word without separators in it but Unicode spaces. -/
theorem Ready.parts (ready : Ready m) (noDash : NoDash w) :
    Hidden (m.parts w).1 ∧ ((m.parts w).2.maskedValue = true ∨
      Ready (m.parts w).2 ∧ ∀ c ∈ w, isUnicodeSpace c = true) := by
  unfold Masker.parts
  split
  · obtain ⟨hidden, value⟩ := ready.word noDash
    exact ⟨hidden, .inl value⟩
  · obtain ⟨covers, reached⟩ := ready.spaced noDash
    refine ⟨covers.hidden, reached.imp_right fun still => ⟨?_, still.2⟩⟩
    exact ⟨still.1.quote, still.1.connValue, still.1.expect⟩

theorem Ready.words (ready : Ready m) (noDash : NoDash s) :
    Covers isBreak s (m.words true false (runs isBreak s)).1 := by
  -- the same for the words of an argument
  induction s using runs_induction isBreak generalizing m with
  | nil => exact covers_nil _
  | append inside run rest first ih =>
    cases inside with
    | true =>
      have spaces := isSeparator_of_break first.uniform
      rw [Masker.words_space first]
      exact (ih ready (noDash.behind spaces)).space first spaces
    | false =>
      obtain ⟨hidden, reached⟩ := ready.reset.parts noDash.first
      rw [Masker.words_word first]
      dsimp only
      -- the word held the value, or only Unicode spaces
      rcases reached with value | ⟨next, spaces⟩
      · rw [value]
        exact (Masker.words_inValue _ rest).word first hidden
      · cases value : ({ m with maskedValue := false }.parts run).2.maskedValue with
        | true => exact (Masker.words_inValue _ rest).word first hidden
        | false =>
          exact (ih next (noDash.behind (isSeparator_of_unicodeSpace spaces))).word first hidden

end

/-! ## Members and elements -/

/-- No letter, and nothing that opens an element. -/
def isPlain (c : Char) : Bool := isLetterless c && c ≠ '<'

theorem isPlain_of_large {c : Char} (large : 0x180 ≤ c.toNat) : isPlain c = true := by
  have noLetter : c.isAlpha = false := by
    have code : c.val.toNat = c.toNat := rfl
    simp only [isAlpha_eq, isUpper_eq, isLower_eq, Bool.or_eq_false_iff,
      Bool.and_eq_false_iff, decide_eq_false_iff_not, UInt32.le_iff_toNat_le, code]
    simp
    omega
  have others : c ≠ 'ı' ∧ c ≠ 'ſ' ∧ c ≠ '<' := by
    refine ⟨?_, ?_, ?_⟩ <;> rintro rfl <;> simp at large
  simp [isPlain, isLetterless, noLetter, others]

theorem isPlain_of_separator {c : Char} (space : isSeparator c = true) : isPlain c = true := by
  -- the few separators among the letters' codes are checked one by one
  by_cases large : 0x180 ≤ c.toNat
  · exact isPlain_of_large large
  simp only [isSeparator, isBreak, isWhite, isUnicodeSpace, Bool.or_eq_true, decide_eq_true_eq,
    List.mem_cons, List.not_mem_nil, or_false] at space
  rcases space with ((rfl | rfl | rfl | rfl | rfl) | rfl) | unicode
  iterate 6 decide
  · have small : c.toNat = 0x20 ∨ c.toNat = 0xA0 := by omega
    have same : c = Char.ofNat c.toNat := (Char.ofNat_toNat c).symm
    rcases small with code | code <;> rw [same, code] <;> decide

theorem Masks.plain {s : List Char} (masks : Masks s) : ∀ c ∈ s, isPlain c = true := by
  have star : isPlain '*' = true := by decide
  have punctuation : ∀ c ∈ valuePunctuation, isPlain c = true :=
    List.all_eq_true.mp (by decide)
  induction masks with
  | nil => simp
  | mask _ ih =>
    refine List.forall_mem_append.mpr ⟨fun c member => ?_, ih⟩
    rw [eq_star_of_mem_masked member, star]
  | keep kept _ ih => exact List.forall_mem_cons.mpr ⟨punctuation _ kept, ih⟩

theorem Hidden.plain {s : List Char} (hidden : Hidden s) : ∀ c ∈ s, isPlain c = true := by
  have dash : isPlain '-' = true := by decide
  induction hidden with
  | nil => simp
  | separator space _ ih => exact List.forall_mem_cons.mpr ⟨isPlain_of_separator space, ih⟩
  | run only masks _ _ ih =>
    refine List.forall_mem_append.mpr ⟨List.forall_mem_append.mpr ⟨fun c member => ?_, masks.plain⟩, ih⟩
    rw [only c member, dash]

section

variable {s : List Char}

theorem isSensitiveKey_of_plain (plain : ∀ c ∈ s, isPlain c = true) {key : List Char}
    (part : key ⊆ s) : isSensitiveKey key = false := by
  refine isSensitiveKey_of_letterless fun c member => ?_
  have := plain c (part member)
  simp only [isPlain, Bool.and_eq_true] at this
  exact this.1

theorem maskMembers_of_plain {quote : String} {string : List Char → Option (List Char × List Char)}
    (closes : Closes quote string) (plain : ∀ c ∈ s, isPlain c = true) :
    maskMembers (member quote string) quote s = s := by
  -- a member with such a key is copied, so the scan changes nothing
  refine scan_eq_self (p := fun c => isPlain c = true) ?_ _ s plain
  exact fun t plain new rest => memberRule_copies closes fun _ => isSensitiveKey_of_plain plain

theorem numberRule_of_plain (plain : ∀ c ∈ s, isPlain c = true) {new rest : List Char}
    (applied : numberRule s = some (new, rest)) : new ++ rest = s := by
  obtain ⟨key, sep, number, rfl, written⟩ := numberRule_some applied
  have part : key ⊆ '"' :: key ++ '"' :: sep ++ number ++ rest := by
    intro c member
    simp [member]
  rw [isSensitiveKey_of_plain plain part] at written
  rw [show new = _ from written]

theorem maskJSONMembers_of_plain (plain : ∀ c ∈ s, isPlain c = true) : maskJSONMembers s = s := by
  unfold maskJSONMembers
  split
  · rfl
  · have escaped := maskMembers_of_plain escapedJSONString_closes plain
    have json := maskMembers_of_plain jsonString_closes plain
    simp only [escapedJSONMember, escaped, jsonMember, json]
    exact scan_eq_self (p := fun c => isPlain c = true)
      (fun t plain new rest => numberRule_of_plain plain) _ s plain

theorem maskXMLElements_of_plain (plain : ∀ c ∈ s, isPlain c = true) : maskXMLElements s = s := by
  unfold maskXMLElements
  rw [if_pos]
  -- an element would need a `<`
  intro closing
  have opens : '<' ∈ s := closing.subset (by decide)
  have refused : isPlain '<' = false := by decide
  simp [plain '<' opens] at refused

end

/-! ## Arguments -/

/-- Between arguments, no value is left open. -/
structure Closed (m : Masker) : Prop where
  quote : m.quote = none
  connValue : m.connValue = false

/-- After a sensitive flag and separators: the next value is hidden. -/
structure Announced (m : Masker) : Prop where
  ready : m.unread = false → Ready m
  argument : m.shellCommand = false

section

variable {m : Masker} {a name : List Char}

theorem text_closed (closed : Closed m) (s : List Char) (arg : Bool) : Closed (m.text s arg).2 := by
  unfold Masker.text
  split
  · exact closed
  · exact ⟨rfl, rfl⟩

theorem arg_closed (closed : Closed m) (a : List Char) : Closed (m.arg a).2 := by
  by_cases read : m.unread = true ∨ maxValueLen < byteLen a
  · rw [Masker.arg_unread read]
    exact ⟨closed.quote, closed.connValue⟩
  · obtain ⟨program, same⟩ := Masker.arg_read read
    have after := @text_closed (m.reading a) ⟨closed.quote, closed.connValue⟩ a !m.shellCommand
    rw [same]
    exact ⟨after.quote, after.connValue⟩

theorem args_closed (closed : Closed m) (as : List (List Char)) : Closed (m.args as).2 := by
  induction as generalizing m with
  | nil => exact closed
  | cons a as ih => exact ih (arg_closed closed a)

end

/-! ## The flag -/

/-- The name of a flag that announces its value. -/
structure FlagName (name : List Char) : Prop where
  starts : name.head?.any Char.isAlpha = true
  long : 2 ≤ name.length
  chars : ∀ c ∈ name, isNameChar c = true
  sensitive : isSensitiveKey name = true

def flagText (name : List Char) : List Char := '-' :: '-' :: name

section

variable {m : Masker} {name w : List Char}

theorem maskURLs_of_absent (colon : ':' ∉ w) (question : '?' ∉ w) (ampersand : '&' ∉ w) :
    maskURLs w = w := by
  have scheme : ¬Contains w "://" := fun contains => colon (contains.subset (by decide))
  rw [maskURLs, if_neg scheme, if_pos ⟨question, ampersand⟩]

theorem maskDSNs_of_absent (colon : ':' ∉ w) (at' : '@' ∉ w) : maskDSNs w = w := by
  have oracle : ¬Contains w "jdbc:oracle:" := fun contains => colon (contains.subset (by decide))
  -- a DSN's password needs an `@`
  have go : (w.tails.any fun t => ((after "@" t).bind goProtocol).isSome) = false := by
    refine List.any_eq_false.mpr fun t tail some => ?_
    obtain ⟨p, read⟩ := Option.isSome_iff_exists.mp some
    obtain ⟨rest, opened, -⟩ := Option.bind_eq_some_iff.mp read
    refine at' (((List.mem_tails t w).mp tail).subset ?_)
    simp [eq_of_after opened]
  unfold maskDSNs
  simp only [if_neg oracle, go, Bool.false_eq_true, if_false]

theorem FlagName.isNameChar_of_mem (flag : FlagName name) :
    ∀ c ∈ flagText name, isNameChar c = true := by
  have dash : isNameChar '-' = true := by decide
  simpa [flagText, dash] using flag.chars

theorem FlagName.absent (flag : FlagName name) {c : Char} (other : isNameChar c = false) :
    c ∉ flagText name := fun member => by
  simp [flag.isNameChar_of_mem c member] at other

theorem FlagName.flagName (flag : FlagName name) : flagName (unquote (flagText name)) = (name, true) := by
  have starts := flag.starts
  cases name with
  | nil => cases starts
  | cons c name =>
    have noDash : c ≠ '-' := by
      rintro rfl
      cases starts
    have unquoted : unquote (flagText (c :: name)) = '-' :: '-' :: c :: name := rfl
    rw [unquoted]
    simp [Secrets.flagName, noDash]

theorem FlagName.not_isUserFlag (flag : FlagName name) : isUserFlag name = false := by
  have user : isSensitiveKey "user".toList = false := by decide +kernel
  have u : isSensitiveKey "u".toList = false := by decide +kernel
  have sensitive := flag.sensitive
  simp only [isUserFlag, Bool.or_eq_false_iff, decide_eq_false_iff_not]
  -- neither name of the flag is sensitive
  constructor
  · rintro rfl
    exact absurd sensitive (by rw [u]; decide)
  · rintro rfl
    exact absurd sensitive (by rw [user]; decide)

theorem length_le_byteLen (s : List Char) : s.length ≤ byteLen s := by
  induction s with
  | nil => exact Nat.le_refl 0
  | cons c s ih =>
    have size := c.utf8Size_pos
    simp only [byteLen, List.map_cons, List.sum_cons, List.length_cons] at ih ⊢
    omega

theorem ascii_of_isNameChar {c : Char} (name : isNameChar c = true) : c.toNat < 0x80 := by
  have code : c.val.toNat = c.toNat := rfl
  simp only [isNameChar, Char.isAlphanum, isAlpha_eq, isUpper_eq, isLower_eq, Char.isDigit,
    Bool.or_eq_true, Bool.and_eq_true, decide_eq_true_eq, UInt32.le_iff_toNat_le, ge_iff_le, code,
    List.mem_cons, List.not_mem_nil, or_false] at name
  rcases name with letter | rfl | rfl | rfl
  · simp at letter
    omega
  all_goals decide

theorem isBreak_of_isNameChar {c : Char} (name : isNameChar c = true) : isBreak c = false := by
  have breaks : ['\t', '\n', '\x0c', '\r', ' ', '\x00'].any isNameChar = false := by decide
  by_contra found
  have listed : c ∈ ['\t', '\n', '\x0c', '\r', ' ', '\x00'] := by
    simp only [isBreak, isWhite, Bool.not_eq_false, Bool.or_eq_true, decide_eq_true_eq,
      List.mem_cons, List.not_mem_nil, or_false, or_assoc] at found ⊢
    exact found
  exact List.any_eq_false.mp breaks c listed name

theorem FlagName.word (flag : FlagName name) (closed : Closed m) :
    m.word (flagText name) = (flagText name, { m with expect := .value }) := by
  have urls := maskURLs_of_absent (flag.absent (c := ':') (by decide)) (flag.absent (by decide))
    (flag.absent (by decide))
  have dsns := maskDSNs_of_absent (flag.absent (c := ':') (by decide)) (flag.absent (by decide))
  have equals : '=' ∉ flagText name := flag.absent (by decide)
  have long : 1 < byteLen name := lt_of_lt_of_le flag.long (length_le_byteLen name)
  have scanned (m : Masker) : m.scanned (flagText name) = (flagText name, { m with expect := .value }) := by
    simp [Masker.scanned, urls, dsns, flag.flagName, equals, flag.not_isUserFlag, long,
      flag.sensitive]
  have dash : (flagText name).head? = some '-' := rfl
  -- it starts with a dash, so nothing that was announced reads it
  rw [Masker.word, closed.quote]
  simp [closed.connValue, Masker.announced, dash, scanned]

/-- The masker after a text of one word. -/
theorem text_of_word {s : List Char} {arg : Bool} (first : FirstRun isBreak false s []) :
    (m.text s arg).2 = { ({ m with maskedValue := false }.parts s).2 with
      quote := none, connValue := false } := by
  have words := @Masker.words_word m arg false s [] first
  rw [List.append_nil] at words
  rw [Masker.text, if_neg first.nonempty, words]
  rfl

theorem FlagName.text (flag : FlagName name) (closed : Closed m) (arg : Bool) :
    (m.text (flagText name) arg).2 =
      { m with expect := .value, maskedValue := false, quote := none, connValue := false } := by
  have noBreak : ∀ c ∈ flagText name, isBreak c = false := fun c member =>
    isBreak_of_isNameChar (flag.isNameChar_of_mem c member)
  -- the flag is one word
  have first : FirstRun isBreak false (flagText name) [] :=
    ⟨List.cons_ne_nil _ _, noBreak, by simp⟩
  have parts (m : Masker) : m.parts (flagText name) = m.word (flagText name) := by
    have ascii : isASCII (flagText name) = true := List.all_eq_true.mpr fun c member =>
      decide_eq_true (ascii_of_isNameChar (flag.isNameChar_of_mem c member))
    rw [Masker.parts, if_pos (.inl ascii)]
  have still : Closed { m with maskedValue := false } := ⟨closed.quote, closed.connValue⟩
  rw [text_of_word first, parts, flag.word still]

/-- A sensitive flag announces its value, whatever came before. -/
theorem FlagName.arg (flag : FlagName name) (closed : Closed m) :
    Announced (m.arg (flagText name)).2 := by
  have argument : (m.reading (flagText name)).shellCommand = false := by
    simp [Masker.reading, isShellCommandFlag, flagText]
  -- a masker that stopped reading masks the value whole
  by_cases read : m.unread = true ∨ maxValueLen < byteLen (flagText name)
  · rw [Masker.arg_unread read]
    exact ⟨nofun, argument⟩
  · obtain ⟨program, same⟩ := Masker.arg_read read
    have after := @FlagName.text (m.reading (flagText name)) name flag
      ⟨closed.quote, closed.connValue⟩ !m.shellCommand
    rw [same, after]
    exact ⟨fun _ => ⟨rfl, rfl, rfl⟩, argument⟩

end

/-! ## Separators and the value -/

section

variable {m : Masker} {s a v : List Char}

theorem not_isASCII_of_unicodeSpace {w rest : List Char} (first : FirstRun isBreak false w rest)
    (spaces : ∀ c ∈ w, isUnicodeSpace c = true) : isASCII w = false := by
  refine List.all_eq_false.mpr ⟨w.head first.nonempty, List.head_mem first.nonempty, ?_⟩
  generalize head : w.head first.nonempty = c
  have member : c ∈ w := head ▸ List.head_mem first.nonempty
  have noSpace : c ≠ ' ' := by
    rintro rfl
    exact absurd (first.uniform ' ' member) (by decide)
  have space := spaces c member
  have code : c.toNat ≠ 0x20 := fun code => noSpace (by rw [← Char.ofNat_toNat c, code])
  simp only [isUnicodeSpace, List.mem_cons, List.not_mem_nil, or_false, decide_eq_true_eq] at space ⊢
  omega

/-- Separators announce nothing. -/
theorem words_blank {arg inValue : Bool} (blank : ∀ c ∈ s, isSeparator c = true) :
    ∃ maskedValue, (m.words arg inValue (runs isBreak s)).2 = { m with maskedValue } := by
  -- by words: each is made of Unicode spaces, and is copied
  induction s using runs_induction isBreak generalizing m inValue with
  | nil => exact ⟨m.maskedValue, rfl⟩
  | append inside run rest first ih =>
    obtain ⟨here, later⟩ := List.forall_mem_append.mp blank
    cases inside with
    | true =>
      rw [Masker.words_space first]
      exact ih later
    | false =>
      have spaces : ∀ c ∈ run, isUnicodeSpace c = true := fun c member => by
        simpa [isSeparator, first.uniform c member] using here c member
      have whole : FirstRun isUnicodeSpace true run [] := ⟨first.nonempty, spaces, by simp⟩
      have any : run.any isUnicodeSpace = true :=
        List.any_eq_true.mpr ⟨run.head first.nonempty, List.head_mem _, spaces _ (List.head_mem _)⟩
      have parts (m : Masker) : m.parts run = (run, { m with maskedValue := false }) := by
        have spaced := @Masker.spaced_space m false run [] whole
        rw [List.append_nil] at spaced
        have nothing : m.spaced false (runs isUnicodeSpace []) = ([], m, false) := rfl
        rw [nothing] at spaced
        rw [Masker.parts, not_isASCII_of_unicodeSpace first spaces, any, if_neg (by simp), spaced]
        simp
      rw [Masker.words_word first, parts]
      obtain ⟨maskedValue, same⟩ := @ih { m with maskedValue := false } (inValue || arg && false) later
      exact ⟨maskedValue, same⟩

theorem Announced.blank (announced : Announced m) (blank : ∀ c ∈ a, isSeparator c = true) :
    Announced (m.arg a).2 := by
  -- separators are no `-c`
  have argument : (m.reading a).shellCommand = false := by
    have flag : isShellCommandFlag a = false := by
      cases a with
      | nil => rfl
      | cons c a =>
        have noDash : c ≠ '-' := by
          rintro rfl
          exact absurd (blank '-' List.mem_cons_self) (by decide)
        unfold isShellCommandFlag
        split
        next same => exact absurd (List.cons.inj same).1 noDash
        · rfl
    simp [Masker.reading, flag]
  by_cases read : m.unread = true ∨ maxValueLen < byteLen a
  · rw [Masker.arg_unread read]
    exact ⟨nofun, argument⟩
  · obtain ⟨program, same⟩ := Masker.arg_read read
    have ready := announced.ready (by simpa using fun unread => read (.inl unread))
    rw [same]
    unfold Masker.text
    split
    · exact ⟨fun _ => ⟨ready.quote, ready.connValue, ready.expect⟩, argument⟩
    · obtain ⟨maskedValue, after⟩ := @words_blank (m.reading a) a (!m.shellCommand) false blank
      dsimp only
      rw [after]
      exact ⟨fun _ => ⟨rfl, rfl, ready.expect⟩, argument⟩

theorem Announced.value (announced : Announced m) (noDash : NoDash v) : Hidden (m.arg v).1 := by
  by_cases read : m.unread = true ∨ maxValueLen < byteLen v
  · rw [Masker.arg_unread read]
    exact Masks.masked.hidden
  · obtain ⟨program, same⟩ := Masker.arg_read read
    have ready := announced.ready (by simpa using fun unread => read (.inl unread))
    have reading : Ready (m.reading v) := ⟨ready.quote, ready.connValue, ready.expect⟩
    have hidden := (reading.words noDash).hidden
    rw [same, announced.argument, Bool.not_false]
    unfold Masker.text
    split
    next empty => exact empty ▸ .nil
    · dsimp only
      -- the later passes find nothing to rewrite
      rw [maskJSONMembers_of_plain hidden.plain, maskXMLElements_of_plain hidden.plain]
      exact hidden

end

/-! ## Command lines -/

section

variable {m : Masker}

theorem args_append (m : Masker) (as bs : List (List Char)) :
    (m.args (as ++ bs)).1 = (m.args as).1 ++ ((m.args as).2.args bs).1 ∧
      (m.args (as ++ bs)).2 = ((m.args as).2.args bs).2 := by
  induction as generalizing m with
  | nil => exact ⟨rfl, rfl⟩
  | cons a as ih =>
    obtain ⟨out, after⟩ := ih (m.arg a).2
    exact ⟨congrArg ((m.arg a).1 :: ·) out, after⟩

theorem args_length (m : Masker) (as : List (List Char)) : (m.args as).1.length = as.length := by
  induction as generalizing m with
  | nil => rfl
  | cons a as ih => exact congrArg (· + 1) (ih (m.arg a).2)

/-- The masker after the first arguments, and what it writes for the next. -/
theorem args_getElem? {as : List (List Char)} {k : Nat} {a : List Char} (listed : as[k]? = some a) :
    (m.args as).1[k]? = some ((m.args (as.take k)).2.arg a).1 ∧
      (m.args (as.take (k + 1))).2 = ((m.args (as.take k)).2.arg a).2 := by
  induction as generalizing m k with
  | nil => simp at listed
  | cons b as ih =>
    cases k with
    | zero =>
      simp only [List.getElem?_cons_zero, Option.some.injEq] at listed
      subst listed
      exact ⟨rfl, rfl⟩
    | succ k =>
      rw [List.getElem?_cons_succ] at listed
      exact @ih (m.arg b).2 k listed

end

/-- The argument after a sensitive flag and separators is hidden, whatever arguments came before,
and whether or not the flag ends the entrypoint. -/
theorem flagValue_hidden {entrypoint cmd : List (List Char)} {i j : Nat} {name v : List Char}
    (flag : FlagName name) (announces : (entrypoint ++ cmd)[i]? = some (flagText name))
    (later : i < j)
    (blank : ∀ k a, i < k → k < j → (entrypoint ++ cmd)[k]? = some a →
      ∀ c ∈ a, isSeparator c = true)
    (value : (entrypoint ++ cmd)[j]? = some v)
    (noDash : (v.dropWhile isSeparator).head? ≠ some '-') :
    (maskCommand entrypoint cmd).1.length = entrypoint.length ∧
      ∃ out, ((maskCommand entrypoint cmd).1 ++ (maskCommand entrypoint cmd).2)[j]? = some out ∧
        Hidden out := by
  -- the two lists are read as one
  generalize whole : entrypoint ++ cmd = as at *
  have written : (maskCommand entrypoint cmd).1 ++ (maskCommand entrypoint cmd).2 =
      (({} : Masker).args as).1 := by
    rw [← whole, (args_append _ entrypoint cmd).1]
    rfl
  have start : Closed (({} : Masker).args (as.take i)).2 := args_closed ⟨rfl, rfl⟩ _
  -- from the flag on, by arguments: each leaves the value announced
  have reached (k : Nat) (lower : i < k) (upper : k ≤ j) :
      Announced (({} : Masker).args (as.take k)).2 := by
    induction k, lower using Nat.le_induction with
    | base =>
      rw [(args_getElem? announces).2]
      exact flag.arg start
    | succ k lower ih =>
      have inside : k < as.length := by
        have := (List.getElem?_eq_some_iff.mp value).1
        omega
      have listed : as[k]? = some as[k] := List.getElem?_eq_getElem inside
      rw [(args_getElem? listed).2]
      exact (ih (by omega)).blank (blank k as[k] lower upper listed)
  have starts : NoDash v := by
    rintro spaces rest rfl others dash
    rw [List.dropWhile_append_of_pos others] at noDash
    cases rest with
    | nil => cases dash
    | cons c rest =>
      cases dash
      exact noDash rfl
  refine ⟨args_length _ entrypoint, _, ?_, (reached j later le_rfl).value starts⟩
  rw [written, (args_getElem? value).1]

/-- The flag ends the entrypoint, and its value comes after an argument of separators. -/
theorem flagValue_hidden_requirepass :
    ∃ out, ((maskCommand [['s'], flagText "requirepass".toList] [[' ', '\u00A0'], ['p', ' ', 'w']]).1 ++
      (maskCommand [['s'], flagText "requirepass".toList] [[' ', '\u00A0'], ['p', ' ', 'w']]).2)[3]? =
        some out ∧ Hidden out := by
  have flag : FlagName "requirepass".toList :=
    ⟨by decide, by decide, List.all_eq_true.mp (by decide +kernel), by decide +kernel⟩
  have blank (k : Nat) (a : List Char) (lower : 1 < k) (upper : k < 3)
      (listed : ([['s'], flagText "requirepass".toList] ++ [[' ', '\u00A0'], ['p', ' ', 'w']])[k]? =
        some a) : ∀ c ∈ a, isSeparator c = true := by
    obtain rfl : k = 2 := by omega
    cases listed
    exact List.all_eq_true.mp (by decide)
  exact (flagValue_hidden flag rfl (i := 1) (j := 3) (by decide) blank rfl (by decide)).2

end Dockgraph.Secrets
