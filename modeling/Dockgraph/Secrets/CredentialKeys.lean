import Dockgraph.Secrets.Keys
import Mathlib.Tactic.ByContra

/-!
# Credential words that a benign word overlaps

The benign words are removed before the patterns are searched. A match that starts before a credential
word and ends inside it takes the word's first letters along.
-/
namespace Dockgraph.Secrets

open Rewrite

/-- The words that name a credential wherever they stand in a key. -/
def certainWords : List String := ["PASSWORD", "SECRET", "TOKEN", "CREDENTIAL", "AUTHORIZATION"]

/-- The starts of benign words whose rest goes on as the word does. -/
def overlaps (word : String) : List (List Char) :=
  benignWords.flatMap fun benign =>
    (benign.toList.inits.filter fun t =>
      let rest := benign.toList.drop t.length
      t ≠ [] && rest ≠ [] && (rest.isPrefixOf word.toList || word.toList.isPrefixOf rest))

/-- Only two of the words have overlaps. -/
example : certainWords.map overlaps =
    [["BY".toList, "COM".toList], ["BYPAS".toList, "COMPAS".toList], [], [], []] := by
  decide +kernel

/-! ## The benign words of a key -/

theorem benignRule_some {s new rest : List Char} (applied : benignRule s = some (new, rest)) :
    new = [] ∧ ∃ benign ∈ benignWords, s = benign.toList ++ rest := by
  obtain ⟨benign, found, same⟩ := Option.map_eq_some_iff.mp applied
  cases same
  have starts : benign.toList <+: s := by simpa using List.find?_some found
  obtain ⟨rest, rfl⟩ := starts
  refine ⟨rfl, benign, List.mem_of_find?_eq_some found, ?_⟩
  rw [← String.length_toList, List.drop_left]

theorem benignRule_reads : Reads benignRule := by
  intro s new rest applied
  obtain ⟨-, benign, listed, same⟩ := benignRule_some applied
  have present : ∀ w ∈ benignWords, w.toList ≠ [] := by decide
  exact ⟨benign.toList, present benign listed, same⟩

/-- Two texts that start another are the one a start of the other. -/
def Comparable (s t : List Char) : Prop := s <+: t ∨ t <+: s

instance (s t : List Char) : Decidable (Comparable s t) := inferInstanceAs (Decidable (_ ∨ _))

theorem comparable_append {s t u v : List Char} (same : s ++ u = t ++ v) : Comparable s t :=
  List.prefix_or_prefix_of_prefix (List.prefix_append s u) (same ▸ List.prefix_append t v)

/-- No benign word starts inside the word. -/
def Solid (word : String) : Prop :=
  ∀ t ∈ word.toList.tails, t ≠ [] → ∀ benign ∈ benignWords, ¬Comparable benign.toList t

instance (word : String) : Decidable (Solid word) := inferInstanceAs (Decidable (∀ _ ∈ _, _))

section

variable {word : String} {before after : List Char}

/-- A benign word across the start of a word begins with one of its overlaps. -/
theorem mem_overlaps {t rest : List Char} {benign : String} (present : t ≠ []) (listed : benign ∈ benignWords)
    (same : t ++ (word.toList ++ after) = benign.toList ++ rest) (across : t.length < benign.length) :
    t ∈ overlaps word := by
  rw [← String.length_toList] at across
  rcases List.append_eq_append_iff.mp same with ⟨more, split, first⟩ | ⟨more, split, -⟩
  · -- the benign word goes on past the start
    have reaches : more ≠ [] := by
      rintro rfl
      rw [split, List.append_nil] at across
      exact lt_irrefl _ across
    have goesOn := comparable_append first
    refine List.mem_flatMap.mpr ⟨benign, listed, List.mem_filter.mpr ⟨?_, ?_⟩⟩
    · exact (List.mem_inits t _).mpr (split ▸ List.prefix_append t more)
    · rw [split, List.drop_left]
      simpa [Comparable, present, reaches, or_comm] using goesOn
  · rw [split, List.length_append] at across
    omega

end

/-- An occurrence of the word that no benign word of the key overlaps. -/
def Untouched (key : List Char) (word : String) : Prop :=
  ∃ before after, key = before ++ word.toList ++ after ∧
    ∀ benign ∈ benignWords, ∀ b a, key = b ++ benign.toList ++ a →
      b.length + benign.length ≤ before.length ∨ before.length + word.length ≤ b.length

/-- What is left still has a word that is untouched. -/
theorem Untouched.left {key : List Char} {word : String} (untouched : Untouched key word) :
    Contains (replaceAll benignRule key) word := by
  obtain ⟨before, after, found, apart⟩ := untouched
  -- a match that starts before the word ends before it
  obtain ⟨out, same⟩ := benignRule_reads.replaceAll_append_of_not_across before
    (word.toList ++ after) fun t present suffix new rest applied => by
      obtain ⟨-, benign, listed, split⟩ := benignRule_some applied
      obtain ⟨pre, rfl⟩ := suffix
      have place := apart benign listed pre rest (by rw [found, List.append_assoc, List.append_assoc, split, List.append_assoc])
      have lengths := congrArg List.length split
      have sized := List.length_pos_of_ne_nil present
      simp only [List.length_append, String.length_toList] at lengths place ⊢
      omega
  -- and none starts inside it
  have kept : replaceAll benignRule (word.toList ++ after) = word.toList ++ replaceAll benignRule after := by
    refine replaceAll_append fun t present suffix => ?_
    cases applied : benignRule (t ++ after) with
    | none => rfl
    | some written =>
      obtain ⟨new, rest⟩ := written
      obtain ⟨-, benign, listed, split⟩ := benignRule_some applied
      obtain ⟨pre, whole⟩ := suffix
      have place := apart benign listed (before ++ pre) rest (by
        rw [found, ← whole, List.append_assoc, List.append_assoc, List.append_assoc, split, List.append_assoc])
      have filled : ∀ w ∈ benignWords, 0 < w.length := by decide
      have read := filled benign listed
      have sized := List.length_pos_of_ne_nil present
      have lengths := congrArg List.length whole
      simp only [List.length_append, String.length_toList] at lengths place
      omega
  rw [found, List.append_assoc, same, kept]
  exact ⟨out, replaceAll benignRule after, by rw [List.append_assoc]⟩

theorem Untouched.of_contains {key : List Char} {word part : String} (untouched : Untouched key word)
    (inside : Contains word.toList part) : Untouched key part := by
  obtain ⟨before, after, found, apart⟩ := untouched
  obtain ⟨first, last, whole⟩ := inside
  refine ⟨before ++ first, last ++ after, by simp [found, ← whole], fun benign listed b a same => ?_⟩
  have place := apart benign listed b a same
  have lengths := congrArg List.length whole
  simp only [List.length_append, String.length_toList] at lengths ⊢
  omega

/-- Only a benign word that starts before it can overlap such a word. -/
theorem untouched_of_clear {key before after : List Char} {word : String} (solid : Solid word)
    (found : key = before ++ word.toList ++ after) (clear : ∀ t ∈ overlaps word, ¬t <:+ before) :
    Untouched key word := by
  refine ⟨before, after, found, fun benign listed b a same => ?_⟩
  have whole : before ++ (word.toList ++ after) = b ++ (benign.toList ++ a) := by
    rw [← List.append_assoc, ← List.append_assoc, ← found, same]
  by_contra overlap
  rw [not_or, not_le, not_le] at overlap
  -- a benign word that starts inside the word
  have inside {u : List Char} (suffix : u <:+ word.toList) (present : u ≠ [])
      (starts : u ++ after = benign.toList ++ a) : False :=
    solid u ((List.mem_tails u _).mpr suffix) present benign listed (comparable_append starts.symm)
  rcases List.append_eq_append_iff.mp whole with ⟨t, split, rest⟩ | ⟨t, split, rest⟩
  · rcases List.append_eq_append_iff.mp rest with ⟨u, longer, -⟩ | ⟨u, parts, starts⟩
    · have lengths := congrArg List.length split
      have past := congrArg List.length longer
      simp only [List.length_append, String.length_toList] at lengths past
      omega
    · refine inside ⟨t, parts.symm⟩ ?_ starts.symm
      rintro rfl
      have lengths := congrArg List.length split
      have ends := congrArg List.length parts
      simp only [List.length_append, List.append_nil, String.length_toList] at lengths ends
      omega
  · by_cases empty : t = []
    · subst empty
      refine inside List.suffix_rfl ?_ rest.symm
      intro none
      have lengths := congrArg List.length split
      have noWord := congrArg List.length none
      simp only [List.append_nil, List.length_nil, String.length_toList] at lengths noWord
      omega
    · have lengths := congrArg List.length split
      rw [List.length_append] at lengths
      exact clear t (mem_overlaps empty listed rest.symm (by omega)) ⟨b, split.symm⟩

/-! ## Sensitive keys -/

/-- An upper-case letter, or a character that is no lower-case letter. -/
theorem toUpper_cases (c : Char) :
    (c.toUpper = c ∧ c.isLower = false) ∨ (65 ≤ c.toUpper.toNat ∧ c.toUpper.toNat ≤ 90) := by
  cases lower : c.isLower with
  | false => exact .inl ⟨toUpper_of_not_isLower lower, rfl⟩
  | true =>
    right
    rw [isLower_eq, Bool.and_eq_true, decide_eq_true_eq, decide_eq_true_eq] at lower
    have upper : c.toUpper = _ := dif_pos lower
    obtain ⟨least, most⟩ := lower
    rw [UInt32.le_iff_toNat_le] at least most
    have first : 'a'.val.toNat = 97 := rfl
    have last : 'z'.val.toNat = 122 := rfl
    have less : ('A'.val - 'a'.val).toNat = 4294967264 := rfl
    have code : (c.val + ('A'.val - 'a'.val)).toNat = c.val.toNat - 32 := by
      rw [UInt32.toNat_add, less]
      omega
    change 65 ≤ c.toUpper.val.toNat ∧ c.toUpper.val.toNat ≤ 90
    rw [upper, code]
    omega

theorem toUpperChar_idem (c : Char) : toUpperChar (toUpperChar c) = toUpperChar c := by
  by_cases dotless : c = 'ı'
  · subst dotless
    decide
  by_cases long : c = 'ſ'
  · subst long
    decide
  have once : toUpperChar c = c.toUpper := by simp [toUpperChar, dotless, long]
  rw [once]
  rcases toUpper_cases c with ⟨same, -⟩ | ⟨least, most⟩
  · rw [same, once, same]
  · have plain : c.toUpper.isLower = false := by
      have code : c.toUpper.val.toNat = c.toUpper.toNat := rfl
      simp only [isLower_eq, Bool.and_eq_false_iff, decide_eq_false_iff_not,
        UInt32.le_iff_toNat_le, code]
      simp
      omega
    have noDotless : c.toUpper ≠ 'ı' := fun same => by simp [same] at most
    have noLong : c.toUpper ≠ 'ſ' := fun same => by simp [same] at most
    rw [toUpperChar, if_neg noDotless, if_neg noLong, toUpper_of_not_isLower plain]

theorem toUpper_idem (s : List Char) : toUpper (toUpper s) = toUpper s := by
  simp [toUpper, toUpperChar_idem]

theorem isSensitiveKey_iff (key : List Char) :
    isSensitiveKey key = true ↔ String.ofList (toUpper key) ∉ notSensitiveKeys ∧
      (namesAuthorization key = true ∨
        ∃ pattern ∈ sensitiveKeyPatterns, Contains (replaceAll benignRule (toUpper key)) pattern) := by
  have same : namesAuthorization (toUpper key) = namesAuthorization key := by
    simp [namesAuthorization, toUpper_idem]
  simp only [isSensitiveKey, same]
  split
  next working => simp [working]
  next other =>
    split
    next named => simp [other, named]
    next unnamed => simp [other, unnamed]

theorem Contains.trans {s : List Char} {word part : String} (contains : Contains s word)
    (inside : Contains word.toList part) : Contains s part :=
  List.IsInfix.trans inside contains

/-- A word that names a credential wherever it stands. -/
def NamesCertain (key : List Char) : Prop := ∃ word ∈ certainWords, Contains (toUpper key) word

/-- A word of an authorization, or a pattern at a place that no benign word overlaps. -/
def Spared (key : List Char) : Prop :=
  namesAuthorization key = true ∨ ∃ pattern ∈ sensitiveKeyPatterns, Untouched (toUpper key) pattern

section

variable {key : List Char}

theorem NamesCertain.not_notSensitive (certain : NamesCertain key) :
    String.ofList (toUpper key) ∉ notSensitiveKeys := by
  obtain ⟨word, listed, contains⟩ := certain
  have short : ∀ other ∈ notSensitiveKeys, ∀ word ∈ certainWords, ¬Contains other.toList word := by
    decide +kernel
  intro working
  have other := short _ working word listed
  rw [String.toList_ofList] at other
  exact other contains

/-- A word that no benign word overlaps at its start is spared. -/
theorem spared_of_clear {word : String} (listed : word ∈ certainWords)
    {before after : List Char} (found : toUpper key = before ++ word.toList ++ after)
    (clear : ∀ t ∈ overlaps word, ¬t <:+ before) : Spared key := by
  by_cases authorization : word = "AUTHORIZATION"
  · left
    subst authorization
    have contains : Contains (toUpper key) "AUTHORIZATION" := ⟨before, after, found.symm⟩
    have named : Contains "AUTHORIZATION".toList "AUTHORIZ" := by decide
    simp [namesAuthorization, credentialWords, contains.trans named]
  · right
    have solid : ∀ word ∈ certainWords, word ≠ "AUTHORIZATION" → Solid word := by decide +kernel
    have pattern : ∀ word ∈ certainWords, ∃ pattern ∈ sensitiveKeyPatterns,
        Contains word.toList pattern := by decide +kernel
    obtain ⟨p, sensitive, inside⟩ := pattern word listed
    exact ⟨p, sensitive, (untouched_of_clear (solid word listed authorization) found clear).of_contains inside⟩

theorem isSensitiveKey_of_spared (certain : NamesCertain key) (spared : Spared key) : isSensitiveKey key = true := by
  refine (isSensitiveKey_iff key).mpr ⟨certain.not_notSensitive, ?_⟩
  rcases spared with named | ⟨pattern, listed, untouched⟩
  · exact .inl named
  · exact .inr ⟨pattern, listed, untouched.left⟩

/-! ## The last word of a key -/

/-- What separates the words of a key. -/
def isKeySeparator (c : Char) : Bool := c ∈ ['_', '.', '-']

/-- No match goes from the words before into the last one. -/
theorem replaceAll_lastWord {before last : List Char}
    (ends : ∀ c ∈ before.getLast?, isKeySeparator c = true) :
    ∃ out, replaceAll benignRule (before ++ last) = out ++ replaceAll benignRule last := by
  refine benignRule_reads.replaceAll_append_of_not_across before last
    fun t present suffix new rest applied => ?_
  by_contra across
  obtain ⟨-, benign, listed, same⟩ := benignRule_some applied
  have separators : ∀ w ∈ benignWords, (w.toList.all fun c => !isKeySeparator c) = true := by decide +kernel
  -- the benign word would hold the separator
  have inside : t <+: benign.toList := by
    rcases List.append_eq_append_iff.mp same with ⟨more, split, -⟩ | ⟨more, -, longer⟩
    · exact split ▸ List.prefix_append t more
    · have := congrArg List.length longer
      rw [List.length_append] at this
      omega
  have last : t.getLast? = before.getLast? := by
    obtain ⟨pre, rfl⟩ := suffix
    rw [List.getLast?_append_of_ne_nil pre present]
  have ended := ends (t.getLast present) (by rw [← last]; exact List.getLast?_eq_some_getLast present)
  have letter := List.all_eq_true.mp (separators benign listed) _
    (inside.subset (List.getLast_mem present))
  simp [ended] at letter

theorem isKeySeparator_toUpperChar (c : Char) (separator : isKeySeparator c = true) :
    toUpperChar c = c := by
  simp only [isKeySeparator, List.mem_cons, List.not_mem_nil, or_false, decide_eq_true_eq] at separator
  rcases separator with rfl | rfl | rfl <;> decide

/-- A key that names a credential before a colon is sensitive. -/
theorem isSensitiveKey_of_namesCredential (names : namesCredential key = true) :
    isSensitiveKey key = true := by
  unfold namesCredential at names
  split at names
  · cases names
  next other =>
    dsimp only at names
    generalize whole : (key.rtakeWhile fun c => c ∉ ['_', '.', '-']) = last at names
    have listed := of_decide_eq_true names
    let before := key.rdropWhile fun c => c ∉ ['_', '.', '-']
    have parts : before ++ last = key := whole ▸ List.rdropWhile_append_rtakeWhile
    have upper : toUpper key = toUpper before ++ toUpper last := by
      rw [← parts, toUpper, List.map_append]
      rfl
    have ends : ∀ c ∈ (toUpper before).getLast?, isKeySeparator c = true := by
      intro c member
      rw [toUpper, List.getLast?_map, Option.mem_def, Option.map_eq_some_iff] at member
      obtain ⟨d, final, rfl⟩ := member
      have present : before ≠ [] := by
        intro empty
        simp [empty] at final
      have stops := List.rdropWhile_last_not (fun c => decide (c ∉ ['_', '.', '-'])) key present
      have same : before.getLast present = d :=
        Option.some.inj ((List.getLast?_eq_some_getLast present).symm.trans final)
      have separator : isKeySeparator d = true := by
        rw [decide_eq_true_eq, not_not] at stops
        exact same ▸ decide_eq_true stops
      rwa [isKeySeparator_toUpperChar d separator]
    obtain ⟨out, same⟩ := @replaceAll_lastWord _ (toUpper last) ends
    refine (isSensitiveKey_iff key).mpr ⟨other, ?_⟩
    by_cases authorization : String.ofList (toUpper last) = "AUTHORIZATION"
    · left
      have word : toUpper last = "AUTHORIZATION".toList := by
        rw [← authorization, String.toList_ofList]
      have named : Contains "AUTHORIZATION".toList "AUTHORIZ" := by decide
      have contains : Contains (toUpper key) "AUTHORIZATION" := ⟨toUpper before, [], by simp [upper, word]⟩
      simp [namesAuthorization, credentialWords, contains.trans named]
    · right
      have kept : ∀ name ∈ credentialNames, name ≠ "AUTHORIZATION" →
          ∃ pattern ∈ sensitiveKeyPatterns, Contains (replaceAll benignRule name.toList) pattern := by
        decide +kernel
      obtain ⟨pattern, sensitive, inside⟩ := kept _ listed authorization
      rw [String.toList_ofList] at inside
      rw [upper, same]
      exact ⟨pattern, sensitive, List.IsInfix.trans inside (List.suffix_append out _).isInfix⟩

/-- A key that names a credential is recognised where something that tells it is spared. -/
theorem recognised_of_spared (key : List Char) (spared : NamesCertain key → Spared key) :
    (NamesCertain key → isSensitiveKey key = true) ∧
      (namesCredential key = true → isSensitiveKey key = true) :=
  ⟨fun certain => isSensitiveKey_of_spared certain (spared certain), isSensitiveKey_of_namesCredential⟩

/-- `COMPASS` overlaps the password, and nothing the token. -/
theorem recognised_of_spared_token :
    (NamesCertain "compassword_token".toList → isSensitiveKey "compassword_token".toList = true) ∧
      (namesCredential "compassword_token".toList = true → isSensitiveKey "compassword_token".toList = true) := by
  refine recognised_of_spared _ fun _ => ?_
  have found : toUpper "compassword_token".toList = "COMPASSWORD_".toList ++ "TOKEN".toList ++ [] := by decide
  exact spared_of_clear (by decide) found (by decide +kernel)

/-- `COMPASS` takes the start of `PASSWORD` along, and `WORD` is left. -/
theorem compassword_unrecognised : ¬∀ key : List Char,
    (NamesCertain key → isSensitiveKey key = true) ∧
      (namesCredential key = true → isSensitiveKey key = true) := by
  intro all
  have certain : NamesCertain "COMPASSWORD".toList := ⟨"PASSWORD", by decide, by decide⟩
  have plain : isSensitiveKey "COMPASSWORD".toList = false := by decide +kernel
  rw [(all _).1 certain] at plain
  cases plain

end

end Dockgraph.Secrets
