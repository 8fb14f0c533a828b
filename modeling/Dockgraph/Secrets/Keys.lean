import Dockgraph.Library.Rewrite
import Mathlib.Data.List.DropRight

/-!
# Keys of credentials (`secrets/keys.go`)

A text is the list of its characters.
-/
namespace Dockgraph.Secrets

/-- `unicode.ToUpper`, as far as it makes ASCII letters: only two others have one for upper case. -/
def toUpperChar (c : Char) : Char :=
  if c = 'ı' then 'I' else if c = 'ſ' then 'S' else c.toUpper

/-- `strings.ToUpper`. -/
def toUpper (s : List Char) : List Char := s.map toUpperChar

def sensitiveKeyPatterns : List String :=
  ["PASS", "PWD", "SECRET", "KEY", "TOKEN", "CREDENTIAL", "CREDS", "API_KEY", "APIKEY", "PRIVATE",
    "AUTH", "CERT", "SSL_", "TLS_", "ENCRYPT", "ACCESS_KEY", "SESSION", "DSN", "CONNECTION_STRING",
    "CONNECTIONSTRING", "CONN_STR", "COOKIE", "SALT", "WEBHOOK"]

def notSensitiveKeys : List String := ["PWD", "OLDPWD"]

def benignWords : List String :=
  ["AUTHOR", "PASSENGER", "PASSIVE", "PASSTHROUGH", "BYPASS", "COMPASS"]

def credentialWords : List String := ["AUTHORIZ", "AUTHORIS"]

/-- `strings.Contains`. -/
def Contains (s : List Char) (sub : String) : Prop := sub.toList <:+: s

instance (s : List Char) (sub : String) : Decidable (Contains s sub) :=
  inferInstanceAs (Decidable (_ <:+: _))

/-- The first benign word a text starts with goes. -/
def benignRule : Rewrite.Rule Char := fun s =>
  (benignWords.find? fun word => word.toList.isPrefixOf s).map fun word =>
    ([], s.drop word.length)

def namesAuthorization (key : List Char) : Bool :=
  credentialWords.any fun word => Contains (toUpper key) word

def isSensitiveKey (key : List Char) : Bool :=
  let upper := toUpper key
  if String.ofList upper ∈ notSensitiveKeys then false
  else if namesAuthorization upper then true
  else
    let upper := Rewrite.replaceAll benignRule upper
    sensitiveKeyPatterns.any fun pattern => Contains upper pattern

theorem isAlpha_eq (c : Char) : c.isAlpha = (c.isUpper || c.isLower) := rfl

theorem isUpper_eq (c : Char) : c.isUpper = decide ('A'.val ≤ c.val ∧ c.val ≤ 'Z'.val) := rfl

theorem isLower_eq (c : Char) : c.isLower = (decide ('a'.val ≤ c.val) && decide (c.val ≤ 'z'.val)) := rfl

theorem toUpper_of_not_isLower {c : Char} (plain : c.isLower = false) : c.toUpper = c :=
  dif_neg fun lower => by
    rw [isLower_eq, decide_eq_true lower.1, decide_eq_true lower.2] at plain
    cases plain

/-- No letter, nor a character that has one for upper case. -/
def isLetterless (c : Char) : Bool := !c.isAlpha && c ≠ 'ı' && c ≠ 'ſ'

theorem toUpperChar_of_letterless {c : Char} (letterless : isLetterless c = true) :
    toUpperChar c = c := by
  simp only [isLetterless, Bool.and_eq_true, Bool.not_eq_true', decide_eq_true_eq] at letterless
  obtain ⟨⟨noLetter, dotless⟩, long⟩ := letterless
  rw [isAlpha_eq, Bool.or_eq_false_iff] at noLetter
  rw [toUpperChar, if_neg dotless, if_neg long, toUpper_of_not_isLower noLetter.2]

theorem not_contains_of_letterless {s : List Char} {word : String}
    (letterless : ∀ c ∈ s, isLetterless c = true) (letter : word.toList.any Char.isAlpha = true) :
    ¬Contains s word := by
  intro contains
  obtain ⟨c, member, alpha⟩ := List.any_eq_true.mp letter
  have plain := letterless c (contains.subset member)
  simp [isLetterless, alpha] at plain

/-- A key without letters names nothing. -/
theorem isSensitiveKey_of_letterless {key : List Char}
    (letterless : ∀ c ∈ key, isLetterless c = true) : isSensitiveKey key = false := by
  have upper : toUpper key = key := by
    refine (List.map_congr_left fun c member => ?_).trans (List.map_id key)
    exact toUpperChar_of_letterless (letterless c member)
  have noBenign : Rewrite.replaceAll benignRule key = key := by
    refine Rewrite.scan_eq_self (p := fun c => isLetterless c = true) ?_ _ key letterless
    intro t plain new rest applied
    obtain ⟨word, found, -⟩ := Option.map_eq_some_iff.mp applied
    have starts : word.toList <+: t := by simpa using List.find?_some found
    have letters : ∀ w ∈ benignWords, w.toList.any Char.isAlpha = true := by decide
    exact absurd starts.isInfix
      (not_contains_of_letterless plain (letters word (List.mem_of_find?_eq_some found)))
  have noWord : namesAuthorization key = false := by
    have letters : ∀ w ∈ credentialWords, w.toList.any Char.isAlpha = true := by decide
    rw [namesAuthorization, upper]
    refine List.any_eq_false.mpr fun w member => ?_
    simpa using not_contains_of_letterless letterless (letters w member)
  have noPattern : (sensitiveKeyPatterns.any fun pattern => Contains key pattern) = false := by
    have letters : ∀ w ∈ sensitiveKeyPatterns, w.toList.any Char.isAlpha = true := by decide
    refine List.any_eq_false.mpr fun w member => ?_
    simpa using not_contains_of_letterless letterless (letters w member)
  rw [isSensitiveKey, upper]
  dsimp only
  rw [noWord, noBenign, noPattern]
  simp

def credentialNames : List String :=
  ["PASSWORD", "PASSWD", "PASS", "PASSPHRASE", "PWD", "SECRET", "TOKEN", "KEY", "APIKEY", "AUTH",
    "AUTHORIZATION", "CREDENTIAL", "CREDENTIALS", "COOKIE"]

/-- Whether the last word of the key is one of `credentialNames`. -/
def namesCredential (key : List Char) : Bool :=
  if String.ofList (toUpper key) ∈ notSensitiveKeys then false
  else
    let last := key.rtakeWhile fun c => c ∉ ['_', '.', '-']
    String.ofList (toUpper last) ∈ credentialNames

end Dockgraph.Secrets
