import Dockgraph.Secrets.Formats
import Mathlib.Algebra.GroupWithZero.Nat

/-!
# The masker (`secrets/masker.go`)

It reads the words of a command line in order and remembers what each announces about the next.
-/
namespace Dockgraph.Secrets

/-- What a word announces about the one after it. -/
inductive Expectation
  | anything
  | value
  | headerValue
  | userinfo
  | equals
  deriving DecidableEq, Repr

/-- What closes a value left open. -/
inductive Quote
  | single
  | double
  | brace
  deriving DecidableEq, Repr

def Quote.char : Quote → Char
  | single => '\''
  | double => '"'
  | brace => '}'

structure Masker where
  expect : Expectation := .anything
  quote : Option Quote := none
  maskedValue : Bool := false
  connValue : Bool := false
  program : List Char := []
  optionValue : Bool := false
  shellCommand : Bool := false
  unread : Bool := false
  deriving DecidableEq, Repr

/-! ## Characters -/

def isShellQuote (c : Char) : Bool := c = '\'' || c = '"'

/-- What separates words: whitespace and NUL. -/
def isBreak (c : Char) : Bool := isWhite c || c = '\x00'

/-- `\p{Z}`. -/
def isUnicodeSpace (c : Char) : Bool :=
  c.toNat ∈ [0x20, 0xA0, 0x1680, 0x2028, 0x2029, 0x202F, 0x205F, 0x3000] ∨
    0x2000 ≤ c.toNat ∧ c.toNat ≤ 0x200A

def isASCII (s : List Char) : Bool := s.all fun c => c.toNat < 0x80

/-- `len`: in bytes. -/
def byteLen (s : List Char) : Nat := (s.map Char.utf8Size).sum

def maxValueLen : Nat := 64 <<< 10

/-- The smallest letter that folds to the same as this one, for ASCII letters. -/
def foldChar (c : Char) : Char := if c = 'ſ' then 's' else if c = '\u212A' then 'k' else c.toLower

/-- `strings.EqualFold`, with an ASCII text. -/
def equalFold (s : List Char) (ascii : String) : Bool := s.map foldChar = ascii.toList.map foldChar

/-! ## Words -/

def unquote (w : List Char) : List Char := w.dropWhile isShellQuote

/-- The dashes a word starts with. -/
def dashes (w : List Char) : List Char := w.takeWhile (· = '-')

def flagName (w : List Char) : List Char × Bool :=
  let name := w.dropWhile (· = '-')
  (name, name ≠ w)

def isUserFlag (name : List Char) : Bool := name = "u".toList || name = "user".toList

/-- `keyName`. -/
def isKeyName : List Char → Bool
  | [] => false
  | c :: s => isNameStart c && s.all isNameChar

/-- `headerKey`. -/
def isHeaderKey (w : List Char) : Bool := w.getLast? = some ':' && isKeyName w.dropLast

/-- `pairKey`: up to two dashes and an identifier. -/
def isPairKey (key : List Char) : Bool := (dashes key).length ≤ 2 && isKeyName (flagName key).1

def authSchemes : List String :=
  ["Basic", "Bearer", "Digest", "Negotiate", "Token", "ApiKey", "Api-Token"]

def isAuthScheme (w : List Char) : Bool := authSchemes.any fun scheme => equalFold (unquote w) scheme

/-- `userPassword`. -/
def isUserPassword (w : List Char) : Bool :=
  let w := if w.head?.any isShellQuote then w.tail else w
  match w with
  | [] => false
  | c :: s =>
    (c.isAlphanum || c = '_') &&
      match (run (fun c => isNameChar c || c = '@') s).2 with
      -- `redis://` is no user and password
      | ':' :: d :: _ => !isShellQuote d && d ≠ '/'
      | _ => false

def hasUserPassword (w : List Char) : Bool :=
  isUserPassword w && (cut ':' (unquote w)).1.any fun c => !c.isDigit

/-! ## Masks -/

def closingQuote (c : Char) (braces : Bool) : Option Quote :=
  if c = '\'' then some .single
  else if c = '"' then some .double
  else if c = '{' ∧ braces then some .brace
  else none

def trailingQuotes (w : List Char) : List Char := w.rtakeWhile isShellQuote

def valuePunctuation : List Char := ['"', '\'', '\\', ':', ',', '{', '}', '[', ']', '=']

/-- What `maskInValue` writes after the dashes: punctuation, and one mask for each other run. -/
def maskRuns : Bool → List Char → List Char
  | _, [] => []
  | inRun, c :: w =>
    if c ∈ valuePunctuation then c :: maskRuns false w
    else if inRun then maskRuns true w
    else masked ++ maskRuns true w

def maskInValue (w : List Char) : List Char := dashes w ++ maskRuns false (flagName w).1

namespace Masker

def maskWord (m : Masker) (w : List Char) (braces : Bool) : List Char × Masker :=
  let m := { m with maskedValue := true }
  match w with
  | [] => (masked, m)
  | c :: rest =>
    -- a quoted value may go on in the next words
    match closingQuote c braces with
    | none => (masked ++ trailingQuotes w, m)
    | some quote =>
      match Text.cut quote.char rest with
      | none => (c :: masked, { m with quote })
      | some (_, rest) => (c :: masked ++ quote.char :: trailingQuotes rest, m)

def continueQuoted (m : Masker) (quote : Quote) (w : List Char) : List Char × Masker :=
  match Text.cut quote.char w with
  -- the value goes on: nothing of the word is kept
  | none => (masked, m)
  | some (_, rest) => (masked ++ quote.char :: trailingQuotes rest, { m with quote := none })

def maskUserinfo (m : Masker) (w : List Char) : List Char × Masker :=
  let m := { m with maskedValue := true }
  let (user, password, _) := cut ':' w
  match w.head?.bind fun c => closingQuote c false with
  | some quote =>
    if quote.char ∉ password then (user ++ ':' :: masked, { m with quote })
    else (user ++ ':' :: masked ++ trailingQuotes w, m)
  | none => (user ++ ':' :: masked ++ trailingQuotes w, m)

/-- Nothing when the word is not `maskKeyValue`'s. -/
def maskKeyValue (m : Masker) (w : List Char) : Option (List Char × Masker) := do
  let (key, value) ← Text.cut ':' (unquote w)
  if value = [] ∨ !isKeyName key ∨ !namesCredential key then none
  -- `Authorization:Bearer`: the credentials are the next word
  else if isAuthScheme value then return (w, { m with expect := .value })
  else
    let (value, m) := m.maskWord value false
    return (w.takeWhile isShellQuote ++ key ++ ':' :: value, m)

/-- The loop of `maskPair`, past the keys in `head`, for at most so many of the keys after them. -/
def maskPairAfter (m : Masker) (connString : Bool) :
    Nat → List Char → List Char → Option (List Char × Masker)
  | 0, _, _ => none
  | n + 1, head, w =>
    match Text.cut '=' w with
    | none => none
    | some (key, value) =>
      if !isPairKey (unquote key) then none
      else
        let head := head ++ key ++ ['=']
        let (name, isFlag) := flagName (unquote key)
        -- the value of the first sensitive key is all that follows it
        if isSensitiveKey name ∨ connString ∧ equalFold name "PWD" then
          let (text, m) := m.maskWord value connString
          let credentialsNext := isAuthScheme value || namesAuthorization name
          if !connString ∧ m.quote = none ∧ credentialsNext then
            some (head ++ text, { m with expect := .value })
          else some (head ++ text, m)
        else if isFlag ∧ isUserFlag name ∧ hasUserPassword value then
          let (text, m) := m.maskUserinfo value
          some (head ++ text, m)
        -- a flag such as `--env=TOKEN=x`: the value is a pair again
        else maskPairAfter m connString n head value

/-- Nothing when the word is no pair. A key is a character or more with its `=`. -/
def maskPair (m : Masker) (w : List Char) (connString : Bool) : Option (List Char × Masker) :=
  m.maskPairAfter connString w.length [] w

end Masker

/-! ## Lists of pairs -/

def connectionStringKeys : List String := ["SERVER", "UID", "DRIVER", "DATABASE"]

def isListSep (c : Char) : Bool := c = ',' || c = ';'

def isConnectionString (w : List Char) : Bool :=
  (w.splitOnP isListSep).any fun item =>
    (Text.cut '=' item).any fun p => String.ofList (toUpper (unquote p.1)) ∈ connectionStringKeys

namespace Masker

/-- The loop of `maskPairList`, past what it has copied, for at most so many items. -/
def maskItems (m : Masker) (connString : Bool) : Nat → List Char → List Char × Masker
  | 0, w => (w, m)
  | n + 1, w =>
    let (item, rest) := run (fun c => !isListSep c) w
    match if '=' ∈ item then m.maskPair w connString else none with
    | some (text, m) =>
      -- up to the next `;` the words are still the value of a connection string
      let value := (cut '=' w).2.1
      (text, { m with connValue := connString && m.quote = none && ';' ∉ value })
    | none =>
      match rest with
      | [] => (w, m)
      | sep :: rest =>
        let (text, m) := maskItems m connString n rest
        (item ++ sep :: text, m)

/-- An item is a character or more with its separator, but for the last. -/
def maskPairList (m : Masker) (w : List Char) : List Char × Masker :=
  if (w.all fun c => !isListSep c) ∨ '=' ∉ w then (w, m)
  else m.maskItems (isConnectionString w) (w.length + 1) w

/-! ## Words in order -/

open Text (FirstRun runs)

/-- The part of `word` on what the word before announced. -/
def announced (m : Masker) (expected : Expectation) (w : List Char) : Option (List Char × Masker) :=
  -- a flag is never the value that was announced
  if w.head? = some '-' then none
  else match expected with
    | .anything => none
    | .value => some (m.maskWord w false)
    | .headerValue =>
      if isAuthScheme w then some (w, { m with expect := .value }) else some (m.maskWord w false)
    | .userinfo => if hasUserPassword w then some (m.maskUserinfo w) else none
    | .equals =>
      match w with
      | ['='] => some (w, { m with expect := .value })
      -- `key =value`
      | '=' :: value =>
        let (text, m) := m.maskWord value false
        some ('=' :: text, m)
      | _ => none

/-- The part of `word` on credentials in the word itself. -/
def scanned (m : Masker) (w : List Char) : List Char × Masker :=
  let w := maskDSNs (maskURLs w)
  let (name, isFlag) := flagName (unquote w)
  -- a flag without its value
  if isFlag ∧ '=' ∉ w then
    if isUserFlag name then (w, { m with expect := .userinfo })
    else if 1 < byteLen name ∧ isSensitiveKey name then (w, { m with expect := .value })
    else (w, m)
  else if isHeaderKey (unquote w) then
    if isSensitiveKey (unquote w).dropLast then (w, { m with expect := .headerValue }) else (w, m)
  else match m.maskKeyValue w with
    | some read => read
    | none =>
      match m.maskPair w false with
      | some read => read
      | none =>
        if isKeyName w ∧ isSensitiveKey w then (w, { m with expect := .equals })
        else m.maskPairList w

def word (m : Masker) (w : List Char) : List Char × Masker :=
  match m.quote with
  | some quote => m.continueQuoted quote w
  | none =>
    -- the value of a connection string goes on
    if m.connValue then
      (masked ++ trailingQuotes w, { m with connValue := ';' ∉ w, maskedValue := true })
    else
      let expected := m.expect
      let m := { m with expect := .anything }
      (m.announced expected w).getD (m.scanned w)

/-- The loop of `parts`. -/
def spaced : Masker → (inValue : Bool) → List (List Char) → List Char × Masker × Bool
  | m, inValue, [] => ([], m, inValue)
  | m, inValue, part :: rest =>
    if part.all isUnicodeSpace then
      let (out, m, maskedValue) := spaced m inValue rest
      (part ++ out, m, maskedValue)
    else
      let (text, m) := { m with maskedValue := false }.word part
      -- what comes after the value in the same word is hidden as well
      let text := if inValue then maskInValue text else text
      let (out, m, maskedValue) := spaced m (inValue || m.maskedValue) rest
      (text ++ out, m, maskedValue)

theorem spaced_space {m : Masker} {inValue : Bool} {run rest : List Char}
    (first : FirstRun isUnicodeSpace true run rest) :
    m.spaced inValue (runs isUnicodeSpace (run ++ rest)) =
      let (out, m, maskedValue) := m.spaced inValue (runs isUnicodeSpace rest)
      (run ++ out, m, maskedValue) := by
  rw [first.runs_append, spaced, if_pos first.all_eq]

theorem spaced_part {m : Masker} {inValue : Bool} {run rest : List Char}
    (first : FirstRun isUnicodeSpace false run rest) :
    m.spaced inValue (runs isUnicodeSpace (run ++ rest)) =
      let (text, m) := { m with maskedValue := false }.word run
      let (out, m, maskedValue) := m.spaced (inValue || m.maskedValue) (runs isUnicodeSpace rest)
      ((if inValue then maskInValue text else text) ++ out, m, maskedValue) := by
  rw [first.runs_append, spaced, if_neg (by simp [first.all_eq])]

def parts (m : Masker) (w : List Char) : List Char × Masker :=
  -- only a Unicode space splits a word further
  if isASCII w ∨ ¬w.any isUnicodeSpace then m.word w
  else
    let (out, m, maskedValue) := m.spaced false (runs isUnicodeSpace w)
    (out, { m with maskedValue })

/-- The loop of `text`. -/
def words (arg : Bool) : Masker → (inValue : Bool) → List (List Char) → List Char × Masker
  | m, _, [] => ([], m)
  | m, inValue, part :: rest =>
    if part.all isBreak then
      let (out, m) := words arg m inValue rest
      (part ++ out, m)
    else
      let (text, m) := { m with maskedValue := false }.parts part
      let text := if inValue then maskInValue text else text
      -- in an argument, all words after a masked value belong to it
      let (out, m) := words arg m (inValue || arg && m.maskedValue) rest
      (text ++ out, m)

theorem words_space {m : Masker} {arg inValue : Bool} {run rest : List Char}
    (first : FirstRun isBreak true run rest) :
    m.words arg inValue (runs isBreak (run ++ rest)) =
      let (out, m) := m.words arg inValue (runs isBreak rest)
      (run ++ out, m) := by
  rw [first.runs_append, words, if_pos first.all_eq]

theorem words_word {m : Masker} {arg inValue : Bool} {run rest : List Char}
    (first : FirstRun isBreak false run rest) :
    m.words arg inValue (runs isBreak (run ++ rest)) =
      let (text, m) := { m with maskedValue := false }.parts run
      let (out, m) := m.words arg (inValue || arg && m.maskedValue) (runs isBreak rest)
      ((if inValue then maskInValue text else text) ++ out, m) := by
  rw [first.runs_append, words, if_neg (by simp [first.all_eq])]

def text (m : Masker) (s : List Char) (arg : Bool) : List Char × Masker :=
  if s = [] then (s, m)
  else
    let (out, m) := m.words arg false (runs isBreak s)
    -- what a word leaves open ends with the text
    (maskXMLElements (maskJSONMembers out), { m with quote := none, connValue := false })

end Masker

/-! ## Command lines -/

/-- `shellCommandFlag`. -/
def isShellCommandFlag : List Char → Bool
  | '-' :: s => s.all Char.isLower && s.getLast? = some 'c'
  | _ => false

/-- `shellOptionWithValue`. -/
def isShellOptionWithValue (a : List Char) : Bool :=
  a = "--rcfile".toList || a = "--init-file".toList ||
    match a with
    | c :: s =>
      (c = '-' || c = '+') && s.all Char.isAlpha && (s.getLast? = some 'o' || s.getLast? = some 'O')
    | [] => false

def shells : List String := ["sh", "bash", "dash", "ash", "zsh", "ksh", "mksh", "busybox"]

/-- `path.Base`. -/
def base (path : List Char) : List Char :=
  if path = [] then ['.']
  else
    let last := (path.rdropWhile (· = '/')).rtakeWhile (· ≠ '/')
    if last = [] then ['/'] else last

namespace Masker

/-- What an argument says about the next one, whatever its text holds. -/
def reading (m : Masker) (a : List Char) : Masker :=
  { m with
    shellCommand := isShellCommandFlag a && String.ofList m.program ∈ shells
    optionValue := isShellOptionWithValue a }

/-- One round of the loop of `args`. -/
def arg (m : Masker) (a : List Char) : List Char × Masker :=
  let shellText := m.shellCommand
  let names := a.head? ≠ some '-' ∧ a.head? ≠ some '+' ∧ !m.optionValue
  let m := m.reading a
  -- past an argument that is too long, nothing is read any more
  if m.unread ∨ maxValueLen < byteLen a then (masked, { m with unread := true })
  else
    let (out, m) := m.text a !shellText
    -- a masked argument does not name the program
    if names ∧ ¬masked <:+: out then (out, { m with program := base a }) else (out, m)

theorem arg_unread {m : Masker} {a : List Char} (unread : m.unread = true ∨ maxValueLen < byteLen a) :
    m.arg a = (masked, { m.reading a with unread := true }) := if_pos unread

/-- After the text, only the program may change. -/
theorem arg_read {m : Masker} {a : List Char} (read : ¬(m.unread = true ∨ maxValueLen < byteLen a)) :
    ∃ program, m.arg a = (((m.reading a).text a !m.shellCommand).1,
      { ((m.reading a).text a !m.shellCommand).2 with program }) := by
  have reads : ¬((m.reading a).unread = true ∨ maxValueLen < byteLen a) := read
  unfold arg
  dsimp only
  rw [if_neg reads]
  split
  · exact ⟨base a, rfl⟩
  · exact ⟨((m.reading a).text a !m.shellCommand).2.program, rfl⟩

def args : Masker → List (List Char) → List (List Char) × Masker
  | m, [] => ([], m)
  | m, a :: rest =>
    let (out, m) := m.arg a
    let (outs, m) := args m rest
    (out :: outs, m)

end Masker

/-! ## Entry points (`secrets/secrets.go`) -/

def maskCommand (entrypoint cmd : List (List Char)) : List (List Char) × List (List Char) :=
  let (maskedEntrypoint, m) := ({} : Masker).args entrypoint
  (maskedEntrypoint, (m.args cmd).1)

def maskValue (s : List Char) : List Char :=
  if maxValueLen < byteLen s then masked else (({} : Masker).text s false).1

def maskEnvValue (key value : List Char) : List Char :=
  if isSensitiveKey key then masked else maskValue value

end Dockgraph.Secrets
