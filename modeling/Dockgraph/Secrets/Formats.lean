import Dockgraph.Library.Text
import Dockgraph.Secrets.Keys

/-!
# Credentials in other formats (`secrets/formats.go`)

A pattern is a rule: what it matches at a place, taken apart. Its character classes leave one way to
match where each repetition ends, except for a run up to the last `@`.
-/
namespace Dockgraph.Secrets

open Rewrite

/-- `Masked`. -/
def masked : List Char := "********".toList

theorem eq_star_of_mem_masked {c : Char} (member : c ∈ masked) : c = '*' :=
  List.eq_of_mem_replicate (n := 8) member

/-- `\s`. -/
def isWhite (c : Char) : Bool := c ∈ ['\t', '\n', '\x0c', '\r', ' ']

/-- What comes after a text that opens another. -/
def after (opening : String) (s : List Char) : Option (List Char) :=
  if opening.toList.isPrefixOf s then some (s.drop opening.length) else none

/-- The longest run of a class, and the rest. -/
def run (p : Char → Bool) (s : List Char) : List Char × List Char := (s.takeWhile p, s.dropWhile p)

/-- `strings.Cut`. -/
def cut (sep : Char) (s : List Char) : List Char × List Char × Bool :=
  match Text.cut sep s with
  | some (before, rest) => (before, rest, true)
  | none => (s, [], false)

section

variable {s rest text : List Char}

theorem eq_of_after {opening : String} (read : after opening s = some rest) :
    s = opening.toList ++ rest := by
  unfold after at read
  split at read
  next starts =>
    obtain ⟨more, rfl⟩ := List.isPrefixOf_iff_prefix.mp starts
    rw [← Option.some.inj read, ← String.length_toList, List.drop_left]
  · cases read

theorem run_append (p : Char → Bool) (s : List Char) : (run p s).1 ++ (run p s).2 = s :=
  List.takeWhile_append_dropWhile

end

/-! ## JSON -/

/-- The rest of a string after its opening quote: what is up to the closing quote, and what comes
after: `(?:[^"\\]|\\.)*"`. -/
def jsonString : List Char → Option (List Char × List Char)
  | [] => none
  | '"' :: rest => some ([], rest)
  | '\\' :: c :: rest =>
    if c = '\n' then none else (jsonString rest).map fun p => ('\\' :: c :: p.1, p.2)
  | ['\\'] => none
  | c :: rest => (jsonString rest).map fun p => (c :: p.1, p.2)

/-- The same in JSON with every quote escaped: `[^"\\]*\\"`. -/
def escapedJSONString (s : List Char) : Option (List Char × List Char) :=
  let (text, rest) := run (fun c => c ≠ '"' ∧ c ≠ '\\') s
  (after "\\\"" rest).map fun rest => (text, rest)

/-- `\s*:\s*`. -/
def jsonColon (s : List Char) : Option (List Char × List Char) :=
  let (before, rest) := run isWhite s
  match rest with
  | ':' :: rest =>
    let (behind, rest) := run isWhite rest
    some (before ++ ':' :: behind, rest)
  | _ => none

/-- A member with a string value: its key, the separator, its value, and what comes after. -/
structure Member where
  key : List Char
  sep : List Char
  value : List Char
  rest : List Char

/-- `jsonMember` and `escapedJSONMember`, by how their strings are quoted. -/
def member (quote : String) (string : List Char → Option (List Char × List Char)) (s : List Char) :
    Option Member := do
  let (key, s) ← string (← after quote s)
  let (sep, s) ← jsonColon s
  let (value, rest) ← string (← after quote s)
  return { key, sep, value, rest }

/-- A member's text before its value. -/
def Member.head (quote : String) (m : Member) : List Char :=
  quote.toList ++ m.key ++ quote.toList ++ m.sep

def jsonMember : List Char → Option Member := member "\"" jsonString

def escapedJSONMember : List Char → Option Member := member "\\\"" escapedJSONString

/-- One round of the loop of `maskMembers`, at a match: the scan goes on from the value of a member
left as it is, and from the closing quote of a masked one. -/
def memberRule (pattern : List Char → Option Member) (quote : String) : Rule Char := fun s =>
  (pattern s).map fun m =>
    -- the value of a plain member may open the next member's key
    if !isSensitiveKey m.key then
      (m.head quote, quote.toList ++ m.value ++ quote.toList ++ m.rest)
    else (m.head quote ++ quote.toList ++ masked, quote.toList ++ m.rest)

def maskMembers (pattern : List Char → Option Member) (quote : String) (s : List Char) : List Char :=
  replaceAll (memberRule pattern quote) s

/-- `-?[0-9][0-9.eE+\-]*`. -/
def jsonNumber (s : List Char) : Option (List Char × List Char) :=
  let (minus, digits) := match s with
    | '-' :: rest => (['-'], rest)
    | _ => ([], s)
  match digits with
  | c :: rest =>
    if c.isDigit then
      let (more, rest) := run (fun c => c.isDigit ∨ c ∈ ['.', 'e', 'E', '+', '-']) rest
      some (minus ++ c :: more, rest)
    else none
  | [] => none

/-- `jsonNumberMember` and the function that replaces its matches. -/
def numberRule : Rule Char := fun s => do
  let (key, s) ← jsonString (← after "\"" s)
  let (sep, s) ← jsonColon s
  let (number, rest) ← jsonNumber s
  let head := '"' :: key ++ '"' :: sep
  if !isSensitiveKey key then return (head ++ number, rest)
  else return (head ++ '"' :: masked ++ ['"'], rest)

def maskJSONMembers (s : List Char) : List Char :=
  if '"' ∉ s ∨ ':' ∉ s then s
  else
    let s := maskMembers escapedJSONMember "\\\"" s
    let s := maskMembers jsonMember "\"" s
    replaceAll numberRule s

section

variable {s new rest text sep : List Char} {quote : String} {cover : Char → Prop}
  {string : List Char → Option (List Char × List Char)}

theorem eq_of_jsonString (read : jsonString s = some (text, rest)) : s = text ++ '"' :: rest := by
  -- the function's own cases
  induction s using jsonString.induct generalizing text rest with
  | case1 => cases read
  | case2 s =>
    rw [jsonString] at read
    cases read
    rfl
  | case3 s =>
    rw [jsonString, if_pos rfl] at read
    cases read
  | case4 c s other ih =>
    rw [jsonString, if_neg other] at read
    obtain ⟨⟨before, behind⟩, inner, same⟩ := Option.map_eq_some_iff.mp read
    cases same
    rw [ih inner]
    rfl
  | case5 => cases read
  | case6 c s notQuote notEscape notLast ih =>
    rw [jsonString] at read
    · obtain ⟨⟨before, behind⟩, inner, same⟩ := Option.map_eq_some_iff.mp read
      cases same
      rw [ih inner]
      rfl
    all_goals assumption

theorem eq_of_escapedJSONString (read : escapedJSONString s = some (text, rest)) :
    s = text ++ "\\\"".toList ++ rest := by
  unfold escapedJSONString at read
  obtain ⟨behind, closed, same⟩ := Option.map_eq_some_iff.mp read
  cases same
  rw [List.append_assoc, ← eq_of_after closed]
  exact (run_append _ s).symm

theorem eq_of_jsonColon (read : jsonColon s = some (sep, rest)) : s = sep ++ rest := by
  unfold jsonColon at read
  dsimp only at read
  split at read
  next behind colon =>
    cases read
    have before := run_append isWhite s
    rw [colon] at before
    rw [List.append_assoc, List.cons_append, run_append, before]
  · cases read

theorem eq_of_jsonNumber (read : jsonNumber s = some (text, rest)) : s = text ++ rest := by
  unfold jsonNumber at read
  split at read
  next minus digits signed =>
    have whole : s = minus ++ digits := by
      split at signed <;> cases signed <;> rfl
    cases digits with
    | nil => cases read
    | cons c digits =>
      obtain ⟨-, same⟩ := Option.ite_none_right_eq_some.mp read
      cases same
      rw [whole, List.append_assoc, List.cons_append, List.takeWhile_append_dropWhile]

/-- How a string of a member ends. -/
def Closes (quote : String) (string : List Char → Option (List Char × List Char)) : Prop :=
  ∀ s text rest, string s = some (text, rest) → s = text ++ quote.toList ++ rest

theorem jsonString_closes : Closes "\"" jsonString := by
  intro s text rest read
  rw [List.append_assoc]
  exact eq_of_jsonString read

theorem escapedJSONString_closes : Closes "\\\"" escapedJSONString :=
  fun _ _ _ => eq_of_escapedJSONString

theorem eq_of_member {m : Member} (closes : Closes quote string)
    (read : member quote string s = some m) :
    s = m.head quote ++ (quote.toList ++ m.value ++ quote.toList ++ m.rest) := by
  simp only [member, Option.bind_eq_bind, Option.bind_eq_some_iff, Prod.exists] at read
  obtain ⟨s₁, opened, key, s₂, keyed, sep, s₃, colon, s₄, valued, value, s₅, closed, same⟩ := read
  cases same
  rw [eq_of_after opened, closes _ _ _ keyed, eq_of_jsonColon colon, eq_of_after valued,
    closes _ _ _ closed]
  simp only [Member.head, List.append_assoc]

/-- A member whose key is not sensitive is copied. -/
theorem memberRule_copies (closes : Closes quote string)
    (plain : ∀ key, key ⊆ s → isSensitiveKey key = false)
    (applied : memberRule (member quote string) quote s = some (new, rest)) : new ++ rest = s := by
  obtain ⟨m, read, same⟩ := Option.map_eq_some_iff.mp applied
  have whole := eq_of_member closes read
  have key : m.key ⊆ s := by
    intro c member
    rw [whole]
    simp [Member.head, member]
  rw [plain m.key key, Bool.not_false, if_pos rfl] at same
  cases same
  exact whole.symm

theorem memberRule_redacts (star : cover '*') (closes : Closes quote string)
    (applied : memberRule (member quote string) quote s = some (new, rest)) :
    ∃ read, s = read ++ rest ∧ Redacted cover read new := by
  obtain ⟨m, read, same⟩ := Option.map_eq_some_iff.mp applied
  have whole := eq_of_member closes read
  -- copied, or the value covered
  split at same <;> cases same
  · exact ⟨m.head quote, whole, .refl _⟩
  · refine ⟨m.head quote ++ quote.toList ++ m.value, by simpa using whole, ?_⟩
    have hides : ∀ c ∈ masked, cover c := fun c member => eq_star_of_mem_masked member ▸ star
    exact (Redacted.refl _).append (.whole m.value hides)

theorem numberRule_some (applied : numberRule s = some (new, rest)) :
    ∃ key sep number, s = '"' :: key ++ '"' :: sep ++ number ++ rest ∧
      if isSensitiveKey key then new = '"' :: key ++ '"' :: sep ++ '"' :: masked ++ ['"']
      else new = '"' :: key ++ '"' :: sep ++ number := by
  simp only [numberRule, Option.bind_eq_bind, Option.bind_eq_some_iff, Prod.exists] at applied
  obtain ⟨s₁, opened, key, s₂, keyed, sep, s₃, colon, number, s₄, digits, same⟩ := applied
  have whole : s = '"' :: key ++ '"' :: sep ++ number ++ s₄ := by
    rw [eq_of_after opened, eq_of_jsonString keyed, eq_of_jsonColon colon, eq_of_jsonNumber digits]
    simp
  refine ⟨key, sep, number, ?_⟩
  by_cases sensitive : isSensitiveKey key
  · rw [sensitive] at same
    cases same
    exact ⟨whole, if_pos sensitive ▸ rfl⟩
  · rw [Bool.not_eq_true] at sensitive
    rw [sensitive] at same
    cases same
    exact ⟨whole, by rw [sensitive]; rfl⟩

theorem numberRule_redacts (star : cover '*') (double : cover '"')
    (applied : numberRule s = some (new, rest)) :
    ∃ read, s = read ++ rest ∧ Redacted cover read new := by
  obtain ⟨key, sep, number, whole, written⟩ := numberRule_some applied
  refine ⟨_, whole, ?_⟩
  split at written <;> subst written
  · have hides : ∀ c ∈ '"' :: masked ++ ['"'], cover c := by
      have stars : ∀ c ∈ masked, cover c := fun c member => eq_star_of_mem_masked member ▸ star
      simpa [or_imp, forall_and, double] using stars
    have redacted : Redacted cover (('"' :: key ++ '"' :: sep) ++ number)
      (('"' :: key ++ '"' :: sep) ++ ('"' :: masked ++ ['"'])) :=
        (Redacted.refl _).append (.whole number hides)
    simpa using redacted
  · exact .refl _

theorem redacted_maskMembers (star : cover '*') (closes : Closes quote string) (s : List Char) :
    Redacted cover s (maskMembers (member quote string) quote s) :=
  redacted_scan (fun _ _ _ => memberRule_redacts star closes) _ s

theorem redacted_maskJSONMembers (star : cover '*') (double : cover '"') (s : List Char) :
    Redacted cover s (maskJSONMembers s) := by
  unfold maskJSONMembers
  split
  · exact .refl s
  · have escaped := redacted_maskMembers star escapedJSONString_closes s
    have json := redacted_maskMembers star jsonString_closes (maskMembers escapedJSONMember "\\\"" s)
    exact (escaped.trans json).trans (redacted_scan (fun _ _ _ => numberRule_redacts star double) _ _)

end

/-! ## XML -/

def isNameStart (c : Char) : Bool := c.isAlpha || c = '_'

/-- The characters of an identifier. -/
def isNameChar (c : Char) : Bool := c.isAlphanum || c ∈ ['_', '.', '-']

/-- `[A-Za-z_][A-Za-z0-9_.\-:]*`. -/
def xmlName : List Char → Option (List Char × List Char)
  | [] => none
  | c :: s =>
    if isNameStart c then
      let (more, rest) := run (fun c => isNameChar c || c = ':') s
      some (c :: more, rest)
    else none

/-- `(\s[^<>]*)?>`. -/
def xmlAttributes (s : List Char) : Option (List Char × List Char) :=
  match s with
  | '>' :: rest => some ([], rest)
  | c :: _ =>
    if isWhite c then
      let (attributes, rest) := run (fun c => c ≠ '<' ∧ c ≠ '>') s
      (after ">" rest).map fun rest => (attributes, rest)
    else none
  | [] => none

/-- `xmlElement` and the function that replaces its matches. -/
def xmlRule : Rule Char := fun s => do
  let (name, s) ← xmlName (← after "<" s)
  let (attributes, s) ← xmlAttributes s
  let (text, s) := run (fun c => c ≠ '<') s
  let (closing, s) ← xmlName (← after "</" s)
  let (white, s) := run isWhite s
  let rest ← after ">" s
  let opening := '<' :: name ++ attributes ++ ['>']
  let ending := '<' :: '/' :: closing ++ white ++ ['>']
  if name ≠ closing ∨ !isSensitiveKey name then return (opening ++ text ++ ending, rest)
  else return (opening ++ masked ++ ending, rest)

def maskXMLElements (s : List Char) : List Char :=
  if ¬Contains s "</" then s else replaceAll xmlRule s

section

variable {s new rest name attributes : List Char} {cover : Char → Prop}

theorem eq_of_xmlName (read : xmlName s = some (name, rest)) : s = name ++ rest := by
  cases s with
  | nil => cases read
  | cons c s =>
    obtain ⟨-, same⟩ := Option.ite_none_right_eq_some.mp read
    cases same
    rw [List.cons_append, List.takeWhile_append_dropWhile]

theorem eq_of_xmlAttributes (read : xmlAttributes s = some (attributes, rest)) :
    s = attributes ++ '>' :: rest := by
  unfold xmlAttributes at read
  -- no attributes, or white space and what it opens
  split at read
  · cases read
    rfl
  next c s _ =>
    obtain ⟨-, closed⟩ := Option.ite_none_right_eq_some.mp read
    obtain ⟨behind, closes, same⟩ := Option.map_eq_some_iff.mp closed
    cases same
    have whole : _ ++ _ = c :: s := run_append (fun c => c ≠ '<' ∧ c ≠ '>') (c :: s)
    exact whole.symm.trans (congrArg (_ ++ ·) (eq_of_after closes))
  · cases read

theorem xmlRule_redacts (star : cover '*') (applied : xmlRule s = some (new, rest)) :
    ∃ read, s = read ++ rest ∧ Redacted cover read new := by
  simp only [xmlRule, Option.bind_eq_bind, Option.bind_eq_some_iff, Prod.exists] at applied
  obtain ⟨s₁, opened, name, s₂, named, attributes, s₃, attributed, s₄, closes, closing, s₅, ends, s₆,
    closed, same⟩ := applied
  generalize texts : run (fun c => decide (c ≠ '<')) s₃ = text at closes same
  generalize whites : run isWhite s₅ = white at closed same
  have text_eq : s₃ = text.1 ++ text.2 := by rw [← texts, run_append]
  have white_eq : s₅ = white.1 ++ white.2 := by rw [← whites, run_append]
  have whole : s = ('<' :: name ++ attributes ++ ['>']) ++ text.1 ++
      ('<' :: '/' :: closing ++ white.1 ++ ['>']) ++ s₆ := by
    rw [eq_of_after opened, eq_of_xmlName named, eq_of_xmlAttributes attributed, text_eq,
      eq_of_after closes, eq_of_xmlName ends, white_eq, eq_of_after closed]
    simp
  split at same <;> cases same
  · exact ⟨_, whole, .refl _⟩
  · have hides : ∀ c ∈ masked, cover c := fun c member => eq_star_of_mem_masked member ▸ star
    exact ⟨_, whole, ((Redacted.refl _).append (.whole text.1 hides)).append (.refl _)⟩

theorem redacted_maskXMLElements (star : cover '*') (s : List Char) :
    Redacted cover s (maskXMLElements s) := by
  unfold maskXMLElements
  split
  · exact .refl s
  · exact redacted_scan (fun _ _ _ => xmlRule_redacts star) _ s

end

/-! ## DSNs -/

/-- The protocol of a Go DSN with its parenthesis: `(?:tcp|tcp4|tcp6|udp|unix)\(`. -/
def goProtocol (s : List Char) : Option (List Char × List Char) :=
  (["tcp(", "tcp4(", "tcp6(", "udp(", "unix("].find? fun protocol =>
    protocol.toList.isPrefixOf s).map fun protocol => (protocol.toList, s.drop protocol.length)

/-- `(\S*)@((?:tcp|tcp4|tcp6|udp|unix)\()`: up to the last such `@` of the run. -/
def goPassword : List Char → Option (List Char × List Char × List Char)
  | [] => none
  | c :: s =>
    if isWhite c then none
    else match goPassword s with
      -- a later `@` is preferred
      | some (password, rest) => some (c :: password, rest)
      | none => if c = '@' then (goProtocol s).map fun p => ([], p) else none

/-- `goDSN` and its replacement. -/
def goDSNRule : Rule Char := fun s => do
  let (user, s) := run (fun c => c ∉ [':', '@', '\'', '"', '=', ',', ';'] ∧ !isWhite c) s
  let (_, protocol, rest) ← goPassword (← after ":" s)
  return (user ++ ':' :: masked ++ '@' :: protocol, rest)

/-- `oracleURL` and its replacement. -/
def oracleURLRule : Rule Char := fun s => do
  let (driver, s) := run Char.isAlphanum (← after "jdbc:oracle:" s)
  if driver = [] then none
  else
    let (user, s) := run (fun c => c ∉ ['/', '@', ':'] ∧ !isWhite c) (← after ":" s)
    let (_, s) := run (fun c => c ≠ '@' ∧ !isWhite c) (← after "/" s)
    let rest ← after "@" s
    return ("jdbc:oracle:".toList ++ driver ++ ':' :: user ++ '/' :: masked ++ ['@'], rest)

def maskDSNs (w : List Char) : List Char :=
  let w := if Contains w "jdbc:oracle:" then replaceAll oracleURLRule w else w
  -- `goDSNProtocol`
  if w.tails.any fun t => ((after "@" t).bind goProtocol).isSome then replaceAll goDSNRule w else w

/-! ## URLs -/

/-- `[A-Za-z][A-Za-z0-9+.\-]*://`. -/
def urlScheme : List Char → Option (List Char × List Char)
  | [] => none
  | c :: s =>
    if c.isAlpha then
      let (more, s) := run (fun c => c.isAlphanum ∨ c ∈ ['+', '.', '-']) s
      (after "://" s).map fun rest => (c :: more ++ "://".toList, rest)
    else none

/-- `([^/?#\s]*)@`: up to the last `@` of the run. -/
def urlUser : List Char → Option (List Char × List Char)
  | [] => none
  | c :: s =>
    if c ∈ ['/', '?', '#'] ∨ isWhite c then none
    else match urlUser s with
      -- a later `@` is preferred
      | some (userinfo, rest) => some (c :: userinfo, rest)
      | none => if c = '@' then some ([], s) else none

/-- `urlUserinfo` and the function that replaces its matches. -/
def urlUserinfoRule : Rule Char := fun s => do
  let (scheme, s) ← urlScheme s
  let (userinfo, rest) ← urlUser s
  if userinfo = [] then return (scheme ++ ['@'], rest)
  else
    let (user, _, hasPassword) := cut ':' userinfo
    if hasPassword then return (scheme ++ user ++ ':' :: masked ++ ['@'], rest)
    -- a user alone may be a token
    else return (scheme ++ masked ++ ['@'], rest)

/-- `urlPassword` and the function that replaces its matches. -/
def urlPasswordRule : Rule Char := fun s => do
  let (scheme, s) ← urlScheme s
  let (user, s) := run (fun c => c ∉ [':', '/', '?', '#', '@'] ∧ !isWhite c) s
  let (password, s) := run (fun c => c ≠ '@' ∧ !isWhite c) (← after ":" s)
  let rest ← after "@" s
  -- those are `urlUserinfoRule`'s
  if password.all fun c => c ∉ ['/', '?', '#'] then none
  else
    let port := password.takeWhile fun c => c ∉ ['/', '?', '#']
    -- `host:port/path@` has no password
    if port ≠ [] ∧ port.all Char.isDigit then
      return (scheme ++ user ++ ':' :: password ++ ['@'], rest)
    else return (scheme ++ user ++ ':' :: masked ++ ['@'], rest)

/-- `queryParam` and the function that replaces its matches. -/
def queryParamRule : Rule Char := fun s => do
  let (c, s) ← match s with
    | [] => none
    | c :: s => if c ∈ ['?', '&', ';'] then some (c, s) else none
  let (name, s) := run (fun c => c ∉ ['=', '&', '#', ';'] ∧ !isWhite c) s
  if name = [] then none
  else
    let (value, rest) := run (fun c => c ∉ ['&', '#', ';'] ∧ !isWhite c) (← after "=" s)
    if !isSensitiveKey name then return (c :: name ++ '=' :: value, rest)
    else return (c :: name ++ '=' :: masked, rest)

def maskURLs (s : List Char) : List Char :=
  if Contains s "://" then
    replaceAll queryParamRule (replaceAll urlPasswordRule (replaceAll urlUserinfoRule s))
  else if '?' ∉ s ∧ '&' ∉ s then s
  else replaceAll queryParamRule s

end Dockgraph.Secrets
