import Dockgraph.Collector.EventHistory
import Dockgraph.Library.Checks
import Dockgraph.Library.NetIP
import Mathlib.Algebra.GroupWithZero.Nat

/-!
# Which hosts are served (`api/hosts.go`)

The allowlist of Host headers, and the log of those it refuses. Text is a list of characters; times are
nanoseconds.
-/
namespace Dockgraph.Api

open Text

structure HostAllowlist where
  any : Bool := false
  exact : List (List Char) := []
  /-- With their leading dot. -/
  suffixes : List (List Char) := []

section Allowlist

variable (lower : Char → Char)

/-- A trailing root dot goes; `lower` is `unicode.ToLower`. -/
def normalizeHost (host : List Char) : List Char :=
  let host := host.map lower
  if host.getLast? = some '.' then host.dropLast else host

/-- `"*.example.com"` reads as `".example.com"`. -/
def allowedName (field : List Char) : List Char :=
  match normalizeHost lower (trimSpace field) with
  | '*' :: '.' :: rest => '.' :: rest
  | name => name

/-- One field of `ParseAllowedHosts`; the error names it. -/
def HostAllowlist.addField (h : HostAllowlist) (field : List Char) : Except (List Char) HostAllowlist :=
  match allowedName lower field with
  | [] => .ok h
  | ['*'] => .ok { h with any := true }
  | name =>
    if name.any fun c => c ∈ ['*', '/', ':', '@', ' '] then .error field
    else if name.head? = some '.' then .ok { h with suffixes := h.suffixes ++ [name] }
    else .ok { h with exact := name :: h.exact }

def parseAllowedHosts (s : String) : Except (List Char) HostAllowlist :=
  (split ',' s.toList).foldlM (HostAllowlist.addField lower) {}

/-- `net.SplitHostPort` -/
def splitHostPort (hostport : List Char) : Option (List Char × List Char) :=
  match cut ':' hostport.reverse with
  | none => none
  | some (port, before) =>
    let port := port.reverse
    match hostport with
    | '[' :: inner =>
      match cut ']' inner with
      | none => none
      -- the bracket closes right before the last colon
      | some (host, rest) => if rest = ':' :: port ∧ '[' ∉ inner ∧ ']' ∉ rest then some (host, port) else none
    | _ =>
      let host := before.reverse
      if ':' ∈ host ∨ '[' ∈ hostport ∨ ']' ∈ hostport then none else some (host, port)

def hostOnly (hostport : List Char) : List Char :=
  normalizeHost lower <|
    match splitHostPort hostport with
    | some (host, _) => host
    | none =>
      match hostport with
      | '[' :: inner => if inner.getLast? = some ']' then inner.dropLast else hostport
      | _ => hostport

/-- `strings.HasSuffix` -/
def hasSuffix (s suffix : List Char) : Bool := suffix.isSuffixOf s

def HostAllowlist.allows (h : HostAllowlist) (hostport : List Char) : Bool :=
  if h.any then true
  else
    let host := hostOnly lower hostport
    if host = [] then false
    else if (NetIP.parseAddr host).isSome then true
    else if host = "localhost".toList || hasSuffix host ".localhost".toList then true
    else if host ∈ h.exact then true
    else h.suffixes.any fun suffix => host = suffix.drop 1 || hasSuffix host suffix

end Allowlist

/-! ## Whom the list serves -/

/-- What a field of the list stands for. -/
inductive HostEntry
  | any
  | name (name : List Char)
  /-- A domain and what is below it. -/
  | under (domain : List Char)

/-- The labels of a name, the most specific first. -/
def labels (name : List Char) : List (List Char) := split '.' name

def HostEntry.Serves (host : List Char) : HostEntry → Prop
  | any => True
  | name n => host = n
  | under domain => labels domain <:+ labels host

/-- The entry of a normalised name. -/
def hostEntry : List Char → Option HostEntry
  | [] => none
  | ['*'] => some .any
  | '.' :: domain => some (.under domain)
  | name => some (.name name)

theorem labels_append_dot (a b : List Char) : labels (a ++ '.' :: b) = labels a ++ labels b := split_append_sep '.' a b

/-- A domain's labels end the labels of its own name and of the names below it. -/
theorem labels_suffix_iff (domain host : List Char) :
    labels domain <:+ labels host ↔ host = domain ∨ '.' :: domain <:+ host := by
  constructor
  · rintro ⟨front, whole⟩
    by_cases none : front = []
    · subst none
      exact .inl (split_inj whole.symm)
    · obtain ⟨pre, rfl⟩ := split_append_eq none whole.symm
      exact .inr ⟨pre, rfl⟩
  · rintro (rfl | ⟨pre, rfl⟩)
    · exact List.suffix_refl _
    · exact ⟨labels pre, (labels_append_dot pre domain).symm⟩

/-- What has been read of the list serves as its entries do. -/
structure Reads (lower : Char → Char) (h : HostAllowlist) (fields : List (List Char)) : Prop where
  any : h.any = true ↔ ∃ f ∈ fields, hostEntry (allowedName lower f) = some .any
  exact : ∀ name, name ∈ h.exact ↔ ∃ f ∈ fields, hostEntry (allowedName lower f) = some (.name name)
  suffixes : ∀ suffix, suffix ∈ h.suffixes ↔
    ∃ domain, suffix = '.' :: domain ∧ ∃ f ∈ fields, hostEntry (allowedName lower f) = some (.under domain)

section Parse

variable {lower : Char → Char}

/-- What one field does to the list. -/
theorem addField_cases {h h' : HostAllowlist} {field : List Char} (added : h.addField lower field = .ok h') :
    (hostEntry (allowedName lower field) = none ∧ h' = h) ∨
      (hostEntry (allowedName lower field) = some .any ∧ h' = { h with any := true }) ∨
      (∃ domain, hostEntry (allowedName lower field) = some (.under domain) ∧
        h' = { h with suffixes := h.suffixes ++ ['.' :: domain] }) ∨
      ∃ name, hostEntry (allowedName lower field) = some (.name name) ∧ h' = { h with exact := name :: h.exact } := by
  unfold HostAllowlist.addField at added
  split at added
  · next none => exact .inl ⟨by rw [none]; rfl, (Except.ok.inj added).symm⟩
  · next star => exact .inr (.inl ⟨by rw [star]; rfl, (Except.ok.inj added).symm⟩)
  · next nonempty notStar =>
    split at added
    · cases added
    generalize allowedName lower field = name at *
    rcases name with _ | ⟨c, rest⟩
    · exact absurd rfl nonempty
    by_cases dot : c = '.'
    · subst dot
      exact .inr (.inr (.inl ⟨rest, rfl, (Except.ok.inj added).symm⟩))
    · rw [if_neg (by simpa using dot)] at added
      refine .inr (.inr (.inr ⟨c :: rest, ?_, (Except.ok.inj added).symm⟩))
      unfold hostEntry
      split <;> simp_all

/-- One field adds its entry. -/
theorem Reads.addField {h h' : HostAllowlist} {fields : List (List Char)} (reads : Reads lower h fields)
    {field : List Char} (added : h.addField lower field = .ok h') : Reads lower h' (fields ++ [field]) := by
  obtain ⟨any, exact, suffixes⟩ := reads
  rcases addField_cases added with ⟨entry, rfl⟩ | ⟨entry, rfl⟩ | ⟨domain, entry, rfl⟩ | ⟨name, entry, rfl⟩
  · constructor <;> simp [entry, any, exact, suffixes, or_and_right, exists_or]
  · refine ⟨by simp [entry], ?_, ?_⟩ <;> simp [entry, exact, suffixes, or_and_right, exists_or]
  · refine ⟨by simp [entry, any, or_and_right, exists_or], by simp [entry, exact, or_and_right, exists_or], fun suffix => ?_⟩
    simp only [List.mem_append, List.mem_singleton, suffixes, or_and_right, exists_or, exists_eq_left, entry,
      Option.some_inj, HostEntry.under.injEq, and_or_left]
    exact or_congr_right ⟨fun last => ⟨domain, last, rfl⟩, fun ⟨_, last, same⟩ => same ▸ last⟩
  · refine ⟨by simp [entry, any, or_and_right, exists_or], fun n => ?_, by simp [entry, suffixes, or_and_right, exists_or]⟩
    simp only [List.mem_cons, exact, List.mem_append, or_and_right, exists_or, List.not_mem_nil, or_false,
      exists_eq_left, entry, Option.some_inj, HostEntry.name.injEq]
    exact or_comm.trans (or_congr_right eq_comm)

theorem reads_foldlM {fields : List (List Char)} {h : HostAllowlist}
    (parsed : fields.foldlM (HostAllowlist.addField lower) {} = .ok h) : Reads lower h fields := by
  -- by the fields read
  induction fields using List.reverseRecOn generalizing h with
  | nil =>
    obtain rfl := Except.ok.inj parsed
    constructor <;> simp
  | append_singleton fields field ih =>
    rw [List.foldlM_append] at parsed
    obtain ⟨before, first, added⟩ := Checks.bind_ok.mp parsed
    rw [List.foldlM_cons] at added
    obtain ⟨after, last, rest⟩ := Checks.bind_ok.mp added
    obtain rfl := Except.ok.inj rest
    exact (ih first).addField last

/-- The fields of the list, as they are served. -/
def entries (lower : Char → Char) (s : String) : List HostEntry :=
  (split ',' s.toList).filterMap fun field => hostEntry (allowedName lower field)

/-- Labels, not characters, decide which names are below a domain. -/
theorem hasSuffix_dot (host domain : List Char) :
    (host = domain ∨ hasSuffix host ('.' :: domain) = true) ↔ labels domain <:+ labels host := by
  rw [labels_suffix_iff, hasSuffix, List.isSuffixOf_iff_suffix]

/-- The server answers a request if the list has every host, or if the name is an IP address, of `localhost`, or
one that an entry serves. -/
theorem allows_iff {s : String} {h : HostAllowlist} (parsed : parseAllowedHosts lower s = .ok h)
    (hostport : List Char) :
    h.allows lower hostport = true ↔ .any ∈ entries lower s ∨ hostOnly lower hostport ≠ [] ∧
      ((NetIP.parseAddr (hostOnly lower hostport)).isSome ∨
        labels "localhost".toList <:+ labels (hostOnly lower hostport) ∨
        ∃ e ∈ entries lower s, e.Serves (hostOnly lower hostport)) := by
  have reads := reads_foldlM parsed
  have listed (e : HostEntry) : e ∈ entries lower s ↔
      ∃ f ∈ split ',' s.toList, hostEntry (allowedName lower f) = some e := List.mem_filterMap
  have dotted : ".localhost".toList = '.' :: "localhost".toList := rfl
  rw [HostAllowlist.allows, listed, ← reads.any]
  dsimp only
  rw [dotted]
  -- the four tests in turn, each settled before the next is looked at
  generalize "localhost".toList = loopback
  by_cases any : h.any = true
  · simp [any]
  generalize hostOnly lower hostport = host
  by_cases empty : host = []
  · simp [any, empty]
  by_cases address : (NetIP.parseAddr host).isSome = true
  · simp [any, empty, address]
  rw [if_neg any, if_neg empty, if_neg address]
  simp only [any, empty, address, Bool.false_eq_true, false_or, ne_eq, not_false_eq_true, true_and,
    ← hasSuffix_dot host loopback]
  by_cases own : host = loopback ∨ hasSuffix host ('.' :: loopback) = true
  · rw [if_pos (by simpa using own)]
    exact iff_of_true rfl (.inl own)
  rw [if_neg (by simpa using own)]
  simp only [own, false_or]
  -- what is left is to be named by the list
  constructor
  · intro allowed
    split at allowed
    · next named => exact ⟨.name host, (listed _).mpr ((reads.exact host).mp named), rfl⟩
    · obtain ⟨suffix, held, below⟩ := List.any_eq_true.mp allowed
      obtain ⟨domain, rfl, field⟩ := (reads.suffixes suffix).mp held
      exact ⟨.under domain, (listed _).mpr field, (hasSuffix_dot host domain).mp (by simpa using below)⟩
  · rintro ⟨e, entry, serves⟩
    cases e with
    | any => exact absurd (reads.any.mpr ((listed _).mp entry)) any
    | name n =>
      obtain rfl : host = n := serves
      exact if_pos ((reads.exact host).mpr ((listed _).mp entry))
    | under domain =>
      split
      · rfl
      · refine List.any_eq_true.mpr ⟨'.' :: domain, (reads.suffixes _).mpr ⟨domain, rfl, (listed _).mp entry⟩, ?_⟩
        simpa using (hasSuffix_dot host domain).mpr serves

theorem allows_iff_lab : ∃ h, parseAllowedHosts Char.toLower "dockgraph.lan, *.Lab.example" = .ok h ∧
    (h.allows Char.toLower "a.lab.example:7800".toList = true ↔
      .any ∈ entries Char.toLower "dockgraph.lan, *.Lab.example" ∨
        hostOnly Char.toLower "a.lab.example:7800".toList ≠ [] ∧
          ((NetIP.parseAddr (hostOnly Char.toLower "a.lab.example:7800".toList)).isSome ∨
            labels "localhost".toList <:+ labels (hostOnly Char.toLower "a.lab.example:7800".toList) ∨
            ∃ e ∈ entries Char.toLower "dockgraph.lan, *.Lab.example",
              e.Serves (hostOnly Char.toLower "a.lab.example:7800".toList))) :=
  ⟨_, rfl, allows_iff rfl _⟩

end Parse

/-! ## The log of refused hosts -/

def hostLogInterval : Nat := 60 * 10 ^ 9

def hostLogBurst : Nat := 5

def maxLoggedHostLen : Nat := 253

inductive HostLine
  /-- So many requests went unlogged in the interval before. -/
  | more (n : Nat)
  | rejected (host : String)
  deriving DecidableEq

structure RejectedHostLog where
  /-- When the interval began, if any has. -/
  since : Option Nat := none
  logged : List String := []
  suppressed : Nat := 0

namespace RejectedHostLog

/-- A new interval, with what it reports of the last one. -/
def renew (l : RejectedHostLog) (now : Nat) : List HostLine × RejectedHostLog :=
  if l.since.all fun since => since + hostLogInterval ≤ now then
    (if l.suppressed > 0 then [.more l.suppressed] else [], { since := some now })
  else ([], l)

def note (l : RejectedHostLog) (host : String) (now : Nat) : List HostLine × RejectedHostLog :=
  let (lines, l) := l.renew now
  if host ∈ l.logged then (lines, l)
  else if l.logged.length ≥ hostLogBurst then (lines, { l with suppressed := l.suppressed + 1 })
  else (lines ++ [.rejected host], { l with logged := host :: l.logged })

/-- `shortHost` -/
def shortHost (host : String) : String :=
  let cut := Collector.capText host maxLoggedHostLen
  if cut.utf8ByteSize < host.utf8ByteSize then cut ++ "..." else host

/-- The requests that the lines on unlogged requests stand for. -/
def reported (lines : List (Nat × HostLine)) : Nat :=
  (lines.map fun p => match p.2 with | .more n => n | .rejected _ => 0).sum

section Runs

variable {l : RejectedHostLog} {host : String} {now : Nat}

end Runs

/-- The host a request is refused for with a 403, and the lines it leaves. -/
def hostCheck (lower : Char → Char) (allow : HostAllowlist) (l : RejectedHostLog) (path host : String) (now : Nat) :
    Option String × List HostLine × RejectedHostLog :=
  if path ≠ "/healthz" ∧ allow.allows lower host.toList = false then
    let host := shortHost (String.ofList (hostOnly lower host.toList))
    let (lines, l) := l.note host now
    (some host, lines, l)
  else (none, [], l)

end RejectedHostLog

end Dockgraph.Api
