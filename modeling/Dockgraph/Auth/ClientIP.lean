import Dockgraph.Library.NetIP

/-!
# The client's address (`auth/clientip.go`)

Behind trusted proxies it is the rightmost entry of X-Forwarded-For that is not one of them.
-/
namespace Dockgraph.Auth

open NetIP

/-- Of `http.Request`: the peer, and the values of a header, one for each of its lines. -/
structure Request where
  remoteAddr : String
  header : String → List String

def forwardedFor : String := "X-Forwarded-For"

abbrev TrustedProxies := List Prefix

def TrustedProxies.trusts (t : TrustedProxies) (a : Addr) : Bool :=
  let a := a.unmap.withZone []
  t.any fun p => p.contains a

def peerAddr (r : Request) : Option Addr :=
  (parseAddrPort r.remoteAddr.toList).map fun ap => ap.1.unmap.withZone []

def splitHeaderList (values : List String) : List (List Char) :=
  values.flatMap fun v => ((Text.split ',' v.toList).map Text.trimSpace).filter fun h => h ≠ []

/-- One entry: an address, with a port or not, or an IPv6 address in brackets. -/
def parseHop (s : List Char) : Option Addr :=
  match parseAddr s with
  | some a => some (a.unmap.withZone [])
  | none =>
    match parseAddrPort s with
    | some (a, _) => some (a.unmap.withZone [])
    | none =>
      match s with
      | '[' :: inner =>
        if inner.getLast? = some ']' then
          match parseAddr inner.dropLast with
          | some a => if a.is6 then some (a.unmap.withZone []) else none
          | none => none
        else none
      | _ => none

/-- The loop of `ClientAddr` over the entries, the last first. -/
def TrustedProxies.walk (t : TrustedProxies) : List (List Char) → Addr → Addr
  | [], addr => addr
  | h :: hops, addr =>
    match parseHop h with
    -- the chain is broken here
    | none => addr
    | some hop => if t.trusts hop then t.walk hops hop else hop

def TrustedProxies.clientAddr (t : TrustedProxies) (r : Request) : Option Addr :=
  match peerAddr r with
  | none => none
  | some addr =>
    if t.trusts addr then some (t.walk (splitHeaderList (r.header forwardedFor)).reverse addr)
    else some addr

/-- `64:ff9b::/96` -/
def nat64Prefix : Prefix where
  ip := .v6 0x0064ff9b000000000000000000000000 []
  bits := 96
  fits := by decide

def clientBucket (a : Addr) : String :=
  if nat64Prefix.contains a then (Addr.v4 (a.as16.setWidth 32)).string
  else if a.is6 then maskedString a 64
  else a.string

def TrustedProxies.clientKey (t : TrustedProxies) (r : Request) : String :=
  match t.clientAddr r with
  | some addr => clientBucket addr
  | none => r.remoteAddr

/-! ## Text in front of a header -/

/-- Lines before the first one, or text and a comma on it. -/
inductive Prepended (values : List String) : List String → Prop
  | lines (more : List String) : Prepended values (more ++ values)
  | text (more : List String) (text : String) {line : String} {rest : List String}
      (first : values = line :: rest) : Prepended values (more ++ (text ++ "," ++ line) :: rest)

theorem splitHeaderList_cons (line : String) (values : List String) :
    splitHeaderList (line :: values) = splitHeaderList [line] ++ splitHeaderList values := by
  rw [← List.singleton_append, splitHeaderList, List.flatMap_append]
  rfl

theorem splitHeaderList_append (more values : List String) :
    splitHeaderList (more ++ values) = splitHeaderList more ++ splitHeaderList values :=
  List.flatMap_append

theorem splitHeaderList_comma (text line : String) :
    splitHeaderList [text ++ "," ++ line] = splitHeaderList [text] ++ splitHeaderList [line] := by
  have chars : (text ++ "," ++ line).toList = text.toList ++ ',' :: line.toList := by simp
  simp only [splitHeaderList, List.flatMap_cons, List.flatMap_nil, List.append_nil]
  rw [chars, Text.split_append_sep, List.map_append, List.filter_append]

theorem Prepended.entries {values forged : List String} (prepended : Prepended values forged) :
    ∃ more, splitHeaderList forged = more ++ splitHeaderList values := by
  cases prepended with
  | lines more => exact ⟨_, splitHeaderList_append more values⟩
  | @text more text line rest first =>
    subst first
    refine ⟨splitHeaderList more ++ splitHeaderList [text], ?_⟩
    rw [splitHeaderList_append, splitHeaderList_cons, splitHeaderList_comma, splitHeaderList_cons line rest]
    simp only [List.append_assoc]

/-! ## The walk -/

section Walk

variable (t : TrustedProxies)

/-- The walk goes no further left than this entry. -/
def Stops (h : List Char) : Prop := ∀ hop, parseHop h = some hop → t.trusts hop = false

theorem walk_cons {h : List Char} {hop : Addr} (parsed : parseHop h = some hop) (hops : List (List Char))
    (addr : Addr) : t.walk (h :: hops) addr = if t.trusts hop then t.walk hops hop else hop := by
  rw [TrustedProxies.walk, parsed]

theorem walk_append {hops : List (List Char)} (stops : ∃ h ∈ hops, Stops t h) (more : List (List Char))
    (addr : Addr) : t.walk (hops ++ more) addr = t.walk hops addr := by
  -- from the right; the walk is over before it comes to `more`
  induction hops generalizing addr with
  | nil => simp at stops
  | cons h hops ih =>
    rw [List.cons_append]
    cases parsed : parseHop h with
    | none => rw [TrustedProxies.walk, TrustedProxies.walk, parsed]
    | some hop =>
      rw [walk_cons t parsed, walk_cons t parsed]
      by_cases trusted : t.trusts hop
      · rw [if_pos trusted, if_pos trusted]
        obtain ⟨stop, member, stops⟩ := stops
        rcases List.mem_cons.mp member with rfl | later
        · rw [stops hop parsed] at trusted
          cases trusted
        · exact ih ⟨stop, later, stops⟩ hop
      · rw [if_neg trusted, if_neg trusted]

/-- A walk that ends at a trusted address has only passed trusted ones. -/
theorem trusted_of_walk {hops : List (List Char)} {addr : Addr} (result : t.trusts (t.walk hops addr))
    {read rest : List (List Char)} (split : hops = read ++ rest) (parses : ∀ h ∈ read, (parseHop h).isSome) :
    ∀ h ∈ read, ∀ hop, parseHop h = some hop → t.trusts hop := by
  -- from the right; each step goes on only from a trusted address
  induction read generalizing hops addr with
  | nil => exact fun h member => absurd member List.not_mem_nil
  | cons h read ih =>
    subst split
    obtain ⟨hop, parsed⟩ := Option.isSome_iff_exists.mp (parses h List.mem_cons_self)
    rw [List.cons_append, walk_cons t parsed] at result
    have trusted : t.trusts hop := by
      by_contra untrusted
      rw [if_neg untrusted] at result
      exact untrusted result
    rw [if_pos trusted] at result
    intro g member hop' parsed'
    rcases List.mem_cons.mp member with rfl | later
    · rw [parsed] at parsed'
      exact Option.some.inj parsed' ▸ trusted
    · exact ih result rfl (fun g later => parses g (List.mem_cons_of_mem h later)) g later hop' parsed'

theorem clientAddr_prepended {r forged : Request} (peer : forged.remoteAddr = r.remoteAddr)
    (stops : ∃ h ∈ splitHeaderList (r.header forwardedFor), Stops t h)
    (prepended : Prepended (r.header forwardedFor) (forged.header forwardedFor)) :
    t.clientAddr forged = t.clientAddr r := by
  obtain ⟨more, entries⟩ := prepended.entries
  have stops' : ∃ h ∈ (splitHeaderList (r.header forwardedFor)).reverse, Stops t h := by
    simpa only [List.mem_reverse] using stops
  simp only [TrustedProxies.clientAddr, peerAddr, peer, entries, List.reverse_append, walk_append t stops']

/-- Nothing a client puts in front of what the proxies write changes whom the server takes it for. -/
theorem client_unforged :
    (∀ r forged : Request, forged.remoteAddr = r.remoteAddr →
      (∃ peer, peerAddr r = some peer ∧ t.trusts peer) →
      (∃ h ∈ splitHeaderList (r.header forwardedFor), Stops t h) →
      Prepended (r.header forwardedFor) (forged.header forwardedFor) →
        t.clientAddr forged = t.clientAddr r ∧ t.clientKey forged = t.clientKey r) ∧
    (∀ (r : Request) (peer : Addr), peerAddr r = some peer → t.trusts peer = false →
      t.clientAddr r = some peer) ∧
    ∀ (r : Request) (addr : Addr), t.clientAddr r = some addr → t.trusts addr →
      ∀ left entries, splitHeaderList (r.header forwardedFor) = left ++ entries →
        (∀ h ∈ entries, (parseHop h).isSome) → ∀ h ∈ entries, ∀ hop, parseHop h = some hop → t.trusts hop := by
  refine ⟨fun r forged peer _ stops prepended => ?_, fun r peer parsed untrusted => ?_,
    fun r addr result trusted left entries split parses h member => ?_⟩
  · have same := clientAddr_prepended t peer stops prepended
    exact ⟨same, by rw [TrustedProxies.clientKey, TrustedProxies.clientKey, same, peer]⟩
  · rw [TrustedProxies.clientAddr, parsed]
    exact if_neg (by rw [untrusted]; exact Bool.false_ne_true)
  · obtain ⟨peer, parsed⟩ : ∃ peer, peerAddr r = some peer := by
      refine Option.ne_none_iff_exists'.mp fun none => ?_
      rw [TrustedProxies.clientAddr, none] at result
      cases result
    rw [TrustedProxies.clientAddr, parsed] at result
    by_cases proxy : t.trusts peer
    · rw [← Option.some.inj ((if_pos proxy).symm.trans result)] at trusted
      have reversed : (splitHeaderList (r.header forwardedFor)).reverse = entries.reverse ++ left.reverse := by
        rw [split, List.reverse_append]
      exact trusted_of_walk t trusted reversed (fun h member => parses h (List.mem_reverse.mp member)) h
        (List.mem_reverse.mpr member)
    · rw [← Option.some.inj ((if_neg proxy).symm.trans result)] at trusted
      exact absurd trusted proxy

end Walk

/-- A client behind the proxy 10.0.0.2 that claims to be 1.1.1.1. -/
theorem client_unforged_spoofed :
    let t : TrustedProxies := [{ ip := .v4 0x0a000000, bits := 8, fits := by decide }]
    let request (values : List String) : Request := { remoteAddr := "10.0.0.2:4000", header := fun _ => values }
    t.clientKey (request ["1.1.1.1" ++ "," ++ "198.51.100.1"]) = t.clientKey (request ["198.51.100.1"]) := by
  intro t request
  have peer : ∃ peer, peerAddr (request ["198.51.100.1"]) = some peer ∧ t.trusts peer :=
    ⟨.v4 0x0a000002, by decide, by decide⟩
  have stops : ∃ h ∈ splitHeaderList ["198.51.100.1"], Stops t h := by
    refine ⟨"198.51.100.1".toList, by decide, fun hop parsed => ?_⟩
    rw [show parseHop "198.51.100.1".toList = some (.v4 0xc6336401) by decide] at parsed
    rw [← Option.some.inj parsed]
    decide
  let forged := request ["1.1.1.1" ++ "," ++ "198.51.100.1"]
  exact ((client_unforged t).1 (request ["198.51.100.1"]) forged rfl peer stops
    (.text [] "1.1.1.1" rfl)).2

end Dockgraph.Auth
