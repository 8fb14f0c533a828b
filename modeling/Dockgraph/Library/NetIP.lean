import Dockgraph.Library.Text

/-!
# IP addresses (`net/netip`)

Parsing, prefixes and the text of addresses. Text is a list of characters.
-/
namespace Dockgraph.NetIP

/-- An address; the zone of an IPv6 one is empty when it has none. -/
inductive Addr
  | v4 (bits : BitVec 32)
  | v6 (bits : BitVec 128) (zone : List Char)
  deriving DecidableEq

namespace Addr

def is6 : Addr → Bool
  | v4 _ => false
  | v6 _ _ => true

def bitLen : Addr → Nat
  | v4 _ => 32
  | v6 _ _ => 128

/-- `Addr.Unmap`: the IPv4 address that an IPv4-mapped IPv6 address stands for. -/
def unmap : Addr → Addr
  | v4 bits => v4 bits
  | v6 bits zone => if bits >>> 32 = 0xffff then v4 (bits.setWidth 32) else v6 bits zone

/-- `Addr.WithZone`; an IPv4 address has none. -/
def withZone (zone : List Char) : Addr → Addr
  | v4 bits => v4 bits
  | v6 bits _ => v6 bits zone

/-- `Addr.As16`: the 128 bits, of an IPv4 address those of its mapped form. -/
def as16 : Addr → BitVec 128
  | v4 bits => 0xffff00000000 ||| bits.setWidth 128
  | v6 bits _ => bits

/-- `AddrFrom4` of four octets. -/
def from4 (fields : List Nat) : Addr := v4 (BitVec.ofNat 32 (fields.foldl (fun n b => 256 * n + b) 0))

/-- The 128 bits of eight groups. -/
def from16 (groups : List Nat) (zone : List Char) : Addr :=
  v6 (BitVec.ofNat 128 (groups.foldl (fun n g => 65536 * n + g) 0)) zone

end Addr

/-! ## Parsing addresses -/

/-- The loop of `parseIPv4Fields`: the fields so far, the value of the next and its digits. -/
def parseFields : List Char → List Nat → Nat → Nat → Option (List Nat)
  | [], fields, val, _ => if fields.length < 3 then none else some (fields ++ [val])
  | c :: rest, fields, val, digLen =>
    if c.isDigit then
      -- no leading zeros
      if digLen = 1 ∧ val = 0 then none
      else
        let val := 10 * val + (c.toNat - '0'.toNat)
        if val > 255 then none else parseFields rest fields val (digLen + 1)
    else if c = '.' then
      -- no field without digits: at the start, at the end, between two dots
      if digLen = 0 ∨ rest = [] then none
      else if fields.length = 3 then none
      else parseFields rest (fields ++ [val]) 0 0
    else none

def parseIPv4Fields (s : List Char) : Option (List Nat) := parseFields s [] 0 0

def hexDigit (c : Char) : Option Nat :=
  if '0' ≤ c ∧ c ≤ '9' then some (c.toNat - '0'.toNat)
  else if 'a' ≤ c ∧ c ≤ 'f' then some (c.toNat - 'a'.toNat + 10)
  else if 'A' ≤ c ∧ c ≤ 'F' then some (c.toNat - 'A'.toNat + 10)
  else none

/-- The hex digits at the front, at most four: how many, their value and the rest. -/
def hexGroup (off acc : Nat) : List Char → Option (Nat × Nat × List Char)
  | [] => some (off, acc, [])
  | c :: rest =>
    match hexDigit c with
    | none => some (off, acc, c :: rest)
    | some d =>
      let acc := 16 * acc + d
      if off > 3 ∨ acc > 65535 then none else hexGroup (off + 1) acc rest

/-- The groups read so far, and how many of them stand before `::`. -/
structure Groups where
  groups : List Nat := []
  ellipsis : Option Nat := none

/-- The loop of `parseIPv6`, with room for some more groups: what it leaves of the text. -/
def parseGroups : Nat → List Char → Groups → Option (List Char × Groups)
  | 0, s, g => some (s, g)
  | room + 1, s, g =>
    match hexGroup 0 0 s with
    | none => none
    | some (off, acc, rest) =>
      if off = 0 then none
      else if rest.head? = some '.' then
        -- an IPv4 address in place of the last two groups
        if g.ellipsis = none ∧ g.groups.length ≠ 6 then none
        else if g.groups.length + 2 > 8 then none
        else match parseIPv4Fields s with
          | some [a, b, c, d] => some ([], { g with groups := g.groups ++ [256 * a + b, 256 * c + d] })
          | _ => none
      else
        let g := { g with groups := g.groups ++ [acc] }
        match rest with
        | [] => some ([], g)
        | [_] => none
        | c :: d :: rest =>
          if c ≠ ':' then none
          else if d = ':' then
            if g.ellipsis.isSome then none
            else
              let g := { g with ellipsis := some g.groups.length }
              if rest = [] then some ([], g) else parseGroups room rest g
          else parseGroups room (d :: rest) g

/-- Where `::` stands, zeros are put in. -/
def Groups.expand (g : Groups) : Option (List Nat) :=
  match g.ellipsis with
  | none => if g.groups.length < 8 then none else some g.groups
  | some n =>
    if g.groups.length < 8 then
      some (g.groups.take n ++ List.replicate (8 - g.groups.length) 0 ++ g.groups.drop n)
    else none

/-- `parseIPv6` of a text without its zone. -/
def parseIPv6Groups (s : List Char) : Option (List Nat) :=
  let read (s : List Char) (g : Groups) : Option (List Nat) :=
    match parseGroups 8 s g with
    | some ([], g) => g.expand
    | _ => none
  match s with
  | [':', ':'] => some (List.replicate 8 0)
  | ':' :: ':' :: s => read s { ellipsis := some 0 }
  | s => read s {}

def parseIPv6 (s : List Char) : Option Addr :=
  match Text.cut '%' s with
  | none => (parseIPv6Groups s).map fun groups => .from16 groups []
  | some (_, []) => none
  | some (s, zone) => (parseIPv6Groups s).map fun groups => .from16 groups zone

def parseAddr (s : List Char) : Option Addr :=
  match s.find? fun c => c = '.' ∨ c = ':' ∨ c = '%' with
  | some '.' => (parseIPv4Fields s).map .from4
  | some ':' => parseIPv6 s
  | _ => none

/-- `strconv.ParseUint(s, 10, 16)` -/
def parsePort (s : List Char) : Option Nat :=
  if s = [] ∨ ¬s.all Char.isDigit then none
  else
    let n := s.foldl (fun n d => 10 * n + (d.toNat - '0'.toNat)) 0
    if n < 2 ^ 16 then some n else none

/-- `ParseAddrPort`: what is before the last colon, in brackets exactly if it is IPv6, and the port. -/
def parseAddrPort (s : List Char) : Option (Addr × Nat) :=
  match Text.cut ':' s.reverse with
  | none => none
  | some (port, ip) =>
    let ip := ip.reverse
    let (ip, v6) :=
      match ip with
      | '[' :: inner => if inner.getLast? = some ']' then (some inner.dropLast, true) else (none, true)
      | ip => (some ip, false)
    match ip, parsePort port.reverse with
    | some ip, some port =>
      match parseAddr ip with
      | some a => if a.is6 = v6 then some (a, port) else none
      | none => none
    | _, _ => none

example : parseAddr "2001:db8::7".toList =
    some (.v6 0x20010db8000000000000000000000007 []) := by decide
example : parseAddr "::ffff:10.0.0.2".toList = some (.v6 0xffff0a000002 []) := by decide
example : parseAddrPort "203.0.113.7:4000".toList = some (.v4 0xcb007107, 4000) := by decide

/-! ## Prefixes -/

/-- A valid prefix. -/
structure Prefix where
  ip : Addr
  bits : Nat
  fits : bits ≤ ip.bitLen

/-- `Prefix.Contains`; never an address with a zone. -/
def Prefix.contains (p : Prefix) (ip : Addr) : Bool :=
  match p.ip, ip with
  | .v4 a, .v4 b => (b ^^^ a) >>> (32 - p.bits) = 0
  | .v6 a _, .v6 b zone => zone = [] ∧ (b ^^^ a) >>> (128 - p.bits) = 0
  | _, _ => false

/-- `PrefixFrom(a, bits).Masked()` -/
def masked (a : Addr) (bits : Nat) : Addr :=
  match a with
  | .v4 a => .v4 (a >>> (32 - bits) <<< (32 - bits))
  | .v6 a _ => .v6 (a >>> (128 - bits) <<< (128 - bits)) []

/-! ## The text of an address -/

def string4 (bits : BitVec 32) : String :=
  ".".intercalate ([24, 16, 8, 0].map fun k => toString ((bits >>> k).setWidth 8).toNat)

def hex (n : Nat) : String := String.ofList (Nat.toDigits 16 n)

/-- The longest run of two zero groups or more, the first of several: where it starts, and its length. -/
def zeroRun (groups : List Nat) : Option (Nat × Nat) :=
  (List.range 8).foldl
    (fun longest i =>
      let n := ((groups.drop i).takeWhile (· = 0)).length
      if n ≥ 2 ∧ n > (longest.map (·.2)).getD 0 then some (i, n) else longest)
    none

def string6 (bits : BitVec 128) : String :=
  let groups := [112, 96, 80, 64, 48, 32, 16, 0].map fun k => ((bits >>> k).setWidth 16).toNat
  match zeroRun groups with
  | none => ":".intercalate (groups.map hex)
  | some (i, n) =>
    ":".intercalate ((groups.take i).map hex) ++ "::" ++ ":".intercalate ((groups.drop (i + n)).map hex)

/-- `Addr.String` -/
def Addr.string : Addr → String
  | v4 bits => string4 bits
  | v6 bits zone =>
    let text := if bits >>> 32 = 0xffff then "::ffff:" ++ string4 (bits.setWidth 32) else string6 bits
    if zone = [] then text else text ++ "%" ++ String.ofList zone

/-- `PrefixFrom(a, bits).Masked().String()` -/
def maskedString (a : Addr) (bits : Nat) : String := (masked a bits).string ++ "/" ++ toString bits

end Dockgraph.NetIP
