import Dockgraph.Collector.NodeCount
import Dockgraph.Library.Keyed

/-!
# The budget of extends (`collector/compose_extends.go`, `collector/compose_limits.go`)

What extends copies is counted in YAML nodes before the loader copies it. The sums are in 64 bits,
and the same sums in unbounded numbers say what they are to be.
-/
namespace Dockgraph.Collector

open Keyed

/-! ## Extends within a section -/

/-- The field `extends` of an entry: none, a name, or a mapping with or without a file. -/
inductive Extends
  | none
  | scalar (value : String)
  | mapping (file : Bool) (service : String)

def extendsBase : Extends → String
  | .none => ""
  | .scalar value => value
  | .mapping file service => if file then "" else service

/-- The entries of a section with their sizes. The code's sizes are 64-bit. -/
structure SectionServices (N : Type) where
  size : AList fun _ : String => N := ∅
  base : AList fun _ : String => String := ∅

namespace SectionServices

variable {N : Type} [Zero N] [Add N]

def put (s : SectionServices N) (name : String) (size : N) (base : String) : SectionServices N where
  size := s.size.insert name size
  base := if base ≠ "" then s.base.insert name base else s.base

def add (s o : SectionServices N) : SectionServices N where
  size := o.size.entries.foldl (fun size e => size.insert e.1 ((size.lookup e.1).getD 0 + e.2)) s.size
  base := o.base.entries.foldl (fun base e => base.insert e.1 e.2) s.base

/-- The first argument is how many more extends are followed. -/
def resolve (s : SectionServices N) (depth : Nat) (name : String)
    (resolved : AList fun _ : String => N) : N × AList fun _ : String => N :=
  match resolved.lookup name with
  | some n => (n, resolved)
  | none =>
    let n := (s.size.lookup name).getD 0
    match depth, s.base.lookup name with
    | depth + 1, some base =>
      let (m, resolved) := s.resolve depth base resolved
      (n + m, resolved.insert name (n + m))
    | _, _ => (n, resolved.insert name n)

/-- A loop over names, each resolved from the start. -/
def resolveEach (s : SectionServices N) : List String → (AList fun _ : String => N) →
    List N × AList fun _ : String => N
  | [], resolved => ([], resolved)
  | name :: rest, resolved =>
    let (n, resolved) := s.resolve s.size.keys.length name resolved
    let (ns, resolved) := s.resolveEach rest resolved
    (n :: ns, resolved)

/-- What extends copies, and the largest entry. -/
def extendsCopies [Max N] (ord : RangeOrder) (s : SectionServices N) : N × N :=
  let (sizes, resolved) := s.resolveEach (ord.visit s.size.keys) ∅
  let (copies, _) := s.resolveEach ((ord.visit s.base.entries).map Sigma.snd) resolved
  (copies.foldl (fun copied n => copied + n) 0, sizes.foldl max 0)

end SectionServices

/-! ## Documents -/

/-- `definition` points to the copy of its node that the decoder made. -/
structure Entry (Ptr : Type) where
  name : String
  definition : Ptr
  extend : Extends := .none

/-- A document as decoded. A section that does not decode has no entries. -/
structure Document where
  Ptr : Type
  [decEq : DecidableEq Ptr]
  [finite : Fintype Ptr]
  graph : YamlGraph Ptr
  services : List (Entry Ptr) := []
  jobs : List (Entry Ptr) := []

attribute [instance] Document.decEq Document.finite

namespace Document

/-- No walk that counts each node once is deeper: between two nodes there is at most an alias. -/
def depth (doc : Document) : Nat := 2 * Fintype.card doc.Ptr + 1

/-- The sections as the loops over them visit them. -/
def visited (ord : RangeOrder) (doc : Document) : List (String × List (Entry doc.Ptr)) :=
  (ord.visit [("services", doc.services), ("jobs", doc.jobs)]).map fun s => (s.1, ord.visit s.2)

/-- The loop over a section's entries. -/
def countEntries (doc : Document) : List (Entry doc.Ptr) → NodeCounts doc.Ptr → SectionServices Int64 →
    Option (SectionServices Int64 × NodeCounts doc.Ptr)
  | [], counted, services => some (services, counted)
  | e :: rest, counted, services => do
    let (size, counted) ← nodeCount doc.graph doc.depth e.definition counted
    doc.countEntries rest counted (services.put e.name size (extendsBase e.extend))

/-- The loop over the sections. -/
def countSections (doc : Document) : List (String × List (Entry doc.Ptr)) → NodeCounts doc.Ptr →
    Option (List (String × SectionServices Int64))
  | [], _ => some []
  | (name, entries) :: rest, counted => do
    let (services, counted) ← doc.countEntries entries counted {}
    let sections ← doc.countSections rest counted
    some ((name, services) :: sections)

end Document

def documentServices (ord : RangeOrder) (doc : Document) : Option (List (String × SectionServices Int64)) :=
  doc.countSections (doc.visited ord) ∅

/-! ## Headers -/

section Header

variable {N : Type} [Zero N] [Add N] [Max N] (ord : RangeOrder)

/-- The total so far, and the sections with the documents merged. -/
structure Tally (N : Type) [Zero N] where
  extendsNodes : N := 0
  whole : AList fun _ : String => SectionServices N := ∅

/-- Body of the loop over a document's sections. -/
def Tally.addSection (t : Tally N) (found : String × SectionServices N) : Tally N where
  extendsNodes := t.extendsNodes + (found.2.extendsCopies ord).1
  whole := t.whole.insert found.1 (((t.whole.lookup found.1).getD {}).add found.2)

/-- The sizes among the header of a compose file. -/
structure ComposeSizes (N : Type) where
  extendsNodes : N
  largestService : N

def tally (documents : List (List (String × SectionServices N))) : Tally N :=
  documents.foldl (fun t sections => sections.foldl (Tally.addSection ord) t) {}

def composeSizes (documents : List (List (String × SectionServices N))) : ComposeSizes N :=
  let tally := tally ord documents
  { extendsNodes := tally.extendsNodes
    largestService := ((ord.visit tally.whole.keys).map fun name =>
      (((tally.whole.lookup name).getD {}).extendsCopies ord).2).foldl max 0 }

end Header

def decodeComposeHeader (ord : RangeOrder) (documents : List Document) : Option (ComposeSizes Int64) :=
  (documents.mapM (documentServices ord)).map (composeSizes ord)

/-! ## The budget of a parse -/

def maxExtendsNodes : Nat := 100_000

structure ComposeBudget where
  extendsNodes : Int64 := 0

/-- The error, and the budget either way. -/
def ComposeBudget.extend (b : ComposeBudget) (path : String) (nodes : Int64) :
    Option String × ComposeBudget :=
  let b := { b with extendsNodes := b.extendsNodes + nodes }
  if Int64.ofNat maxExtendsNodes < b.extendsNodes then
    (some (path ++ ": extends copies more than " ++ toString maxExtendsNodes ++ " YAML nodes in total"), b)
  else (none, b)

/-- An entry of a model in memory, with what `modelNodes` and `modelExtendsBase` find of it. -/
structure ModelEntry where
  name : String
  nodes : Nat
  base : String := ""

/-- What is charged to the budget: the extends of a file without includes, a use of an extends
file, and the extends of a model, whose values are sized in memory without aliases. -/
inductive Charge
  | file (path : String) (documents : List Document)
  | extendsFile (path : String) (documents : List Document)
  | model (path : String) (sections : List (List ModelEntry))

namespace Charge

def path : Charge → String
  | file path _ => path
  | extendsFile path _ => path
  | model path _ => path

def documents : Charge → List Document
  | file _ documents => documents
  | extendsFile _ documents => documents
  | model _ _ => []

end Charge

/-- The loop over the entries of a model's section. -/
def modelSection {N : Type} (ord : RangeOrder) (size : Nat → N) (entries : List ModelEntry) : SectionServices N :=
  (ord.visit entries).foldl (fun services e => services.put e.name (size e.nodes) e.base) {}

def modelExtendsCopies (ord : RangeOrder) (sections : List (List ModelEntry)) : Int64 :=
  sections.foldl (fun total entries => total + ((modelSection ord Int64.ofNat entries).extendsCopies ord).1) 0

/-- Sizes in other numbers. -/
def SectionServices.map {M N : Type} (f : M → N) (s : SectionServices M) : SectionServices N where
  size := mapValues f s.size
  base := s.base

/-- The nodes that the code counts. -/
def Charge.count (ord : RangeOrder) : Charge → Option Int64
  | file _ documents => (decodeComposeHeader ord documents).map ComposeSizes.extendsNodes
  | extendsFile _ documents => (decodeComposeHeader ord documents).map ComposeSizes.largestService
  | model _ sections => some (modelExtendsCopies ord sections)

/-- Charges in turn, up to the first that is refused. -/
def ComposeBudget.spend (ord : RangeOrder) (b : ComposeBudget) :
    List Charge → Option (Option String × ComposeBudget)
  | [] => some (none, b)
  | c :: rest => do
    let n ← c.count ord
    match b.extend c.path n with
    | (some err, b) => some (some err, b)
    | (none, b) => b.spend ord rest

end Dockgraph.Collector
