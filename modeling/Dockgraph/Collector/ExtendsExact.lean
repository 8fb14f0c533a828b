import Dockgraph.Collector.ExtendsSizes

/-!
# When the budget of extends is exact

Sums wrap as the unbounded ones do, so the code counts right what is below `2 ^ 63`. A maximum
does not wrap so: it is right when all it is taken of is.
-/
namespace Dockgraph.Collector

open Keyed

/-! ## Sums in other numbers -/

section Map

variable {M N : Type} [Zero M] [Add M] [Zero N] [Add N] {f : M → N}

/-- Numbers whose sums are those of others. -/
structure Additive (f : M → N) : Prop where
  zero : f 0 = 0
  add : ∀ a b, f (a + b) = f a + f b

namespace Additive

variable (additive : Additive f)
include additive

theorem getD (o : Option M) : (o.map f).getD 0 = f (o.getD 0) := by
  cases o with
  | none => exact additive.zero.symm
  | some n => rfl

theorem foldl_add (ns : List M) (n : M) :
    (ns.map f).foldl (fun total m => total + m) (f n) = f (ns.foldl (fun total m => total + m) n) := by
  rw [List.foldl_map]
  exact List.foldl_hom f fun total m => (additive.add total m).symm

end Additive

namespace SectionServices

omit [Zero M] [Add M] [Zero N] [Add N] in
theorem map_put (s : SectionServices M) (name : String) (size : M) (base : String) :
    (s.put name size base).map f = (s.map f).put name (f size) base := by
  simp only [put, map, mapValues_insert]

variable (additive : Additive f)
include additive

theorem map_add (s o : SectionServices M) : (s.add o).map f = (s.map f).add (o.map f) := by
  have sizes : ∀ (entries : List ((_ : String) × M)) (size : AList fun _ : String => M),
      mapValues f (entries.foldl (fun size e => size.insert e.1 ((size.lookup e.1).getD 0 + e.2)) size) =
        (entries.map fun e => (⟨e.1, f e.2⟩ : (_ : String) × N)).foldl
          (fun size e => size.insert e.1 ((size.lookup e.1).getD 0 + e.2)) (mapValues f size) := by
    intro entries size
    rw [List.foldl_map]
    refine (List.foldl_hom (mapValues f) fun size e => ?_).symm
    rw [mapValues_insert, additive.add, ← additive.getD, ← lookup_mapValues]
  simp only [SectionServices.add, map, sizes]
  rfl

theorem resolve_map (s : SectionServices M) (depth : Nat) (name : String)
    (resolved : AList fun _ : String => M) :
    (s.map f).resolve depth name (mapValues f resolved) =
      (f (s.resolve depth name resolved).1, mapValues f (s.resolve depth name resolved).2) := by
  have size (name : String) : ((s.map f).size.lookup name).getD 0 = f ((s.size.lookup name).getD 0) := by
    rw [map, lookup_mapValues, additive.getD]
  have lookup {name : String} {o : Option M} (found : resolved.lookup name = o) :
      (mapValues f resolved).lookup name = o.map f := by
    rw [lookup_mapValues, found]
  cases known : resolved.lookup name with
  | some n => rw [resolve_known (lookup known), resolve_known known]
  | none =>
    by_cases alone : depth = 0 ∨ s.base.lookup name = none
    · rw [resolve_alone (lookup known) alone, resolve_alone known alone, size, mapValues_insert]
    · rw [not_or] at alone
      obtain ⟨depth, rfl⟩ := Nat.exists_eq_succ_of_ne_zero alone.1
      obtain ⟨other, extended⟩ := Option.ne_none_iff_exists'.mp alone.2
      have extended' : (s.map f).base.lookup name = some other := extended
      rw [resolve_extended (lookup known) extended', resolve_extended known extended, size,
        resolve_map s depth other resolved]
      simp only [additive.add, mapValues_insert]

theorem resolveEach_map (s : SectionServices M) (names : List String) (resolved : AList fun _ : String => M) :
    (s.map f).resolveEach names (mapValues f resolved) =
      ((s.resolveEach names resolved).1.map f, mapValues f (s.resolveEach names resolved).2) := by
  have keys : (s.map f).size.keys = s.size.keys := keys_mapValues f s.size
  induction names generalizing resolved with
  | nil => rfl
  | cons name rest ih => simp only [resolveEach, keys, resolve_map additive, ih, List.map_cons]

omit additive in
/-- The entries with their extends applied. -/
def resolved {N : Type} [Zero N] [Add N] (ord : RangeOrder) (s : SectionServices N) : List N :=
  (s.resolveEach (ord.visit s.size.keys) ∅).1

theorem resolved_map (ord : RangeOrder) (s : SectionServices M) :
    (s.map f).resolved ord = (s.resolved ord).map f := by
  have keys : (s.map f).size.keys = s.size.keys := keys_mapValues f s.size
  rw [resolved, keys, ← mapValues_empty f, resolveEach_map additive]
  rfl

theorem copied_map [Max M] [Max N] (ord : RangeOrder) (s : SectionServices M) :
    ((s.map f).extendsCopies ord).1 = f (s.extendsCopies ord).1 := by
  have keys : (s.map f).size.keys = s.size.keys := keys_mapValues f s.size
  have base : (s.map f).base = s.base := rfl
  simp only [extendsCopies, keys, base, ← mapValues_empty f, resolveEach_map additive]
  rw [← additive.zero, additive.foldl_add]

omit additive in
theorem snd_extendsCopies {N : Type} [Zero N] [Add N] [Max N] (ord : RangeOrder) (s : SectionServices N) :
    (s.extendsCopies ord).2 = (s.resolved ord).foldl max 0 := rfl

end SectionServices

section Tally

variable [Max M] [Max N] (additive : Additive f) (ord : RangeOrder)

def Tally.map (f : M → N) (t : Tally M) : Tally N where
  extendsNodes := f t.extendsNodes
  whole := mapValues (SectionServices.map f) t.whole

/-- The sections of a document in other numbers. -/
def mapSections (f : M → N) (sections : List (String × SectionServices M)) :
    List (String × SectionServices N) :=
  sections.map fun s => (s.1, s.2.map f)

include additive

theorem Tally.addSection_map (t : Tally M) (found : String × SectionServices M) :
    (t.addSection ord found).map f = (t.map f).addSection ord (found.1, found.2.map f) := by
  have merged : (((t.map f).whole.lookup found.1).getD {}).add (found.2.map f) =
      (((t.whole.lookup found.1).getD {}).add found.2).map f := by
    rw [SectionServices.map_add additive, Tally.map, lookup_mapValues]
    cases t.whole.lookup found.1 <;> rfl
  have total : (t.map f).extendsNodes = f t.extendsNodes := rfl
  simp only [Tally.addSection, merged, total, SectionServices.copied_map additive, ← additive.add]
  simp only [Tally.map, mapValues_insert]

theorem tally_map (documents : List (List (String × SectionServices M))) :
    (tally ord documents).map f = tally ord (documents.map (mapSections f)) := by
  have sections (found : List (String × SectionServices M)) (t : Tally M) :
      (mapSections f found).foldl (Tally.addSection ord) (t.map f) =
        (found.foldl (Tally.addSection ord) t).map f := by
    rw [mapSections, List.foldl_map]
    exact List.foldl_hom (Tally.map f) fun t s => (Tally.addSection_map additive ord t s).symm
  have start : (({} : Tally M).map f) = {} := by
    simp only [Tally.map, additive.zero, mapValues_empty]
  rw [tally, tally, List.foldl_map, ← start]
  exact (List.foldl_hom (Tally.map f) fun t found => sections found t).symm

end Tally

end Map

/-! ## Exactness in 64 bits -/

theorem additive_ofNat : Additive Int64.ofNat := ⟨rfl, Int64.ofNat_add⟩

theorem max_ofNat {m n : Nat} (hm : m < 2 ^ 63) (hn : n < 2 ^ 63) :
    max (Int64.ofNat m) (Int64.ofNat n) = Int64.ofNat (max m n) := by
  have le : Int64.ofNat m ≤ Int64.ofNat n ↔ m ≤ n := by
    rw [Int64.le_iff_toInt_le, Int64.toInt_ofNat_of_lt hm, Int64.toInt_ofNat_of_lt hn, Int.ofNat_le]
  change (if Int64.ofNat m ≤ Int64.ofNat n then Int64.ofNat n else Int64.ofNat m) = _
  by_cases less : m ≤ n
  · rw [if_pos (le.mpr less), max_eq_right less]
  · rw [if_neg (mt le.mp less), max_eq_left (Nat.le_of_not_le less)]

theorem foldl_max_ofNat {ns : List Nat} {n : Nat} (small : ns.foldl max n < 2 ^ 63) :
    (ns.map Int64.ofNat).foldl max (Int64.ofNat n) = Int64.ofNat (ns.foldl max n) := by
  induction ns generalizing n with
  | nil => rfl
  | cons m rest ih =>
    rw [List.foldl_cons] at small
    have start : max n m ≤ rest.foldl max (max n m) :=
      (SectionServices.isGreatest_foldl_max rest (max n m)).2 List.mem_cons_self
    rw [List.map_cons, List.foldl_cons, max_ofNat (by omega) (by omega), ih small, List.foldl_cons]

section Copies

variable (ord : RangeOrder)

/-- What is counted for a section is what its entries, in unbounded numbers, come to. -/
structure CopiesExact (found : SectionServices Int64) (expanded : SectionServices Nat) : Prop where
  copied : (found.extendsCopies ord).1.toInt = expanded.copied ord
  largest : (found.extendsCopies ord).2.toInt = expanded.largest ord

/-- What a section's entries come to is below `2 ^ 63`. -/
structure CopiesFit (expanded : SectionServices Nat) : Prop where
  copied : expanded.copied ord < 2 ^ 63
  largest : expanded.largest ord < 2 ^ 63

variable {ord}

theorem largest_ofNat {s : SectionServices Nat} (small : (s.extendsCopies ord).2 < 2 ^ 63) :
    ((s.map Int64.ofNat).extendsCopies ord).2 = Int64.ofNat (s.extendsCopies ord).2 := by
  rw [SectionServices.snd_extendsCopies, SectionServices.resolved_map additive_ofNat,
    SectionServices.snd_extendsCopies]
  exact foldl_max_ofNat small

/-- A 64-bit number is below `2 ^ 63`, so it is not exact beyond. -/
theorem lt_of_toInt_eq {c : Int64} {n : Nat} (exact : c.toInt = n) : n < 2 ^ 63 := by
  have bound := c.toInt_lt
  omega

theorem copiesExact_iff {s : SectionServices Nat} (based : s.Based) :
    CopiesExact ord (s.map Int64.ofNat) s ↔ CopiesFit ord s := by
  have walk := SectionServices.extendsCopies_eq_copied based ord
  have copied := SectionServices.copied_map additive_ofNat ord s
  constructor
  · intro exact
    exact ⟨lt_of_toInt_eq exact.copied, lt_of_toInt_eq exact.largest⟩
  · intro fit
    refine ⟨?_, ?_⟩
    · rw [copied, walk, Int64.toInt_ofNat_of_lt fit.copied]
    · have largest := @largest_ofNat ord s
      rw [walk] at largest
      rw [largest fit.largest, Int64.toInt_ofNat_of_lt fit.largest]

/-- The sections of a parse's files, in unbounded numbers. -/
abbrev ExpandedFile := List (List (String × SectionServices Nat))

theorem extendsNodes_ofNat (file : ExpandedFile) :
    (composeSizes ord (file.map (mapSections Int64.ofNat))).extendsNodes =
      Int64.ofNat (composeSizes ord file).extendsNodes := by
  rw [composeSizes, ← tally_map additive_ofNat]
  rfl

theorem largestService_ofNat {file : ExpandedFile} (small : (composeSizes ord file).largestService < 2 ^ 63) :
    (composeSizes ord (file.map (mapSections Int64.ofNat))).largestService =
      Int64.ofNat (composeSizes ord file).largestService := by
  rw [composeSizes] at small ⊢
  rw [← tally_map additive_ofNat]
  have keys : ((tally ord file).map Int64.ofNat).whole.keys = (tally ord file).whole.keys :=
    keys_mapValues _ _
  have each : ∀ name ∈ ord.visit (tally ord file).whole.keys,
      ((((((tally ord file).map Int64.ofNat).whole.lookup name).getD {}).extendsCopies ord).2 =
        Int64.ofNat ((((tally ord file).whole.lookup name).getD {}).extendsCopies ord).2) := by
    intro name listed
    have merged : (((tally ord file).map Int64.ofNat).whole.lookup name).getD {} =
        (((tally ord file).whole.lookup name).getD {}).map Int64.ofNat := by
      rw [Tally.map, lookup_mapValues]
      cases (tally ord file).whole.lookup name <;> rfl
    rw [merged]
    exact largest_ofNat (((SectionServices.isGreatest_foldl_max _ 0).2
      (List.mem_cons_of_mem 0 (List.mem_map_of_mem listed))).trans_lt small)
  dsimp only
  rw [keys, List.map_congr_left each]
  have all := foldl_max_ofNat small
  rwa [List.map_map] at all

end Copies

/-! ## Documents -/

namespace Document

variable (doc : Document) (ord : RangeOrder)

/-- The number of nodes a node stands for. -/
noncomputable def nodes (p : doc.Ptr) : Nat :=
  open Classical in if noCycle : NoCycle doc.graph then expandedNodes noCycle p else 0

/-- The sections with their entries sized one by one. -/
def sections {N : Type} (size : doc.Ptr → N) : List (String × SectionServices N) :=
  (doc.visited ord).map fun s =>
    (s.1, s.2.foldl (fun services e => services.put e.name (size e.definition) (extendsBase e.extend)) {})

theorem nodes_eq (doc : Document) (noCycle : NoCycle doc.graph) (p : doc.Ptr) :
    doc.nodes p = expandedNodes noCycle p := dif_pos noCycle

variable {doc}

theorem inner_lt_depth (noCycle : NoCycle doc.graph) (p : doc.Ptr) : inner doc.graph p < doc.depth := by
  have bound := inner_lt_card noCycle p
  rw [Nat.card_eq_fintype_card] at bound
  unfold depth
  omega

theorem nodeCount_eq (noCycle : NoCycle doc.graph) {p : doc.Ptr} {counted : NodeCounts doc.Ptr}
    (right : Right noCycle (fun _ => True) counted) :
    ∃ after, nodeCount doc.graph doc.depth p counted = some (Int64.ofNat (doc.nodes p), after) ∧
      Right noCycle (fun _ => True) after := by
  obtain ⟨after, counts, adds⟩ :=
    nodeCount_spec (inner_lt_depth noCycle p) (right.mono fun _ _ => trivial)
  exact ⟨after, by rw [counts, nodes_eq doc noCycle], right.adds adds⟩

omit doc in
theorem right_empty {Ptr : Type} [DecidableEq Ptr] [Finite Ptr] {graph : YamlGraph Ptr}
    (noCycle : NoCycle graph) : Right noCycle (fun _ => True) ∅ := by
  intro p c _ found
  rw [AList.lookup_empty] at found
  cases found

theorem countEntries_eq (noCycle : NoCycle doc.graph) (entries : List (Entry doc.Ptr))
    {counted : NodeCounts doc.Ptr} (right : Right noCycle (fun _ => True) counted)
    (services : SectionServices Int64) :
    ∃ after, doc.countEntries entries counted services =
        some (entries.foldl (fun services e =>
          services.put e.name (Int64.ofNat (doc.nodes e.definition)) (extendsBase e.extend)) services, after) ∧
      Right noCycle (fun _ => True) after := by
  induction entries generalizing counted services with
  | nil => exact ⟨counted, rfl, right⟩
  | cons e rest ih =>
    obtain ⟨after, counts, right'⟩ := nodeCount_eq noCycle right
    obtain ⟨last, done, right''⟩ := ih right'
      (services.put e.name (Int64.ofNat (doc.nodes e.definition)) (extendsBase e.extend))
    refine ⟨last, ?_, right''⟩
    rw [countEntries, counts, Option.bind_eq_bind, Option.bind_some]
    exact done

theorem countSections_eq (noCycle : NoCycle doc.graph) (visited : List (String × List (Entry doc.Ptr)))
    {counted : NodeCounts doc.Ptr} (right : Right noCycle (fun _ => True) counted) :
    doc.countSections visited counted = some (visited.map fun s => (s.1, s.2.foldl (fun services e =>
      services.put e.name (Int64.ofNat (doc.nodes e.definition)) (extendsBase e.extend)) {})) := by
  induction visited generalizing counted with
  | nil => rfl
  | cons s rest ih =>
    obtain ⟨after, counts, right'⟩ := countEntries_eq noCycle s.2 right {}
    rw [countSections, counts, Option.bind_eq_bind, Option.bind_some]
    dsimp only
    rw [ih right']
    rfl

theorem mapSections_sections (size : doc.Ptr → Nat) :
    mapSections Int64.ofNat (doc.sections ord size) = doc.sections ord fun p => Int64.ofNat (size p) := by
  have entries : ∀ (entries : List (Entry doc.Ptr)) (services : SectionServices Nat),
      (entries.foldl (fun services e => services.put e.name (size e.definition) (extendsBase e.extend))
          services).map Int64.ofNat =
        entries.foldl (fun services e => services.put e.name (Int64.ofNat (size e.definition))
          (extendsBase e.extend)) (services.map Int64.ofNat) := by
    intro entries services
    refine (List.foldl_hom (SectionServices.map Int64.ofNat) fun services e => ?_).symm
    rw [SectionServices.map_put]
  rw [mapSections, sections, sections, List.map_map]
  refine List.map_congr_left fun s _ => ?_
  rw [Function.comp_apply, entries]
  rfl

theorem documentServices_eq (noCycle : NoCycle doc.graph) :
    documentServices ord doc = some (mapSections Int64.ofNat (doc.sections ord doc.nodes)) := by
  rw [documentServices, countSections_eq noCycle _ (right_empty noCycle), mapSections_sections]
  rfl

end Document

/-! ## Files and parses -/

/-- A file's documents with the sizes of their entries in unbounded numbers. -/
noncomputable def expandedFile (ord : RangeOrder) (documents : List Document) : ExpandedFile :=
  documents.map fun doc => doc.sections ord doc.nodes

/-- The sections of one name, document by document. -/
def parts (file : ExpandedFile) (name : String) : List (SectionServices Nat) :=
  (file.flatten.filter fun s => s.1 = name).map Prod.snd

/-- The sections of one name with the documents merged. -/
def whole (file : ExpandedFile) (name : String) : SectionServices Nat :=
  (parts file name).foldl SectionServices.add {}

/-- What extends copies in all of a file's sections. -/
noncomputable def fileCopies (ord : RangeOrder) (file : ExpandedFile) : Nat :=
  (file.flatten.map fun s => s.2.copied ord).sum

/-- The largest entry once the documents are merged. -/
noncomputable def fileLargest (ord : RangeOrder) (file : ExpandedFile) : Nat :=
  (file.flatten.map Prod.fst).toFinset.sup fun name => (whole file name).largest ord

theorem decodeComposeHeader_eq (ord : RangeOrder) (documents : List Document)
    (noCycle : ∀ doc ∈ documents, NoCycle doc.graph) :
    decodeComposeHeader ord documents =
      some (composeSizes ord ((expandedFile ord documents).map (mapSections Int64.ofNat))) := by
  have all : documents.mapM (documentServices ord) =
      some ((expandedFile ord documents).map (mapSections Int64.ofNat)) := by
    induction documents with
    | nil => rfl
    | cons doc rest ih =>
      rw [List.forall_mem_cons] at noCycle
      rw [List.mapM_cons, Document.documentServices_eq ord noCycle.1, ih noCycle.2]
      rfl
  rw [decodeComposeHeader, all, Option.map_some]

/-- The nodes that a charge is for. -/
noncomputable def Charge.nodes (ord : RangeOrder) : Charge → Nat
  | file _ documents => fileCopies ord (expandedFile ord documents)
  | extendsFile _ documents => fileLargest ord (expandedFile ord documents)
  | model _ sections => (sections.map fun entries => (modelSection ord id entries).copied ord).sum

/-- A document's sections have its entries, each with the nodes its definition stands for. -/
def Document.Sized (ord : RangeOrder) (doc : Document) : Prop :=
  List.Forall₂ (fun s v => s.1 = v.1 ∧ ((v.2.map Entry.name).Nodup → SectionServices.Lists
    (v.2.map fun e => (e.name, doc.nodes e.definition, extendsBase e.extend)) s.2))
    (doc.sections ord doc.nodes) (doc.visited ord)

/-- All that is counted for a file is exact. -/
structure FileCounted (ord : RangeOrder) (documents : List Document) : Prop where
  nodes : ∀ doc ∈ documents, ∀ p, ∃ c counted,
    nodeCount doc.graph doc.depth p ∅ = some (c, counted) ∧ c.toInt = doc.nodes p
  sized : ∀ doc ∈ documents, doc.Sized ord
  copies : ∀ doc ∈ documents, ∃ found, documentServices ord doc = some found ∧
    List.Forall₂ (fun f s => f.1 = s.1 ∧ CopiesExact ord f.2 s.2) found (doc.sections ord doc.nodes)
  merged : ∀ name, SectionServices.Merges (parts (expandedFile ord documents) name) (whole (expandedFile ord documents) name)
  header : ∃ sizes, decodeComposeHeader ord documents = some sizes ∧
    sizes.extendsNodes.toInt = fileCopies ord (expandedFile ord documents) ∧
    sizes.largestService.toInt = fileLargest ord (expandedFile ord documents)

/-- All that there is to count in a file is below `2 ^ 63`. -/
structure FileFits (ord : RangeOrder) (documents : List Document) : Prop where
  nodes : ∀ doc ∈ documents, ∀ p, doc.nodes p < 2 ^ 63
  copies : ∀ doc ∈ documents, ∀ s ∈ doc.sections ord doc.nodes, CopiesFit ord s.2
  extendsNodes : fileCopies ord (expandedFile ord documents) < 2 ^ 63
  largestService : fileLargest ord (expandedFile ord documents) < 2 ^ 63

/-- The nodes of some charges together. -/
noncomputable def copiedNodes (ord : RangeOrder) (charges : List Charge) : Nat :=
  (charges.map (Charge.nodes ord)).sum

/-- In a parse with these charges, counts are exact, and every charge reached adds its nodes to an
exact total, is refused when that is past the limit, and never lowers the total. -/
structure Counted (ord : RangeOrder) (charges : List Charge) : Prop where
  files : ∀ c ∈ charges, FileCounted ord c.documents
  budget : ∀ before c after, charges = before ++ c :: after →
    ∀ b, ComposeBudget.spend ord {} before = some (none, b) →
      ∃ n, c.count ord = some n ∧
        (b.extend c.path n).2.extendsNodes.toInt = copiedNodes ord (before ++ [c]) ∧
        ((b.extend c.path n).1.isSome ↔ maxExtendsNodes < copiedNodes ord (before ++ [c])) ∧
        b.extendsNodes ≤ (b.extend c.path n).2.extendsNodes

/-- Counts are below `2 ^ 63`, and so is the total with the first charge past the limit. -/
structure Fits (ord : RangeOrder) (charges : List Charge) : Prop where
  files : ∀ c ∈ charges, FileFits ord c.documents
  budget : ∀ before c after, charges = before ++ c :: after →
    copiedNodes ord before ≤ maxExtendsNodes → copiedNodes ord (before ++ [c]) < 2 ^ 63

/-! ## The header -/

theorem sized_sections (ord : RangeOrder) (doc : Document) : doc.Sized ord := by
  rw [Document.Sized, Document.sections, List.forall₂_map_left_iff, List.forall₂_same]
  intro v _
  refine ⟨rfl, fun unique => ?_⟩
  have names : ((v.2.map fun e => (e.name, doc.nodes e.definition, extendsBase e.extend)).map Prod.fst).Nodup := by
    rwa [List.map_map]
  have lists := SectionServices.lists_foldl_put names
  rwa [List.foldl_map] at lists

theorem based_sections (ord : RangeOrder) (doc : Document) : ∀ s ∈ doc.sections ord doc.nodes, s.2.Based := by
  intro s listed
  obtain ⟨v, -, rfl⟩ := List.mem_map.mp listed
  exact SectionServices.based_foldl_put v.2 Entry.name (fun e => extendsBase e.extend) (fun e => doc.nodes e.definition)
    SectionServices.based_empty

theorem based_expandedFile (ord : RangeOrder) (documents : List Document) :
    ∀ s ∈ (expandedFile ord documents).flatten, s.2.Based := by
  intro s listed
  obtain ⟨sections, member, listed⟩ := List.mem_flatten.mp listed
  obtain ⟨doc, -, rfl⟩ := List.mem_map.mp member
  exact based_sections ord doc s listed

theorem based_whole {file : ExpandedFile} (based : ∀ s ∈ file.flatten, s.2.Based) (name : String) :
    (whole file name).Based := by
  have all : ∀ p ∈ parts file name, p.Based := by
    intro p listed
    obtain ⟨s, member, rfl⟩ := List.mem_map.mp listed
    exact based s (List.mem_filter.mp member).1
  unfold whole
  generalize parts file name = ps at all
  induction ps using List.reverseRecOn with
  | nil => exact SectionServices.based_empty
  | append_singleton ps p ih =>
    rw [List.foldl_append, List.foldl_cons, List.foldl_nil]
    exact (ih fun q listed => all q (by simp [listed])).add (all p (by simp))

theorem tally_flatten (ord : RangeOrder) (file : ExpandedFile) :
    tally ord file = file.flatten.foldl (Tally.addSection ord) {} := by
  rw [tally, List.foldl_flatten]

theorem extendsNodes_eq (ord : RangeOrder) {file : ExpandedFile} (based : ∀ s ∈ file.flatten, s.2.Based) :
    (composeSizes ord file).extendsNodes = fileCopies ord file := by
  change (tally ord file).extendsNodes = _
  rw [tally_flatten, fileCopies]
  generalize file.flatten = sections at based
  induction sections using List.reverseRecOn with
  | nil => rfl
  | append_singleton sections s ih =>
    have own := based s (by simp)
    have before := ih fun t listed => based t (by simp [listed])
    rw [List.foldl_append, List.foldl_cons, List.foldl_nil, List.map_append, List.sum_append, ← before]
    simp [Tally.addSection, SectionServices.extendsCopies_eq_copied own]

theorem lookup_whole (ord : RangeOrder) (file : ExpandedFile) (name : String) :
    (tally ord file).whole.lookup name =
      if name ∈ file.flatten.map Prod.fst then some (whole file name) else none := by
  rw [tally_flatten, whole, parts]
  generalize file.flatten = sections
  induction sections using List.reverseRecOn with
  | nil => rfl
  | append_singleton sections s ih =>
    rw [List.foldl_append, List.foldl_cons, List.foldl_nil, Tally.addSection]
    dsimp only
    by_cases same : name = s.1
    · subst same
      have before : ((sections.foldl (Tally.addSection ord) {}).whole.lookup s.1).getD {} =
          ((sections.filter fun t => t.1 = s.1).map Prod.snd).foldl SectionServices.add {} := by
        rw [ih]
        split
        · rfl
        next absent =>
          have none : sections.filter (fun t => decide (t.1 = s.1)) = [] := by
            refine List.filter_eq_nil_iff.mpr fun t listed => ?_
            simpa using fun same => absent (List.mem_map.mpr ⟨t, listed, same⟩)
          rw [none]
          rfl
      rw [AList.lookup_insert, before, if_pos (by simp), List.filter_append]
      simp
    · rw [AList.lookup_insert_ne same, ih, List.filter_append]
      have other : [s].filter (fun t => decide (t.1 = name)) = [] := by simp [Ne.symm same]
      rw [other, List.append_nil, List.map_append, List.map_singleton]
      simp only [List.mem_append, List.mem_singleton, same, or_false]

theorem largestService_eq (ord : RangeOrder) {file : ExpandedFile} (based : ∀ s ∈ file.flatten, s.2.Based) :
    (composeSizes ord file).largestService = fileLargest ord file := by
  have keys : ∀ name, name ∈ (tally ord file).whole.keys ↔ name ∈ file.flatten.map Prod.fst := by
    intro name
    rw [← AList.mem_keys, ← AList.lookup_isSome, lookup_whole]
    split
    next listed => simpa using listed
    next absent => simpa using absent
  have sizes : (ord.visit (tally ord file).whole.keys).map (fun name =>
      ((((tally ord file).whole.lookup name).getD {}).extendsCopies ord).2) =
        (ord.visit (tally ord file).whole.keys).map fun name => (whole file name).largest ord := by
    refine List.map_congr_left fun name listed => ?_
    rw [lookup_whole, if_pos ((keys name).mp (by simpa using listed)), Option.getD_some,
      SectionServices.extendsCopies_eq_copied (based_whole based name)]
  have names : ((ord.visit (tally ord file).whole.keys).map fun name => (whole file name).largest ord).toFinset =
      (file.flatten.map Prod.fst).toFinset.image fun name => (whole file name).largest ord := by
    ext n
    simp only [List.mem_toFinset, List.mem_map, RangeOrder.mem_visit, Finset.mem_image, keys]
  change ((ord.visit (tally ord file).whole.keys).map fun name =>
    ((((tally ord file).whole.lookup name).getD {}).extendsCopies ord).2).foldl max 0 = _
  rw [sizes, SectionServices.foldl_max_eq_sup, names, Finset.sup_image]
  rfl

section Parse

variable {ord : RangeOrder}

theorem forall₂_mapSections_iff {p : SectionServices Int64 → SectionServices Nat → Prop}
    (sections : List (String × SectionServices Nat)) :
    List.Forall₂ (fun f s => f.1 = s.1 ∧ p f.2 s.2) (mapSections Int64.ofNat sections) sections ↔
      ∀ s ∈ sections, p (s.2.map Int64.ofNat) s.2 := by
  induction sections with
  | nil => simp [mapSections]
  | cons s rest ih =>
    have step : mapSections Int64.ofNat (s :: rest) =
        (s.1, s.2.map Int64.ofNat) :: mapSections Int64.ofNat rest := rfl
    rw [step, List.forall₂_cons, ih, List.forall_mem_cons]
    simp

theorem fileCounted_iff {documents : List Document} (noCycle : ∀ doc ∈ documents, NoCycle doc.graph) :
    FileCounted ord documents ↔ FileFits ord documents := by
  have decoded := decodeComposeHeader_eq ord documents noCycle
  have based := based_expandedFile ord documents
  constructor
  · intro counted
    obtain ⟨sizes, header, extendsNodes, largestService⟩ := counted.header
    refine ⟨fun doc listed p => ?_, fun doc listed s member => ?_, lt_of_toInt_eq extendsNodes,
      lt_of_toInt_eq largestService⟩
    · obtain ⟨c, counts, -, exact⟩ := counted.nodes doc listed p
      exact lt_of_toInt_eq exact
    · obtain ⟨found, services, exact⟩ := counted.copies doc listed
      rw [Document.documentServices_eq ord (noCycle doc listed)] at services
      cases services
      exact (copiesExact_iff (based_sections ord doc s member)).mp ((forall₂_mapSections_iff _).mp exact s member)
  · intro fits
    refine ⟨fun doc listed p => ?_, fun doc _ => sized_sections ord doc, fun doc listed => ?_,
      fun name => SectionServices.merges_foldl_add _, ?_⟩
    · obtain ⟨after, counts, -⟩ := Document.nodeCount_eq (noCycle doc listed)
        (Document.right_empty (noCycle doc listed)) (p := p)
      exact ⟨_, after, counts, Int64.toInt_ofNat_of_lt (fits.nodes doc listed p)⟩
    · refine ⟨_, Document.documentServices_eq ord (noCycle doc listed), ?_⟩
      refine (forall₂_mapSections_iff _).mpr fun s member => ?_
      exact (copiesExact_iff (based_sections ord doc s member)).mpr (fits.copies doc listed s member)
    · have largest := largestService_eq ord based
      refine ⟨_, decoded, ?_, ?_⟩
      · rw [extendsNodes_ofNat, extendsNodes_eq ord based, Int64.toInt_ofNat_of_lt fits.extendsNodes]
      · rw [largestService_ofNat (largest ▸ fits.largestService), largest, Int64.toInt_ofNat_of_lt fits.largestService]

theorem map_modelSection (size : Nat → Nat) (entries : List ModelEntry) :
    (modelSection ord size entries).map Int64.ofNat = modelSection ord (fun n => Int64.ofNat (size n)) entries := by
  refine (List.foldl_hom (SectionServices.map Int64.ofNat) fun services e => ?_).symm
  rw [SectionServices.map_put]

theorem count_eq {c : Charge} (noCycle : ∀ doc ∈ c.documents, NoCycle doc.graph)
    (fits : FileFits ord c.documents) : c.count ord = some (Int64.ofNat (c.nodes ord)) := by
  cases c with
  | file path documents =>
    have decoded := decodeComposeHeader_eq ord documents noCycle
    rw [Charge.count, decoded, Option.map_some, extendsNodes_ofNat,
      extendsNodes_eq ord (based_expandedFile ord documents)]
    rfl
  | extendsFile path documents =>
    have decoded := decodeComposeHeader_eq ord documents noCycle
    have largest := largestService_eq ord (based_expandedFile ord documents)
    have small : (composeSizes ord (expandedFile ord documents)).largestService < 2 ^ 63 :=
      largest ▸ fits.largestService
    rw [Charge.count, decoded, Option.map_some, largestService_ofNat small, largest]
    rfl
  | model path sections =>
    rw [Charge.count, modelExtendsCopies, Charge.nodes]
    congr 1
    clear noCycle fits
    induction sections using List.reverseRecOn with
    | nil => rfl
    | append_singleton sections entries ih =>
      have based : (modelSection ord id entries).Based :=
        SectionServices.based_foldl_put _ ModelEntry.name ModelEntry.base (fun e => id e.nodes) SectionServices.based_empty
      have own : ((modelSection ord Int64.ofNat entries).extendsCopies ord).1 =
          Int64.ofNat ((modelSection ord id entries).copied ord) := by
        have mapped : modelSection ord Int64.ofNat entries = (modelSection ord id entries).map Int64.ofNat :=
          (map_modelSection id entries).symm
        rw [mapped, SectionServices.copied_map additive_ofNat, SectionServices.extendsCopies_eq_copied based]
      rw [List.foldl_append, List.foldl_cons, List.foldl_nil, ih, own, ← Int64.ofNat_add, List.map_append, List.sum_append]
      rfl

@[simp] theorem copiedNodes_concat (charges : List Charge) (c : Charge) :
    copiedNodes ord (charges ++ [c]) = copiedNodes ord charges + c.nodes ord := by
  simp [copiedNodes]

/-- One more charge is made only when all before were accepted. -/
theorem spend_concat (b : ComposeBudget) (charges : List Charge) (c : Charge) :
    b.spend ord (charges ++ [c]) = (b.spend ord charges).bind fun spent =>
      if spent.1.isSome then some spent else (c.count ord).map (spent.2.extend c.path) := by
  induction charges generalizing b with
  | nil =>
    cases counted : c.count ord with
    | none => simp [ComposeBudget.spend, counted]
    | some n =>
      cases extended : b.extend c.path n with
      | mk err after => cases err <;> simp [ComposeBudget.spend, counted, extended]
  | cons d rest ih =>
    cases counted : d.count ord with
    | none => simp [ComposeBudget.spend, counted]
    | some n =>
      cases extended : b.extend d.path n with
      | mk err after => cases err <;> simp [ComposeBudget.spend, counted, extended, ih]

theorem spend_concat_of_accepted {b after : ComposeBudget} {charges : List Charge} {c : Charge} {n : Int64}
    (accepted : b.spend ord charges = some (none, after)) (counted : c.count ord = some n) :
    b.spend ord (charges ++ [c]) = some (after.extend c.path n) := by
  simp [spend_concat, accepted, counted]

/-- An accepted run of charges was accepted before its last one. -/
theorem accepted_of_concat {b last : ComposeBudget} {charges : List Charge} {c : Charge}
    (accepted : b.spend ord (charges ++ [c]) = some (none, last)) :
    ∃ after, b.spend ord charges = some (none, after) := by
  rw [spend_concat, Option.bind_eq_some_iff] at accepted
  obtain ⟨⟨err, after⟩, spent, rest⟩ := accepted
  cases err with
  | none => exact ⟨after, spent⟩
  | some text => cases rest

theorem extend_ofNat {m n : Nat} (small : m + n < 2 ^ 63) (path : String) :
    let spent := ComposeBudget.extend ⟨Int64.ofNat m⟩ path (Int64.ofNat n)
    spent.2 = ⟨Int64.ofNat (m + n)⟩ ∧ (spent.1.isSome ↔ maxExtendsNodes < m + n) := by
  have past : Int64.ofNat maxExtendsNodes < Int64.ofNat (m + n) ↔ maxExtendsNodes < m + n := by
    rw [Int64.lt_iff_toInt_lt, Int64.toInt_ofNat_of_lt (by decide), Int64.toInt_ofNat_of_lt small,
      Int.ofNat_lt]
  simp only [ComposeBudget.extend, ← Int64.ofNat_add]
  by_cases more : maxExtendsNodes < m + n
  · rw [if_pos (past.mpr more)]
    exact ⟨rfl, iff_of_true rfl more⟩
  · rw [if_neg (mt past.mp more)]
    exact ⟨rfl, iff_of_false Bool.false_ne_true more⟩

section Budget

variable {charges : List Charge} (noCycle : ∀ c ∈ charges, ∀ doc ∈ c.documents, NoCycle doc.graph)
include noCycle

/-- The budget after charges that were accepted. -/
theorem accepted_total (fits : Fits ord charges) {before after : List Charge}
    (split : charges = before ++ after) {b : ComposeBudget}
    (accepted : ComposeBudget.spend ord {} before = some (none, b)) :
    b = ⟨Int64.ofNat (copiedNodes ord before)⟩ ∧ copiedNodes ord before ≤ maxExtendsNodes := by
  -- by the charges made; all before the last were accepted, so the total was within the limit
  induction before using List.reverseRecOn generalizing after b with
  | nil =>
    cases accepted
    exact ⟨rfl, Nat.zero_le _⟩
  | append_singleton before c ih =>
    rw [List.append_assoc, List.singleton_append] at split
    have listed : c ∈ charges := by simp [split]
    obtain ⟨b₀, accepted₀⟩ := accepted_of_concat accepted
    obtain ⟨rfl, within⟩ := ih split accepted₀
    have counted := count_eq (noCycle c listed) (fits.files c listed)
    have small := fits.budget before c after split within
    rw [spend_concat_of_accepted accepted₀ counted] at accepted
    rw [copiedNodes_concat] at small ⊢
    obtain ⟨total, refused⟩ := extend_ofNat small c.path
    rw [Option.some.inj accepted] at total refused
    exact ⟨total, Nat.le_of_not_lt (mt refused.mpr Bool.false_ne_true)⟩

theorem counted_of_fits (fits : Fits ord charges) : Counted ord charges where
  files c listed := (fileCounted_iff (noCycle c listed)).mpr (fits.files c listed)
  budget := by
    intro before c after split b accepted
    have listed : c ∈ charges := by simp [split]
    obtain ⟨rfl, within⟩ := accepted_total noCycle fits split accepted
    have small := fits.budget before c after split within
    refine ⟨_, count_eq (noCycle c listed) (fits.files c listed), ?_⟩
    rw [copiedNodes_concat] at small ⊢
    obtain ⟨total, refused⟩ := extend_ofNat small c.path
    rw [total]
    refine ⟨Int64.toInt_ofNat_of_lt small, refused, ?_⟩
    rw [Int64.le_iff_toInt_le, Int64.toInt_ofNat_of_lt small, Int64.toInt_ofNat_of_lt (by omega)]
    omega

omit noCycle in
/-- Charges within the limit are accepted as long as the budget is exact. -/
theorem Counted.accepted (counted : Counted ord charges) {before after : List Charge}
    (split : charges = before ++ after) (within : copiedNodes ord before ≤ maxExtendsNodes) :
    ∃ b, ComposeBudget.spend ord {} before = some (none, b) := by
  -- by the charges made; a total within the limit was within it before the last
  induction before using List.reverseRecOn generalizing after with
  | nil => exact ⟨{}, rfl⟩
  | append_singleton before c ih =>
    rw [List.append_assoc, List.singleton_append] at split
    have less : copiedNodes ord before ≤ maxExtendsNodes := by
      rw [copiedNodes_concat] at within
      omega
    obtain ⟨b, accepted⟩ := ih split less
    obtain ⟨n, count, -, refused, -⟩ := counted.budget before c after split b accepted
    rw [spend_concat_of_accepted accepted count]
    cases extended : b.extend c.path n with
    | mk err last =>
      cases err with
      | none => exact ⟨last, rfl⟩
      | some text =>
        rw [extended] at refused
        exact absurd (refused.mp rfl) (Nat.not_lt.mpr within)

theorem fits_of_counted (counted : Counted ord charges) : Fits ord charges where
  files c listed := (fileCounted_iff (noCycle c listed)).mp (counted.files c listed)
  budget := by
    intro before c after split within
    obtain ⟨b, accepted⟩ := counted.accepted split within
    obtain ⟨n, -, total, -⟩ := counted.budget before c after split b accepted
    exact lt_of_toInt_eq total

end Budget

end Parse

/-- The counts of a parse are exact, and its budget refuses what is past the limit, when all there
is to count is below `2 ^ 63`, and then only. -/
theorem counted_iff_fits (ord : RangeOrder) (charges : List Charge)
    (noCycle : ∀ c ∈ charges, ∀ doc ∈ c.documents, NoCycle doc.graph) :
    Counted ord charges ↔ Fits ord charges :=
  ⟨fits_of_counted noCycle, counted_of_fits noCycle⟩

/-! ## Aliases of aliases -/

/-- A scalar, sequences that each have the one before twice, as aliases, and two services: one has the last sequence as
an alias, the other extends it. -/
def doublingGraph (levels : Nat) : YamlGraph (Fin levels × Option Bool ⊕ Fin 8)
  | .inl (k, none) => .contentNode (if k.val = 0 then [] else [.inl (k, some false), .inl (k, some true)])
  | .inl (k, some _) => .aliasNode (some (.inl (⟨k - 1, by omega⟩, none)))
  -- {image: a, x: *last}
  | .inr 0 => .contentNode [.inr 1, .inr 2, .inr 3, .inr 4]
  | .inr 4 => .aliasNode (if filled : 0 < levels then some (.inl (⟨levels - 1, by omega⟩, none)) else none)
  -- {extends: base}
  | .inr 5 => .contentNode [.inr 6, .inr 7]
  | .inr _ => .contentNode []

abbrev doubling (levels : Nat) : Document where
  Ptr := Fin levels × Option Bool ⊕ Fin 8
  graph := doublingGraph levels
  services := [⟨"base", .inr 0, .none⟩, ⟨"copy", .inr 5, .scalar "base"⟩]

/-- References that go down a rank come back to no node. -/
theorem noCycle_of_rank {Ptr : Type} {graph : YamlGraph Ptr} (rank : Ptr → Nat)
    (down : ∀ p q, Refers graph p q → rank q < rank p) : NoCycle graph :=
  fun _ => Forest.no_cycle_of_rank rank down

def doublingRank (levels : Nat) : Fin levels × Option Bool ⊕ Fin 8 → Nat
  | .inl (k, none) => 3 * k.val
  | .inl (k, some _) => 3 * (k.val - 1) + 1
  | .inr 0 => 3 * levels + 2
  | .inr 4 => 3 * levels + 1
  | .inr 5 => 1
  | .inr _ => 0

theorem noCycle_doubling (levels : Nat) : NoCycle (doublingGraph levels) := by
  refine noCycle_of_rank (doublingRank levels) ?_
  rintro (⟨k, _ | side⟩ | i) q refers
  · by_cases first : k.val = 0
    · simp [Refers, doublingGraph, YamlNode.refs, first] at refers
    · simp only [Refers, doublingGraph, YamlNode.refs, if_neg first, List.mem_cons, List.not_mem_nil,
        or_false] at refers
      rcases refers with rfl | rfl
      · simp only [doublingRank]
        omega
      · simp only [doublingRank]
        omega
  · simp only [Refers, doublingGraph, YamlNode.refs, Option.toList_some, List.mem_singleton] at refers
    subst refers
    simp [doublingRank]
  · match i with
    | 0 =>
      have listed : q ∈ [Sum.inr 1, .inr 2, .inr 3, .inr 4] := refers
      simp only [List.mem_cons, List.not_mem_nil, or_false] at listed
      rcases listed with rfl | rfl | rfl | rfl <;> simp [doublingRank]
    | 4 =>
      simp only [Refers, doublingGraph, YamlNode.refs] at refers
      split at refers
      next filled =>
        obtain rfl := List.mem_singleton.mp refers
        simp only [doublingRank]
        omega
      · cases refers
    | 5 =>
      have listed : q ∈ [Sum.inr 6, .inr 7] := refers
      simp only [List.mem_cons, List.not_mem_nil, or_false] at listed
      rcases listed with rfl | rfl <;> simp [doublingRank]
    | 1 | 2 | 3 | 6 | 7 => cases refers

theorem size_doubling (levels : Nat) (p : (doubling levels).Ptr) :
    expandedNodes (noCycle_doubling levels) p = (doubling levels).nodes p :=
  (Document.nodes_eq (doubling levels) (noCycle_doubling levels) p).symm

theorem nodes_alias_doubling (levels k : Nat) (inside : k < levels) (side : Bool) :
    (doubling levels).nodes (.inl (⟨k, inside⟩, some side)) =
      (doubling levels).nodes (.inl (⟨k - 1, by omega⟩, none)) := by
  rw [← size_doubling, ← size_doubling]
  exact expandedNodes_alias rfl

/-- Each level doubles what its nodes stand for. -/
theorem nodes_doubling (levels k : Nat) (inside : k < levels) :
    (doubling levels).nodes (.inl (⟨k, inside⟩, none)) = 2 ^ (k + 1) - 1 := by
  induction k with
  | zero =>
    have content : doublingGraph levels (.inl (⟨0, inside⟩, none)) = .contentNode [] := rfl
    rw [← size_doubling, expandedNodes_content content]
    rfl
  | succ k ih =>
    have content : doublingGraph levels (.inl (⟨k + 1, inside⟩, none)) =
        .contentNode [.inl (⟨k + 1, inside⟩, some false), .inl (⟨k + 1, inside⟩, some true)] := rfl
    have side (side : Bool) : (doubling levels).nodes (.inl (⟨k + 1, inside⟩, some side)) = 2 ^ (k + 1) - 1 := by
      rw [nodes_alias_doubling]
      exact ih (by omega)
    have positive := Nat.two_pow_pos (k + 1)
    rw [← size_doubling, expandedNodes_content content, List.map_cons, List.map_cons, List.map_nil, size_doubling,
      size_doubling, side, side, Nat.pow_succ]
    simp
    omega

theorem nodes_scalar_doubling (levels : Nat) {i : Fin 8} (scalar : doublingGraph levels (.inr i) = .contentNode []) :
    (doubling levels).nodes (.inr i) = 1 := by
  rw [← size_doubling, expandedNodes_content scalar]
  rfl

theorem nodes_last_doubling (levels : Nat) (filled : 0 < levels) :
    (doubling levels).nodes (.inr 4) = 2 ^ levels - 1 := by
  have shape : doublingGraph levels (.inr 4) = .aliasNode (some (.inl (⟨levels - 1, by omega⟩, none))) := by
    rw [doublingGraph, dif_pos filled]
  rw [← size_doubling, expandedNodes_alias shape, size_doubling, nodes_doubling, Nat.sub_add_cancel filled]

/-- The service with the alias. -/
theorem nodes_base_doubling (levels : Nat) (filled : 0 < levels) :
    (doubling levels).nodes (.inr 0) = 2 ^ levels + 3 := by
  have content : doublingGraph levels (.inr 0) = .contentNode [.inr 1, .inr 2, .inr 3, .inr 4] := rfl
  have positive := Nat.two_pow_pos levels
  rw [← size_doubling, expandedNodes_content content]
  simp only [List.map_cons, List.map_nil, size_doubling]
  rw [nodes_scalar_doubling levels rfl, nodes_scalar_doubling levels rfl, nodes_scalar_doubling levels rfl,
    nodes_last_doubling levels filled]
  simp
  omega

theorem nodes_copy_doubling (levels : Nat) : (doubling levels).nodes (.inr 5) = 3 := by
  have content : doublingGraph levels (.inr 5) = .contentNode [.inr 6, .inr 7] := rfl
  rw [← size_doubling, expandedNodes_content content]
  simp only [List.map_cons, List.map_nil, size_doubling]
  rw [nodes_scalar_doubling levels rfl, nodes_scalar_doubling levels rfl]
  rfl

/-- Three levels: the service stands for eleven nodes, which are copied once, into one of fourteen. -/
def threeLevels : ExpandedFile :=
  [[("services", (({} : SectionServices Nat).put "base" 11 "").put "copy" 3 "base"), ("jobs", {})]]

theorem expandedFile_threeLevels : expandedFile .asWritten [doubling 3] = threeLevels := by
  have base := nodes_base_doubling 3 (by decide)
  have copy := nodes_copy_doubling 3
  simp only [expandedFile, Document.sections, List.map_cons, List.map_nil]
  change [[("services", (({} : SectionServices Nat).put "base" ((doubling 3).nodes (.inr 0)) "").put "copy"
    ((doubling 3).nodes (.inr 5)) "base"), ("jobs", {})]] = _
  rw [base, copy]
  rfl

theorem fileFits_threeLevels : FileFits .asWritten [doubling 3] := by
  have based := based_expandedFile .asWritten [doubling 3]
  have sections : (doubling 3).sections .asWritten (doubling 3).nodes = threeLevels.flatten := by
    rw [← expandedFile_threeLevels]
    simp [expandedFile]
  refine ⟨fun doc member p => ?_, fun doc member s found => ?_, ?_, ?_⟩
  · obtain rfl := List.mem_singleton.mp member
    have level (k : Nat) (inside : k < 3) : (doubling 3).nodes (.inl (⟨k, inside⟩, none)) < 2 ^ 63 := by
      have small : 2 ^ (k + 1) ≤ 2 ^ 3 := Nat.pow_le_pow_right (by decide) (by omega)
      rw [nodes_doubling]
      omega
    rcases p with ⟨⟨k, inside⟩, _ | side⟩ | i
    · exact level k inside
    · rw [nodes_alias_doubling]
      exact level (k - 1) (by omega)
    · match i with
      | 0 => exact (nodes_base_doubling 3 (by decide)).trans_lt (by decide)
      | 4 => exact (nodes_last_doubling 3 (by decide)).trans_lt (by decide)
      | 5 => exact (nodes_copy_doubling 3).trans_lt (by decide)
      | 1 | 2 | 3 | 6 | 7 => exact (nodes_scalar_doubling 3 rfl).trans_lt (by decide)
  · obtain rfl := List.mem_singleton.mp member
    have walk := SectionServices.extendsCopies_eq_copied (based_sections .asWritten (doubling 3) s found) .asWritten
    rw [sections] at found
    have small : ∀ s ∈ threeLevels.flatten, (s.2.extendsCopies .asWritten).1 < 2 ^ 63 ∧
        (s.2.extendsCopies .asWritten).2 < 2 ^ 63 := by
      intro s listed
      have either : s = ("services", (({} : SectionServices Nat).put "base" 11 "").put "copy" 3 "base") ∨
          s = ("jobs", {}) := by simpa [threeLevels] using listed
      rcases either with rfl | rfl <;> decide
    have bounds := small s found
    rw [walk] at bounds
    exact ⟨bounds.1, bounds.2⟩
  · rw [← extendsNodes_eq .asWritten based, expandedFile_threeLevels]
    decide
  · rw [← largestService_eq .asWritten based, expandedFile_threeLevels]
    decide

/-- A file whose service with aliases is extended, read and then used as an extends file. -/
theorem counted_iff_fits_threeLevels :
    Counted .asWritten [.file "compose.yml" [doubling 3], .extendsFile "base.yml" [doubling 3]] ∧
      copiedNodes .asWritten [.file "compose.yml" [doubling 3], .extendsFile "base.yml" [doubling 3]] = 25 := by
  have based := based_expandedFile .asWritten [doubling 3]
  have documents : ∀ c ∈ [Charge.file "compose.yml" [doubling 3], .extendsFile "base.yml" [doubling 3]],
      c.documents = [doubling 3] := by
    intro c listed
    have either : c = .file "compose.yml" [doubling 3] ∨ c = .extendsFile "base.yml" [doubling 3] := by
      simpa using listed
    rcases either with rfl | rfl <;> rfl
  have copied : fileCopies .asWritten (expandedFile .asWritten [doubling 3]) = 11 := by
    rw [← extendsNodes_eq .asWritten based, expandedFile_threeLevels]
    decide
  have largest : fileLargest .asWritten (expandedFile .asWritten [doubling 3]) = 14 := by
    rw [← largestService_eq .asWritten based, expandedFile_threeLevels]
    decide
  have total : copiedNodes .asWritten [.file "compose.yml" [doubling 3], .extendsFile "base.yml" [doubling 3]] = 25 := by
    rw [copiedNodes, List.map_cons, List.map_cons, List.map_nil, Charge.nodes, Charge.nodes, copied, largest]
    rfl
  refine ⟨(counted_iff_fits .asWritten _ fun c listed doc member => ?_).mpr ⟨fun c listed => ?_,
    fun before c after split _ => ?_⟩, total⟩
  · rw [documents c listed] at member
    obtain rfl := List.mem_singleton.mp member
    exact noCycle_doubling 3
  · rw [documents c listed]
    exact fileFits_threeLevels
  · -- no part of the charges comes to more than all of them
    have parts := congrArg (copiedNodes .asWritten) split
    rw [total, List.append_cons, copiedNodes, List.map_append, List.sum_append] at parts
    rw [copiedNodes]
    omega

/-- Sixty-four short lines stand for more nodes than are counted. -/
theorem doubling_not_counted :
    NoCycle (doublingGraph 64) ∧ ¬Counted .asWritten [.file "compose.yml" [doubling 64]] := by
  refine ⟨noCycle_doubling 64, fun counted => ?_⟩
  have noCycle : ∀ c ∈ [Charge.file "compose.yml" [doubling 64]], ∀ doc ∈ c.documents,
      NoCycle doc.graph := by
    intro c listed doc member
    obtain rfl := List.mem_singleton.mp listed
    obtain rfl := List.mem_singleton.mp member
    exact noCycle_doubling 64
  have fits := (fits_of_counted noCycle counted).files _ (List.mem_singleton_self _)
  have small := fits.nodes (doubling 64) (List.mem_singleton_self _) (.inr 0)
  rw [nodes_base_doubling 64 (by decide)] at small
  exact absurd small (by decide)

end Dockgraph.Collector
