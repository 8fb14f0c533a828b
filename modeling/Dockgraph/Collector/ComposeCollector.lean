import Dockgraph.Collector.ComposeInclude
import Dockgraph.Collector.Types
import Dockgraph.Library.FailingLoop
import Dockgraph.Library.Grouped
import Dockgraph.Library.Http
import Dockgraph.Secrets.Masker

/-!
# Scans of compose files (`collector/compose.go`, `collector/compose_sandbox.go`)

Each file is parsed in a process of its own. A file whose parse only failed in its process keeps the services it had.
-/
namespace Dockgraph.Collector

open Http Keyed

/-! ## Named paths -/

/-- `^[a-zA-Z0-9][a-zA-Z0-9_.-]*$` -/
def validPathName : List Char → Bool
  | [] => false
  | c :: rest => c.isAlphanum && rest.all fun c => c.isAlphanum || c = '_' || c = '.' || c = '-'

def splitNamedPath (entry : String) : String × String :=
  match Text.cut '=' entry.toList with
  | some (before, after) =>
    if validPathName before ∧ after ≠ [] then (String.ofList before, String.ofList after) else ("", entry)
  | none => ("", entry)

abbrev PathNames := AList fun _ : String => String

structure ComposeCollector where
  paths : List String := []
  names : PathNames := ∅
  swarm : Bool := false
  /-- The graphs of the last scan. -/
  parsed : AList (fun _ : String => GraphSnapshot) := ∅

/-- Body of the loop over the entries. -/
def ComposeCollector.addEntry (c : ComposeCollector) (entry : String) : ComposeCollector :=
  let (name, path) := splitNamedPath entry
  let c := { c with paths := c.paths ++ [path] }
  if name ≠ "" then { c with names := c.names.insert (cleanPath path) name } else c

def newComposeCollector (entries : List String) : ComposeCollector := entries.foldl .addEntry {}

/-- A file is at a path or below it. Nothing is below `/`, as no file's path starts with `//`. -/
def Holds (path file : String) : Prop := file = path ∨ (path ++ "/").toList <+: file.toList

instance (path file : String) : Decidable (Holds path file) := inferInstanceAs (Decidable (_ ∨ _))

/-- Body of the loop over the named paths. -/
def longer (file : String) (best : String × Int) (e : (_ : String) × String) : String × Int :=
  if Holds e.1 file ∧ best.2 < Secrets.byteLen e.1.toList then (e.2, Secrets.byteLen e.1.toList) else best

def ComposeCollector.projectNameFor (ord : RangeOrder) (c : ComposeCollector) (file : String) : String :=
  ((ord.visit c.names.entries).foldl (longer (cleanPath file)) ("", -1)).1

/-! ## Files -/

inductive StatError
  | notExist
  | other

structure FileSystem where
  /-- `os.Stat`: whether it is a directory. -/
  stat : String → Except StatError Bool
  /-- The files a walk comes to. -/
  walk : String → List String

/-- `filepath.Base` -/
def basePath (path : String) : String := String.ofList (Secrets.base path.toList)

/-- `filepath.Ext` -/
def extension (path : String) : String :=
  let name := (basePath path).toList
  if '.' ∈ name then "." ++ String.ofList (name.rtakeWhile fun c => c ≠ '.') else ""

def addFile (files : List String) (path : String) : List String := if path ∈ files then files else files ++ [path]

/-- Body of the loop over the paths. -/
def resolvePaths (fs : FileSystem) (files : List String) (path : String) : Except StatError (List String) :=
  match fs.stat path with
  | .error .notExist => .ok files
  | .error .other => .error .other
  | .ok false => .ok (addFile files path)
  | .ok true =>
    .ok (((fs.walk path).filter fun f => extension f = ".yaml" ∨ extension f = ".yml").foldl addFile files)

def resolveComposePaths (fs : FileSystem) (paths : List String) : Except StatError (List String) :=
  paths.foldlM (resolvePaths fs) []

def ComposeCollector.readRoots (fs : FileSystem) (c : ComposeCollector) : List String :=
  c.paths.map fun p =>
    match fs.stat p with
    | .ok false => cleanPath (dirPath p)
    | _ => cleanPath p

/-! ## The process of a parse -/

structure BoundedBuffer where
  buf : Bytes := []
  limit : Nat
  truncated : Bool := false
  tail : Bytes := []
  tailLimit : Nat := 0

def BoundedBuffer.write (b : BoundedBuffer) (p : Bytes) : BoundedBuffer :=
  let room := b.limit - b.buf.length
  if p.length ≤ room then { b with buf := b.buf ++ p }
  else
    let tail := b.tail ++ p.drop room
    { b with
      buf := b.buf ++ p.take room
      truncated := true
      tail := if 0 < b.tailLimit then tail.drop (tail.length - b.tailLimit) else b.tail }

def maxComposeParseOutput : Nat := 8 <<< 20

structure ComposeParseRequest where
  path : String
  sourceName : String
  projectName : String
  swarm : Bool
  readRoots : List String

structure ComposeParseResponse where
  snapshot : Option GraphSnapshot
  error : String

/-- A child that ran: whether its time was up, its end, and what it wrote. -/
structure Child where
  late : Bool
  failed : Bool
  stdout : List Bytes

inductive ParseError
  | file (msg : String)
  /-- `processError` -/
  | process
  deriving DecidableEq

section Parse

variable (decode : Bytes → Option ComposeParseResponse)

def runComposeChild (child : Child) : Except ParseError ComposeParseResponse :=
  let stdout := child.stdout.foldl .write ({ limit := maxComposeParseOutput } : BoundedBuffer)
  if child.late then .error .process
  else if child.failed then .error .process
  else if stdout.truncated then .error .process
  else match decode stdout.buf with
    | none => .error .process
    | some resp => .ok resp

def parseComposeInChild (child : Child) : Except ParseError GraphSnapshot :=
  (runComposeChild decode child).bind fun resp =>
    if resp.error ≠ "" then .error (.file resp.error)
    else match resp.snapshot with
      | none => .error .process
      | some snap => .ok snap

/-! ## Scans -/

/-- What a scan comes upon. A parse whose context ends before it does is none. -/
structure Scan where
  fs : FileSystem
  ord : RangeOrder
  run : ComposeParseRequest → Option Child

namespace ComposeCollector

def request (s : Scan) (c : ComposeCollector) (file : String) : ComposeParseRequest where
  path := cleanPath file
  sourceName := basePath file
  projectName := c.projectNameFor s.ord file
  swarm := c.swarm
  -- without roots, the file's own directory
  readRoots := if c.readRoots s.fs = [] then [dirPath (cleanPath file)] else c.readRoots s.fs

/-- `parseComposeFileWith` -/
def parse (s : Scan) (c : ComposeCollector) (file : String) : Option (Except ParseError GraphSnapshot) :=
  (s.run (c.request s file)).map (parseComposeInChild decode)

structure Scanned where
  parsed : AList (fun _ : String => GraphSnapshot) := ∅
  graph : GraphSnapshot := {}

def Scanned.add (acc : Scanned) (file : String) (snap : GraphSnapshot) : Scanned where
  parsed := acc.parsed.insert file snap
  graph := ⟨acc.graph.nodes ++ snap.nodes, acc.graph.edges ++ snap.edges⟩

/-- Body of the loop over the files; none at the end of the context. -/
def scanFile (s : Scan) (c : ComposeCollector) (acc : Scanned) (file : String) : Option Scanned :=
  (c.parse decode s file).map fun
    | .ok snap => acc.add file snap
    | .error e =>
      match c.parsed.lookup file with
      | some last => if e = .process then acc.add file last else acc
      | none => acc

/-- The graph that is sent, if any, and the collector after. -/
def scan (c : ComposeCollector) (s : Scan) : Option GraphSnapshot × ComposeCollector :=
  match resolveComposePaths s.fs c.paths with
  | .error _ => (none, c)
  | .ok files =>
    match files.foldlM (c.scanFile decode s) {} with
    | none => (none, c)
    | some scanned => (some scanned.graph, { c with parsed := scanned.parsed })

/-- All that is sent by scans one after the other. -/
def scans (c : ComposeCollector) : List Scan → List GraphSnapshot × ComposeCollector
  | [] => ([], c)
  | s :: rest =>
    let (sent, c) := c.scan decode s
    let (more, c) := c.scans rest
    (sent.toList ++ more, c)

end ComposeCollector

end Parse

/-! ## The name of a file's project -/

example : (newComposeCollector ["all=/srv", "shop=/srv/shop/", "/opt/a=b"]).projectNameFor .backwards
    "/srv/shop/compose.yml" = "shop" := by decide +kernel

/-! ## What a child wrote -/

/-- The last of the bytes. -/
def lastBytes (n : Nat) (p : Bytes) : Bytes := p.drop (p.length - n)

theorem lastBytes_append (n : Nat) (p q : Bytes) : lastBytes n (lastBytes n p ++ q) = lastBytes n (p ++ q) := by
  simp only [lastBytes, List.length_append, List.length_drop]
  rw [← List.drop_append_of_le_length (Nat.sub_le _ _), List.drop_drop]
  congr 1
  omega

/-- However it is written, the buffer holds the first bytes and the last of the others. -/
theorem foldl_write (b : BoundedBuffer) (empty : b.buf = [] ∧ b.truncated = false ∧ b.tail = []) (chunks : List Bytes) :
    chunks.foldl .write b =
      { b with
        buf := chunks.flatten.take b.limit
        truncated := b.limit < chunks.flatten.length
        tail := if 0 < b.tailLimit then lastBytes b.tailLimit (chunks.flatten.drop b.limit) else [] } := by
  induction chunks using List.reverseRecOn with
  | nil =>
    obtain ⟨buf, limit, truncated, tail, tailLimit⟩ := b
    obtain ⟨rfl, rfl, rfl⟩ := empty
    simp [lastBytes]
  | append_singleton chunks p ih =>
    rw [List.foldl_concat, ih, List.flatten_append, BoundedBuffer.write]
    generalize chunks.flatten = d
    have after : (d ++ p).drop b.limit = d.drop b.limit ++ p.drop (b.limit - d.length) := List.drop_append
    have room : b.limit - min b.limit d.length = b.limit - d.length := by omega
    simp only [List.flatten_singleton, List.length_take, List.take_append, List.length_append, after, room]
    -- the chunk fits in what is left of the buffer, or what overflows goes to the tail
    split
    · next fits =>
      have whole : p.take (b.limit - d.length) = p := List.take_of_length_le fits
      have none : p.drop (b.limit - d.length) = [] := List.drop_of_length_le fits
      have more : b.limit < d.length ↔ b.limit < d.length + p.length := by omega
      simp [whole, none, more]
    · next overflows =>
      have more : b.limit < d.length + p.length := by omega
      simp only [more, decide_true]
      by_cases keeps : 0 < b.tailLimit
      · have tail := lastBytes_append b.tailLimit (d.drop b.limit) (p.drop (b.limit - d.length))
        simp only [if_pos keeps, ← tail]
        simp only [lastBytes, List.length_append]
      · simp only [if_neg keeps]

section Parse

variable {decode : Bytes → Option ComposeParseResponse}

/-- A graph is taken from a child that ended well and in time, if all it wrote decodes to one and is not too much. -/
theorem parseComposeInChild_iff (child : Child) (snap : GraphSnapshot) :
    parseComposeInChild decode child = .ok snap ↔
      child.late = false ∧ child.failed = false ∧ child.stdout.flatten.length ≤ maxComposeParseOutput ∧
        decode child.stdout.flatten = some ⟨some snap, ""⟩ := by
  rw [parseComposeInChild, runComposeChild, foldl_write _ ⟨rfl, rfl, rfl⟩]
  simp only
  generalize child.stdout.flatten = out
  by_cases fits : out.length ≤ maxComposeParseOutput
  · have small : ¬maxComposeParseOutput < out.length := Nat.not_lt.mpr fits
    rw [List.take_of_length_le fits]
    cases child.late <;> cases child.failed <;> simp [small, fits, Except.bind]
    -- a child that ended well and in time
    cases decode out with
    | none => simp
    | some resp =>
      obtain ⟨snapshot, error⟩ := resp
      by_cases well : error = ""
      · cases snapshot <;> simp [well]
      · simp [well]
  · have large : maxComposeParseOutput < out.length := Nat.lt_of_not_le fits
    cases child.late <;> cases child.failed <;> simp [large, Except.bind]

end Parse

/-! ## What scans send -/

namespace ComposeCollector

section Scans

variable (decode : Bytes → Option ComposeParseResponse) (c : ComposeCollector)

/-- The files a scan finds. -/
def files (s : Scan) : List String :=
  match resolveComposePaths s.fs c.paths with
  | .ok files => files
  | .error _ => []

/-- A scan that is not cut short and whose paths can be told. -/
def Completes (s : Scan) : Prop :=
  (∃ files, resolveComposePaths s.fs c.paths = .ok files) ∧ ∀ f ∈ c.files s, (c.parse decode s f).isSome

/-- A file was parsed into a graph, and since then it was there and its parses only failed in their processes. -/
def Shows (done : List Scan) (f : String) (snap : GraphSnapshot) : Prop :=
  ∃ before s after, done = before ++ s :: after ∧ f ∈ c.files s ∧ c.parse decode s f = some (.ok snap) ∧
    ∀ t ∈ after, f ∈ c.files t ∧ c.parse decode t f = some (.error .process)

/-- What is shown of all files together, in the order in which the last scan found them. -/
def Joined (done : List Scan) (g : GraphSnapshot) : Prop :=
  ∃ s, ∃ kept : String → Option GraphSnapshot, done.getLast? = some s ∧ (∀ f snap, kept f = some snap ↔ c.Shows decode done f snap) ∧
    g.nodes = (c.files s).flatMap (fun f => ((kept f).map GraphSnapshot.nodes).getD []) ∧
    g.edges = (c.files s).flatMap fun f => ((kept f).map GraphSnapshot.edges).getD []

theorem shows_nil (f : String) (snap : GraphSnapshot) : ¬c.Shows decode [] f snap := by
  rintro ⟨before, s, after, none, -⟩
  simp at none

theorem shows_concat (done : List Scan) (s : Scan) (f : String) (snap : GraphSnapshot) :
    c.Shows decode (done ++ [s]) f snap ↔
      f ∈ c.files s ∧ (c.parse decode s f = some (.ok snap) ∨
        c.parse decode s f = some (.error .process) ∧ c.Shows decode done f snap) := by
  constructor
  · rintro ⟨before, s', after, whole, listed, parsed, since⟩
    -- by the scans since the file was parsed: the last is this one, or failed in its process
    induction after using List.reverseRecOn with
    | nil =>
      obtain ⟨-, rfl⟩ := List.append_inj' whole rfl |>.imp_right List.singleton_inj.mp
      exact ⟨listed, .inl parsed⟩
    | append_singleton after last _ =>
      rw [← List.cons_append, ← List.append_assoc] at whole
      obtain ⟨rfl, rfl⟩ := List.append_inj' whole rfl |>.imp_right List.singleton_inj.mp
      obtain ⟨here, failed⟩ := since s (by simp)
      exact ⟨here, .inr ⟨failed, before, s', after, rfl, listed, parsed, fun t between => since t (by simp [between])⟩⟩
  · rintro ⟨listed, parsed | ⟨failed, before, s', after, rfl, there, parsed, since⟩⟩
    · exact ⟨done, s, [], rfl, listed, parsed, by simp⟩
    · refine ⟨before, s', after ++ [s], by simp, there, parsed, fun t between => ?_⟩
      rcases List.mem_append.mp between with earlier | last
      · exact since t earlier
      · exact List.mem_singleton.mp last ▸ ⟨listed, failed⟩

/-- What a scan keeps of a file it finds. -/
def keeps (s : Scan) (f : String) : Option GraphSnapshot :=
  match c.parse decode s f with
  | some (.ok snap) => some snap
  | some (.error .process) => c.parsed.lookup f
  | _ => none

theorem nodup_files (s : Scan) : (c.files s).Nodup := by
  -- a file that is found twice is listed once
  have add {files : List String} (unique : files.Nodup) (f : String) : (addFile files f).Nodup := by
    unfold addFile
    split
    · exact unique
    · next new => exact List.nodup_append.mpr ⟨unique, List.nodup_singleton f, by grind⟩
  have addAll {files : List String} (unique : files.Nodup) (more : List String) : (more.foldl addFile files).Nodup := by
    induction more generalizing files with
    | nil => exact unique
    | cons f more ih => exact ih (add unique f)
  unfold files
  split
  · next found =>
    refine FailingLoop.invariant_of_ok (p := List.Nodup) (fun path _ files files' next unique => ?_) List.nodup_nil found
    simp only [resolvePaths] at next
    split at next
    · exact Except.ok.inj next ▸ unique
    · cases next
    · exact Except.ok.inj next ▸ add unique path
    · exact Except.ok.inj next ▸ addAll unique _
  · exact List.nodup_nil

theorem scanFile_eq (s : Scan) (acc : Scanned) {f : String} (parsed : (c.parse decode s f).isSome) :
    c.scanFile decode s acc f = some
      (match c.keeps decode s f with
      | some snap => acc.add f snap
      | none => acc) := by
  obtain ⟨outcome, known⟩ := Option.isSome_iff_exists.mp parsed
  rw [scanFile, keeps, known]
  rcases outcome with (msg | _) | snap
  · cases c.parsed.lookup f <;> simp
  · cases c.parsed.lookup f <;> simp
  · rfl

/-- The loop over the files. -/
theorem foldlM_scanFile (s : Scan) (files : List String) (parsed : ∀ f ∈ files, (c.parse decode s f).isSome)
    (acc : Scanned) : files.foldlM (c.scanFile decode s) acc = some
      { parsed := files.foldl (write id (c.keeps decode s)) acc.parsed
        graph :=
          ⟨acc.graph.nodes ++ files.flatMap (fun f => ((c.keeps decode s f).map GraphSnapshot.nodes).getD []),
            acc.graph.edges ++ files.flatMap fun f => ((c.keeps decode s f).map GraphSnapshot.edges).getD []⟩ } := by
  induction files generalizing acc with
  | nil => simp
  | cons f files ih =>
    have rest := fun acc => ih (fun g listed => parsed g (List.mem_cons_of_mem f listed)) acc
    rw [List.foldlM_cons, scanFile_eq decode c s acc (parsed f List.mem_cons_self)]
    simp only [Option.bind_eq_bind, Option.bind_some, rest, List.foldl_cons, List.flatMap_cons, write]
    cases c.keeps decode s f with
    | none => simp
    | some snap => simp [Scanned.add]

/-- A scan that completes, and one that does not. -/
theorem scan_completes {s : Scan} (completes : c.Completes decode s) :
    c.scan decode s = (some
      ⟨(c.files s).flatMap (fun f => ((c.keeps decode s f).map GraphSnapshot.nodes).getD []),
        (c.files s).flatMap fun f => ((c.keeps decode s f).map GraphSnapshot.edges).getD []⟩,
      { c with parsed := (c.files s).foldl (write id (c.keeps decode s)) ∅ }) := by
  obtain ⟨⟨files, found⟩, parsed⟩ := completes
  have same : c.files s = files := by simp [ComposeCollector.files, found]
  rw [same] at parsed ⊢
  simp [scan, found, foldlM_scanFile decode c s files parsed]

theorem scan_not_completes {s : Scan} (cut : ¬c.Completes decode s) : c.scan decode s = (none, c) := by
  unfold scan
  split
  · rfl
  · next files found =>
    have same : c.files s = files := by simp [ComposeCollector.files, found]
    have ends : files.foldlM (c.scanFile decode s) {} = none := by
      -- some file is never parsed, and the loop ends there
      obtain ⟨f, listed, none⟩ : ∃ f ∈ files, c.parse decode s f = none := by
        by_contra all
        refine cut ⟨⟨files, found⟩, fun f listed => ?_⟩
        exact Option.isSome_iff_ne_none.mpr fun none => all ⟨f, same ▸ listed, none⟩
      clear found same cut
      generalize ({} : Scanned) = acc
      induction files generalizing acc with
      | nil => cases listed
      | cons g files ih =>
        rw [List.foldlM_cons]
        rcases List.mem_cons.mp listed with rfl | later
        · simp [scanFile, none]
        · cases c.scanFile decode s acc g with
          | none => rfl
          | some acc => exact ih later acc
    simp only [ends]

variable {c} {decode}

/-- What is kept is what is shown. -/
theorem lookup_parsed {done : List Scan} (known : ∀ f snap, c.parsed.lookup f = some snap ↔ c.Shows decode done f snap)
    (s : Scan) (f : String) (snap : GraphSnapshot) :
    (((c.files s).foldl (write id (c.keeps decode s)) ∅).lookup f = some snap ↔ c.Shows decode (done ++ [s]) f snap) ∧
      (f ∈ c.files s → (c.keeps decode s f = some snap ↔ c.Shows decode (done ++ [s]) f snap)) := by
  have kept (listed : f ∈ c.files s) : c.keeps decode s f = some snap ↔ c.Shows decode (done ++ [s]) f snap := by
    rw [shows_concat, keeps]
    split <;> simp_all
  refine ⟨?_, kept⟩
  have unique : ((c.files s).map id).Nodup := by simpa using nodup_files c s
  rw [lookup_foldl_write id _ unique]
  by_cases listed : f ∈ c.files s
  · rw [← kept listed]
    obtain ⟨g, found⟩ := Option.isSome_iff_exists.mp
      (List.find?_isSome.mpr ⟨f, listed, by simp⟩ : ((c.files s).find? fun g => id g = f).isSome)
    have same : g = f := by simpa using List.find?_some found
    rw [found, same, Option.bind_some]
  · have absent : (c.files s).find? (fun g => id g = f) = none :=
      List.find?_eq_none.mpr fun g there same => listed (by simpa using (of_decide_eq_true same) ▸ there)
    rw [absent, shows_concat]
    simp [listed]

open Classical in
theorem scans_joined {prior : List Scan} (known : ∀ f snap, c.parsed.lookup f = some snap ↔ c.Shows decode prior f snap)
    (ss : List Scan) :
    (c.scans decode ss).1.length = (ss.filter fun s => c.Completes decode s).length ∧
      ∀ (i : Nat) (g : GraphSnapshot), (c.scans decode ss).1[i]? = some g →
        c.Joined decode (prior ++ (ss.filter fun s => c.Completes decode s).take (i + 1)) g := by
  induction ss generalizing c prior with
  | nil => simp [scans]
  | cons s ss ih =>
    by_cases completes : c.Completes decode s
    · have step := scan_completes decode c completes
      have after := fun f snap => (lookup_parsed known s f snap).1
      have rest := ih (c := { c with parsed := (c.files s).foldl (write id (c.keeps decode s)) ∅ }) after
      have config : ({ c with parsed := (c.files s).foldl (write id (c.keeps decode s)) ∅ } : ComposeCollector).Completes
          decode = c.Completes decode := rfl
      simp only [config] at rest
      rw [List.filter_cons_of_pos (by simpa using completes)]
      simp only [scans, step, Option.toList_some, List.singleton_append, List.length_cons, rest.1, true_and]
      intro i g sent
      -- the first graph is of this scan, the others of those after it
      cases i with
      | zero =>
        obtain rfl := Option.some_inj.mp sent
        refine ⟨s, fun f => if f ∈ c.files s then c.keeps decode s f else none, by simp, fun f snap => ?_, ?_, ?_⟩
        · rw [List.take_succ_cons, List.take_zero]
          by_cases listed : f ∈ c.files s
          · simp only [if_pos listed]
            exact (lookup_parsed known s f snap).2 listed
          · simp [shows_concat, listed]
        all_goals
          refine List.flatMap_congr fun f listed => ?_
          simp only [if_pos listed]
      | succ i =>
        have joined := rest.2 i g (by simpa using sent)
        rwa [List.append_assoc, List.singleton_append] at joined
    · rw [List.filter_cons_of_neg (by simpa using completes)]
      simpa [scans, scan_not_completes decode c completes] using ih known

end Scans

/-- A collector starts without graphs. -/
theorem parsed_newComposeCollector (entries : List String) : (newComposeCollector entries).parsed = ∅ := by
  have add (c : ComposeCollector) (entry : String) : (c.addEntry entry).parsed = c.parsed := by
    unfold addEntry
    split
    split <;> rfl
  suffices ∀ c : ComposeCollector, (entries.foldl addEntry c).parsed = c.parsed from this {}
  intro c
  induction entries generalizing c with
  | nil => rfl
  | cons entry entries ih => exact (ih (c.addEntry entry)).trans (add c entry)

open Classical in
/-- Each scan that completes sends one graph, of what the files found last had at their last parse that did not fail
in its process. -/
theorem scans_run (decode : Bytes → Option ComposeParseResponse) (entries : List String) (swarm : Bool)
    (ss : List Scan) :
    let c := { newComposeCollector entries with swarm }
    (c.scans decode ss).1.length = (ss.filter fun s => c.Completes decode s).length ∧
      ∀ (i : Nat) (g : GraphSnapshot), (c.scans decode ss).1[i]? = some g →
        c.Joined decode ((ss.filter fun s => c.Completes decode s).take (i + 1)) g := by
  intro c
  have known (f : String) (snap : GraphSnapshot) : c.parsed.lookup f = some snap ↔ c.Shows decode [] f snap := by
    have empty : c.parsed = ∅ := parsed_newComposeCollector entries
    rw [empty, AList.lookup_empty]
    exact iff_of_false (by simp) (shows_nil decode c f snap)
  exact scans_joined known ss

end ComposeCollector

end Dockgraph.Collector
