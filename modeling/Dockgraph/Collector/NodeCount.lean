import Mathlib.Algebra.BigOperators.Group.List.Basic
import Mathlib.Data.List.AList
import Mathlib.Data.Set.Card
import Mathlib.Logic.Relation

/-!
# Counting the nodes of YAML (`collector/compose_extends.go`)

An alias stands for all of the node it names, so a few lines can stand for more nodes than a
64-bit integer counts. Each node is walked once; its count is kept under its pointer.
-/
namespace Dockgraph.Collector

/-- A node with pointers in place of its parts. Nodes of kinds other than aliases count alike. -/
inductive YamlNode (Ptr : Type)
  | aliasNode (target : Option Ptr)
  | contentNode (content : List Ptr)

/-- The nodes that pointers point to. -/
abbrev YamlGraph (Ptr : Type) := Ptr → YamlNode Ptr

abbrev NodeCounts (Ptr : Type) := AList fun _ : Ptr => Int64

section Code

variable {Ptr : Type} [DecidableEq Ptr]

/-- The loop of `nodeCount` over a node's content. -/
def nodeCount.content (count : Ptr → NodeCounts Ptr → Option (Int64 × NodeCounts Ptr)) :
    List Ptr → Int64 → NodeCounts Ptr → Option (Int64 × NodeCounts Ptr)
  | [], c, counted => some (c, counted)
  | child :: rest, c, counted => do
    let (n, counted) ← count child counted
    nodeCount.content count rest (c + n) counted

/-- The first argument bounds the depth of the recursion; `none` past it. -/
def nodeCount (graph : YamlGraph Ptr) : Nat → Ptr → NodeCounts Ptr → Option (Int64 × NodeCounts Ptr)
  | 0, _, _ => none
  | depth + 1, n, counted =>
    match graph n with
    | .aliasNode none => some (1, counted)
    | .aliasNode (some target) => nodeCount graph depth target counted
    | .contentNode content =>
      match counted.lookup n with
      | some c => some (c, counted)
      | none => do
        -- a node within its own alias counts once
        let (c, counted) ← nodeCount.content (nodeCount graph depth) content 1 (counted.insert n 1)
        some (c, counted.insert n c)

end Code

/-! ## Expanding aliases -/

/-- A node with its aliases expanded. -/
inductive Expanded
  | node (content : List Expanded)

def Expanded.count : Expanded → Nat
  | node content => 1 + (content.map count).sum

section Expansion

variable {Ptr : Type} (graph : YamlGraph Ptr)

def YamlNode.refs : YamlNode Ptr → List Ptr
  | aliasNode target => target.toList
  | contentNode content => content

def Refers (p q : Ptr) : Prop := q ∈ (graph p).refs

/-- No node is within itself, through aliases or content. -/
def NoCycle : Prop := ∀ p, ¬Relation.TransGen (Refers graph) p p

/-- The number of nodes within a node. -/
noncomputable def inner (p : Ptr) : Nat := Set.ncard {q | Relation.TransGen (Refers graph) p q}

variable {graph}

theorem inner_lt [Finite Ptr] (noCycle : NoCycle graph) {p q : Ptr} (refers : Refers graph p q) :
    inner graph q < inner graph p := by
  refine Set.ncard_lt_ncard ⟨fun r within => Relation.TransGen.head refers within, fun back => ?_⟩
  exact noCycle q (back (Relation.TransGen.single refers))

theorem inner_lt_card [Finite Ptr] (noCycle : NoCycle graph) (p : Ptr) : inner graph p < Nat.card Ptr := by
  apply Set.ncard_lt_card
  intro all
  exact noCycle p (all ▸ Set.mem_univ p : p ∈ {q | Relation.TransGen (Refers graph) p q})

/-- The node with its aliases expanded, as the loader decodes it. A dangling alias is a node. -/
noncomputable def expand [Finite Ptr] (noCycle : NoCycle graph) (p : Ptr) : Expanded :=
  match shape : graph p with
  | .aliasNode none => .node []
  | .aliasNode (some target) =>
    have : Refers graph p target := by simp [Refers, shape, YamlNode.refs]
    expand noCycle target
  | .contentNode content =>
    .node (content.attach.map fun (child : { q // q ∈ content }) =>
      have : Refers graph p child.1 := by simpa only [Refers, shape, YamlNode.refs] using child.2
      expand noCycle child.1)
termination_by inner graph p
decreasing_by
  · exact inner_lt noCycle this
  · exact inner_lt noCycle this

/-- The number of nodes that a node stands for. -/
noncomputable def expandedNodes [Finite Ptr] (noCycle : NoCycle graph) (p : Ptr) : Nat := (expand noCycle p).count

section

variable [Finite Ptr] {noCycle : NoCycle graph} {p : Ptr}

theorem expandedNodes_dangling (shape : graph p = .aliasNode none) : expandedNodes noCycle p = 1 := by
  rw [expandedNodes, expand]
  split <;> simp_all [Expanded.count]

theorem expandedNodes_alias {target : Ptr} (shape : graph p = .aliasNode (some target)) :
    expandedNodes noCycle p = expandedNodes noCycle target := by
  rw [expandedNodes, expand]
  split <;> simp_all [expandedNodes]

theorem expandedNodes_content {content : List Ptr} (shape : graph p = .contentNode content) :
    expandedNodes noCycle p = 1 + (content.map (expandedNodes noCycle)).sum := by
  have expanded : expand noCycle p = .node (content.map (expand noCycle)) := by
    rw [expand]
    split <;> simp_all
  rw [expandedNodes, expanded, Expanded.count, List.map_map]
  rfl

end

end Expansion

/-! ## Counts are those of the expansion -/

section Counts

variable {Ptr : Type} [DecidableEq Ptr] [Finite Ptr] {graph : YamlGraph Ptr} {noCycle : NoCycle graph}
variable {within inside : Ptr → Prop} {counted after last : NodeCounts Ptr} {p : Ptr}

/-- The number of nodes in 64 bits. -/
noncomputable def wrapped (noCycle : NoCycle graph) (p : Ptr) : Int64 :=
  Int64.ofNat (expandedNodes noCycle p)

variable (noCycle) in
/-- The counts of these nodes are right. -/
def Right (within : Ptr → Prop) (counted : NodeCounts Ptr) : Prop :=
  ∀ q c, within q → counted.lookup q = some c → c = wrapped noCycle q

variable (noCycle) in
/-- Only counts of these nodes are added. -/
def Adds (within : Ptr → Prop) (counted after : NodeCounts Ptr) : Prop :=
  ∀ q, after.lookup q = counted.lookup q ∨ within q ∧ after.lookup q = some (wrapped noCycle q)

theorem Right.mono (right : Right noCycle within counted) (sub : ∀ q, inside q → within q) :
    Right noCycle inside counted :=
  fun q c reached => right q c (sub q reached)

theorem Right.adds (right : Right noCycle within counted) (adds : Adds noCycle inside counted after) :
    Right noCycle within after := by
  intro q c reached found
  rcases adds q with kept | ⟨-, added⟩
  · exact right q c reached (kept ▸ found)
  · exact (Option.some.inj (added.symm.trans found)).symm

theorem Adds.mono (adds : Adds noCycle inside counted after) (sub : ∀ q, inside q → within q) :
    Adds noCycle within counted after :=
  fun q => (adds q).imp_right fun added => ⟨sub q added.1, added.2⟩

theorem Adds.trans (first : Adds noCycle within counted after) (second : Adds noCycle within after last) :
    Adds noCycle within counted last := by
  intro q
  rcases second q with kept | added
  · rw [kept]
    exact first q
  · exact .inr added

/-- What counting a node from the given counts gives. -/
def CountsNode (noCycle : NoCycle graph) (within : Ptr → Prop) (total : Nat)
    (result : Option (Int64 × NodeCounts Ptr)) (counted : NodeCounts Ptr) : Prop :=
  ∃ after, result = some (Int64.ofNat total, after) ∧ Adds noCycle within counted after

theorem nodeCount_content (count : Ptr → NodeCounts Ptr → Option (Int64 × NodeCounts Ptr))
    {reach : Ptr → Ptr → Prop} {content : List Ptr}
    (child : ∀ q ∈ content, ∀ counted, Right noCycle (reach q) counted →
      CountsNode noCycle (reach q) (expandedNodes noCycle q) (count q counted) counted)
    (reached : ∀ q ∈ content, ∀ r, reach q r → within r) (right : Right noCycle within counted) (c : Nat) :
    CountsNode noCycle within (c + (content.map (expandedNodes noCycle)).sum)
      (nodeCount.content count content (Int64.ofNat c) counted) counted := by
  -- each child adds its counts to those that the next one sees
  induction content generalizing c counted with
  | nil => exact ⟨counted, rfl, fun q => .inl rfl⟩
  | cons q rest ih =>
    rw [List.forall_mem_cons] at child reached
    obtain ⟨after, counts, adds⟩ := child.1 counted (right.mono reached.1)
    obtain ⟨last, done, more⟩ := ih child.2 reached.2 (right.adds adds) (c + expandedNodes noCycle q)
    refine ⟨last, ?_, (adds.mono reached.1).trans more⟩
    rw [nodeCount.content, counts, Option.bind_eq_bind, Option.bind_some]
    dsimp only
    rw [← Int64.ofNat_add, done, List.map_cons, List.sum_cons, Nat.add_assoc]

/-- The nodes a node stands for, itself included, by reference. -/
abbrev Reaches (graph : YamlGraph Ptr) : Ptr → Ptr → Prop := Relation.ReflTransGen (Refers graph)

/-- The count that marks a node is seen by nothing within the node. -/
theorem Right.mark (right : Right noCycle (Reaches graph p) counted) (c : Int64) :
    Right noCycle (Relation.TransGen (Refers graph) p) (counted.insert p c) := by
  intro q d reached found
  have other : q ≠ p := fun same => noCycle p (same ▸ reached)
  rw [AList.lookup_insert_ne other] at found
  exact right q d reached.to_reflTransGen found

/-- The count that a node is left with takes the place of its mark. -/
theorem Adds.count {c : Int64} (adds : Adds noCycle (Relation.TransGen (Refers graph) p) (counted.insert p c) after) :
    Adds noCycle (Reaches graph p) counted (after.insert p (wrapped noCycle p)) := by
  intro q
  by_cases same : q = p
  · subst same
    exact .inr ⟨.refl, AList.lookup_insert _⟩
  · rw [AList.lookup_insert_ne same]
    rcases adds q with kept | ⟨reached, added⟩
    · exact .inl (by rw [kept, AList.lookup_insert_ne same])
    · exact .inr ⟨reached.to_reflTransGen, added⟩

theorem nodeCount_spec {depth : Nat} (deep : inner graph p < depth)
    (right : Right noCycle (Reaches graph p) counted) :
    CountsNode noCycle (Reaches graph p) (expandedNodes noCycle p) (nodeCount graph depth p counted)
      counted := by
  -- The recursion is at most as deep as the nodes within the node.
  induction depth generalizing p counted with
  | zero => exact absurd deep (Nat.not_lt_zero _)
  | succ depth ih =>
    cases shape : graph p with
    | aliasNode target =>
      cases target with
      | none =>
        refine ⟨counted, ?_, fun q => .inl rfl⟩
        simp only [nodeCount, shape, expandedNodes_dangling shape]
        rfl
      | some target =>
        have refers : Refers graph p target := by simp [Refers, shape, YamlNode.refs]
        have reached : ∀ r, Reaches graph target r → Reaches graph p r :=
          fun r => Relation.ReflTransGen.head refers
        have deeper : inner graph target < depth :=
          Nat.lt_of_lt_of_le (inner_lt noCycle refers) (Nat.le_of_lt_succ deep)
        obtain ⟨after, counts, adds⟩ := ih deeper (right.mono reached)
        refine ⟨after, ?_, adds.mono reached⟩
        simp only [nodeCount, shape, counts, expandedNodes_alias shape]
    | contentNode content =>
      have refers (q : Ptr) (listed : q ∈ content) : Refers graph p q := by
        simpa only [Refers, shape, YamlNode.refs] using listed
      cases known : counted.lookup p with
      | some c =>
        refine ⟨counted, ?_, fun q => .inl rfl⟩
        simp only [nodeCount, shape, known, right p c .refl known, wrapped]
      | none =>
        -- The node is marked before its content is counted, which never comes back to it.
        have strict (q : Ptr) (listed : q ∈ content) (r : Ptr) (reach : Reaches graph q r) :
            Relation.TransGen (Refers graph) p r :=
          Relation.TransGen.head' (refers q listed) reach
        have deeper (q : Ptr) (listed : q ∈ content) : inner graph q < depth :=
          Nat.lt_of_lt_of_le (inner_lt noCycle (refers q listed)) (Nat.le_of_lt_succ deep)
        obtain ⟨after, counts, adds⟩ := nodeCount_content (nodeCount graph depth)
          (fun q listed _ known => ih (deeper q listed) known) strict (right.mark 1) 1
        have done : nodeCount.content (nodeCount graph depth) content 1 (counted.insert p 1) =
            some (Int64.ofNat (1 + (content.map (expandedNodes noCycle)).sum), after) := counts
        refine ⟨after.insert p (wrapped noCycle p), ?_, adds.count⟩
        simp only [nodeCount, shape, known, done, Option.bind_eq_bind, Option.bind_some, wrapped,
          expandedNodes_content shape]

end Counts

end Dockgraph.Collector
