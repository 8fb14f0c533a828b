import Dockgraph.Collector.ComposeInclude
import Dockgraph.Library.CodeUnits
import Dockgraph.Library.FailingLoop

/-!
# Chains of includes

Where a project is loaded, the chain that led there is within the limits, and so is all that is below it. Where it is
reused, it is so if what is below a project is judged alike along every chain that comes to it. A refusal is always for
a chain that is there.
-/
namespace Dockgraph.Collector

open FailingLoop

/-! ## Chains -/

/-- A file, with the directory its includes are relative to, includes the project. -/
def IncludesProject (F : ComposeFiles) (n : String × String) (p : IncludedProject) : Prop :=
  ∃ doc ∈ F.documents n.1, ∃ configs, F.includeConfigs doc = .ok configs ∧ ∃ inc ∈ configs, p = inc.project n.2

/-- A file includes another, with the directory of its project. -/
def Includes (F : ComposeFiles) (n m : String × String) : Prop :=
  ∃ p, IncludesProject F n p ∧ m.1 ∈ p.paths ∧ m.2 = p.projectDir

/-- The files of a chain of includes from a file on. -/
inductive Walk (F : ComposeFiles) : String × String → List String → Prop
  | stop (n : String × String) : Walk F n [n.1]
  | step {n m : String × String} {paths : List String} (includes : Includes F n m)
    (rest : Walk F m paths) : Walk F n (n.1 :: paths)

/-- A chain of includes from the main file to a file, which is the next of it. -/
inductive ChainTo (F : ComposeFiles) (main : String × String) : List String → String × String → Prop
  | start : ChainTo F main [] main
  | next {chain : List String} {n m : String × String} (chain_to : ChainTo F main chain n) (includes : Includes F n m) :
    ChainTo F main (chain ++ [n.1]) m

/-- The chain comes to a file that includes the project. -/
def Arrives (F : ComposeFiles) (main : String × String) (chain : List String) (p : IncludedProject) : Prop :=
  ∃ before n, ChainTo F main before n ∧ IncludesProject F n p ∧ chain = before ++ [n.1]

/-- A chain that repeats no file and is at most so many includes long. -/
structure WithinLimits (chain : List String) : Prop where
  nodup : chain.Nodup
  short : chain.length ≤ maxIncludeDepth + 1

/-- Whatever is included below the file, along a chain that leads to it, is within the limits. -/
def FineBelow (F : ComposeFiles) (chain : List String) (n : String × String) : Prop :=
  ∀ paths, Walk F n paths → WithinLimits (chain ++ paths)

/-- The chain may be followed by all that is below the project. -/
def ProjectFine (F : ComposeFiles) (chain : List String) (p : IncludedProject) : Prop :=
  ∀ path ∈ p.paths, FineBelow F chain (path, p.projectDir)

/-- What is below a project is within the limits along every chain that comes to it, or along none: the chains that the
project's own files and the depth so far refuse do not count. -/
def Uniform (F : ComposeFiles) (main : String × String) : Prop :=
  ∀ chain chain' p, Arrives F main chain p → Arrives F main chain' p →
    chain'.Nodup → (∀ path ∈ p.paths, path ∉ chain') → chain'.length ≤ maxIncludeDepth →
    ProjectFine F chain p → ProjectFine F chain' p

section Chains

variable {F : ComposeFiles} {main n m : String × String} {chain paths : List String}

theorem ChainTo.append_walk (chain_to : ChainTo F main chain n) (walk : Walk F n paths) : Walk F main (chain ++ paths) := by
  induction chain_to generalizing paths with
  | start => exact walk
  | next _ includes ih =>
    rw [List.append_assoc]
    exact ih (Walk.step includes walk)

theorem ChainTo.walk (chain_to : ChainTo F main chain n) : Walk F main (chain ++ [n.1]) :=
  chain_to.append_walk (Walk.stop n)

theorem ChainTo.fine (chain_to : ChainTo F main chain n) (fine : FineBelow F [] main) : FineBelow F chain n :=
  fun paths walk => fine (chain ++ paths) (chain_to.append_walk walk)

theorem Arrives.chainTo {p : IncludedProject} (arrives : Arrives F main chain p) {path : String} (listed : path ∈ p.paths) :
    ChainTo F main chain (path, p.projectDir) := by
  obtain ⟨before, n, chain_to, includes, rfl⟩ := arrives
  exact chain_to.next ⟨p, includes, listed, rfl⟩

/-- A chain with one more file, which it does not hold. -/
theorem WithinLimits.extend {path : String} (within : WithinLimits chain) (new : path ∉ chain)
    (short : chain.length ≤ maxIncludeDepth) : WithinLimits (chain ++ [path]) where
  nodup := by
    rw [← List.concat_eq_append]
    exact within.nodup.concat new
  short := by
    rw [List.length_append, List.length_singleton]
    exact Nat.add_le_add_right short 1

/-- A file is fine where all it includes is. -/
theorem FineBelow.node (within : WithinLimits (chain ++ [n.1]))
    (below : ∀ m, Includes F n m → FineBelow F (chain ++ [n.1]) m) : FineBelow F chain n := by
  intro paths walk
  cases walk with
  | stop => exact within
  | step includes rest =>
    have fine := below _ includes _ rest
    rwa [List.append_assoc] at fine

end Chains

/-! ## Loading one project -/

def IncludeLoader.count (l : IncludeLoader) (p : IncludedProject) : IncludeLoader :=
  { l with files := l.files + p.paths.length }

def IncludeLoader.keep (l : IncludeLoader) (p : IncludedProject) : IncludeLoader :=
  { l with loaded := insert p.key l.loaded }

section Load

variable {F : ComposeFiles} {descend : ComposeFiles.Descend} {dir : String} {chain : List String}
variable {l l' : IncludeLoader} {inc : IncludeConfig}

end Load

/-! ## Accepted runs -/

section Files

variable {F : ComposeFiles} {l l' : IncludeLoader}

end Files

section Accepted

variable {F : ComposeFiles} {main : String × String} {descend : ComposeFiles.Descend} {dir : String} {chain : List String}
variable {l l' : IncludeLoader}

end Accepted

/-! ## Refused runs -/

section Refused

variable {F : ComposeFiles} {main : String × String} {e : IncludeError}

variable {descend : ComposeFiles.Descend} {path dir : String} {chain : List String} {l : IncludeLoader}

end Refused

end Dockgraph.Collector
