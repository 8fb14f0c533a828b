import Dockgraph.Collector.AgentPlacement
import Dockgraph.Collector.Stats

/-!
# Merging the agents' samples

Every map that the agents' answers fill is made of claims, which a sample makes with its node's name.
Which claims there are does not depend on the order of the answers.
-/
namespace Dockgraph.Collector

open Agreement

/-! ## The samples with their nodes -/

def StampedSample.named (s : StampedSample) : Bool := s.id ≠ "" ∧ s.name ≠ ""

def AgentAnswer.stamp (a : AgentAnswer) (s : StampedSample) : StampedSample :=
  { s with nodeID := a.nodeID, nodeHostname := a.hostname }

/-- Every sample that counts. -/
def stamped (answers : List AgentAnswer) : List StampedSample :=
  answers.flatMap fun a => (a.samples.filter (·.named)).map a.stamp

theorem stamped_cons (a : AgentAnswer) (answers : List AgentAnswer) :
    stamped (a :: answers) = (a.samples.filter (·.named)).map a.stamp ++ stamped answers := rfl

def StampedSample.ownerClaims (s : StampedSample) : List (String × String) :=
  if s.taskID = "" then [(s.id, s.nodeID)] else []

def StampedSample.nameClaims (s : StampedSample) : List (String × String) :=
  if s.taskID = "" then [(s.name, s.nodeID)] else []

def StampedSample.taskClaims (s : StampedSample) : List (String × String) :=
  if s.taskID = "" then [] else [(s.id, s.taskID), (s.name, s.taskID), (s.taskID, s.taskID)]

def StampedSample.reporterClaims (s : StampedSample) : List (String × String) :=
  ("container:" ++ s.id, s.nodeID) ::
    if s.taskID = "" then [] else [("task:" ++ s.taskID, s.nodeID)]

section Field

-- One of the four maps, with the claims a sample makes in it.
variable (field : Polling → Claims) {of : StampedSample → List (String × String)}

theorem field_answers
    (add : ∀ a p s, field (Polling.add a p s) =
      if s.named then claimAll (field p) (of (a.stamp s)) else field p)
    (same : ∀ p reporting, field { p with reporting } = field p)
    (answers : List AgentAnswer) (p : Polling) :
    field (answers.foldl Polling.answer p) = claimAll (field p) ((stamped answers).flatMap of) := by
  have samples (a : AgentAnswer) (xs : List StampedSample) (p : Polling) :
      field (xs.foldl (Polling.add a) p) =
        claimAll (field p) (((xs.filter (·.named)).map a.stamp).flatMap of) := by
    induction xs generalizing p with
    | nil => rfl
    | cons s xs ih =>
      rw [List.foldl_cons, ih, add]
      by_cases named : s.named = true
      · rw [if_pos named, List.filter_cons_of_pos named, List.map_cons, List.flatMap_cons, claimAll,
          claimAll, claimAll, List.foldl_append]
      · rw [if_neg named, List.filter_cons_of_neg named]
  induction answers generalizing p with
  | nil => rfl
  | cons a answers ih =>
    rw [List.foldl_cons, ih, Polling.answer, samples, same, stamped_cons, List.flatMap_append, claimAll, claimAll, claimAll, List.foldl_append]

end Field

theorem named_iff {s : StampedSample} : s.named = true ↔ s.id ≠ "" ∧ s.name ≠ "" := by
  simp [StampedSample.named]

theorem add_unnamed (a : AgentAnswer) (p : Polling) {s : StampedSample} (unnamed : ¬s.named = true) :
    p.add a s = p := by
  have guard : s.id = "" ∨ s.name = "" := by
    rwa [named_iff, not_and_or, not_not, not_not] at unnamed
  rw [Polling.add, if_pos guard]

theorem add_named (a : AgentAnswer) (p : Polling) {s : StampedSample} (named : s.named = true) :
    (p.add a s).toReported = p.toReported.add a.nodeID s.toContainerSample ∧
      (p.add a s).samples = p.samples ++ [a.stamp s] ∧
      (p.add a s).reporters = claimAll p.reporters (a.stamp s).reporterClaims := by
  have guard : ¬(s.id = "" ∨ s.name = "") := by simpa [not_or] using named_iff.mp named
  rw [Polling.add, if_neg guard]
  refine ⟨rfl, rfl, ?_⟩
  by_cases task : s.taskID = "" <;>
    simp [StampedSample.reporterClaims, AgentAnswer.stamp, claimAll, task]

/-- What a sample that counts claims of its containers' nodes and tasks. -/
theorem reported_add (a : AgentAnswer) (r : Reported) {s : StampedSample} (named : s.named = true) :
    (r.add a.nodeID s.toContainerSample).owners = claimAll r.owners (a.stamp s).ownerClaims ∧
      (r.add a.nodeID s.toContainerSample).names = claimAll r.names (a.stamp s).nameClaims ∧
      (r.add a.nodeID s.toContainerSample).tasks = claimAll r.tasks (a.stamp s).taskClaims := by
  have guard : ¬(s.id = "" ∨ s.name = "") := by simpa [not_or] using named_iff.mp named
  rw [Reported.add, if_neg guard]
  by_cases task : s.taskID = "" <;>
    simp [StampedSample.ownerClaims, StampedSample.nameClaims, StampedSample.taskClaims,
      AgentAnswer.stamp, claimAll, task]

theorem owners_answers (answers : List AgentAnswer) :
    (answers.foldl Polling.answer {}).owners = claimAll ∅ ((stamped answers).flatMap (·.ownerClaims)) := by
  refine field_answers (·.owners) (fun a p s => ?_) (fun _ _ => rfl) answers {}
  split
  next named => rw [(add_named a p named).1, (reported_add a _ named).1]
  next unnamed => rw [add_unnamed a p unnamed]

theorem names_answers (answers : List AgentAnswer) :
    (answers.foldl Polling.answer {}).names = claimAll ∅ ((stamped answers).flatMap (·.nameClaims)) := by
  refine field_answers (·.names) (fun a p s => ?_) (fun _ _ => rfl) answers {}
  split
  next named => rw [(add_named a p named).1, (reported_add a _ named).2.1]
  next unnamed => rw [add_unnamed a p unnamed]

theorem tasks_answers (answers : List AgentAnswer) :
    (answers.foldl Polling.answer {}).tasks = claimAll ∅ ((stamped answers).flatMap (·.taskClaims)) := by
  refine field_answers (·.tasks) (fun a p s => ?_) (fun _ _ => rfl) answers {}
  split
  next named => rw [(add_named a p named).1, (reported_add a _ named).2.2]
  next unnamed => rw [add_unnamed a p unnamed]

theorem reporters_answers (answers : List AgentAnswer) :
    (answers.foldl Polling.answer {}).reporters =
      claimAll ∅ ((stamped answers).flatMap (·.reporterClaims)) := by
  refine field_answers (·.reporters) (fun a p s => ?_) (fun _ _ => rfl) answers {}
  split
  next named => rw [(add_named a p named).2.2]
  next unnamed => rw [add_unnamed a p unnamed]

theorem samples_answers (answers : List AgentAnswer) (p : Polling) :
    (answers.foldl Polling.answer p).samples = p.samples ++ stamped answers := by
  have samples (a : AgentAnswer) (xs : List StampedSample) (p : Polling) :
      (xs.foldl (Polling.add a) p).samples = p.samples ++ (xs.filter (·.named)).map a.stamp := by
    induction xs generalizing p with
    | nil => simp
    | cons s xs ih =>
      rw [List.foldl_cons, ih]
      by_cases named : s.named = true
      · rw [(add_named a p named).2.1, List.filter_cons_of_pos named, List.map_cons, List.append_assoc]
        rfl
      · rw [add_unnamed a p named, List.filter_cons_of_neg named]
  induction answers generalizing p with
  | nil => simp [stamped]
  | cons a answers ih =>
    rw [List.foldl_cons, ih, Polling.answer, samples, stamped_cons, List.append_assoc]

/-! ## Any order -/

theorem stamped_perm {answers answers' : List AgentAnswer} (perm : answers'.Perm answers) :
    (stamped answers').Perm (stamped answers) :=
  perm.flatMap_right _

/-- The same claims in any order. -/
theorem lookup_claimAll_perm {xs ys : List (String × String)} (perm : xs.Perm ys) (k : String) :
    (claimAll ∅ xs).lookup k = (claimAll ∅ ys).lookup k :=
  (speaks_claimAll xs k).unique ((speaks_claimAll ys k).congr fun _ => perm.mem_iff.symm)

theorem reportedByOthers_congr {claims claims' : Claims} (same : ∀ k, claims'.lookup k = claims.lookup k)
    (s : StampedSample) : reportedByOthers claims' s = reportedByOthers claims s := by
  simp only [reportedByOthers, same]

theorem samples_pollSamples (answers : List AgentAnswer) :
    (pollSamples answers).samples = (stamped answers).filter fun s =>
      !reportedByOthers (claimAll ∅ ((stamped answers).flatMap (·.reporterClaims))) s := by
  simp only [pollSamples, reporters_answers, samples_answers, List.nil_append]

theorem samples_perm {answers answers' : List AgentAnswer} (perm : answers'.Perm answers) :
    (pollSamples answers').samples.Perm (pollSamples answers).samples := by
  have claims := lookup_claimAll_perm ((stamped_perm perm).flatMap_right (·.reporterClaims))
  rw [samples_pollSamples, samples_pollSamples]
  simp only [fun s => reportedByOthers_congr claims s]
  exact (stamped_perm perm).filter _

/-! ## No one else -/

/-- The claim of a key that is left usable is everyone's. -/
theorem eq_of_usable {list : List (String × String)} {k v w : String}
    (usable : ((claimAll ∅ list).lookup k).getD "" ≠ "") (first : (k, v) ∈ list) (second : (k, w) ∈ list) :
    v = w := by
  cases found : (claimAll ∅ list).lookup k with
  | none => simp [found] at usable
  | some u =>
    rw [found] at usable
    have only := ((speaks_claimAll list k).some_iff u usable).mp found
    rw [(only v).mp first, (only w).mp second]

theorem mem_stamped {answers : List AgentAnswer} {s : StampedSample} :
    s ∈ stamped answers ↔ ∃ a ∈ answers, ∃ t ∈ a.samples, t.named = true ∧ a.stamp t = s := by
  simp [stamped, and_assoc]

/-- A sample that is kept is of a container and of a task that its node alone reported. -/
theorem alone_of_kept {answers : List AgentAnswer} {s : StampedSample}
    (kept : s ∈ (pollSamples answers).samples) {a : AgentAnswer} (answer : a ∈ answers)
    (other : a.nodeID ≠ s.nodeID) {t : StampedSample} (reported : t ∈ a.samples) (named : t.named = true) :
    t.id ≠ s.id ∧ (s.taskID ≠ "" → t.taskID ≠ s.taskID) := by
  rw [samples_pollSamples, List.mem_filter] at kept
  obtain ⟨member, alone⟩ := kept
  have listed : a.stamp t ∈ stamped answers := mem_stamped.mpr ⟨a, answer, t, reported, named, rfl⟩
  have claimed {k v : String} {u : StampedSample} (from' : u ∈ stamped answers)
      (claim : (k, v) ∈ u.reporterClaims) : (k, v) ∈ (stamped answers).flatMap (·.reporterClaims) :=
    List.mem_flatMap.mpr ⟨u, from', claim⟩
  simp only [reportedByOthers, Bool.not_eq_true'] at alone
  split at alone
  · cases alone
  next usable =>
    refine ⟨fun same => other ?_, fun task same => other ?_⟩
    · refine eq_of_usable usable (claimed listed ?_) (claimed member (List.mem_cons_self ..))
      rw [← same]
      exact List.mem_cons_self ..
    · have usableTask : ((claimAll ∅ ((stamped answers).flatMap (·.reporterClaims))).lookup
          ("task:" ++ s.taskID)).getD "" ≠ "" := by simpa [task] using alone
      refine eq_of_usable usableTask (claimed listed ?_) (claimed member ?_)
      · have stampTask : (a.stamp t).taskID = s.taskID := same
        simp only [StampedSample.reporterClaims, stampTask, if_neg task]
        simp [AgentAnswer.stamp]
      · simp [StampedSample.reporterClaims, task]

/-! ## With the local samples -/

theorem mergeNew_sublist (seenIDs : List String) (remote : List StampedSample) :
    (mergeNew seenIDs remote).Sublist remote := by
  induction remote generalizing seenIDs with
  | nil => exact .slnil
  | cons s rest ih =>
    rw [mergeNew]
    split
    · exact (ih seenIDs).cons s
    · exact (ih _).cons_cons s

theorem mergeNew_unseen (seenIDs : List String) (remote : List StampedSample) :
    ∀ s ∈ mergeNew seenIDs remote, s.id ∉ seenIDs := by
  induction remote generalizing seenIDs with
  | nil => exact fun _ member => nomatch member
  | cons s rest ih =>
    intro t member
    rw [mergeNew] at member
    split at member
    · exact ih seenIDs t member
    next new =>
      rcases List.mem_cons.mp member with rfl | later
      · exact fun seen => new (.inr seen)
      · exact fun seen => ih _ t later (List.mem_cons_of_mem _ seen)

theorem mergeNew_nodup (seenIDs : List String) (remote : List StampedSample) :
    ((mergeNew seenIDs remote).map (·.id)).Nodup := by
  induction remote generalizing seenIDs with
  | nil => exact List.nodup_nil
  | cons s rest ih =>
    rw [mergeNew]
    split
    · exact ih seenIDs
    · refine List.nodup_cons.mpr ⟨fun again => ?_, ih _⟩
      obtain ⟨t, later, same⟩ := List.mem_map.mp again
      exact mergeNew_unseen _ rest t later (same ▸ List.mem_cons_self)

/-- Of an ID that is new, the first sample stays. -/
theorem find?_mergeNew {seenIDs : List String} {id : String} (new : id ∉ seenIDs) (some : id ≠ "")
    (remote : List StampedSample) :
    (mergeNew seenIDs remote).find? (·.id = id) = remote.find? (·.id = id) := by
  induction remote generalizing seenIDs with
  | nil => rfl
  | cons s rest ih =>
    rw [mergeNew]
    by_cases here : s.id = id
    · subst here
      rw [if_neg (not_or.mpr ⟨some, new⟩)]
      simp
    · rw [List.find?_cons_of_neg (by simpa using here)]
      split
      · exact ih new
      · rw [List.find?_cons_of_neg (by simpa using here)]
        exact ih (by simp [Ne.symm here, new])

theorem mergeSamples_eq (localSamples remote : List StampedSample) :
    mergeSamples localSamples remote =
      localSamples ++ mergeNew (localSamples.map (·.id)) remote := by
  rw [mergeSamples]
  split
  next none => rw [List.length_eq_zero_iff.mp none, mergeNew, List.append_nil]
  next => rfl

/-- The answers' order decides nothing, no sample stays that another node contradicts, and the local
samples are joined by the first sample of each new container. -/
theorem samples_merged (answers : List AgentAnswer) :
    (∀ answers' : List AgentAnswer, answers'.Perm answers →
      (∀ k, (pollSamples answers').owners.lookup k = (pollSamples answers).owners.lookup k) ∧
      (∀ k, (pollSamples answers').names.lookup k = (pollSamples answers).names.lookup k) ∧
      (∀ k, (pollSamples answers').tasks.lookup k = (pollSamples answers).tasks.lookup k) ∧
      (pollSamples answers').samples.Perm (pollSamples answers).samples) ∧
    (∀ s ∈ (pollSamples answers).samples, ∀ a ∈ answers, a.nodeID ≠ s.nodeID →
      ∀ t ∈ a.samples, t.id ≠ "" → t.name ≠ "" →
        t.id ≠ s.id ∧ (s.taskID ≠ "" → t.taskID ≠ s.taskID)) ∧
    ∀ localSamples : List StampedSample, (localSamples.map (·.id)).Nodup →
      ((mergeSamples localSamples (pollSamples answers).samples).map (·.id)).Nodup ∧
      ∃ new : List StampedSample,
        mergeSamples localSamples (pollSamples answers).samples = localSamples ++ new ∧
        new.Sublist (pollSamples answers).samples ∧
        ∀ id, id ∉ localSamples.map (·.id) →
          new.find? (·.id = id) = (pollSamples answers).samples.find? (·.id = id) := by
  refine ⟨fun answers' perm => ⟨?_, ?_, ?_, samples_perm perm⟩, ?_, fun localSamples distinct => ?_⟩
  · simp only [pollSamples, owners_answers]
    exact lookup_claimAll_perm ((stamped_perm perm).flatMap_right _)
  · simp only [pollSamples, names_answers]
    exact lookup_claimAll_perm ((stamped_perm perm).flatMap_right _)
  · simp only [pollSamples, tasks_answers]
    exact lookup_claimAll_perm ((stamped_perm perm).flatMap_right _)
  · exact fun s kept a answer other t reported id name =>
      alone_of_kept kept answer other reported (named_iff.mpr ⟨id, name⟩)
  · rw [mergeSamples_eq, List.map_append]
    refine ⟨List.nodup_append.mpr ⟨distinct, mergeNew_nodup _ _, ?_⟩,
      _, rfl, mergeNew_sublist _ _, fun id new => ?_⟩
    · intro id known id' new same
      obtain ⟨s, member, rfl⟩ := List.mem_map.mp new
      exact mergeNew_unseen _ _ s member (same ▸ known)
    · by_cases some : id = ""
      · have named : ∀ s ∈ (pollSamples answers).samples, s.id ≠ "" := by
          intro s kept
          rw [samples_pollSamples] at kept
          obtain ⟨a, -, t, -, named, rfl⟩ := mem_stamped.mp (List.mem_filter.mp kept).1
          exact (named_iff.mp named).1
        have none {xs : List StampedSample} (part : xs ⊆ (pollSamples answers).samples) :
            xs.find? (·.id = id) = Option.none :=
          List.find?_eq_none.mpr fun s member => by simpa [some] using named s (part member)
        rw [none (mergeNew_sublist _ _).subset, none (List.Subset.refl _)]
      · exact find?_mergeNew new some _

/-- A sample without a name is no report. -/
theorem unnamed_uncounted : ¬∀ (answers : List AgentAnswer), ∀ s ∈ (pollSamples answers).samples,
    ∀ a ∈ answers, a.nodeID ≠ s.nodeID → ∀ t ∈ a.samples, t.id ≠ s.id := by
  intro all
  let s : StampedSample := { id := "c", name := "web", stats := .zero }
  let t : StampedSample := { id := "c", name := "", stats := .zero }
  let a : AgentAnswer := ⟨"a", "one", [s], by decide⟩
  let b : AgentAnswer := ⟨"b", "two", [t], by decide⟩
  have kept : a.stamp s ∈ (pollSamples [a, b]).samples := by
    have member : a.stamp s ∈ stamped [a, b] :=
      mem_stamped.mpr ⟨a, by simp, s, by simp [a], by decide, rfl⟩
    rw [samples_pollSamples]
    exact List.mem_filter.mpr ⟨member, by decide +kernel⟩
  exact all [a, b] _ kept b (by simp) (by decide) t (by simp [b]) rfl

end Dockgraph.Collector
