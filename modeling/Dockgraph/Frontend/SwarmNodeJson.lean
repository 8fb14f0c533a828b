import Dockgraph.Frontend.DeltaUtils
import Dockgraph.Library.CodeUnits
import Dockgraph.Library.Text

/-!
# The JSON of a cluster node

The last part of a node's fingerprint is `JSON.stringify` of its cluster node. Where its texts have nothing to escape
and no comma or closing brace, the JSON is read back member by member.
-/
namespace Dockgraph.Frontend

open CodeUnits

/-! ## Texts free of marks -/

/-- None of the marks is in the text. -/
def Without (marks : List Char) (s : String) : Prop := ∀ c ∈ s.toList, c ∉ marks

instance (marks : List Char) (s : String) : Decidable (Without marks s) :=
  List.decidableBAll (fun c => c ∉ marks) s.toList

/-- No control character is in the text. -/
def Printable (s : String) : Prop := ∀ c ∈ s.toList, 32 ≤ c.toNat

instance (s : String) : Decidable (Printable s) := List.decidableBAll (fun c : Char => 32 ≤ c.toNat) s.toList

theorem Without.mono {marks fewer : List Char} {s : String} (free : Without marks s) (sub : fewer ⊆ marks) :
    Without fewer s := fun c member listed => free c member (sub listed)

theorem Without.not_mem {marks : List Char} {s : String} {c : Char} (free : Without marks s) (mark : c ∈ marks) :
    c ∉ s.toList := fun member => free c member mark

/-- What is in no part and is not the separator is not in the join. -/
theorem without_join {marks : List Char} (sep : Char) {xs : List String} (absent : sep ∉ marks)
    (free : ∀ x ∈ xs, Without marks x) : Without marks (CodeUnits.join sep xs) := by
  intro c member mark
  rcases mem_join member with rfl | ⟨x, listed, within⟩
  · exact absent mark
  · exact free x listed c within mark

theorem not_mem_toString {c : Char} (other : c.isDigit = false) (sign : c ≠ '-') (n : Int) : c ∉ (toString n).toList := by
  intro member
  have printed := Text.forall_mem_toString (p := fun c => c.isDigit ∨ c = '-') (fun _ => .inl) (.inr rfl) n c member
  rcases printed with digit | minus
  · simp [digit] at other
  · exact sign minus

/-! ## Members -/

/-- The texts of the JSON. -/
def SwarmNodeInfo.texts (s : SwarmNodeInfo) : List String :=
  [s.id, s.role, s.availability, s.state] ++ s.addr.toList ++ s.engineVersion.toList

/-- Nothing to escape, and none of the JSON's own marks but the colon. -/
def SwarmNodeInfo.Readable (s : SwarmNodeInfo) : Prop :=
  ∀ t ∈ s.texts, Without ['"', '\\', ',', '\x7d'] t ∧ Printable t

def SwarmNodeInfo.members (s : SwarmNodeInfo) : List (String × Option String) :=
  [("id", some (jsonString s.id)), ("role", some (jsonString s.role)), ("leader", s.leader.map toString),
    ("availability", some (jsonString s.availability)), ("state", some (jsonString s.state)),
    ("addr", s.addr.map jsonString), ("engineVersion", s.engineVersion.map jsonString),
    ("nanoCpus", s.nanoCpus.map toString), ("memoryBytes", s.memoryBytes.map toString)]

def memberNames : List String :=
  ["id", "role", "leader", "availability", "state", "addr", "engineVersion", "nanoCpus", "memoryBytes"]

theorem map_fst_members (s : SwarmNodeInfo) : s.members.map Prod.fst = memberNames := rfl

def memberText (name value : String) : String := jsonString name ++ ":" ++ value

/-- A member that is absent leaves no text. -/
def memberTexts (member : String × Option String) : List String := (member.2.map (memberText member.1)).toList

theorem jsonSwarmNode_some (s : SwarmNodeInfo) :
    jsonSwarmNode (some s) = "\x7b" ++ CodeUnits.join ',' (s.members.flatMap memberTexts) ++ "\x7d" := by
  have members : s.members.flatMap memberTexts = s.members.flatMap fun m =>
      (m.2.map fun v => jsonString m.1 ++ ":" ++ v).toList := rfl
  rw [members]
  simp only [SwarmNodeInfo.members, List.flatMap_cons, List.flatMap_nil, List.append_nil]
  simp only [← List.append_assoc]
  rfl

theorem jsonString_chars {s : String} (free : Without ['"', '\\'] s) (printed : ∀ c ∈ s.toList, 32 ≤ c.toNat) :
    (jsonString s).toList = '"' :: (s.toList ++ ['"']) := by
  have kept : s.toList.map jsonChar = s.toList.map Char.toString := by
    apply List.map_congr_left
    intro c member
    have other := free c member
    have above := printed c member
    simp only [List.mem_cons, List.not_mem_nil, or_false, not_or] at other
    unfold jsonChar
    rw [if_neg other.1, if_neg other.2, if_neg (by omega), if_neg (by omega), if_neg (by omega), if_neg (by omega),
      if_neg (by omega), if_neg (by omega)]
  have joined (cs : List Char) : (String.join (cs.map Char.toString)).toList = cs := by
    induction cs with
    | nil => rfl
    | cons c cs ih => simp [ih]
  rw [jsonString, kept]
  simp [joined]

theorem jsonString_read {s s' : String} (free : Without ['"', '\\'] s) (printed : ∀ c ∈ s.toList, 32 ≤ c.toNat)
    (free' : Without ['"', '\\'] s') (printed' : ∀ c ∈ s'.toList, 32 ≤ c.toNat)
    (same : jsonString s = jsonString s') : s = s' := by
  have chars := congrArg String.toList same
  rw [jsonString_chars free printed, jsonString_chars free' printed'] at chars
  exact String.toList_inj.mp (List.append_cancel_right (List.cons.inj chars).2)

theorem memberName_plain :
    ∀ name ∈ memberNames, Without ['"', '\\', ':', ',', '\x7d'] name ∧ Printable name := by
  decide

theorem memberName_chars {name : String} (listed : name ∈ memberNames) :
    (jsonString name).toList = '"' :: (name.toList ++ ['"']) :=
  jsonString_chars ((memberName_plain name listed).1.mono (by decide)) (memberName_plain name listed).2

theorem memberName_without {name : String} (listed : name ∈ memberNames) :
    Without [':', ',', '\x7d'] (jsonString name) := by
  intro c member
  rw [memberName_chars listed, List.mem_cons, List.mem_append, List.mem_singleton] at member
  rcases member with rfl | within | rfl
  · decide
  · exact ((memberName_plain name listed).1.mono (by decide)) c within
  · decide

theorem memberText_read {name name' value value' : String} (listed : name ∈ memberNames) (listed' : name' ∈ memberNames)
    (same : memberText name value = memberText name' value') : name = name' ∧ value = value' := by
  have chars : (jsonString name).toList ++ ':' :: value.toList = (jsonString name').toList ++ ':' :: value'.toList := by
    simpa [memberText] using congrArg String.toList same
  obtain ⟨names, values⟩ := Text.split_at_first ((memberName_without listed).not_mem List.mem_cons_self)
    ((memberName_without listed').not_mem List.mem_cons_self) chars
  rw [memberName_chars listed, memberName_chars listed'] at names
  exact ⟨String.toList_inj.mp (List.append_cancel_right (List.cons.inj names).2), String.toList_inj.mp values⟩

/-- The texts of the members tell which are there, and their values. -/
theorem members_read {ms ms' : List (String × Option String)} (known : ms.map Prod.fst ⊆ memberNames)
    (unique : (ms.map Prod.fst).Nodup) (names : ms.map Prod.fst = ms'.map Prod.fst)
    (same : ms.flatMap memberTexts = ms'.flatMap memberTexts) : ms = ms' := by
  have foreign {name value : String} {rest : List (String × Option String)} (listed : name ∈ memberNames)
      (known : rest.map Prod.fst ⊆ memberNames) (absent : name ∉ rest.map Prod.fst) :
      memberText name value ∉ rest.flatMap memberTexts := by
    intro member
    obtain ⟨⟨other, value'⟩, within, text⟩ := List.mem_flatMap.mp member
    have other_listed := List.mem_map_of_mem (f := Prod.fst) within
    obtain ⟨v, -, text⟩ := Option.map_eq_some_iff.mp (Option.mem_toList.mp text)
    obtain ⟨rfl, -⟩ := memberText_read (known other_listed) listed text
    exact absent other_listed
  induction ms generalizing ms' with
  | nil => exact (List.map_eq_nil_iff.mp names.symm).symm
  | cons m ms ih =>
    cases ms' with
    | nil => cases names
    | cons m' ms' =>
      obtain ⟨name, value⟩ := m
      obtain ⟨name', value'⟩ := m'
      obtain ⟨rfl, later⟩ : name = name' ∧ ms.map Prod.fst = ms'.map Prod.fst := by simpa using names
      rw [List.map_cons, List.cons_subset] at known
      rw [List.map_cons, List.nodup_cons] at unique
      obtain ⟨listed, known⟩ := known
      obtain ⟨absent, unique⟩ := unique
      rw [List.flatMap_cons, List.flatMap_cons, memberTexts, memberTexts] at same
      -- either both have the member, or neither
      cases value with
      | none =>
        cases value' with
        | none => rw [ih known unique later same]
        | some v' =>
          have member : memberText name v' ∈ ms.flatMap memberTexts := by
            rw [show ms.flatMap memberTexts = _ from same]
            exact List.mem_cons_self
          exact absurd member (foreign listed known absent)
      | some v =>
        cases value' with
        | none =>
          have member : memberText name v ∈ ms'.flatMap memberTexts := by
            rw [← show _ = ms'.flatMap memberTexts from same]
            exact List.mem_cons_self
          rw [later] at known absent
          exact absurd member (foreign listed known absent)
        | some v' =>
          obtain ⟨text, rest⟩ := List.cons.inj same
          rw [(memberText_read listed listed text).2, ih known unique later rest]

theorem member_without {s : SwarmNodeInfo} (readable : s.Readable) {name value : String}
    (listed : (name, some value) ∈ s.members) : Without [',', '\x7d'] value := by
  have text {t : String} (listed : t ∈ s.texts) : Without [',', '\x7d'] (jsonString t) := by
    obtain ⟨free, printed⟩ := readable t listed
    intro c member
    rw [jsonString_chars (free.mono (by decide)) printed, List.mem_cons, List.mem_append, List.mem_singleton] at member
    rcases member with rfl | within | rfl
    · decide
    · exact (free.mono (by decide)) c within
    · decide
  have number (n : Int) : Without [',', '\x7d'] (toString n) := by
    intro c member mark
    have other : c.isDigit = false ∧ c ≠ '-' := by
      simp only [List.mem_cons, List.not_mem_nil, or_false] at mark
      rcases mark with rfl | rfl <;> decide
    exact not_mem_toString other.1 other.2 n member
  simp only [SwarmNodeInfo.members, List.mem_cons, Prod.mk.injEq, List.not_mem_nil, or_false] at listed
  have both : ∀ b : Bool, Without [',', '\x7d'] (toString b) := by decide
  rcases listed with ⟨-, v⟩ | ⟨-, v⟩ | ⟨-, v⟩ | ⟨-, v⟩ | ⟨-, v⟩ | ⟨-, v⟩ | ⟨-, v⟩ | ⟨-, v⟩ | ⟨-, v⟩
  · obtain rfl := Option.some.inj v
    exact text (by simp [SwarmNodeInfo.texts])
  · obtain rfl := Option.some.inj v
    exact text (by simp [SwarmNodeInfo.texts])
  · obtain ⟨b, -, rfl⟩ := Option.map_eq_some_iff.mp v.symm
    exact both b
  · obtain rfl := Option.some.inj v
    exact text (by simp [SwarmNodeInfo.texts])
  · obtain rfl := Option.some.inj v
    exact text (by simp [SwarmNodeInfo.texts])
  · obtain ⟨a, set, rfl⟩ := Option.map_eq_some_iff.mp v.symm
    exact text (by simp [SwarmNodeInfo.texts, set])
  · obtain ⟨e, set, rfl⟩ := Option.map_eq_some_iff.mp v.symm
    exact text (by simp [SwarmNodeInfo.texts, set])
  · obtain ⟨n, -, rfl⟩ := Option.map_eq_some_iff.mp v.symm
    exact number n
  · obtain ⟨n, -, rfl⟩ := Option.map_eq_some_iff.mp v.symm
    exact number n

theorem mem_texts {s : SwarmNodeInfo} {t : String} :
    t ∈ s.texts ↔ t = s.id ∨ t = s.role ∨ t = s.availability ∨ t = s.state ∨ t ∈ s.addr ∨ t ∈ s.engineVersion := by
  simp [SwarmNodeInfo.texts]

theorem map_read {α β : Type} {f : α → β} {x y : Option α} (told : ∀ a ∈ x, ∀ b ∈ y, f a = f b → a = b)
    (same : x.map f = y.map f) : x = y := by
  cases x with
  | none => exact (Option.map_eq_none_iff.mp same.symm).symm
  | some a =>
    obtain ⟨b, rfl, images⟩ := Option.map_eq_some_iff.mp same.symm
    rw [told a rfl b rfl images.symm]

theorem memberTexts_without {s : SwarmNodeInfo} (readable : s.Readable) :
    ∀ text ∈ s.members.flatMap memberTexts, Without [',', '\x7d'] text := by
  intro text listed c member
  obtain ⟨⟨name, value⟩, within, text⟩ := List.mem_flatMap.mp listed
  obtain ⟨v, rfl, rfl⟩ := Option.map_eq_some_iff.mp (Option.mem_toList.mp text)
  have known : name ∈ memberNames := by
    rw [← map_fst_members s]
    exact List.mem_map_of_mem within
  simp only [memberText, String.toList_append, List.mem_append] at member
  rcases member with (quoted | colon) | value
  · exact (memberName_without known).mono (by decide) c quoted
  · rw [List.mem_singleton.mp colon]
    decide
  · exact member_without readable within c value

/-- What stands between the braces. -/
def jsonBody (s : SwarmNodeInfo) : String := CodeUnits.join ',' (s.members.flatMap memberTexts)

theorem jsonBody_without {s : SwarmNodeInfo} (readable : s.Readable) : '\x7d' ∉ (jsonBody s).toList := by
  have free : Without ['\x7d'] (jsonBody s) :=
    without_join ',' (by decide) fun text listed => (memberTexts_without readable text listed).mono (by decide)
  exact free.not_mem List.mem_cons_self

theorem jsonSwarmNode_chars (s : SwarmNodeInfo) :
    (jsonSwarmNode (some s)).toList = '\x7b' :: ((jsonBody s).toList ++ ['\x7d']) := by
  rw [jsonSwarmNode_some]
  simp [jsonBody]

theorem jsonBody_read {s s' : SwarmNodeInfo} (readable : s.Readable) (readable' : s'.Readable)
    (same : jsonBody s = jsonBody s') : s = s' := by
  have present {s : SwarmNodeInfo} : ∀ text ∈ s.members.flatMap memberTexts, text ≠ "" := by
    rintro text listed rfl
    obtain ⟨member, -, text⟩ := List.mem_flatMap.mp listed
    obtain ⟨v, -, empty⟩ := Option.map_eq_some_iff.mp (Option.mem_toList.mp text)
    have chars := congrArg String.toList empty
    simp [memberText] at chars
  have absent {s : SwarmNodeInfo} (readable : s.Readable) : ∀ text ∈ s.members.flatMap memberTexts, ',' ∉ text.toList :=
    fun text listed => (memberTexts_without readable text listed).not_mem List.mem_cons_self
  have texts := join_inj present present (absent readable) (absent readable') same
  have members : s.members = s'.members := members_read (List.Subset.refl memberNames)
    (by decide : memberNames.Nodup) rfl texts
  have quoted {t t' : String} (listed : t ∈ s.texts) (listed' : t' ∈ s'.texts) (same : jsonString t = jsonString t') :
      t = t' :=
    jsonString_read ((readable t listed).1.mono (by decide)) (readable t listed).2
      ((readable' t' listed').1.mono (by decide)) (readable' t' listed').2 same
  simp only [SwarmNodeInfo.members, List.cons.injEq, Prod.mk.injEq, true_and, Option.some.injEq, and_true] at members
  obtain ⟨id, role, leader, availability, state, addr, engineVersion, nanoCpus, memoryBytes⟩ := members
  have toldId := quoted (mem_texts.mpr (.inl rfl)) (mem_texts.mpr (.inl rfl)) id
  have toldRole := quoted (mem_texts.mpr (.inr (.inl rfl))) (mem_texts.mpr (.inr (.inl rfl))) role
  have toldAvailability := quoted (mem_texts.mpr (.inr (.inr (.inl rfl)))) (mem_texts.mpr (.inr (.inr (.inl rfl)))) availability
  have toldState := quoted (mem_texts.mpr (.inr (.inr (.inr (.inl rfl))))) (mem_texts.mpr (.inr (.inr (.inr (.inl rfl)))))
    state
  have toldAddr := map_read (fun a set a' set' => quoted (mem_texts.mpr (.inr (.inr (.inr (.inr (.inl set))))))
    (mem_texts.mpr (.inr (.inr (.inr (.inr (.inl set'))))))) addr
  have toldEngine := map_read (fun e set e' set' => quoted (mem_texts.mpr (.inr (.inr (.inr (.inr (.inr set))))))
    (mem_texts.mpr (.inr (.inr (.inr (.inr (.inr set'))))))) engineVersion
  have toldLeader := map_read (fun b _ b' _ => (by decide : ∀ b b' : Bool, toString b = toString b' → b = b') b b') leader
  have toldCpus := map_read (fun _ _ _ _ => Text.toString_inj) nanoCpus
  have toldMemory := map_read (fun _ _ _ _ => Text.toString_inj) memoryBytes
  cases s
  cases s'
  rw [SwarmNodeInfo.mk.injEq]
  exact ⟨toldId, toldRole, toldLeader, toldAvailability, toldState, toldAddr, toldEngine, toldCpus, toldMemory⟩

end Dockgraph.Frontend
