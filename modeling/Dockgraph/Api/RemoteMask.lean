import Dockgraph.Library.Checks
import Dockgraph.Secrets.PlainValues

/-!
# Masking agents' answers again (`api/remote_mask.go`)

What an agent answers is masked by the server as well, whatever the agent's own version does. A map is the
list of its members.
-/
namespace Dockgraph.Api

open Checks Secrets

/-- A decoded JSON value. Numbers stay as they are written. -/
inductive Json
  | null
  | bool (b : Bool)
  | number (n : String)
  | string (s : List Char)
  | array (items : List Json)
  | object (members : List (List Char × Json))

/-- An object's members, or a map's. -/
abbrev Fields := List (List Char × Json)

abbrev Texts := List (List Char × List Char)

/-- Where decoding fails. -/
inductive DecodeError
  | json
  | notAnObject
  | field (name : List Char) (e : DecodeError)

def fieldLabels : List Char := "labels".toList

def fieldEnv : List Char := "env".toList

def fieldCmd : List Char := "cmd".toList

def fieldEntrypoint : List Char := "entrypoint".toList

def fieldHealth : List Char := "health".toList

/-- The strings of a list. -/
def texts (items : List Json) : List (List Char) :=
  items.filterMap fun
    | .string s => some s
    | _ => none

/-- The masked strings go back where they were; an index past them would be a panic. -/
def putBack : List (Option Json) → List (List Char) → Option (List Json)
  | [], _ => some []
  | some v :: out, texts => (putBack out texts).map (v :: ·)
  | none :: out, s :: texts => (putBack out texts).map (.string s :: ·)
  | none :: _, [] => none

mutual

def maskStatusValue (key : List Char) : Json → Option Json
  | .string s => some (.string (maskEnvValue key s))
  | .object members =>
    if isSensitiveKey key then some (.string masked) else (maskDriverStatus members).map .object
  | .array items =>
    if isSensitiveKey key then some (.string masked)
    else (maskItems key items).bind fun out => (putBack out (maskCommand [] (texts items)).2).map .array
  | .null => if isSensitiveKey key then some (.string masked) else some .null
  | .bool b => if isSensitiveKey key then some (.string masked) else some (.bool b)
  | .number n => if isSensitiveKey key then some (.string masked) else some (.number n)

def maskDriverStatus : List (List Char × Json) → Option (List (List Char × Json))
  | [] => some []
  | (k, v) :: rest => (maskStatusValue k v).bind fun v => (maskDriverStatus rest).map ((k, v) :: ·)

/-- The items that are no strings, one by one; a string leaves its place. -/
def maskItems (key : List Char) : List Json → Option (List (Option Json))
  | [] => some []
  | .string _ :: rest => (maskItems key rest).map (none :: ·)
  | v :: rest => (maskStatusValue key v).bind fun v => (maskItems key rest).map (some v :: ·)

end

/-! ## Fields of an answer -/

/-- `fields[name]` -/
def Fields.get (fields : Fields) (name : List Char) : Option Json := List.lookup name fields

def setField (fields : Fields) (name : List Char) (v : Json) : Fields :=
  fields.map fun (k, old) => if k = name then (k, v) else (k, old)

section Fields

variable {τ : Type} (decode : Json → Option τ)

def decodeField (fields : Fields) (name : List Char) (v : τ) : Except DecodeError τ :=
  match fields.get name with
  | none => .ok v
  | some raw => orError (decode raw) (.field name .json)

def maskField (encode : τ → Json) (fields : Fields) (name : List Char) (mask : τ → τ) :
    Except DecodeError Fields :=
  match fields.get name with
  | none | some .null => .ok fields
  | some raw => (orError (decode raw) (.field name .json)).map fun v => setField fields name (encode (mask v))

end Fields

/-- A value read into a `string`. -/
def Json.asText : Json → Option (List Char)
  | .string s => some s
  | .null => some []
  | _ => none

/-- Into a `map[string]string`. -/
def Json.asTexts : Json → Option (Option Texts)
  | .object members => (members.mapM fun (p : List Char × Json) => p.2.asText.map (p.1, ·)).map some
  | .null => some none
  | _ => none

/-- Into a `[]string`. -/
def Json.asWords : Json → Option (Option (List (List Char)))
  | .array items => (items.mapM Json.asText).map some
  | .null => some none
  | _ => none

/-- Into a `[]map[string]string`. -/
def Json.asEnv : Json → Option (List (Option Texts))
  | .array items => items.mapM Json.asTexts
  | _ => none

/-- Into a `[]map[string]json.RawMessage`. -/
def Json.asEntries : Json → Option (List (Option Fields))
  | .array items => items.mapM fun
    | .object members => some (some members)
    | .null => some none
    | _ => none
  | _ => none

def Json.ofTexts : Option Texts → Json
  | none => .null
  | some m => .object (m.map fun (k, s) => (k, .string s))

def Json.ofWords : Option (List (List Char)) → Json
  | none => .null
  | some words => .array (words.map .string)

def Json.ofEntry : Option Fields → Json
  | none => .null
  | some members => .object members

/-- `m[k] = v` -/
def assign {τ : Type} (m : List (List Char × τ)) (k : List Char) (v : τ) : List (List Char × τ) :=
  if m.any fun p => p.1 = k then m.map fun (k', old) => if k' = k then (k', v) else (k', old)
  else m ++ [(k, v)]

/-- `secrets.MaskLabels` -/
def maskLabels (labels : Texts) : Texts := labels.map fun (k, v) => (k, maskEnvValue k v)

/-- An `e` of `remaskInspect`'s environment. -/
def maskEntry (e : Texts) : Texts :=
  assign e "value".toList
    (maskEnvValue ((e.lookup "key".toList).getD []) ((e.lookup "value".toList).getD []))

/-- One probe's result. -/
def maskProbe (e : Fields) : Fields :=
  match (e.get "output".toList).bind Json.asText with
  | some output => assign e "output".toList (.string (maskValue output))
  | none => e.filter fun p => p.1 ≠ "output".toList

/-- An object, decoded. -/
def decodeObject : Option Json → Except DecodeError Fields
  | some (.object fields) => .ok fields
  | some .null => .error .notAnObject
  | _ => .error .json

def remaskHealth (raw : Json) : Except DecodeError Json := do
  let health ← decodeObject (some raw)
  let health ← maskField Json.asEntries (fun entries => .array (entries.map .ofEntry)) health "log".toList
    (List.map (Option.map maskProbe))
  return .object health

/-- The entrypoint and the command, masked together. -/
def maskCommands (entrypoint cmd : Option (List (List Char))) :
    Option (List (List Char)) × Option (List (List Char)) :=
  let (maskedEntrypoint, maskedCmd) := maskCommand (entrypoint.getD []) (cmd.getD [])
  (entrypoint.map fun _ => maskedEntrypoint, cmd.map fun _ => maskedCmd)

/-- What comes after the environment and the labels. -/
def remaskRest (fields : Fields) : Except DecodeError Fields := do
  let entrypoint ← decodeField Json.asWords fields fieldEntrypoint none
  let cmd ← decodeField Json.asWords fields fieldCmd none
  let (entrypoint, cmd) := maskCommands entrypoint cmd
  let fields := setField fields fieldEntrypoint (.ofWords entrypoint)
  let fields := setField fields fieldCmd (.ofWords cmd)
  match fields.get fieldHealth with
  | none | some .null => return fields
  | some raw =>
    let health ← (remaskHealth raw).mapError (.field fieldHealth)
    return setField fields fieldHealth health

/-- On the decoded answer. -/
def remaskInspect (answer : Option Json) : Except DecodeError Json := do
  let fields ← decodeObject answer
  let fields ← maskField Json.asEnv (fun env => .array (env.map .ofTexts)) fields fieldEnv
    (List.map (Option.map maskEntry))
  let fields ← maskField Json.asTexts .ofTexts fields fieldLabels (Option.map maskLabels)
  return .object (← remaskRest fields)

mutual

/-- Two values under one key, the same but below the names of credentials. -/
def Alike (key : List Char) : Json → Json → Prop
  | .object ms, .object ms' => isSensitiveKey key ∨ MembersAlike ms ms'
  | .array is, .array is' => isSensitiveKey key ∨ ItemsAlike key is is'
  | v, v' => isSensitiveKey key ∨ v = v'

def MembersAlike : List (List Char × Json) → List (List Char × Json) → Prop
  | [], [] => True
  | (k, v) :: ms, (k', v') :: ms' => k = k' ∧ Alike k v v' ∧ MembersAlike ms ms'
  | _, _ => False

def ItemsAlike (key : List Char) : List Json → List Json → Prop
  | [], [] => True
  | v :: is, v' :: is' => Alike key v v' ∧ ItemsAlike key is is'
  | _, _ => False

end

section Status

variable {key : List Char}

theorem maskStatusValue_sensitive (sensitive : isSensitiveKey key = true) (v : Json) :
    maskStatusValue key v = some (.string masked) := by
  cases v <;> simp [maskStatusValue, maskEnvValue, sensitive]

theorem Alike.cases {v v' : Json} (alike : Alike key v v') :
    isSensitiveKey key = true ∨ v = v' ∨
      (∃ ms ms', v = .object ms ∧ v' = .object ms' ∧ MembersAlike ms ms') ∨
      ∃ is is', v = .array is ∧ v' = .array is' ∧ ItemsAlike key is is' := by
  cases v <;> cases v' <;> simp only [Alike] at alike <;> rcases alike with sensitive | same <;> simp_all

/-- Only lists and objects are gone into. -/
theorem Alike.of_scalar {v v' : Json} (alike : Alike key v v') (object : ∀ ms, v ≠ .object ms)
    (array : ∀ is, v ≠ .array is) : maskStatusValue key v = maskStatusValue key v' := by
  rcases alike.cases with sensitive | rfl | ⟨ms, _, rfl, -⟩ | ⟨is, _, rfl, -⟩
  · rw [maskStatusValue_sensitive sensitive, maskStatusValue_sensitive sensitive]
  · rfl
  · exact absurd rfl (object ms)
  · exact absurd rfl (array is)

theorem maskItems_cons {v : Json} (other : ∀ s, v ≠ .string s) (is : List Json) :
    maskItems key (v :: is) =
      (maskStatusValue key v).bind fun v => (maskItems key is).map (some v :: ·) := by
  cases v <;> simp_all [maskItems]

theorem texts_cons {v : Json} (other : ∀ s, v ≠ .string s) (is : List Json) :
    texts (v :: is) = texts is := by
  cases v <;> simp_all [texts]

end Status

mutual

theorem maskStatusValue_alike (key : List Char) : (v v' : Json) → Alike key v v' →
    maskStatusValue key v = maskStatusValue key v'
  | .object ms, v', alike => by
    rcases alike.cases with sensitive | rfl | ⟨_, ms', same, rfl, members⟩ | ⟨_, _, impossible, -⟩
    · rw [maskStatusValue_sensitive sensitive, maskStatusValue_sensitive sensitive]
    · rfl
    · cases same
      rw [maskStatusValue, maskStatusValue, maskDriverStatus_alike ms ms' members]
    · cases impossible
  | .array is, v', alike => by
    rcases Bool.eq_false_or_eq_true (isSensitiveKey key) with sensitive | plain
    · rw [maskStatusValue_sensitive sensitive, maskStatusValue_sensitive sensitive]
    rcases alike.cases with sensitive | rfl | ⟨_, _, impossible, -⟩ | ⟨_, is', whole, rfl, items⟩
    · rw [sensitive] at plain
      cases plain
    · rfl
    · cases impossible
    · cases whole
      obtain ⟨same, strings⟩ := maskItems_alike key plain is is' items
      rw [maskStatusValue, maskStatusValue, same, strings]
  | .string s, v', alike => alike.of_scalar (by simp) (by simp)
  | .null, v', alike => alike.of_scalar (by simp) (by simp)
  | .bool b, v', alike => alike.of_scalar (by simp) (by simp)
  | .number n, v', alike => alike.of_scalar (by simp) (by simp)

theorem maskDriverStatus_alike : (ms ms' : List (List Char × Json)) → MembersAlike ms ms' →
    maskDriverStatus ms = maskDriverStatus ms'
  | [], [], _ => rfl
  | (k, v) :: ms, (k', v') :: ms', alike => by
    obtain ⟨rfl, value, rest⟩ := alike
    rw [maskDriverStatus, maskDriverStatus, maskStatusValue_alike k v v' value,
      maskDriverStatus_alike ms ms' rest]
  | [], _ :: _, alike => alike.elim
  | _ :: _, [], alike => alike.elim

theorem maskItems_alike (key : List Char) (plain : isSensitiveKey key = false) :
    (is is' : List Json) → ItemsAlike key is is' →
      maskItems key is = maskItems key is' ∧ texts is = texts is'
  | [], [], _ => ⟨rfl, rfl⟩
  | v :: is, v' :: is', alike => by
    obtain ⟨value, rest⟩ := alike
    obtain ⟨same, strings⟩ := maskItems_alike key plain is is' rest
    have masks := maskStatusValue_alike key v v' value
    rcases value.cases with sensitive | rfl | ⟨ms, ms', rfl, rfl, -⟩ | ⟨js, js', rfl, rfl, -⟩
    · rw [sensitive] at plain
      cases plain
    · refine ⟨by cases v <;> simp [maskItems, same], ?_⟩
      cases v <;> simpa [texts] using strings
    · simp only [maskItems_cons (v := .object _) (by simp), texts_cons (v := .object _) (by simp)]
      exact ⟨by rw [masks, same], strings⟩
    · simp only [maskItems_cons (v := .array _) (by simp), texts_cons (v := .array _) (by simp)]
      exact ⟨by rw [masks, same], strings⟩
  | [], _ :: _, alike => alike.elim
  | _ :: _, [], alike => alike.elim

end

/-! ## The strings of a list find their places again -/

theorem length_maskCommand (args : List (List Char)) : (maskCommand [] args).2.length = args.length :=
  args_length _ args

/-- There is a masked string for each place. -/
theorem putBack_isSome (out : List (Option Json)) (strings : List (List Char))
    (places : out.countP Option.isNone ≤ strings.length) : (putBack out strings).isSome := by
  induction out generalizing strings with
  | nil => rfl
  | cons place out ih =>
    cases place with
    | some v =>
      have rest := ih strings (by simpa using places)
      simpa [putBack] using rest
    | none =>
      cases strings with
      | nil => simp at places
      | cons s strings =>
        have rest := ih strings (by simpa using places)
        simpa [putBack] using rest

mutual

theorem maskStatusValue_isSome (key : List Char) : (v : Json) → (maskStatusValue key v).isSome
  | .object ms => by
    have members := maskDriverStatus_isSome ms
    rw [maskStatusValue]
    split
    · rfl
    · simpa using members
  | .array is => by
    obtain ⟨out, items, places⟩ := maskItems_places key is
    have strings := putBack_isSome out (maskCommand [] (texts is)).2 (by rw [length_maskCommand, places])
    rw [maskStatusValue]
    split
    · rfl
    · simpa [items] using strings
  | .string s => rfl
  | .null => by rw [maskStatusValue]; split <;> rfl
  | .bool b => by rw [maskStatusValue]; split <;> rfl
  | .number n => by rw [maskStatusValue]; split <;> rfl

theorem maskDriverStatus_isSome : (ms : List (List Char × Json)) → (maskDriverStatus ms).isSome
  | [] => rfl
  | (k, v) :: ms => by
    obtain ⟨out, value⟩ := Option.isSome_iff_exists.mp (maskStatusValue_isSome k v)
    have rest := maskDriverStatus_isSome ms
    simpa [maskDriverStatus, value] using rest

/-- Each string left a place. -/
theorem maskItems_places (key : List Char) : (is : List Json) →
    ∃ out, maskItems key is = some out ∧ out.countP Option.isNone = (texts is).length
  | [] => ⟨[], rfl, rfl⟩
  | v :: is => by
    obtain ⟨rest, items, places⟩ := maskItems_places key is
    obtain ⟨out, value⟩ := Option.isSome_iff_exists.mp (maskStatusValue_isSome key v)
    by_cases string : ∃ s, v = .string s
    · obtain ⟨s, rfl⟩ := string
      exact ⟨none :: rest, by simp [maskItems, items], by simpa [texts] using places⟩
    · rw [not_exists] at string
      exact ⟨some out :: rest, by simp [maskItems_cons string, value, items],
        by simpa [texts_cons string] using places⟩

end

/-! ## Answers that differ in credentials -/

/-- The same fields, of which those under some names may differ in what a mask hides. -/
structure AnswersAlike (hidden : List Char → Json → Json → Prop) (fields fields' : Fields) : Prop where
  distinct : (fields.map Prod.fst).Nodup
  members : List.Forall₂ (fun p p' => p.1 = p'.1 ∧ (p.2 = p'.2 ∨ hidden p.1 p.2 p'.2)) fields fields'

/-- The two values are masked into one. -/
def MaskedInto {τ : Type} (decode : Json → Option τ) (encode : τ → Json) (mask : τ → τ) (v v' : Json) : Prop :=
  v ≠ .null ∧ v' ≠ .null ∧
    ∃ m m', decode v = some m ∧ decode v' = some m' ∧ encode (mask m) = encode (mask m')

section Answers

variable {hidden : List Char → Json → Json → Prop} {fields fields' : Fields} {name : List Char}

theorem forall₂_of_mem {α : Type} {R S : α → α → Prop} {l l' : List α} (all : List.Forall₂ R l l')
    (step : ∀ a ∈ l, ∀ b, R a b → S a b) : List.Forall₂ S l l' := by
  induction all with
  | nil => exact .nil
  | cons first _ ih =>
    exact .cons (step _ List.mem_cons_self _ first) (ih fun a listed => step a (List.mem_cons_of_mem _ listed))

theorem map_fst_setField (w : Json) : (setField fields name w).map Prod.fst = fields.map Prod.fst := by
  simp only [setField, List.map_map]
  refine List.map_congr_left fun p _ => ?_
  by_cases same : p.1 = name <;> simp [same]

theorem AnswersAlike.get (alike : AnswersAlike hidden fields fields') (name : List Char) :
    fields.get name = none ∧ fields'.get name = none ∨
      ∃ v v', fields.get name = some v ∧ fields'.get name = some v' ∧ (v = v' ∨ hidden name v v') := by
  obtain ⟨-, members⟩ := alike
  induction members with
  | nil => exact .inl ⟨rfl, rfl⟩
  | @cons p p' fields fields' first _ ih =>
    obtain ⟨k, v⟩ := p
    obtain ⟨k', v'⟩ := p'
    obtain ⟨rfl, related⟩ := first
    by_cases same : name = k
    · subst same
      exact .inr ⟨v, v', by simp [Fields.get], by simp [Fields.get], related⟩
    · simpa [Fields.get, List.lookup_cons, beq_false_of_ne same] using ih

/-- A map has one member under a name. -/
theorem get_of_mem {k : List Char} {v : Json} (distinct : (fields.map Prod.fst).Nodup)
    (listed : (k, v) ∈ fields) : fields.get k = some v := by
  induction fields with
  | nil => cases listed
  | cons p fields ih =>
    obtain ⟨name, held⟩ := p
    rw [List.map_cons, List.nodup_cons] at distinct
    rcases List.mem_cons.mp listed with same | later
    · cases same
      simp [Fields.get]
    · have other : k ≠ name := by
        rintro rfl
        exact distinct.1 (List.mem_map.mpr ⟨(k, v), later, rfl⟩)
      simpa [Fields.get, List.lookup_cons, beq_false_of_ne other] using ih distinct.2 later

/-- What is written under a name is the same in both. -/
theorem AnswersAlike.setField (alike : AnswersAlike hidden fields fields') (w : Json) :
    AnswersAlike (fun k v v' => k ≠ name ∧ hidden k v v') (setField fields name w)
      (setField fields' name w) := by
  refine ⟨by rw [map_fst_setField]; exact alike.distinct, ?_⟩
  simp only [Api.setField, List.forall₂_map_left_iff, List.forall₂_map_right_iff]
  refine alike.members.imp fun p p' related => ?_
  obtain ⟨same, value⟩ := related
  by_cases named : p.1 = name
  · simp [← same, named]
  · simpa [← same, named] using value

/-- A field with one value in both. -/
theorem AnswersAlike.same {v : Json} (alike : AnswersAlike hidden fields fields') (found : fields.get name = some v)
    (found' : fields'.get name = some v) : AnswersAlike (fun k w w' => k ≠ name ∧ hidden k w w') fields fields' := by
  have names : fields'.map Prod.fst = fields.map Prod.fst := by
    refine List.forall₂_eq_eq_eq ▸ ?_
    simp only [List.forall₂_map_left_iff, List.forall₂_map_right_iff]
    exact alike.members.flip.imp fun _ _ related => related.1.symm
  have kept {fields : Fields} (distinct : (fields.map Prod.fst).Nodup) (found : fields.get name = some v) :
      Api.setField fields name v = fields := by
    refine (List.map_congr_left fun p listed => ?_).trans (List.map_id' fields)
    by_cases named : p.1 = name
    · have held := get_of_mem distinct (k := p.1) (v := p.2) listed
      rw [named, found] at held
      exact (if_pos named).trans (by rw [Option.some.inj held])
    · exact if_neg named
  have written : AnswersAlike (fun k w w' => k ≠ name ∧ hidden k w w') (Api.setField fields name v)
      (Api.setField fields' name v) := alike.setField v
  rwa [kept alike.distinct found, kept (names ▸ alike.distinct) found'] at written

/-- A field that is left alone holds the same in both, or is of another name. -/
theorem AnswersAlike.other (alike : AnswersAlike hidden fields fields')
    (none_or_same : ∀ v v', fields.get name = some v → v ≠ v' → ¬hidden name v v') :
    AnswersAlike (fun k v v' => k ≠ name ∧ hidden k v v') fields fields' := by
  refine ⟨alike.distinct, forall₂_of_mem alike.members fun p listed p' related => ⟨related.1, ?_⟩⟩
  rcases related.2 with equal | hides
  · exact .inl equal
  · by_cases named : p.1 = name
    · by_cases equal : p.2 = p'.2
      · exact .inl equal
      · exact absurd (named ▸ hides) (none_or_same p.2 p'.2 (named ▸ get_of_mem alike.distinct listed) equal)
    · exact .inr ⟨named, hides⟩

theorem AnswersAlike.imp {hides : List Char → Json → Json → Prop} (alike : AnswersAlike hidden fields fields')
    (fewer : ∀ k v v', hidden k v v' → hides k v v') : AnswersAlike hides fields fields' :=
  ⟨alike.distinct, alike.members.imp fun _ _ related => ⟨related.1, related.2.imp_right (fewer _ _ _)⟩⟩

/-- Where nothing is hidden, nothing differs. -/
theorem AnswersAlike.eq (alike : AnswersAlike hidden fields fields') (nothing : ∀ k v v', ¬hidden k v v') :
    fields = fields' := by
  refine List.forall₂_eq_eq_eq ▸ alike.members.imp fun p p' related => ?_
  exact Prod.ext related.1 (related.2.resolve_right (nothing _ _ _))

/-- Answers that differ under one name only are the same where they agree on it. -/
theorem AnswersAlike.eq_of_get {differs : Json → Json → Prop}
    (alike : AnswersAlike (fun k v v' => k = name ∧ differs v v') fields fields')
    (agree : fields.get name = fields'.get name) : fields = fields' := by
  rcases alike.get name with ⟨absent, -⟩ | ⟨v, v', found, found', -⟩
  · refine (alike.other fun v v' here => ?_).eq fun k v v' hides => hides.1 hides.2.1
    rw [absent] at here
    cases here
  · obtain rfl : v = v' := Option.some.inj (found.symm.trans (agree.trans found'))
    exact (alike.same found found').eq fun k v v' hides => hides.1 hides.2.1

theorem AnswersAlike.setField_eq {differs : Json → Json → Prop}
    (alike : AnswersAlike (fun k v v' => k = name ∧ differs v v') fields fields') (w : Json) :
    Api.setField fields name w = Api.setField fields' name w :=
  (alike.setField w).eq fun _ _ _ hides => hides.1 hides.2.1

end Answers

/-- Maps that differ in values of credentials. -/
def TextsAlike : Texts → Texts → Prop :=
  List.Forall₂ fun p p' => p.1 = p'.1 ∧ (isSensitiveKey p.1 = true ∨ p.2 = p'.2)

def LabelsAlike (v v' : Json) : Prop :=
  ∃ m m', v = .ofTexts (some m) ∧ v' = .ofTexts (some m') ∧ TextsAlike m m'

/-- What an agent makes of a variable. -/
def envEntry (key value : List Char) : Texts := [("key".toList, key), ("value".toList, value)]

inductive EntryAlike : Option Texts → Option Texts → Prop
  | same (e : Option Texts) : EntryAlike e e
  | value (key s s' : List Char) (sensitive : isSensitiveKey key = true) :
      EntryAlike (some (envEntry key s)) (some (envEntry key s'))

def EnvAlike (v v' : Json) : Prop :=
  ∃ es es', v = .array (es.map .ofTexts) ∧ v' = .array (es'.map .ofTexts) ∧ List.Forall₂ EntryAlike es es'

def WordsAlike (v v' : Json) : Prop :=
  ∃ as as', v = .ofWords (some as) ∧ v' = .ofWords (some as') ∧ ArgsAlike as as'

/-- What two probes' results may differ in. -/
def ProbeHidden (k : List Char) (v v' : Json) : Prop :=
  k = "output".toList ∧ ∃ s s', v = .string s ∧ v' = .string s' ∧ OutputsAlike s s'

inductive ProbeAlike : Option Fields → Option Fields → Prop
  | same (e : Option Fields) : ProbeAlike e e
  | output {e e' : Fields} (alike : AnswersAlike ProbeHidden e e') : ProbeAlike (some e) (some e')

def LogAlike (v v' : Json) : Prop :=
  ∃ es es', v = .array (es.map .ofEntry) ∧ v' = .array (es'.map .ofEntry) ∧ List.Forall₂ ProbeAlike es es'

def HealthAlike (v v' : Json) : Prop :=
  ∃ fields fields', v = .object fields ∧ v' = .object fields' ∧
    AnswersAlike (fun k v v' => k = "log".toList ∧ LogAlike v v') fields fields'

/-- What comes after the environment and the labels. -/
def RestHidden (k : List Char) (v v' : Json) : Prop :=
  (k = fieldEntrypoint ∨ k = fieldCmd) ∧ WordsAlike v v' ∨ k = fieldHealth ∧ HealthAlike v v'

theorem asTexts_ofTexts (m : Option Texts) : (Json.ofTexts m).asTexts = some m := by
  cases m with
  | none => rfl
  | some m =>
    have members : (m.map fun p => (p.1, Json.string p.2)).mapM
        (fun p => p.2.asText.map (p.1, ·)) = some m := by
      induction m with
      | nil => rfl
      | cons p m ih =>
        simp only [List.map_cons, List.mapM_cons, ih]
        rfl
    simp only [Json.ofTexts, Json.asTexts]
    rw [members, Option.map_some]

theorem asEnv_ofTexts (es : List (Option Texts)) : (Json.array (es.map .ofTexts)).asEnv = some es := by
  simp only [Json.asEnv]
  induction es with
  | nil => rfl
  | cons e es ih => simp [ih, asTexts_ofTexts]

theorem maskEnvValue_sensitive {key : List Char} (sensitive : isSensitiveKey key = true) (s : List Char) :
    maskEnvValue key s = masked := if_pos sensitive

theorem maskLabels_alike {m m' : Texts} (alike : TextsAlike m m') : maskLabels m = maskLabels m' := by
  refine List.forall₂_eq_eq_eq ▸ ?_
  simp only [maskLabels, List.forall₂_map_left_iff, List.forall₂_map_right_iff]
  refine alike.imp fun p p' related => ?_
  rcases related with ⟨same, sensitive | equal⟩
  · rw [← same, maskEnvValue_sensitive sensitive, maskEnvValue_sensitive sensitive]
  · rw [same, equal]

theorem LabelsAlike.masked {v v' : Json} (alike : LabelsAlike v v') :
    MaskedInto Json.asTexts Json.ofTexts (Option.map maskLabels) v v' := by
  obtain ⟨m, m', rfl, rfl, texts⟩ := alike
  refine ⟨by simp [Json.ofTexts], by simp [Json.ofTexts], _, _, asTexts_ofTexts _, asTexts_ofTexts _, ?_⟩
  simp [maskLabels_alike texts]

theorem maskEntry_alike {e e' : Option Texts} (alike : EntryAlike e e') :
    e.map maskEntry = e'.map maskEntry := by
  cases alike with
  | same => rfl
  | value key s s' sensitive =>
    have apart : ("key".toList == "value".toList) = false := by decide
    simp [maskEntry, envEntry, maskEnvValue_sensitive sensitive, assign]

theorem EnvAlike.masked {v v' : Json} (alike : EnvAlike v v') :
    MaskedInto Json.asEnv (fun env => .array (env.map .ofTexts)) (List.map (Option.map maskEntry)) v v' := by
  obtain ⟨es, es', rfl, rfl, entries⟩ := alike
  refine ⟨by simp, by simp, es, es', asEnv_ofTexts es, asEnv_ofTexts es', ?_⟩
  have same : es.map (Option.map maskEntry) = es'.map (Option.map maskEntry) := by
    refine List.forall₂_eq_eq_eq ▸ ?_
    simp only [List.forall₂_map_left_iff, List.forall₂_map_right_iff]
    exact entries.imp fun e e' => maskEntry_alike
  rw [same]

theorem asEntries_ofEntry (es : List (Option Fields)) : (Json.array (es.map .ofEntry)).asEntries = some es := by
  simp only [Json.asEntries]
  induction es with
  | nil => rfl
  | cons e es ih => cases e <;> simp [ih, Json.ofEntry]

/-- A member that is there is written in its place. -/
theorem assign_of_get {e : Fields} {k : List Char} {v : Json} (found : e.get k = some v) (w : Json) :
    assign e k w = setField e k w := by
  have there : (e.any fun p => p.1 = k) = true := by
    by_contra absent
    have other := List.any_eq_false.mp (eq_false_of_ne_true absent)
    have missing : e.get k = none := List.lookup_eq_none_iff.mpr fun p listed =>
      bne_iff_ne.mpr fun same => other p listed (decide_eq_true same.symm)
    rw [missing] at found
    cases found
  rw [assign, if_pos there, setField]

theorem maskProbe_alike {e e' : Fields} (alike : AnswersAlike ProbeHidden e e') : maskProbe e = maskProbe e' := by
  rcases alike.get "output".toList with ⟨absent, absent'⟩ | ⟨v, v', found, found', rfl | ⟨-, s, s', rfl, rfl, outputs⟩⟩
  · rw [AnswersAlike.eq_of_get alike (absent.trans absent'.symm)]
  · rw [AnswersAlike.eq_of_get alike (found.trans found'.symm)]
  · -- both outputs are masked into one
    have written := AnswersAlike.setField_eq alike
    simp only [maskProbe, found, found', Option.bind_some, Json.asText, assign_of_get found, assign_of_get found',
      maskValue_alike outputs, written]

theorem LogAlike.masked {v v' : Json} (alike : LogAlike v v') :
    MaskedInto Json.asEntries (fun entries => .array (entries.map .ofEntry)) (List.map (Option.map maskProbe)) v v' := by
  obtain ⟨es, es', rfl, rfl, probes⟩ := alike
  refine ⟨by simp, by simp, es, es', asEntries_ofEntry es, asEntries_ofEntry es', ?_⟩
  have same : es.map (Option.map maskProbe) = es'.map (Option.map maskProbe) := by
    refine List.forall₂_eq_eq_eq ▸ ?_
    simp only [List.forall₂_map_left_iff, List.forall₂_map_right_iff]
    refine probes.imp fun e e' related => ?_
    cases related with
    | same => rfl
    | output alike => rw [Option.map_some, Option.map_some, maskProbe_alike alike]
  rw [same]

theorem RestHidden.name {k : List Char} {v v' : Json} (hidden : RestHidden k v v') :
    k ≠ fieldEnv ∧ k ≠ fieldLabels := by
  rcases hidden with ⟨rfl | rfl, -⟩ | ⟨rfl, -⟩ <;> decide

end Dockgraph.Api
