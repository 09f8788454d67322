import TrustlistCore.EventBus.DecoderAgreement
import TrustlistCore.EventBus.TypeScript.ConcurrentValidation

namespace TrustlistCore.EventBus

open Library Unicode Value
open TypeScript (isPresent propertyConforms conforms)

section Formats

variable (formats : String → List CodeUnit → Bool)

def PropertySchema.wellFormatted (property : PropertySchema) : Value → Bool
  | .str text => property.format.all fun format => formats format (utf16 text)
  | _ => true

-- What the formats of a schema ask of the strings that have one.
def PayloadSchema.wellFormatted (schema : PayloadSchema) : Value → Bool
  | .dict members => schema.properties.all fun property =>
      match Members.find members (points property.name) with
      | some value => property.wellFormatted formats value
      | Option.none => true
  | _ => true

end Formats

section Document

variable {maxStrDigits : ℕ}

theorem decode16_units (text : String) : decode16 (TypeScript.units text) = points text :=
  joined_points text

theorem decode16_eq_points {units : List CodeUnit} {text : String} :
    decode16 units = points text ↔ units = TypeScript.units text := by
  rw [← decode16_units]
  exact decode16_injective.eq_iff

theorem number_of_readNumber {number : Number} {value : Value}
    (h : readNumber maxStrDigits number = .ok value) :
    (∃ n, value = .int n) ∨ ∃ x, value = .float x := by
  unfold readNumber at h
  split_ifs at h
  · exact .inl ⟨_, (Except.ok.inj h).symm⟩
  · exact .inr ⟨_, (Except.ok.inj h).symm⟩

-- What is read of one tree: Ajv asks what `jsonschema` asks, and the format.
theorem propertyConforms_ofTree (formats : String → List CodeUnit → Bool) (property : PropertySchema)
    {tree : Json.Tree} {value : Value} (hread : ofTree maxStrDigits tree = .ok value) :
    propertyConforms formats property (.ofTree tree) =
      (property.admits value && property.wellFormatted formats value) := by
  cases tree with
  | null =>
      obtain rfl := Except.ok.inj hread
      rfl
  | bool b =>
      obtain rfl := Except.ok.inj hread
      rfl
  | number number =>
      have hnumber : readNumber maxStrDigits number = .ok value := hread
      obtain ⟨n, rfl⟩ | ⟨x, rfl⟩ := number_of_readNumber hnumber
      · rfl
      · rfl
  | constant c =>
      obtain rfl := Except.ok.inj hread
      cases c <;> rfl
  | string units =>
      obtain rfl := Except.ok.inj hread
      simp only [TypeScript.JsonValue.ofTree, propertyConforms, PropertySchema.admits,
        PropertySchema.wellFormatted, utf16_decode16, Bool.decide_and, Bool.and_assoc]
      simp
  | array items =>
      obtain ⟨list, -, rfl⟩ := Result.map_eq_ok.mp hread
      rfl
  | object members =>
      obtain ⟨dict, -, rfl⟩ := Result.map_eq_ok.mp hread
      simp [TypeScript.JsonValue.ofTree, propertyConforms, PropertySchema.admits,
        PropertySchema.wellFormatted]

theorem ofTree_ne_undefined (tree : Json.Tree) :
    TypeScript.JsonValue.ofTree tree ≠ .undefined := by
  cases tree with
  | constant c => cases c <;> simp [TypeScript.JsonValue.ofTree]
  | _ => simp [TypeScript.JsonValue.ofTree]

-- What the two languages hold of the members of one document.
structure Twins (maxStrDigits : ℕ) (last : List (List CodeUnit × Json.Tree))
    (value : Json.Tree → Value) (others : List (List CodeUnit × TypeScript.JsonValue)) : Prop where
  nodup : (Members.keys last).Nodup
  read : ∀ member ∈ last, ofTree maxStrDigits member.2 = .ok (value member.2)
  perm : others.Perm (last.map fun member => (member.1, TypeScript.JsonValue.ofTree member.2))

def dictOf (last : List (List CodeUnit × Json.Tree)) (value : Json.Tree → Value) :
    List (List CodePoint × Value) :=
  last.map fun member => (decode16 member.1, value member.2)

theorem exists_twins {members : List (List CodeUnit × Json.Tree)} {payload : Value}
    (hread : ofTree maxStrDigits (.object members) = .ok payload) :
    ∃ last value others, Twins maxStrDigits last value others ∧ payload = .dict (dictOf last value) ∧
      TypeScript.JsonValue.ofTree (.object members) = .object others := by
  have : Nonempty Value := ⟨.none⟩
  have htree : ∀ tree, (∃ key, (key, tree) ∈ members) → ∃ value,
      ofTree maxStrDigits tree = .ok value := by
    obtain ⟨dict, hdict, -⟩ := Result.map_eq_ok.mp hread
    rw [ofMembers_eq, Members.collect_eq_ok] at hdict
    rintro tree ⟨key, hm⟩
    have hmember := hdict ▸ List.mem_map_of_mem hm
    obtain ⟨member, -, hpair⟩ := List.mem_map.mp hmember
    exact ⟨member.2, (congrArg Prod.snd hpair).symm⟩
  choose! value hvalue using htree
  obtain ⟨hobject, others, hwire, hperm⟩ := @readings_of_object maxStrDigits members value
    fun member hm => hvalue member.2 ⟨member.1, hm⟩
  refine ⟨Members.ofPairs members, value, others, ⟨Members.nodup_ofPairs members, ?_, hperm⟩,
    Except.ok.inj (hread.symm.trans hobject), hwire⟩
  intro member hm
  exact hvalue member.2 ⟨member.1, (Members.mem_foldl_insert hm).resolve_left List.not_mem_nil⟩

section Twins

variable {last : List (List CodeUnit × Json.Tree)} {value : Json.Tree → Value}
  {others : List (List CodeUnit × TypeScript.JsonValue)}

theorem find_dictOf (name : String) : Members.find (dictOf last value) (points name) =
    (Members.find last (TypeScript.units name)).map value := by
  rw [← decode16_units]
  exact Members.find_map value fun other _ h => decode16_injective h

theorem Twins.find_others (h : Twins maxStrDigits last value others) (name : String) :
    Members.find others (TypeScript.units name) =
      (Members.find last (TypeScript.units name)).map TypeScript.JsonValue.ofTree := by
  have hnodup : (Members.keys (last.map fun member =>
      (member.1, TypeScript.JsonValue.ofTree member.2))).Nodup := by
    rw [Members.keys_mapValues]
    exact h.nodup
  rw [Members.find_perm hnodup h.perm]
  exact Members.find_map (f := id) TypeScript.JsonValue.ofTree fun other _ hother => hother

theorem Twins.isPresent_eq (h : Twins maxStrDigits last value others) (name : String) :
    isPresent (Members.find others (TypeScript.units name)) =
      (Members.find (dictOf last value) (points name)).isSome := by
  rw [h.find_others, find_dictOf]
  cases Members.find last (TypeScript.units name) with
  | none => rfl
  | some tree =>
      have hdefined := ofTree_ne_undefined tree
      simp only [Option.map_some, Option.isSome_some]
      unfold isPresent
      split
      · rename_i hnone
        cases hnone
      · rename_i hundefined
        exact absurd (Option.some.inj hundefined) hdefined
      · rfl

theorem Twins.known_eq (h : Twins maxStrDigits last value others) (properties : List PropertySchema) :
    (others.all fun member =>
        properties.any fun property => TypeScript.units property.name = member.1) =
      (dictOf last value).all fun member =>
        properties.any fun property => points property.name = member.1 := by
  rw [h.perm.all_eq, List.all_map, dictOf, List.all_map]
  congr 1
  funext member
  simp only [Function.comp_apply]
  congr 1
  funext property
  rw [decide_eq_decide]
  constructor
  · exact fun hname => (decode16_eq_points.mpr hname.symm).symm
  · exact fun hname => (decode16_eq_points.mp hname.symm).symm

theorem Twins.property_eq (h : Twins maxStrDigits last value others)
    (formats : String → List CodeUnit → Bool) (property : PropertySchema) :
    (match Members.find others (TypeScript.units property.name) with
      | some .undefined => true
      | some value => propertyConforms formats property value
      | Option.none => true) =
    ((match Members.find (dictOf last value) (points property.name) with
      | some value => property.admits value
      | Option.none => true) &&
    match Members.find (dictOf last value) (points property.name) with
      | some value => property.wellFormatted formats value
      | Option.none => true) := by
  rw [h.find_others, find_dictOf]
  cases hfind : Members.find last (TypeScript.units property.name) with
  | none => rfl
  | some tree =>
      have hread := h.read _ (Members.mem_of_find hfind)
      simp only [Option.map_some]
      rw [← propertyConforms_ofTree formats property hread]
      split
      · rename_i hundefined
        exact absurd (Option.some.inj hundefined) (ofTree_ne_undefined tree)
      · rename_i hdefined
        rw [Option.some.inj hdefined]
      · rename_i hnone
        cases hnone

end Twins

theorem all_eq_and {A : Type} {f g h : A → Bool} (heq : ∀ a, f a = (g a && h a)) (list : List A) :
    list.all f = (list.all g && list.all h) := by
  induction list with
  | nil => rfl
  | cons a list ih =>
      simp only [List.all_cons, heq, ih]
      cases g a <;> cases h a <;> simp

-- Ajv with the formats accepts what `jsonschema` accepts, where the formats hold.
theorem conforms_ofTree (formats : String → List CodeUnit → Bool) (schema : PayloadSchema)
    {tree : Json.Tree} {payload : Value} (hread : ofTree maxStrDigits tree = .ok payload) :
    conforms formats schema (.ofTree tree) =
      (schema.admits payload && schema.wellFormatted formats payload) := by
  cases tree with
  | object members =>
      obtain ⟨last, value, others, htwins, rfl, hwire⟩ := exists_twins hread
      rw [hwire]
      simp only [conforms, PayloadSchema.admits, PayloadSchema.wellFormatted]
      simp only [htwins.isPresent_eq, htwins.known_eq, Bool.and_assoc]
      congr 2
      exact all_eq_and (fun property => htwins.property_eq formats property) schema.properties
  | null =>
      obtain rfl := Except.ok.inj hread
      rfl
  | bool b =>
      obtain rfl := Except.ok.inj hread
      rfl
  | number number =>
      have hnumber : readNumber maxStrDigits number = .ok payload := hread
      obtain ⟨n, rfl⟩ | ⟨x, rfl⟩ := number_of_readNumber hnumber
      · rfl
      · rfl
  | constant c =>
      obtain rfl := Except.ok.inj hread
      rfl
  | string units =>
      obtain rfl := Except.ok.inj hread
      rfl
  | array items =>
      obtain ⟨list, -, rfl⟩ := Result.map_eq_ok.mp hread
      rfl

end Document

open TypeScript.SchemaRegistry (Served alone alone_of_served verdict)

section Parity

variable {maxStrDigits : ℕ} {formats : String → List CodeUnit → Bool} {registry : SchemaRegistry}
  {cache : ValidatorCache} {eventType : String}
  {compile : TypeScript.JsonValue → Except (List CodeUnit) TypeScript.ValidateFunction}
  {latest : List CodeUnit → List Char} {validator : TypeScript.ValidateFunction}

theorem alone_accepts_iff (hserved : Served compile latest (TypeScript.units eventType) validator)
    (payload : TypeScript.JsonValue) :
    alone compile latest (TypeScript.units eventType) payload =
        .settled (TypeScript.units eventType) payload (.ok ()) ↔ validator payload = Option.none := by
  rw [alone_of_served hserved payload]
  unfold verdict
  cases validator payload with
  | none => simp
  | some errors => simp

-- The two SDKs are at one on a payload unless `jsonschema` accepts it with a string that is not
-- in its format.
theorem validate_agree_iff
    (hserves : registry.Serves cache (points eventType) exampleCollector)
    (hjsonschema : ∀ payload, registry.validationError exampleCollector payload = Option.none ↔
      exampleCollector.admits payload = true)
    (hserved : Served compile latest (TypeScript.units eventType) validator)
    (hajv : ∀ payload, validator payload = Option.none ↔
      conforms formats exampleCollector payload = true)
    {p : Json.Tree} {payload : Value} (hread : ofTree maxStrDigits p = .ok payload) :
    ((∃ cache', (registry.validate (.str (points eventType)) payload).run cache = .ok () cache') ↔
      alone compile latest (TypeScript.units eventType) (.ofTree p) =
        .settled (TypeScript.units eventType) (.ofTree p) (.ok ())) ↔
    (exampleCollector.admits payload = true →
      exampleCollector.wellFormatted formats payload = true) := by
  rw [SchemaRegistry.validate_eq_ok_iff hserves, alone_accepts_iff hserved, hjsonschema, hajv,
    conforms_ofTree formats exampleCollector hread, Bool.and_eq_true, iff_self_and]

end Parity

-- Groups of hexadecimal digits, and anything for a date.
def groupedFormat (format : String) (text : List CodeUnit) : Bool :=
  if format = "uuid" then (text.splitOn 0x2D).map List.length = [8, 4, 4, 4, 12] else true

def collectorRegistry : SchemaRegistry where
  getLatestVersion _ := .ok (some exampleCollector)
  validationError schema payload :=
    if schema.admits payload then Option.none else some "payload does not conform"
  str
    | .str text => text
    | _ => []
  repr _ := ""

def collectorValidator (payload : TypeScript.JsonValue) : Option (List TypeScript.ErrorObject) :=
  if conforms groupedFormat exampleCollector payload then Option.none else some []

def collectorCompile (_ : TypeScript.JsonValue) :
    Except (List CodeUnit) TypeScript.ValidateFunction :=
  .ok collectorValidator

def signalTree (domainId : String) : Json.Tree :=
  .object [(TypeScript.units "domain_id", .string (TypeScript.units domainId)),
    (TypeScript.units "signal_class", .string (TypeScript.units "dns")),
    (TypeScript.units "observed_at", .string (TypeScript.units "2026-01-01T00:00:00Z")),
    (TypeScript.units "observed_value", .object [])]

def signalPayload (domainId : String) : Value :=
  .dict [(points "domain_id", .str (points domainId)), (points "signal_class", .str (points "dns")),
    (points "observed_at", .str (points "2026-01-01T00:00:00Z")), (points "observed_value", .dict [])]

def unformatted : Json.Tree :=
  signalTree "not-a-uuid"

def unformattedPayload : Value :=
  signalPayload "not-a-uuid"

theorem ofTree_unformatted : ofTree 4300 unformatted = .ok unformattedPayload := rfl

def formatted : Json.Tree :=
  signalTree "01234567-89ab-cdef-0123-456789abcdef"

def formattedPayload : Value :=
  signalPayload "01234567-89ab-cdef-0123-456789abcdef"

theorem ofTree_formatted : ofTree 4300 formatted = .ok formattedPayload := rfl

theorem serves_collector : collectorRegistry.Serves []
    (points "signal.tier-one.example-collector") exampleCollector where
  text := rfl
  latest := rfl
  cached _ h := by cases h

theorem validationError_collector (payload : Value) :
    collectorRegistry.validationError exampleCollector payload = Option.none ↔
      exampleCollector.admits payload = true := by
  simp [collectorRegistry]

theorem served_collector : Served collectorCompile TypeScript.SchemaRegistry.sampleText
    (TypeScript.units "signal.tier-one.example-collector") collectorValidator :=
  ⟨_, TypeScript.SchemaRegistry.parse_sampleText, rfl⟩

theorem collectorValidator_eq_none (payload : TypeScript.JsonValue) :
    collectorValidator payload = Option.none ↔
      conforms groupedFormat exampleCollector payload = true := by
  simp [collectorValidator]

-- The verdicts are one on a signal with a UUID, and not on one without.
theorem validate_agree_collector :
    ((∃ cache', (collectorRegistry.validate
          (.str (points "signal.tier-one.example-collector")) formattedPayload).run [] = .ok () cache') ↔
        alone collectorCompile TypeScript.SchemaRegistry.sampleText
            (TypeScript.units "signal.tier-one.example-collector") (.ofTree formatted) =
          .settled (TypeScript.units "signal.tier-one.example-collector") (.ofTree formatted)
            (.ok ())) ∧
    ¬ ((∃ cache', (collectorRegistry.validate
          (.str (points "signal.tier-one.example-collector")) unformattedPayload).run [] = .ok () cache') ↔
        alone collectorCompile TypeScript.SchemaRegistry.sampleText
            (TypeScript.units "signal.tier-one.example-collector") (.ofTree unformatted) =
          .settled (TypeScript.units "signal.tier-one.example-collector") (.ofTree unformatted)
            (.ok ())) := by
  constructor
  · rw [validate_agree_iff serves_collector validationError_collector served_collector
      collectorValidator_eq_none ofTree_formatted]
    decide +kernel
  · rw [validate_agree_iff serves_collector validationError_collector served_collector
      collectorValidator_eq_none ofTree_unformatted]
    decide +kernel

-- `jsonschema` takes a `domain_id` that is no UUID, and Ajv does not.
theorem accepted_by_one_unformatted :
    (∃ cache', (collectorRegistry.validate
        (.str (points "signal.tier-one.example-collector")) unformattedPayload).run [] =
      .ok () cache') ∧
    alone collectorCompile TypeScript.SchemaRegistry.sampleText
        (TypeScript.units "signal.tier-one.example-collector") (.ofTree unformatted) ≠
      .settled (TypeScript.units "signal.tier-one.example-collector") (.ofTree unformatted)
        (.ok ()) := by
  have hadmits : exampleCollector.admits unformattedPayload = true := by decide +kernel
  have hrefused : conforms groupedFormat exampleCollector (.ofTree unformatted) = false := by
    decide +kernel
  constructor
  · rw [SchemaRegistry.validate_eq_ok_iff serves_collector, validationError_collector]
    exact hadmits
  · rw [ne_eq, alone_accepts_iff served_collector, collectorValidator_eq_none, hrefused]
    exact Bool.false_ne_true

end TrustlistCore.EventBus
