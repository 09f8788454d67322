import TrustlistCore.EventBus.Idempotency.Theorems
import TrustlistCore.EventBus.Value.Plain

namespace TrustlistCore.EventBus

open Library Unicode

namespace Value

section SameText

open Idempotency (canonical)

theorem laidOut_dict (members : List (List CodePoint × Value)) :
    laidOut canonical (.dict members) =
      .object ((Members.sorted (members.map fun member =>
        (member.1, laidOut canonical member.2))).map fun member =>
          (utf16 member.1, member.2)) := by
  rw [laidOut, laidOutMembers_eq]
  rfl

-- Sorting erases the order the members came in; being keyed it erases nothing else.
theorem laidOut_dict_eq_iff {xs ys : List (List CodePoint × Value)}
    (hx : PlainNode (.dict xs)) (hy : PlainNode (.dict ys)) :
    laidOut canonical (.dict xs) = laidOut canonical (.dict ys) ↔
      ∀ member, member ∈ xs.map (fun member => (member.1, laidOut canonical member.2)) ↔
        member ∈ ys.map fun member => (member.1, laidOut canonical member.2) := by
  have hxkeys := Members.keys_mapValues (laidOut canonical) xs
  have hykeys := Members.keys_mapValues (laidOut canonical) ys
  have hnodup : (Members.keys (xs.map fun member =>
      (member.1, laidOut canonical member.2))).Nodup := by rw [hxkeys]; exact hx.1
  have honodup : (Members.keys (ys.map fun member =>
      (member.1, laidOut canonical member.2))).Nodup := by rw [hykeys]; exact hy.1
  rw [laidOut_dict, laidOut_dict, Json.Tree.object.injEq, ← Members.perm_iff hnodup honodup,
    ← Members.sorted_eq_iff hnodup]
  constructor
  · intro h
    have hdecode := congrArg (List.map fun member => (decode16 member.1, member.2)) h
    rw [decode_keys, decode_keys] at hdecode
    · exact hdecode
    · intro key hkey
      rw [(Members.keys_sorted_perm _).mem_iff, hykeys] at hkey
      exact hy.2 key hkey
    · intro key hkey
      rw [(Members.keys_sorted_perm _).mem_iff, hxkeys] at hkey
      exact hx.2 key hkey
  · intro h
    rw [h]

theorem laidOut_dict_eq_iff_sameMembers {xs ys : List (List CodePoint × Value)}
    (hx : PlainNode (.dict xs)) (hy : PlainNode (.dict ys))
    (ih : ∀ member ∈ xs, ∀ member' ∈ ys,
      laidOut canonical member.2 = laidOut canonical member'.2 ↔
        sameJson member.2 member'.2) :
    laidOut canonical (.dict xs) = laidOut canonical (.dict ys) ↔
      (∀ key, key ∈ Members.keys xs ↔ key ∈ Members.keys ys) ∧ sameMembers xs ys := by
  rw [laidOut_dict_eq_iff hx hy, sameMembers_iff]
  constructor
  · intro h
    constructor
    · intro key
      have hkeys := Members.mem_keys_congr h key
      rw [Members.keys_mapValues, Members.keys_mapValues] at hkeys
      exact hkeys
    · intro member hm
      obtain ⟨other, ho, heq⟩ := List.mem_map.mp ((h _).mp (List.mem_map_of_mem hm))
      obtain ⟨hkey, hvalue⟩ := Prod.mk.inj heq
      exact ⟨other.2, by rw [← hkey]; exact ho, (ih member hm other ho).mp hvalue.symm⟩
  · rintro ⟨hkeys, hmembers⟩ pair
    constructor
    · intro hpair
      obtain ⟨member, hm, rfl⟩ := List.mem_map.mp hpair
      obtain ⟨other, ho, hsame⟩ := hmembers member hm
      exact List.mem_map.mpr ⟨_, ho, Prod.ext rfl ((ih member hm _ ho).mpr hsame).symm⟩
    · intro hpair
      obtain ⟨member, hm, rfl⟩ := List.mem_map.mp hpair
      obtain ⟨value, hv⟩ := Members.mem_keys.mp
        ((hkeys member.1).mpr (List.mem_map_of_mem hm))
      obtain ⟨other, ho, hsame⟩ := hmembers _ hv
      have hother : other = member.2 := Members.eq_of_mem hy.1 ho hm
      subst hother
      exact List.mem_map.mpr ⟨_, hv, Prod.ext rfl ((ih _ hv member hm).mpr hsame)⟩

theorem laidOutItems_eq_iff {xs ys : List Value}
    (ih : ∀ x ∈ xs, ∀ y ∈ ys,
      laidOut canonical x = laidOut canonical y ↔ sameJson x y) :
    xs.map (laidOut canonical) = ys.map (laidOut canonical) ↔ sameItems xs ys := by
  induction xs generalizing ys with
  | nil => cases ys <;> simp [sameItems]
  | cons x xs step =>
      cases ys with
      | nil => simp [sameItems]
      | cons y ys =>
          have hhead := ih x List.mem_cons_self y List.mem_cons_self
          have htail := @step ys fun x hx y hy =>
            ih x (List.mem_cons_of_mem _ hx) y (List.mem_cons_of_mem _ hy)
          rw [List.map_cons, List.map_cons, List.cons.injEq, hhead, htail, sameItems]

-- The canonical documents of two plain values are one just where the values are.
theorem laidOut_eq_iff {v w : Value} (hv : Plain v) (hw : Plain w) :
    laidOut canonical v = laidOut canonical w ↔ sameJson v w := by
  induction v using induct generalizing w with
  | none => cases w <;> first | exact absurd hw.self id | simp [laidOut, sameJson]
  | bool b => cases w <;> first | exact absurd hw.self id | simp [laidOut, sameJson]
  | int n =>
      cases w with
      | int m =>
          simp only [laidOut, sameJson, Json.Tree.number.injEq]
          exact ⟨Number.ofInt_injective, congrArg Number.ofInt⟩
      | float x => exact absurd hw.self id
      | object kind text => exact absurd hw.self id
      | _ => simp [laidOut, sameJson]
  | float x => exact absurd hv.self id
  | str s =>
      cases w with
      | str t =>
          simp only [laidOut, sameJson, Json.Tree.string.injEq]
          exact ⟨utf16_injective_of_scalar hv.self hw.self, congrArg utf16⟩
      | float x => exact absurd hw.self id
      | object kind text => exact absurd hw.self id
      | _ => simp [laidOut, sameJson]
  | list xs ih =>
      cases w with
      | list ys =>
          simp only [laidOut, sameJson, Json.Tree.array.injEq, laidOutItems_eq]
          exact laidOutItems_eq_iff fun x hx y hy =>
            ih x hx ((every_list.mp hv).2 x hx) ((every_list.mp hw).2 y hy)
      | float x => exact absurd hw.self id
      | object kind text => exact absurd hw.self id
      | _ => simp [laidOut, sameJson]
  | dict xs ih =>
      cases w with
      | dict ys =>
          rw [laidOut_dict_eq_iff_sameMembers hv.self hw.self fun x hx y hy =>
            ih x hx ((every_dict.mp hv).2 x hx) ((every_dict.mp hw).2 y hy), sameJson]
      | float x => exact absurd hw.self id
      | object kind text => exact absurd hw.self id
      | _ => simp [laidOut, sameJson]
  | object kind text => exact absurd hv.self id

end SameText

end Value

namespace Idempotency

open Value

theorem plain_find {payload : List (List CodePoint × Value)} (h : Plain (.dict payload))
    {name : List CodePoint} {value : Value} (hvalue : Members.find payload name = some value) :
    Plain value :=
  (every_dict.mp h).2 _ (Members.mem_of_find hvalue)

theorem plain_document {eventType : List CodePoint} (htype : Scalar eventType)
    {payload : List (List CodePoint × Value)} (hpayload : Plain (.dict payload))
    {keyFields : List (List CodePoint)}
    (hpresent : ∀ name ∈ keyFields, name ∈ Members.keys payload) :
    Plain (document eventType payload keyFields) := by
  refine every_document ?_ htype ?_ ?_
  · refine ⟨(by decide : [points "event_type", points "key_fields"].Nodup), fun key hkey => ?_⟩
    have hcases : key = points "event_type" ∨ key = points "key_fields" := by
      simpa [Members.keys] using hkey
    rcases hcases with rfl | rfl
    · exact scalar_points _
    · exact scalar_points _
  · refine ⟨Members.nodup_ofPairs _, fun key hkey => ?_⟩
    exact hpayload.self.2 key (hpresent key ((mem_keys_selected hpresent).mp hkey))
  · exact fun name _ value hvalue => plain_find hpayload hvalue

theorem sameJson_document {e e' : List CodePoint} {p p' : List (List CodePoint × Value)}
    {K K' : List (List CodePoint)} :
    sameJson (document e p K) (document e' p' K') ↔
      e = e' ∧ sameJson (.dict (selected p K)) (.dict (selected p' K')) := by
  have hne : points "event_type" ≠ points "key_fields" := by decide
  have hkeys : Members.keys [(points "event_type", Value.str e),
      (points "key_fields", .dict (selected p K))] = Members.keys
        [(points "event_type", Value.str e'), (points "key_fields", .dict (selected p' K'))] := rfl
  unfold document
  rw [sameJson, hkeys]
  constructor
  · rintro ⟨-, htype, hselected, -⟩
    obtain ⟨other, hother, hsame⟩ := htype
    obtain ⟨other', hother', hsame'⟩ := hselected
    rcases List.mem_cons.mp hother with heq | hmem
    · rw [(Prod.mk.inj heq).2, sameJson] at hsame
      rcases List.mem_cons.mp hother' with heq' | hmem'
      · exact absurd (Prod.mk.inj heq').1.symm hne
      · rw [(Prod.mk.inj (List.mem_singleton.mp hmem')).2] at hsame'
        exact ⟨hsame, hsame'⟩
    · exact absurd (Prod.mk.inj (List.mem_singleton.mp hmem)).1 hne
  · rintro ⟨rfl, hsame⟩
    refine ⟨fun _ => Iff.rfl, ⟨_, List.mem_cons_self, ?_⟩, ⟨_, List.mem_cons_of_mem _
      List.mem_cons_self, hsame⟩, trivial⟩
    rw [sameJson]

theorem sameJson_document_iff {e e' : List CodePoint} {p p' : List (List CodePoint × Value)}
    {K K' : List (List CodePoint)} (hpresent : ∀ name ∈ K, name ∈ Members.keys p)
    (hpresent' : ∀ name ∈ K', name ∈ Members.keys p') :
    sameJson (document e p K) (document e' p' K') ↔
      e = e' ∧ (∀ name, name ∈ K ↔ name ∈ K') ∧
        ∀ name ∈ K, ∃ value value', Members.find p name = some value ∧
          Members.find p' name = some value' ∧ sameJson value value' := by
  rw [sameJson_document, sameJson, sameMembers_iff]
  simp only [mem_keys_selected hpresent, mem_keys_selected hpresent']
  refine and_congr_right fun _ => and_congr_right fun hnames => ?_
  constructor
  · intro h name hname
    obtain ⟨value, hvalue⟩ :=
      Members.mem_keys.mp ((mem_keys_selected hpresent).mpr hname)
    obtain ⟨value', hvalue', hsame⟩ := h _ hvalue
    exact ⟨value, value', (mem_selected.mp hvalue).2, (mem_selected.mp hvalue').2, hsame⟩
  · intro h member hm
    obtain ⟨hname, hfind⟩ := mem_selected.mp hm
    obtain ⟨value, value', hvalue, hvalue', hsame⟩ := h member.1 hname
    rw [hfind, Option.some.injEq] at hvalue
    subst hvalue
    exact ⟨value', mem_selected.mpr ⟨(hnames member.1).mp hname, hvalue'⟩, hsame⟩

-- Two derivations give one key just where they name the same event: unique readability
-- of the canonical text one way, sorting at every depth the other.
theorem derive_eq_derive_iff {maxStrDigits : ℕ} {sha256 : List UInt8 → List Char}
    (hsha : ∀ bytes bytes', Hashed maxStrDigits bytes → Hashed maxStrDigits bytes' →
      sha256 bytes = sha256 bytes' → bytes = bytes')
    {e e' : List CodePoint} {p p' : List (List CodePoint × Value)} {K K' : List (List CodePoint)}
    (htype : Scalar e) (htype' : Scalar e') (hp : Plain (.dict p)) (hp' : Plain (.dict p'))
    (hne : K ≠ []) (hne' : K' ≠ []) (hpresent : ∀ name ∈ K, name ∈ Members.keys p)
    (hpresent' : ∀ name ∈ K', name ∈ Members.keys p') (hfits : Fits maxStrDigits p K)
    (hfits' : Fits maxStrDigits p' K') :
    ∃ key key', deriveIdempotencyKey maxStrDigits sha256 e p K = .ok key ∧
      deriveIdempotencyKey maxStrDigits sha256 e' p' K' = .ok key' ∧
      (key = key' ↔
        e = e' ∧ (∀ name, name ∈ K ↔ name ∈ K') ∧
          ∀ name ∈ K, ∃ value value', Members.find p name = some value ∧
            Members.find p' name = some value' ∧ sameJson value value') := by
  have hplain := plain_document htype hp hpresent
  have hplain' := plain_document htype' hp' hpresent'
  refine ⟨_, _, derive_eq_ok hne hpresent hfits, derive_eq_ok hne' hpresent' hfits', ?_⟩
  rw [← sameJson_document_iff hpresent hpresent', ← laidOut_eq_iff hplain hplain']
  constructor
  · intro h
    have hbytes := hsha _ _ ⟨e, p, K, _, canonicalJson_document hfits, rfl⟩
      ⟨e', p', K', _, canonicalJson_document hfits', rfl⟩ h
    exact Json.render_injective Json.faithful_quoteAscii (Utf8.encode_injective hbytes)
  · intro h
    unfold documentText
    rw [h]

def signalDocument : List UInt8 :=
  Utf8.encode "\x7b\"event_type\":\"signal\",\"key_fields\":\x7b\"domain_id\":1\x7d\x7d".toList

def signalDigest : List UInt8 → List Char :=
  digestAt signalDocument "5dc9e76c6e22d16c07c72bfec433817fdc6ecb70ed479344e72246cb620a64b2".toList

theorem fits_of_find {maxStrDigits : ℕ} {payload : List (List CodePoint × Value)}
    {name : List CodePoint} {value : Value} (hfind : Members.find payload name = some value)
    (h : Every (Prints canonical maxStrDigits) value) : Fits maxStrDigits payload [name] := by
  intro other hother found hfound
  rw [List.mem_singleton.mp hother, hfind] at hfound
  rw [← Option.some.inj hfound]
  exact h

-- A member that no key field names makes no difference.
theorem derive_eq_derive_signal :
    ∃ key key',
      deriveIdempotencyKey 4300 signalDigest (points "signal")
        [(points "domain_id", .int 1)] [points "domain_id"] = .ok key ∧
      deriveIdempotencyKey 4300 signalDigest (points "signal")
        [(points "seen", .bool true), (points "domain_id", .int 1)] [points "domain_id"] =
          .ok key' ∧
      (key = key' ↔
        points "signal" = points "signal" ∧
          (∀ name, name ∈ [points "domain_id"] ↔ name ∈ [points "domain_id"]) ∧
          ∀ name ∈ [points "domain_id"], ∃ value value',
            Members.find [(points "domain_id", Value.int 1)] name = some value ∧
              Members.find [(points "seen", .bool true), (points "domain_id", .int 1)] name =
                some value' ∧ sameJson value value') :=
  derive_eq_derive_iff (fun _ _ _ _ h => digestAt_injective (by decide) h)
    (scalar_points _) (scalar_points _)
    (every_dict.mpr ⟨⟨by decide, by simp [Members.keys, scalar_points]⟩, by simp [Every, PlainNode]⟩)
    (every_dict.mpr ⟨⟨by decide, by simp [Members.keys, scalar_points]⟩, by simp [Every, PlainNode]⟩)
    (by decide) (by decide) (by decide) (by decide)
    (fits_of_find rfl (by decide : exceeds 4300 (Nat.toDigits 10 1) = false))
    (fits_of_find rfl (by decide : exceeds 4300 (Nat.toDigits 10 1) = false))

theorem derive_of_exceeds {maxStrDigits : ℕ} {n : ℤ}
    (h : exceeds maxStrDigits (Nat.toDigits 10 n.natAbs) = true)
    (sha256 : List UInt8 → List Char) (eventType name : List CodePoint) :
    deriveIdempotencyKey maxStrDigits sha256 eventType [(name, .int n)] [name] =
      (intNumber maxStrDigits n).map fun _ => [] := by
  have hnumber : ∃ e, intNumber maxStrDigits n = .error e := by
    unfold intNumber
    rw [if_pos h]
    exact ⟨_, rfl⟩
  obtain ⟨e, he⟩ := hnumber
  have hmissing : missing [(name, Value.int n)] [name] = [] := by
    rw [missing_eq_nil]
    simp [Members.keys]
  have hselected : selected [(name, Value.int n)] [name] = [(name, .int n)] := by
    simp [selected, Members.find, Members.ofPairs, Members.insert, Members.keys]
  have hdocument : Value.document canonical maxStrDigits
      (document eventType [(name, .int n)] [name]) = .error e := by
    unfold document
    rw [hselected, Value.document]
    simp only [documentMembers, Value.document, he]
    rfl
  unfold deriveIdempotencyKey
  rw [if_neg (by simp), if_neg (by simp [hmissing])]
  unfold canonicalJson dumps
  rw [hdocument, he]
  rfl

-- An integer past the limit on digits has no key at all, under whatever event type.
theorem derive_past_limit :
    ¬ ((∃ key key',
        deriveIdempotencyKey 4300 signalDigest (points "signal")
          [(points "domain_id", .int (10 ^ 4300))] [points "domain_id"] = .ok key ∧
        deriveIdempotencyKey 4300 signalDigest (points "signal")
          [(points "domain_id", .int (10 ^ 4300))] [points "domain_id"] = .ok key' ∧
        key = key') ↔
      points "signal" = points "signal" ∧
        (∀ name, name ∈ [points "domain_id"] ↔ name ∈ [points "domain_id"]) ∧
        ∀ name ∈ [points "domain_id"], ∃ value value',
          Members.find [(points "domain_id", Value.int (10 ^ 4300))] name = some value ∧
            Members.find [(points "domain_id", Value.int (10 ^ 4300))] name = some value' ∧
              sameJson value value') := by
  have hexceeds := exceeds_pow (show 4300 ≠ 0 by decide)
  intro h
  have hsame : ∀ name ∈ [points "domain_id"], ∃ value value',
      Members.find [(points "domain_id", Value.int (10 ^ 4300))] name = some value ∧
        Members.find [(points "domain_id", Value.int (10 ^ 4300))] name = some value' ∧
          sameJson value value' := by
    intro name hname
    rw [List.mem_singleton.mp hname]
    exact ⟨_, _, rfl, rfl, by rw [sameJson]⟩
  obtain ⟨key, _, hkey, -⟩ := h.mpr ⟨rfl, fun _ => Iff.rfl, hsame⟩
  rw [derive_of_exceeds hexceeds] at hkey
  unfold intNumber at hkey
  rw [if_pos hexceeds] at hkey
  exact absurd hkey (by simp [Except.map])

end Idempotency

end TrustlistCore.EventBus
