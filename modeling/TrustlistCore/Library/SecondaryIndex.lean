import Mathlib.Data.Set.Function
import Mathlib.Logic.Function.Basic

namespace TrustlistCore.Library

variable {I K R : Type}

-- A table of records with a second table that finds a record's id by its key.
structure Indexes (key : R → K) (records : I → Option R) (index : K → Option I) : Prop where
  points : ∀ k id, index k = some id → ∃ record, records id = some record ∧ key record = k
  pointed : ∀ id record, records id = some record → index (key record) = some id

namespace Indexes

variable {key : R → K} {records : I → Option R} {index : K → Option I}

theorem empty : Indexes key (fun _ : I => none) (fun _ => none) where
  points := fun _ _ h => by cases h
  pointed := fun _ _ h => by cases h

theorem unique (h : Indexes key records index) {id other : I} {record shared : R}
    (hrecord : records id = some record) (hshared : records other = some shared)
    (hkey : key record = key shared) : id = other := by
  have hid := h.pointed id record hrecord
  rw [hkey, h.pointed other shared hshared] at hid
  exact (Option.some.inj hid).symm

theorem index_eq_some_iff (h : Indexes key records index) {k : K} {id : I} {record : R}
    (hrecord : records id = some record) : index k = some id ↔ k = key record := by
  constructor
  · intro hk
    obtain ⟨found, hfound, rfl⟩ := h.points k id hk
    rw [hrecord] at hfound
    rw [Option.some.inj hfound]
  · rintro rfl
    exact h.pointed id record hrecord

theorem isSome_index (h : Indexes key records index) {k : K} :
    (index k).isSome ↔ ∃ id record, records id = some record ∧ key record = k := by
  rw [Option.isSome_iff_exists]
  constructor
  · rintro ⟨id, hid⟩
    obtain ⟨record, hrecord, hkey⟩ := h.points k id hid
    exact ⟨id, record, hrecord, hkey⟩
  · rintro ⟨id, record, hrecord, rfl⟩
    exact ⟨id, h.pointed id record hrecord⟩

-- Every entry stands for one record and every record has one entry.
theorem bijOn (h : Indexes key records index) :
    Set.BijOn index {k | (index k).isSome} (some '' {id | (records id).isSome}) := by
  refine ⟨fun k hk => ?_, fun k hk l _ hkl => ?_, ?_⟩
  · obtain ⟨id, hid⟩ := Option.isSome_iff_exists.mp hk
    obtain ⟨record, hrecord, -⟩ := h.points k id hid
    exact ⟨id, Option.isSome_iff_exists.mpr ⟨record, hrecord⟩, hid.symm⟩
  · obtain ⟨id, hid⟩ := Option.isSome_iff_exists.mp hk
    obtain ⟨record, hrecord, rfl⟩ := h.points k id hid
    exact ((h.index_eq_some_iff hrecord).mp (hkl ▸ hid)).symm
  · rintro _ ⟨id, hid, rfl⟩
    obtain ⟨record, hrecord⟩ := Option.isSome_iff_exists.mp hid
    have hkey := h.pointed id record hrecord
    exact ⟨key record, Option.isSome_iff_exists.mpr ⟨id, hkey⟩, hkey⟩

variable [DecidableEq I]

-- A record may change in all but its key.
theorem rewrite (h : Indexes key records index) {id : I} {old new : R}
    (hold : records id = some old) (hkey : key new = key old) :
    Indexes key (Function.update records id (some new)) index where
  points k other hk := by
    obtain ⟨found, hfound, rfl⟩ := h.points k other hk
    by_cases heq : other = id
    · rw [heq, hold] at hfound
      rw [heq, Function.update_self, ← Option.some.inj hfound]
      exact ⟨new, rfl, hkey⟩
    · rw [Function.update_of_ne heq]
      exact ⟨found, hfound, rfl⟩
  pointed other found hfound := by
    by_cases heq : other = id
    · rw [heq, Function.update_self] at hfound
      rw [← Option.some.inj hfound, hkey, heq]
      exact h.pointed id old hold
    · rw [Function.update_of_ne heq] at hfound
      exact h.pointed other found hfound

variable [DecidableEq K]

theorem insert (h : Indexes key records index) {id : I} {record : R} (hfresh : records id = none)
    (hfree : index (key record) = none) :
    Indexes key (Function.update records id (some record))
      (Function.update index (key record) (some id)) where
  points k other hk := by
    by_cases hkey : k = key record
    · rw [hkey, Function.update_self] at hk
      obtain rfl := Option.some.inj hk
      exact ⟨record, Function.update_self .., hkey.symm⟩
    · rw [Function.update_of_ne hkey] at hk
      obtain ⟨found, hfound, rfl⟩ := h.points k other hk
      have hne : other ≠ id := fun heq => by
        rw [heq, hfresh] at hfound
        cases hfound
      exact ⟨found, by rw [Function.update_of_ne hne, hfound], rfl⟩
  pointed other found hfound := by
    by_cases heq : other = id
    · rw [heq, Function.update_self] at hfound
      rw [← Option.some.inj hfound, Function.update_self, heq]
    · rw [Function.update_of_ne heq] at hfound
      have hindex := h.pointed other found hfound
      have hne : key found ≠ key record := fun hkey => by
        rw [hkey, hfree] at hindex
        cases hindex
      rw [Function.update_of_ne hne, hindex]

end Indexes

end TrustlistCore.Library
