import Mathlib.Data.List.Induction
import Mathlib.Data.List.Nodup

namespace TrustlistCore.Library.FirstWrite

variable {α κ : Type} [DecidableEq κ]

theorem filter_of_nodup_keys {entries : List α} {key : α → κ} (h : (entries.map key).Nodup) {a : α}
    (ha : a ∈ entries) : entries.filter (fun b => key b = key a) = [a] := by
  induction entries with
  | nil => exact nomatch ha
  | cons entry entries ih =>
      rw [List.map_cons, List.nodup_cons] at h
      rcases List.mem_cons.mp ha with rfl | hrest
      · have hnone : entries.filter (fun b => key b = key a) = [] :=
          List.filter_eq_nil_iff.mpr fun b hb hkey =>
            h.1 (of_decide_eq_true hkey ▸ List.mem_map_of_mem hb)
        rw [List.filter_cons, if_pos (decide_eq_true rfl), hnone]
      · have hne : key entry ≠ key a := fun hkey => h.1 (hkey ▸ List.mem_map_of_mem hrest)
        rw [List.filter_cons, if_neg (by simpa using hne), ih h.2 hrest]

variable (key : α → κ)

-- A register for each key that its first write sets and no later one changes.
def put (ledger : List α) (a : α) : List α :=
  if key a ∈ ledger.map key then ledger else ledger ++ [a]

def ledger (history : List α) : List α :=
  history.foldl (put key) []

theorem ledger_concat (history : List α) (a : α) :
    ledger key (history ++ [a]) = put key (ledger key history) a := by
  rw [ledger, List.foldl_append]
  rfl

variable {key}

theorem put_of_mem {written : List α} {a : α} (h : key a ∈ written.map key) :
    put key written a = written :=
  if_pos h

theorem put_of_not_mem {written : List α} {a : α} (h : key a ∉ written.map key) :
    put key written a = written ++ [a] :=
  if_neg h

theorem mem_keys_ledger {history : List α} {k : κ} :
    k ∈ (ledger key history).map key ↔ k ∈ history.map key := by
  induction history using List.reverseRecOn with
  | nil => rfl
  | append_singleton history a ih =>
      rw [ledger_concat, List.map_append, List.mem_append, ← ih]
      by_cases hmem : key a ∈ (ledger key history).map key
      · rw [put_of_mem hmem]
        constructor
        · exact Or.inl
        · rintro (hold | hlast)
          · exact hold
          · rwa [List.mem_singleton.mp hlast]
      · rw [put_of_not_mem hmem, List.map_append, List.mem_append]

variable (key) in
theorem nodup_keys_ledger (history : List α) : ((ledger key history).map key).Nodup := by
  induction history using List.reverseRecOn with
  | nil => exact List.nodup_nil
  | append_singleton history a ih =>
      rw [ledger_concat]
      by_cases hmem : key a ∈ (ledger key history).map key
      · rwa [put_of_mem hmem]
      · rw [put_of_not_mem hmem, List.map_append]
        exact ih.append (List.nodup_singleton _) (List.disjoint_singleton.mpr hmem)

end TrustlistCore.Library.FirstWrite
