import Mathlib.Data.List.Induction
import Mathlib.Data.List.Sort
import Mathlib.Data.List.Lex
import Mathlib.Data.List.Nodup
import Mathlib.Data.List.Perm.Basic
import TrustlistCore.Library.Result

namespace TrustlistCore.Library.Members

variable {K L V W : Type*}

def keys (members : List (K × V)) : List K :=
  members.map Prod.fst

section Lookup

variable [DecidableEq K]

def find (members : List (K × V)) (key : K) : Option V :=
  (members.find? fun member => member.1 = key).map Prod.snd

-- A key that is there keeps its place and takes the new value.
def insert (members : List (K × V)) (key : K) (value : V) : List (K × V) :=
  if key ∈ keys members then
    members.map fun member => if member.1 = key then (key, value) else member
  else members ++ [(key, value)]

def ofPairs (pairs : List (K × V)) : List (K × V) :=
  pairs.foldl (fun members pair => insert members pair.1 pair.2) []

end Lookup

-- The members in the order of their keys.
def sorted [LinearOrder K] (members : List (K × V)) : List (K × V) :=
  members.insertionSort fun a b => a.1 ≤ b.1

-- The first failure among the values, or all of them.
def gather {ε : Type*} : List (Except ε V) → Except ε (List V)
  | [] => .ok []
  | .error e :: _ => .error e
  | .ok value :: rest => (gather rest).map fun rest => value :: rest

def collect {ε : Type*} : List (K × Except ε V) → Except ε (List (K × V))
  | [] => .ok []
  | (_, .error e) :: _ => .error e
  | (key, .ok value) :: rest => (collect rest).map fun rest => (key, value) :: rest

theorem gather_eq_ok {ε : Type*} {results : List (Except ε V)} {values : List V} :
    gather results = .ok values ↔ results = values.map .ok := by
  induction results using gather.induct generalizing values with
  | case1 => cases values <;> simp [gather]
  | case2 e rest => cases values <;> simp [gather]
  | case3 value rest ih =>
      rw [gather, Result.map_eq_ok]
      constructor
      · rintro ⟨others, hothers, rfl⟩
        rw [ih.mp hothers, List.map_cons]
      · intro h
        cases values with
        | nil => cases h
        | cons first values =>
            obtain ⟨hfirst, hrest⟩ := List.cons.inj h
            obtain rfl := Except.ok.inj hfirst
            exact ⟨values, ih.mpr hrest, rfl⟩

theorem collect_eq_ok {ε : Type*} {pairs : List (K × Except ε V)} {members : List (K × V)} :
    collect pairs = .ok members ↔
      pairs = members.map fun member => (member.1, .ok member.2) := by
  induction pairs using collect.induct generalizing members with
  | case1 => cases members <;> simp [collect]
  | case2 key e rest => cases members <;> simp [collect]
  | case3 key value rest ih =>
      rw [collect, Result.map_eq_ok]
      constructor
      · rintro ⟨others, hothers, rfl⟩
        rw [ih.mp hothers, List.map_cons]
      · intro h
        cases members with
        | nil => cases h
        | cons member members =>
            obtain ⟨hfirst, hrest⟩ := List.cons.inj h
            cases hfirst
            exact ⟨members, ih.mpr hrest, rfl⟩

theorem exists_of_gather {ε : Type*} {results : List (Except ε V)} {values : List V}
    (h : gather results = .ok values) {result : Except ε V} (hresult : result ∈ results) :
    ∃ value, result = .ok value := by
  rw [gather_eq_ok.mp h] at hresult
  obtain ⟨value, -, hvalue⟩ := List.mem_map.mp hresult
  exact ⟨value, hvalue.symm⟩

theorem exists_of_collect {ε : Type*} {pairs : List (K × Except ε V)} {members : List (K × V)}
    (h : collect pairs = .ok members) {pair : K × Except ε V} (hpair : pair ∈ pairs) :
    ∃ value, pair.2 = .ok value := by
  rw [collect_eq_ok.mp h] at hpair
  obtain ⟨member, -, hmember⟩ := List.mem_map.mp hpair
  exact ⟨member.2, (congrArg Prod.snd hmember).symm⟩

theorem mem_keys {members : List (K × V)} {key : K} :
    key ∈ keys members ↔ ∃ value, (key, value) ∈ members := by
  simp [keys]

theorem eq_of_mem {members : List (K × V)} (h : (keys members).Nodup) {key : K} {v w : V}
    (hv : (key, v) ∈ members) (hw : (key, w) ∈ members) : v = w :=
  congrArg Prod.snd (List.inj_on_of_nodup_map h hv hw rfl)

theorem keys_map (f : K → L) (g : V → W) (members : List (K × V)) :
    keys (members.map fun member => (f member.1, g member.2)) = (keys members).map f := by
  simp [keys]

theorem keys_mapValues (g : V → W) (members : List (K × V)) :
    keys (members.map fun member => (member.1, g member.2)) = keys members := by
  simp [keys]

theorem mem_keys_congr {members others : List (K × V)}
    (h : ∀ member, member ∈ members ↔ member ∈ others) (key : K) :
    key ∈ keys members ↔ key ∈ keys others := by
  rw [mem_keys, mem_keys]
  exact exists_congr fun value => h (key, value)

section Lookup

variable [DecidableEq K] [DecidableEq L]

theorem find_isSome {members : List (K × V)} {key : K} :
    (find members key).isSome = true ↔ key ∈ keys members := by
  simp [find, keys]

theorem find_eq_none {members : List (K × V)} {key : K} :
    find members key = none ↔ key ∉ keys members := by
  rw [← find_isSome, Option.not_isSome_iff_eq_none]

theorem mem_of_find {members : List (K × V)} {key : K} {value : V}
    (h : find members key = some value) : (key, value) ∈ members := by
  obtain ⟨member, hfind, rfl⟩ := Option.map_eq_some_iff.mp h
  have hkey := List.find?_some hfind
  rw [decide_eq_true_eq] at hkey
  rw [← hkey]
  exact List.mem_of_find?_eq_some hfind

theorem find_eq_some_iff {members : List (K × V)} (h : (keys members).Nodup) {key : K}
    {value : V} : find members key = some value ↔ (key, value) ∈ members := by
  refine ⟨mem_of_find, fun hmem => ?_⟩
  have hsome := find_isSome.mpr (mem_keys.mpr ⟨value, hmem⟩)
  obtain ⟨w, hw⟩ := Option.isSome_iff_exists.mp hsome
  rw [hw, eq_of_mem h hmem (mem_of_find hw)]

theorem find_cons (member : K × V) (members : List (K × V)) (key : K) :
    find (member :: members) key = if member.1 = key then some member.2 else find members key := by
  unfold find
  by_cases h : member.1 = key
  · rw [List.find?_cons_of_pos (by simpa using h), if_pos h]
    rfl
  · rw [List.find?_cons_of_neg (by simpa using h), if_neg h]

theorem find_append (members others : List (K × V)) (key : K) :
    find (members ++ others) key = (find members key).or (find others key) := by
  unfold find
  rw [List.find?_append, Option.map_or]

theorem find_filter_ne (members : List (K × V)) (name key : K) :
    find (members.filter fun member => member.1 ≠ name) key =
      if key = name then none else find members key := by
  induction members with
  | nil => simp [find]
  | cons member members ih =>
      by_cases hname : member.1 = name
      · rw [List.filter_cons_of_neg (by simpa using hname), ih, find_cons]
        by_cases hkey : key = name
        · rw [if_pos hkey, if_pos hkey]
        · have hother : member.1 ≠ key := fun heq => hkey (heq.symm.trans hname)
          rw [if_neg hkey, if_neg hkey, if_neg hother]
      · rw [List.filter_cons_of_pos (by simpa using hname), find_cons, find_cons, ih]
        by_cases hkey : key = name
        · have hother : member.1 ≠ key := fun heq => hname (heq.trans hkey)
          rw [if_neg hother, if_pos hkey, if_pos hkey]
        · rw [if_neg hkey, if_neg hkey]

-- Renaming the keys renames the one looked for, as long as no other takes its name.
theorem find_map {f : K → L} (g : V → W) {members : List (K × V)} {key : K}
    (hf : ∀ other ∈ keys members, f other = f key → other = key) :
    find (members.map fun member => (f member.1, g member.2)) (f key) =
      (find members key).map g := by
  induction members with
  | nil => rfl
  | cons member members ih =>
      have hrest := ih fun other ho => hf other (List.mem_cons_of_mem _ ho)
      rw [List.map_cons, find_cons, find_cons, hrest]
      by_cases h : member.1 = key
      · rw [if_pos h, if_pos (congrArg f h)]
        rfl
      · rw [if_neg h, if_neg fun hkey => h (hf member.1 List.mem_cons_self hkey)]

-- Without a key twice, the order of the members is nothing to a lookup.
theorem find_perm {members others : List (K × V)} (h : (keys members).Nodup)
    (hperm : others.Perm members) (key : K) : find others key = find members key := by
  have hkeys : (keys others).Perm (keys members) := hperm.map Prod.fst
  apply Option.ext
  intro value
  rw [find_eq_some_iff (hkeys.nodup_iff.mpr h), find_eq_some_iff h, hperm.mem_iff]

theorem insert_of_not_mem {members : List (K × V)} {key : K} (h : key ∉ keys members)
    (value : V) : insert members key value = members ++ [(key, value)] :=
  if_neg h

theorem keys_insert (members : List (K × V)) (key : K) (value : V) :
    keys (insert members key value) =
      if key ∈ keys members then keys members else keys members ++ [key] := by
  unfold insert
  split
  · unfold keys
    rw [List.map_map]
    apply List.map_congr_left
    intro member _
    simp only [Function.comp_apply]
    split
    · rename_i h
      exact h.symm
    · rfl
  · simp [keys]

theorem nodup_insert {members : List (K × V)} (h : (keys members).Nodup) (key : K) (value : V) :
    (keys (insert members key value)).Nodup := by
  rw [keys_insert]
  split
  · exact h
  · rename_i hkey
    exact List.nodup_append_comm.mp (List.nodup_cons.mpr ⟨hkey, h⟩)

theorem foldl_insert_nodup {members : List (K × V)} (h : (keys members).Nodup)
    (pairs : List (K × V)) :
    (keys (pairs.foldl (fun members pair => insert members pair.1 pair.2) members)).Nodup := by
  induction pairs generalizing members with
  | nil => exact h
  | cons pair pairs ih => exact ih (nodup_insert h pair.1 pair.2)

theorem nodup_ofPairs (pairs : List (K × V)) : (keys (ofPairs pairs)).Nodup :=
  foldl_insert_nodup (show (keys ([] : List (K × V))).Nodup from List.nodup_nil) pairs

-- With no key twice there is nothing to override.
theorem foldl_insert_of_nodup {members pairs : List (K × V)}
    (h : (keys (members ++ pairs)).Nodup) :
    pairs.foldl (fun members pair => insert members pair.1 pair.2) members = members ++ pairs := by
  induction pairs generalizing members with
  | nil => simp
  | cons pair pairs ih =>
      have hkey : pair.1 ∉ keys members := by
        simp only [keys, List.map_append, List.map_cons] at h
        exact fun hmem => (List.nodup_append.mp h).2.2 _ hmem _ List.mem_cons_self rfl
      rw [List.foldl_cons, insert_of_not_mem hkey, ih (by simpa using h), List.append_assoc]
      rfl

theorem ofPairs_of_nodup {pairs : List (K × V)} (h : (keys pairs).Nodup) :
    ofPairs pairs = pairs :=
  foldl_insert_of_nodup (show (keys ([] ++ pairs)).Nodup from h)

theorem mem_insert {members : List (K × V)} {key : K} {value : V} {member : K × V}
    (h : member ∈ insert members key value) : member ∈ members ∨ member = (key, value) := by
  unfold insert at h
  split at h
  · obtain ⟨other, hother, rfl⟩ := List.mem_map.mp h
    split
    · exact Or.inr rfl
    · exact Or.inl hother
  · rcases List.mem_append.mp h with h | h
    · exact Or.inl h
    · exact Or.inr (List.mem_singleton.mp h)

theorem mem_keys_insert {members : List (K × V)} {key other : K} {value : V} :
    other ∈ keys (insert members key value) ↔ other ∈ keys members ∨ other = key := by
  rw [keys_insert]
  split
  · rename_i h
    exact ⟨Or.inl, fun ho => ho.elim id (fun heq => heq ▸ h)⟩
  · simp

theorem mem_foldl_insert {members pairs : List (K × V)} {member : K × V}
    (h : member ∈ pairs.foldl (fun members pair => insert members pair.1 pair.2) members) :
    member ∈ members ∨ member ∈ pairs := by
  induction pairs generalizing members with
  | nil => exact Or.inl h
  | cons pair pairs ih =>
      rcases ih h with h | h
      · rcases mem_insert h with h | rfl
        · exact Or.inl h
        · exact Or.inr List.mem_cons_self
      · exact Or.inr (List.mem_cons_of_mem _ h)

theorem mem_keys_foldl_insert {members pairs : List (K × V)} {key : K} :
    key ∈ keys (pairs.foldl (fun members pair => insert members pair.1 pair.2) members) ↔
      key ∈ keys members ∨ key ∈ keys pairs := by
  induction pairs generalizing members with
  | nil => simp [keys]
  | cons pair pairs ih =>
      rw [List.foldl_cons, ih, mem_keys_insert, or_assoc]
      simp [keys, eq_comm]

theorem mem_keys_ofPairs {pairs : List (K × V)} {key : K} :
    key ∈ keys (ofPairs pairs) ↔ key ∈ keys pairs := by
  unfold ofPairs
  rw [mem_keys_foldl_insert]
  simp [keys]

-- Where a key always comes with one value, no value is lost.
theorem mem_ofPairs {pairs : List (K × V)}
    (h : ∀ key v w, (key, v) ∈ pairs → (key, w) ∈ pairs → v = w) {key : K} {value : V} :
    (key, value) ∈ ofPairs pairs ↔ (key, value) ∈ pairs := by
  have hsub {w : V} (hw : (key, w) ∈ ofPairs pairs) : (key, w) ∈ pairs :=
    (mem_foldl_insert hw).resolve_left List.not_mem_nil
  refine ⟨hsub, fun hmem => ?_⟩
  obtain ⟨w, hw⟩ := mem_keys.mp (mem_keys_ofPairs.mpr (mem_keys.mpr ⟨value, hmem⟩))
  rw [h key value w hmem (hsub hw)]
  exact hw

theorem find_insert (members : List (K × V)) (key : K) (value : V) (other : K) :
    find (insert members key value) other =
      if key = other then some value else find members other := by
  have hreplace : find (members.map fun member => if member.1 = key then (key, value) else member)
      other = if key = other then (find members other).map (fun _ => value)
        else find members other := by
    induction members with
    | nil => simp [find]
    | cons member members ih =>
        rw [List.map_cons, find_cons, find_cons, ih]
        by_cases hkey : member.1 = key
        · rw [if_pos hkey, hkey]
          by_cases hother : key = other
          · simp only [if_pos hother, Option.map_some]
          · simp only [if_neg hother]
        · rw [if_neg hkey]
          by_cases hmember : member.1 = other
          · have hother : key ≠ other := fun heq => hkey (hmember.trans heq.symm)
            rw [if_pos hmember, if_neg hother, if_pos hmember]
          · rw [if_neg hmember, if_neg hmember]
  by_cases hmem : key ∈ keys members
  · rw [insert, if_pos hmem, hreplace]
    by_cases hother : key = other
    · obtain ⟨found, hfound⟩ := Option.isSome_iff_exists.mp (find_isSome.mpr hmem)
      rw [if_pos hother, if_pos hother, ← hother, hfound]
      rfl
    · rw [if_neg hother, if_neg hother]
  · rw [insert_of_not_mem hmem]
    unfold find
    rw [List.find?_append]
    by_cases hother : key = other
    · have hnone : find members key = none := find_eq_none.mpr hmem
      unfold find at hnone
      rw [Option.map_eq_none_iff, hother] at hnone
      simp [hnone, hother]
    · simp [hother]

-- Of the pairs of one key the last counts.
theorem find_ofPairs (pairs : List (K × V)) (key : K) :
    find (ofPairs pairs) key = find pairs.reverse key := by
  induction pairs using List.reverseRecOn with
  | nil => rfl
  | append_singleton pairs pair ih =>
      have hfold : ofPairs (pairs ++ [pair]) = insert (ofPairs pairs) pair.1 pair.2 := by
        unfold ofPairs
        rw [List.foldl_append]
        rfl
      rw [hfold, find_insert, ih, List.reverse_append, List.reverse_singleton,
        List.singleton_append, find_cons]

-- Members looked up by a list of names.
theorem mem_ofPairs_find {members : List (K × V)} {names : List K} {name : K} {value : V} :
    (name, value) ∈ ofPairs (names.filterMap fun name =>
        (find members name).map fun value => (name, value)) ↔
      name ∈ names ∧ find members name = some value := by
  have hpairs {name : K} {value : V} :
      (name, value) ∈ (names.filterMap fun name =>
        (find members name).map fun value => (name, value)) ↔
          name ∈ names ∧ find members name = some value := by
    simp only [List.mem_filterMap, Option.map_eq_some_iff, Prod.mk.injEq]
    constructor
    · rintro ⟨other, hother, v, hv, rfl, rfl⟩
      exact ⟨hother, hv⟩
    · rintro ⟨hname, hvalue⟩
      exact ⟨name, hname, value, hvalue, rfl, rfl⟩
  rw [mem_ofPairs, hpairs]
  intro key v w hv hw
  exact Option.some.inj ((hpairs.mp hv).2.symm.trans (hpairs.mp hw).2)

theorem insert_map {f : K → L} (hf : Function.Injective f) (g : V → W) (members : List (K × V))
    (key : K) (value : V) :
    insert (members.map fun member => (f member.1, g member.2)) (f key) (g value) =
      (insert members key value).map fun member => (f member.1, g member.2) := by
  have hmem : f key ∈ keys (members.map fun member => (f member.1, g member.2)) ↔
      key ∈ keys members := by
    rw [keys_map]
    exact List.mem_map_of_injective hf
  unfold insert
  split
  · rename_i h
    rw [if_pos (hmem.mp h), List.map_map, List.map_map]
    apply List.map_congr_left
    intro member _
    simp only [Function.comp_apply, hf.eq_iff]
    split <;> rfl
  · rename_i h
    rw [if_neg (fun hkey => h (hmem.mpr hkey)), List.map_append]
    rfl

theorem ofPairs_map {f : K → L} (hf : Function.Injective f) (g : V → W) (pairs : List (K × V)) :
    ofPairs (pairs.map fun member => (f member.1, g member.2)) =
      (ofPairs pairs).map fun member => (f member.1, g member.2) := by
  have hfold (members : List (K × V)) :
      (pairs.map fun member => (f member.1, g member.2)).foldl
        (fun members pair => insert members pair.1 pair.2)
        (members.map fun member => (f member.1, g member.2)) =
      (pairs.foldl (fun members pair => insert members pair.1 pair.2) members).map
        fun member => (f member.1, g member.2) := by
    induction pairs generalizing members with
    | nil => rfl
    | cons pair pairs ih =>
        rw [List.map_cons, List.foldl_cons, List.foldl_cons, insert_map hf, ih]
  exact hfold []

end Lookup

section Sorted

variable [LinearOrder K] [LinearOrder L]

theorem sorted_perm (members : List (K × V)) : (sorted members).Perm members :=
  List.perm_insertionSort _ _

theorem mem_sorted {members : List (K × V)} {member : K × V} :
    member ∈ sorted members ↔ member ∈ members :=
  (sorted_perm members).mem_iff

theorem keys_sorted_perm (members : List (K × V)) :
    (keys (sorted members)).Perm (keys members) :=
  (sorted_perm members).map Prod.fst

theorem sorted_pairwise (members : List (K × V)) :
    (sorted members).Pairwise fun a b => a.1 ≤ b.1 := by
  have : Std.Total fun a b : K × V => a.1 ≤ b.1 := ⟨fun a b => le_total a.1 b.1⟩
  have : IsTrans (K × V) fun a b => a.1 ≤ b.1 := ⟨fun _ _ _ => le_trans⟩
  exact List.pairwise_insertionSort _ _

-- There is one way to put members in order, no two of which have one key.
theorem sorted_sorted (members : List (K × V)) : sorted (sorted members) = sorted members :=
  List.Pairwise.insertionSort_eq (sorted_pairwise members)

theorem eq_sorted {members others : List (K × V)} (h : (keys members).Nodup)
    (hperm : others.Perm members) (hothers : others.Pairwise fun a b => a.1 ≤ b.1) :
    others = sorted members := by
  refine (hperm.trans (sorted_perm members).symm).eq_of_pairwise ?_ hothers
    (sorted_pairwise members)
  intro a b ha hb hab hba
  exact List.inj_on_of_nodup_map h (hperm.mem_iff.mp ha) (mem_sorted.mp hb) (le_antisymm hab hba)

-- Sorting forgets the order the members came in, and nothing else.
theorem sorted_eq_iff {members others : List (K × V)} (h : (keys members).Nodup) :
    sorted members = sorted others ↔ members.Perm others := by
  constructor
  · intro heq
    exact (sorted_perm members).symm.trans (heq ▸ sorted_perm others)
  · intro hperm
    exact (eq_sorted h ((sorted_perm others).trans hperm.symm) (sorted_pairwise others)).symm

theorem sorted_pair {a b : K} (h : a ≤ b) (v w : V) :
    sorted [(a, v), (b, w)] = [(a, v), (b, w)] := by
  simp [sorted, List.insertionSort, h]

theorem sorted_map {f : K → L} {members : List (K × V)} (g : V → W)
    (hf : ∀ a ∈ keys members, ∀ b ∈ keys members, a ≤ b ↔ f a ≤ f b) :
    sorted (members.map fun member => (f member.1, g member.2)) =
      (sorted members).map fun member => (f member.1, g member.2) := by
  symm
  apply List.map_insertionSort
  intro a ha b hb
  exact hf a.1 (List.mem_map_of_mem ha) b.1 (List.mem_map_of_mem hb)

theorem sorted_mapValues (members : List (K × V)) (g : V → W) :
    sorted (members.map fun member => (member.1, g member.2)) =
      (sorted members).map fun member => (member.1, g member.2) :=
  sorted_map (f := id) g (fun _ _ _ _ => Iff.rfl)

-- Renaming before or after sorting makes no difference just where both orders agree.
theorem map_sorted_eq_iff {f : K → L} {members : List (K × V)} {g h : V → W}
    (hnodup : (keys members).Nodup)
    (hf : ∀ a ∈ keys members, ∀ b ∈ keys members, f a = f b → a = b) :
    (sorted members).map (fun member => (f member.1, g member.2)) =
        sorted (members.map fun member => (f member.1, h member.2)) ↔
      (∀ a ∈ keys members, ∀ b ∈ keys members, a ≤ b ↔ f a ≤ f b) ∧
        ∀ member ∈ members, g member.2 = h member.2 := by
  constructor
  · intro heq
    have hmap : (sorted members).Pairwise fun a b => f a.1 ≤ f b.1 := by
      have hpairs := sorted_pairwise (members.map fun member => (f member.1, h member.2))
      rwa [← heq, List.pairwise_map] at hpairs
    have hkey {a : K × V} (ha : a ∈ sorted members) : a.1 ∈ keys members :=
      List.mem_map_of_mem (mem_sorted.mp ha)
    have hboth : (sorted members).Pairwise fun a b =>
        (a.1 ≤ b.1 ↔ f a.1 ≤ f b.1) ∧ (b.1 ≤ a.1 ↔ f b.1 ≤ f a.1) := by
      refine ((sorted_pairwise members).and hmap).imp_of_mem fun {a b} ha hb hab => ?_
      refine ⟨iff_of_true hab.1 hab.2, fun hba => ?_, fun hba => ?_⟩
      · rw [le_antisymm hab.1 hba]
      · rw [hf _ (hkey ha) _ (hkey hb) (le_antisymm hab.2 hba)]
    constructor
    · intro a ha b hb
      obtain ⟨v, hv⟩ := mem_keys.mp ha
      obtain ⟨w, hw⟩ := mem_keys.mp hb
      exact (List.Pairwise.forall_of_forall_of_flip
        (fun _ _ => ⟨iff_of_true le_rfl le_rfl, iff_of_true le_rfl le_rfl⟩) hboth
        (hboth.imp fun hxy => ⟨hxy.2, hxy.1⟩) (mem_sorted.mpr hv) (mem_sorted.mpr hw)).1
    · intro member hm
      have hmem : (f member.1, g member.2) ∈
          sorted (members.map fun member => (f member.1, h member.2)) := by
        rw [← heq]
        exact List.mem_map_of_mem (mem_sorted.mpr hm)
      obtain ⟨other, ho, hother⟩ := List.mem_map.mp (mem_sorted.mp hmem)
      obtain ⟨hname, hvalue⟩ := Prod.mk.inj hother
      have hsame := hf _ (List.mem_map_of_mem ho) _ (List.mem_map_of_mem hm) hname
      have heqm : other = member := List.inj_on_of_nodup_map hnodup ho hm hsame
      rw [← hvalue, heqm]
  · rintro ⟨horder, hvalues⟩
    rw [sorted_map h horder]
    exact List.map_congr_left fun member hm => by rw [hvalues member (mem_sorted.mp hm)]

end Sorted

-- Whatever a mapped list is put in order by, the list itself can be put in that order.
theorem exists_perm_of_map {A B : Type*} {f : A → B} {l : List A} {others : List B}
    (h : others.Perm (l.map f)) : ∃ order : List A, order.Perm l ∧ others = order.map f := by
  rw [← congrFun (congrFun (List.eq_map_comp_perm f) others) l] at h
  obtain ⟨order, heq, horder⟩ := h
  exact ⟨order, horder, heq⟩

theorem perm_iff {members others : List (K × V)} (h : (keys members).Nodup)
    (ho : (keys others).Nodup) :
    members.Perm others ↔ ∀ member, member ∈ members ↔ member ∈ others :=
  List.perm_ext_iff_of_nodup (List.Nodup.of_map _ h) (List.Nodup.of_map _ ho)

theorem perm_iff_eq {members others : List (K × V)} (h : (keys members).Nodup)
    (hkeys : keys members = keys others) : members.Perm others ↔ members = others := by
  refine ⟨fun hperm => ?_, fun heq => heq ▸ .refl _⟩
  induction members generalizing others with
  | nil => exact hperm.nil_eq
  | cons member members ih =>
      cases others with
      | nil => cases hkeys
      | cons other others =>
          obtain ⟨hname, hrest⟩ := List.cons.inj hkeys
          have hnodup : (keys (other :: others)).Nodup := hkeys ▸ h
          have hmem : (other.1, member.2) ∈ other :: others := by
            rw [← hname]
            exact hperm.mem_iff.mp List.mem_cons_self
          have hvalue : member.2 = other.2 := eq_of_mem hnodup hmem List.mem_cons_self
          have hhead : member = other := Prod.ext hname hvalue
          subst hhead
          rw [ih (List.nodup_cons.mp h).2 hrest (List.Perm.cons_inv hperm)]

end TrustlistCore.Library.Members
