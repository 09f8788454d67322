import TrustlistCore.Library.Json.Theorems

namespace TrustlistCore.Library.Json

open Unicode

-- What a value of a document is followed by.
def Closes (rest : List Char) : Prop :=
  ∀ c, rest.head? = some c → c = ',' ∨ c = ']' ∨ c = '\x7d'

theorem closes_cons {c : Char} {rest : List Char} (h : c = ',' ∨ c = ']' ∨ c = '\x7d') :
    Closes (c :: rest) := by
  intro d hd
  obtain rfl := Option.some.inj hd
  exact h

theorem Closes.stops {rest : List Char} (h : Closes rest) : Numeral.Stops rest := by
  intro c hc
  rcases h c hc with rfl | rfl | rfl <;> decide

-- Nothing starts with what closes a value.
theorem value_of_closes {fuel : ℕ} {rest : List Char} (h : Closes rest) :
    value fuel rest = none := by
  cases fuel with
  | zero => rfl
  | succ fuel =>
      cases rest with
      | nil => rfl
      | cons c rest =>
          rcases h c rfl with rfl | rfl | rfl <;>
            exact value_of_leaf fuel rfl (by decide) (by decide) (by decide)

-- A text that stands for no other tree, and for this one only if it is `full`. The empty text,
-- as between two commas, stands for none.
def Denotes (text : List Char) (tree : Tree) (full : Prop) : Prop :=
  ∀ fuel rest result, Closes rest → value fuel (text ++ rest) = some result →
    full ∧ result = (tree, rest)

theorem denotes_nil {tree : Tree} {full : Prop} : Denotes [] tree full := by
  intro fuel rest result hrest hvalue
  rw [List.nil_append, value_of_closes hrest] at hvalue
  cases hvalue

theorem denotes_of_value {text : List Char} {tree : Tree} {full : Prop} (hfull : full)
    (h : ∀ fuel rest, Numeral.Stops rest →
      value (fuel + 1) (text ++ rest) = some (tree, rest)) : Denotes text tree full := by
  intro fuel rest result hrest hvalue
  cases fuel with
  | zero => cases hvalue
  | succ fuel =>
      rw [h fuel rest hrest.stops] at hvalue
      exact ⟨hfull, (Option.some.inj hvalue).symm⟩

theorem Denotes.mono {text : List Char} {tree : Tree} {full other : Prop}
    (h : Denotes text tree full) (hfull : full → other) : Denotes text tree other := by
  intro fuel rest result hrest hvalue
  obtain ⟨hthis, hresult⟩ := h fuel rest result hrest hvalue
  exact ⟨hfull hthis, hresult⟩

section Lists

variable {A : Type*} {text : A → List Char} {tree : A → Tree} {full : A → Prop}

-- A list is read place by place.
theorem items_separated {item : A} {list : List A}
    (h : ∀ a ∈ item :: list, Denotes (text a) (tree a) (full a)) {fuel : ℕ} {rest : List Char}
    {result : List Tree × List Char}
    (hread : items fuel (separated ((item :: list).map text) ++ ']' :: rest) = some result) :
    (∀ a ∈ item :: list, full a) ∧ result = ((item :: list).map tree, rest) := by
  induction list generalizing item fuel result with
  | nil =>
      cases fuel with
      | zero => cases hread
      | succ fuel =>
          rw [items] at hread
          obtain ⟨first, hvalue, hrest⟩ := Option.bind_eq_some_iff.mp hread
          obtain ⟨hfull, rfl⟩ := h item List.mem_cons_self fuel _ first
            (closes_cons (Or.inr (Or.inl rfl))) hvalue
          simp only [skip_cons (show isSpace ']' = false by decide), Option.some.injEq] at hrest
          refine ⟨?_, hrest.symm⟩
          intro a ha
          rw [List.mem_singleton.mp ha]
          exact hfull
  | cons next list ih =>
      cases fuel with
      | zero => cases hread
      | succ fuel =>
          have hseparated : separated ((item :: next :: list).map text) ++ ']' :: rest =
              text item ++ ',' :: (separated ((next :: list).map text) ++ ']' :: rest) := by
            simp [separated]
          rw [hseparated, items] at hread
          obtain ⟨first, hvalue, hrest⟩ := Option.bind_eq_some_iff.mp hread
          obtain ⟨hfull, rfl⟩ := h item List.mem_cons_self fuel _ first
            (closes_cons (Or.inl rfl)) hvalue
          simp only [skip_cons (show isSpace ',' = false by decide)] at hrest
          obtain ⟨others, hothers, rfl⟩ := Option.map_eq_some_iff.mp hrest
          obtain ⟨hall, rfl⟩ := ih (fun a ha => h a (List.mem_cons_of_mem _ ha)) hothers
          exact ⟨List.forall_mem_cons.mpr ⟨hfull, hall⟩, rfl⟩

variable {quote : List CodeUnit → List Char} {key : A → List CodeUnit}

theorem members_separated (hquote : Faithful quote) {item : A} {list : List A}
    (h : ∀ a ∈ item :: list, Denotes (text a) (tree a) (full a)) {fuel : ℕ} {rest : List Char}
    {result : List (List CodeUnit × Tree) × List Char}
    (hread : members fuel (separated ((item :: list).map fun a =>
      quoted quote (key a) ++ ':' :: text a) ++ '\x7d' :: rest) = some result) :
    (∀ a ∈ item :: list, full a) ∧
      result = ((item :: list).map fun a => (key a, tree a), rest) := by
  induction list generalizing item fuel result with
  | nil =>
      cases fuel with
      | zero => cases hread
      | succ fuel =>
          simp only [List.map_cons, List.map_nil, separated, List.append_assoc,
            List.cons_append] at hread
          rw [quoted_append, members, skip_cons (by decide)] at hread
          simp only [hquote (key item), Option.bind_eq_bind, Option.bind_some,
            skip_cons (show isSpace ':' = false by decide)] at hread
          obtain ⟨first, hvalue, hrest⟩ := Option.bind_eq_some_iff.mp hread
          obtain ⟨hfull, rfl⟩ := h item List.mem_cons_self fuel _ first
            (closes_cons (Or.inr (Or.inr rfl))) hvalue
          simp only [skip_cons (show isSpace '\x7d' = false by decide), Option.some.injEq] at hrest
          refine ⟨?_, hrest.symm⟩
          intro a ha
          rw [List.mem_singleton.mp ha]
          exact hfull
  | cons next list ih =>
      cases fuel with
      | zero => cases hread
      | succ fuel =>
          have hseparated : separated ((item :: next :: list).map fun a =>
              quoted quote (key a) ++ ':' :: text a) ++ '\x7d' :: rest =
                quoted quote (key item) ++ ':' :: (text item ++ ',' ::
                  (separated ((next :: list).map fun a => quoted quote (key a) ++ ':' :: text a) ++
                    '\x7d' :: rest)) := by
            simp [separated]
          rw [hseparated, quoted_append, members, skip_cons (by decide)] at hread
          simp only [hquote (key item), Option.bind_eq_bind, Option.bind_some,
            skip_cons (show isSpace ':' = false by decide)] at hread
          obtain ⟨first, hvalue, hrest⟩ := Option.bind_eq_some_iff.mp hread
          obtain ⟨hfull, rfl⟩ := h item List.mem_cons_self fuel _ first
            (closes_cons (Or.inl rfl)) hvalue
          simp only [skip_cons (show isSpace ',' = false by decide)] at hrest
          obtain ⟨others, hothers, rfl⟩ := Option.map_eq_some_iff.mp hrest
          obtain ⟨hall, rfl⟩ := ih (fun a ha => h a (List.mem_cons_of_mem _ ha)) hothers
          exact ⟨List.forall_mem_cons.mpr ⟨hfull, hall⟩, rfl⟩

-- The text of a list starts as one unless its only place is empty.
theorem starts_separated {item : A} {list : List A}
    (hstarts : text item = [] ∨ Starts (text item))
    (hempty : (item :: list).map text ≠ [[]]) : Starts (separated ((item :: list).map text)) := by
  cases list with
  | nil => exact hstarts.resolve_left fun h => hempty (by rw [List.map_singleton, h])
  | cons next list =>
      rcases hstarts with h | h
      · rw [List.map_cons, List.map_cons, separated, h]
        · exact ⟨_, _, rfl, by decide⟩
        · exact List.cons_ne_nil _ _
      · exact h.append _

theorem denotes_array {list : List A} (h : ∀ a ∈ list, Denotes (text a) (tree a) (full a))
    (hstarts : ∀ a ∈ list, text a = [] ∨ Starts (text a)) (hempty : list.map text ≠ [[]]) :
    Denotes ('[' :: separated (list.map text) ++ [']']) (.array (list.map tree))
      (∀ a ∈ list, full a) := by
  cases list with
  | nil => exact denotes_of_value (by simp) fun _ _ _ => rfl
  | cons item list =>
      intro fuel rest result hrest hvalue
      cases fuel with
      | zero => cases hvalue
      | succ fuel =>
          have hstart := starts_separated (hstarts item List.mem_cons_self) hempty
          rw [List.append_assoc, List.cons_append, value_array_eq (hstart.append _)] at hvalue
          obtain ⟨read, hread, rfl⟩ := Option.map_eq_some_iff.mp hvalue
          obtain ⟨hall, rfl⟩ := items_separated h hread
          exact ⟨hall, rfl⟩

theorem denotes_object (hquote : Faithful quote) {list : List A}
    (h : ∀ a ∈ list, Denotes (text a) (tree a) (full a)) :
    Denotes ('\x7b' :: separated (list.map fun a => quoted quote (key a) ++ ':' :: text a) ++
        ['\x7d']) (.object (list.map fun a => (key a, tree a))) (∀ a ∈ list, full a) := by
  cases list with
  | nil => exact denotes_of_value (by simp) fun _ _ _ => rfl
  | cons item list =>
      intro fuel rest result hrest hvalue
      cases fuel with
      | zero => cases hvalue
      | succ fuel =>
          have hstart : Starts (separated ((item :: list).map fun a =>
              quoted quote (key a) ++ ':' :: text a)) := by
            refine starts_separated (Or.inr ⟨_, _, rfl, by decide⟩) ?_
            simp [quoted]
          rw [List.append_assoc, List.cons_append, value_object_eq (hstart.append _)] at hvalue
          obtain ⟨read, hread, rfl⟩ := Option.map_eq_some_iff.mp hvalue
          obtain ⟨hall, rfl⟩ := members_separated hquote h hread
          exact ⟨hall, rfl⟩

end Lists

-- A whole text of the kind that is a document is the document of its tree.
theorem Denotes.of_render {text : List Char} {tree other : Tree} {full : Prop}
    (h : Denotes text tree full) {quote : List CodeUnit → List Char} (hquote : Faithful quote)
    (hrender : text = render quote other) : full ∧ tree = other := by
  have hvalue := value_render hquote other (text.length + 1) [] (by rw [hrender]; omega)
    (by simp [Numeral.Stops])
  rw [← hrender] at hvalue
  obtain ⟨hfull, hsame⟩ := h _ [] _ (by simp [Closes]) hvalue
  exact ⟨hfull, (Prod.ext_iff.mp hsame).1.symm⟩

end TrustlistCore.Library.Json
