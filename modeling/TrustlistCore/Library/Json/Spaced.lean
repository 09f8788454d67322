import TrustlistCore.Library.Json.Quoting

namespace TrustlistCore.Library.Json

open Unicode

-- The separators that a writer has by default: a blank after each.
def spread : List (List Char) → List Char
  | [] => []
  | [text] => text
  | text :: rest => text ++ ',' :: ' ' :: spread rest

section Render

variable (quote : List CodeUnit → List Char)

mutual

def spaced : Tree → List Char
  | .array items => '[' :: spread (spacedItems items) ++ [']']
  | .object members => '\x7b' :: spread (spacedMembers members) ++ ['\x7d']
  | tree => render quote tree

def spacedItems : List Tree → List (List Char)
  | [] => []
  | item :: items => spaced item :: spacedItems items

def spacedMembers : List (List CodeUnit × Tree) → List (List Char)
  | [] => []
  | (key, value) :: members =>
      (quoted quote key ++ ':' :: ' ' :: spaced value) :: spacedMembers members

end

end Render

section Parse

theorem skip_space (text : List Char) : skip (' ' :: text) = skip text := by
  unfold skip
  rw [List.dropWhile_cons_of_pos rfl]

theorem value_space (fuel : ℕ) (text : List Char) : value fuel (' ' :: text) = value fuel text := by
  cases fuel with
  | zero => rfl
  | succ fuel => rw [value, value, skip_space]

theorem items_space (fuel : ℕ) (text : List Char) : items fuel (' ' :: text) = items fuel text := by
  cases fuel with
  | zero => rfl
  | succ fuel => rw [items, items, value_space]

theorem members_space (fuel : ℕ) (text : List Char) :
    members fuel (' ' :: text) = members fuel text := by
  cases fuel with
  | zero => rfl
  | succ fuel => rw [members, members, skip_space]

end Parse

section RoundTrip

variable {quote : List CodeUnit → List Char}

theorem starts_rendered (quote : List CodeUnit → List Char) (tree : Tree) :
    Starts (render quote tree) :=
  starts_render tree

theorem starts_spaced (tree : Tree) : Starts (spaced quote tree) := by
  cases tree with
  | array items => exact ⟨_, _, rfl, by decide⟩
  | object members => exact ⟨_, _, rfl, by decide⟩
  | null => exact starts_rendered quote .null
  | bool value => exact starts_rendered quote (.bool value)
  | number value => exact starts_rendered quote (.number value)
  | constant value => exact starts_rendered quote (.constant value)
  | string units => exact starts_rendered quote (.string units)

theorem starts_spread_items {item : Tree} {items : List Tree} :
    Starts (spread (spacedItems quote (item :: items))) := by
  cases items with
  | nil => exact starts_spaced item
  | cons next items => exact (starts_spaced item).append _

theorem starts_spread_members {key : List CodeUnit} {tree : Tree}
    {members : List (List CodeUnit × Tree)} :
    Starts (spread (spacedMembers quote ((key, tree) :: members))) := by
  cases members with
  | nil => exact ⟨_, _, rfl, by decide⟩
  | cons next members => exact ⟨_, _, rfl, by decide⟩

-- A tree that has no parts is written as it is without blanks.
theorem value_spaced_leaf (hquote : Faithful quote) {tree : Tree} {fuel : ℕ} {rest : List Char}
    (htree : spaced quote tree = render quote tree) (h : (spaced quote tree).length < fuel)
    (hrest : Numeral.Stops rest) : value fuel (spaced quote tree ++ rest) = some (tree, rest) := by
  rw [htree] at h ⊢
  exact value_render hquote tree fuel rest h hrest

mutual

theorem value_spaced (hquote : Faithful quote) :
    ∀ (tree : Tree) (fuel : ℕ) (rest : List Char), (spaced quote tree).length < fuel →
      Numeral.Stops rest → value fuel (spaced quote tree ++ rest) = some (tree, rest)
  | _, 0, _, h, _ => absurd h (Nat.not_lt_zero _)
  | .null, fuel + 1, rest, h, hrest => value_spaced_leaf hquote rfl h hrest
  | .bool _, fuel + 1, rest, h, hrest => value_spaced_leaf hquote rfl h hrest
  | .number _, fuel + 1, rest, h, hrest => value_spaced_leaf hquote rfl h hrest
  | .constant _, fuel + 1, rest, h, hrest => value_spaced_leaf hquote rfl h hrest
  | .string _, fuel + 1, rest, h, hrest => value_spaced_leaf hquote rfl h hrest
  | .array [], fuel + 1, rest, h, hrest => value_spaced_leaf hquote rfl h hrest
  | .array (item :: list), fuel + 1, rest, h, _ => by
      simp only [spaced, List.length_append, List.length_cons, List.length_nil] at h
      have hitems := items_spaced hquote item list fuel rest (by omega)
      rw [spaced, List.cons_append, List.cons_append, List.append_assoc]
      exact value_array (starts_spread_items.append _) hitems
  | .object [], fuel + 1, rest, h, hrest => value_spaced_leaf hquote rfl h hrest
  | .object ((key, tree) :: list), fuel + 1, rest, h, _ => by
      simp only [spaced, List.length_append, List.length_cons, List.length_nil] at h
      have hmembers := members_spaced hquote key tree list fuel rest (by omega)
      rw [spaced, List.cons_append, List.cons_append, List.append_assoc]
      exact value_object (starts_spread_members.append _) hmembers

theorem items_spaced (hquote : Faithful quote) :
    ∀ (item : Tree) (list : List Tree) (fuel : ℕ) (rest : List Char),
      (spread (spacedItems quote (item :: list))).length + 1 < fuel →
      items fuel (spread (spacedItems quote (item :: list)) ++ ']' :: rest) =
        some (item :: list, rest)
  | _, _, 0, _, h => absurd h (Nat.not_lt_zero _)
  | item, [], fuel + 1, rest, h => by
      simp only [spacedItems, spread] at h ⊢
      exact items_last (value_spaced hquote item fuel _ (by omega) (stops_of_head (by decide)))
  | item, next :: list, fuel + 1, rest, h => by
      have hspread : spread (spacedItems quote (item :: next :: list)) =
          spaced quote item ++ ',' :: ' ' :: spread (spacedItems quote (next :: list)) := rfl
      rw [hspread] at h ⊢
      simp only [List.length_append, List.length_cons] at h
      rw [List.append_assoc]
      have hmore := items_spaced hquote next list fuel rest (by omega)
      rw [← items_space] at hmore
      have hvalue := value_spaced hquote item fuel
        (',' :: ' ' :: (spread (spacedItems quote (next :: list)) ++ ']' :: rest)) (by omega)
        (stops_of_head (by decide))
      exact items_more hvalue hmore

theorem members_spaced (hquote : Faithful quote) :
    ∀ (key : List CodeUnit) (tree : Tree) (list : List (List CodeUnit × Tree)) (fuel : ℕ)
      (rest : List Char),
      (spread (spacedMembers quote ((key, tree) :: list))).length + 1 < fuel →
      members fuel (spread (spacedMembers quote ((key, tree) :: list)) ++ '\x7d' :: rest) =
        some ((key, tree) :: list, rest)
  | _, _, _, 0, _, h => absurd h (Nat.not_lt_zero _)
  | key, tree, [], fuel + 1, rest, h => by
      simp only [spacedMembers, spread, List.length_append, List.length_cons] at h ⊢
      have hvalue := value_spaced hquote tree fuel ('\x7d' :: rest) (by omega)
        (stops_of_head (by decide))
      rw [← value_space] at hvalue
      rw [List.append_assoc]
      exact members_last hquote hvalue
  | key, tree, (next, other) :: list, fuel + 1, rest, h => by
      have hspread : spread (spacedMembers quote ((key, tree) :: (next, other) :: list)) =
          (quoted quote key ++ ':' :: ' ' :: spaced quote tree) ++
            ',' :: ' ' :: spread (spacedMembers quote ((next, other) :: list)) := rfl
      rw [hspread] at h ⊢
      simp only [List.length_append, List.length_cons] at h
      have hvalue := value_spaced hquote tree fuel
        (',' :: ' ' :: (spread (spacedMembers quote ((next, other) :: list)) ++ '\x7d' :: rest))
        (by omega) (stops_of_head (by decide))
      have hmore := members_spaced hquote next other list fuel rest (by omega)
      rw [← value_space] at hvalue
      rw [← members_space] at hmore
      rw [List.append_assoc, List.append_assoc]
      exact members_more hquote hvalue hmore

end

theorem parse_spaced (hquote : Faithful quote) (tree : Tree) :
    parse (spaced quote tree) = some tree := by
  have hvalue := value_spaced hquote tree ((spaced quote tree).length + 1) [] (Nat.lt_succ_self _)
    (by simp [Numeral.Stops])
  rw [List.append_nil] at hvalue
  unfold parse
  rw [hvalue]
  rfl

end RoundTrip

section Printable

def Printable (text : List Char) : Prop :=
  ∀ c ∈ text, 0x20 ≤ c.toNat ∧ c.toNat ≤ 0x7E

instance (text : List Char) : Decidable (Printable text) :=
  List.decidableBAll _ text

theorem Printable.append {text more : List Char} (h : Printable text) (hmore : Printable more) :
    Printable (text ++ more) :=
  List.forall_mem_append.mpr ⟨h, hmore⟩

theorem Printable.cons {c : Char} {text : List Char} (hc : 0x20 ≤ c.toNat ∧ c.toNat ≤ 0x7E)
    (h : Printable text) : Printable (c :: text) :=
  List.forall_mem_cons.mpr ⟨hc, h⟩

-- A printable text is a single line.
theorem Printable.newline {text : List Char} (h : Printable text) : '\n' ∉ text := by
  intro hmem
  have hprintable := h '\n' hmem
  exact absurd hprintable (by decide)

theorem printable_digits {digits : List Char} (h : Numeral.Digits digits) : Printable digits := by
  intro c hc
  have hdigit := h c hc
  simp only [Char.isDigit, Bool.and_eq_true, decide_eq_true_eq, UInt32.le_iff_toNat_le] at hdigit
  obtain ⟨hlow, hhigh⟩ := hdigit
  change 48 ≤ c.toNat at hlow
  change c.toNat ≤ 57 at hhigh
  omega

theorem printable_number (number : Number) : Printable number.text := by
  have hwellFormed := number.wellFormed
  have hsign : Printable (if number.negative then ['-'] else []) := by
    split <;> decide
  have hfraction : Printable (Numeral.fractionText number.fraction) := by
    unfold Numeral.fractionText
    split
    · decide
    · exact (printable_digits hwellFormed.fraction).cons (by decide)
  have hexponent : Printable (Numeral.exponentText number.exponent) := by
    cases hexponent : number.exponent with
    | none => decide
    | some exponent =>
        obtain ⟨negative, digits⟩ := exponent
        have hdigits := (hwellFormed.exponent _ hexponent).2
        have hmark : 0x20 ≤ (if negative then '-' else '+').toNat ∧
            (if negative then '-' else '+').toNat ≤ 0x7E := by
          split <;> decide
        exact ((printable_digits hdigits).cons hmark).cons (by decide)
  exact ((hsign.append (printable_digits hwellFormed.integer)).append hfraction).append hexponent

theorem printable_quoted (units : List CodeUnit) : Printable (quoted quoteAscii units) := by
  have hunits : Printable (quoteAscii units) := fun _ hc => printable_quoteAscii hc
  exact (hunits.cons (by decide)).append (by decide)

theorem printable_spread {texts : List (List Char)} (h : ∀ text ∈ texts, Printable text) :
    Printable (spread texts) := by
  induction texts with
  | nil => decide
  | cons text texts ih =>
      have hfirst := h text List.mem_cons_self
      have hrest := ih fun later hlater => h later (List.mem_cons_of_mem _ hlater)
      cases texts with
      | nil => exact hfirst
      | cons next texts => exact hfirst.append ((hrest.cons (by decide)).cons (by decide))

theorem spacedItems_eq (quote : List CodeUnit → List Char) (items : List Tree) :
    spacedItems quote items = items.map (spaced quote) := by
  induction items with
  | nil => rfl
  | cons item items ih => rw [spacedItems, ih, List.map_cons]

theorem spacedMembers_eq (quote : List CodeUnit → List Char)
    (members : List (List CodeUnit × Tree)) :
    spacedMembers quote members =
      members.map fun member => quoted quote member.1 ++ ':' :: ' ' :: spaced quote member.2 := by
  induction members with
  | nil => rfl
  | cons member members ih => rw [spacedMembers, ih, List.map_cons]

theorem printable_spaced (tree : Tree) : Printable (spaced quoteAscii tree) := by
  induction tree using Tree.induct with
  | null => decide
  | bool value => cases value <;> decide
  | number value => exact printable_number value
  | constant value =>
      cases value with
      | nan => decide
      | infinity negative => cases negative <;> decide
  | string units => exact printable_quoted units
  | array items ih =>
      have hitems : Printable (spread (spacedItems quoteAscii items)) := by
        rw [spacedItems_eq]
        refine printable_spread fun text htext => ?_
        obtain ⟨item, hitem, rfl⟩ := List.mem_map.mp htext
        exact ih item hitem
      exact (hitems.cons (by decide)).append (by decide)
  | object members ih =>
      have hmembers : Printable (spread (spacedMembers quoteAscii members)) := by
        rw [spacedMembers_eq]
        refine printable_spread fun text htext => ?_
        obtain ⟨member, hmember, rfl⟩ := List.mem_map.mp htext
        exact (printable_quoted member.1).append
          (((ih member hmember).cons (by decide)).cons (by decide))
      exact (hmembers.cons (by decide)).append (by decide)

end Printable

end TrustlistCore.Library.Json
