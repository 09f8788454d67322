import Mathlib.Tactic.IntervalCases
import TrustlistCore.Library.Json

namespace TrustlistCore.Library.Json

open Unicode

theorem hexValue_hexDigit {n : ℕ} (h : n < 0x10) : hexValue (hexDigit n) = some n := by
  interval_cases n <;> decide

theorem hexUnit_digits (unit : CodeUnit) :
    hexUnit (hexDigit (unit.val / 0x1000)) (hexDigit (unit.val / 0x100 % 0x10))
      (hexDigit (unit.val / 0x10 % 0x10)) (hexDigit (unit.val % 0x10)) = some unit := by
  have hunit := unit.isLt
  unfold hexUnit
  rw [hexValue_hexDigit (by omega), hexValue_hexDigit (by omega), hexValue_hexDigit (by omega),
    hexValue_hexDigit (by omega)]
  have hvalue : unit.val / 0x1000 * 0x1000 + unit.val / 0x100 % 0x10 * 0x100 +
      unit.val / 0x10 % 0x10 * 0x10 + unit.val % 0x10 = unit.val := by omega
  simp only [hvalue, hunit, dif_pos]

theorem string_unicodeEscape (unit : CodeUnit) (more : List Char) :
    string (unicodeEscape unit ++ more) = (string more).map (prepend [unit]) := by
  simp only [unicodeEscape, List.cons_append, List.nil_append, string, hexUnit_digits]

theorem mem_of_shortEscape {unit : CodeUnit} {c : Char} (h : shortEscape unit = some c) :
    (unit, c) ∈ shortEscapes := by
  obtain ⟨escape, hfind, rfl⟩ := Option.map_eq_some_iff.mp h
  have hunit := List.find?_some hfind
  rw [decide_eq_true_eq] at hunit
  rw [← hunit]
  exact List.mem_of_find?_eq_some hfind

theorem escaped_of_mem :
    ∀ escape ∈ shortEscapes, escape.2 ≠ 'u' ∧ escaped escape.2 = some escape.1 := by
  decide

theorem string_shortEscape {unit : CodeUnit} {c : Char} (h : shortEscape unit = some c)
    (more : List Char) : string ('\\' :: c :: more) = (string more).map (prepend [unit]) := by
  obtain ⟨hu, hescaped⟩ := escaped_of_mem _ (mem_of_shortEscape h)
  rw [string.eq_4 _ _ (by simp [hu]), hescaped]

theorem shortEscape_quote : shortEscape 0x22 = some '"' := rfl

theorem shortEscape_backslash : shortEscape 0x5C = some '\\' := rfl

theorem toNat_ofNat {n : ℕ} (h : n.isValidChar) : (Char.ofNat n).toNat = n := by
  rw [Char.ofNat, dif_pos h]
  rfl

-- A character that needs no escape stands for its own units.
theorem string_literal {n : ℕ} (hvalid : n.isValidChar) (hspace : 0x20 ≤ n) (hquote : n ≠ 0x22)
    (hbackslash : n ≠ 0x5C) (more : List Char) :
    string (Char.ofNat n :: more) =
      (string more).map (prepend (utf16Point (charPoint (Char.ofNat n)))) := by
  have hnat := toNat_ofNat hvalid
  have hq : Char.ofNat n ≠ '"' := by
    intro h
    rw [h] at hnat
    exact hquote hnat.symm
  have hb : Char.ofNat n ≠ '\\' := by
    intro h
    rw [h] at hnat
    exact hbackslash hnat.symm
  rw [string.eq_5 _ _ hq (by simp [hb]) (by simp [hb]), hnat, if_neg (by omega)]

theorem utf16Point_charPoint {unit : CodeUnit} (hvalid : unit.val.isValidChar) :
    utf16Point (charPoint (Char.ofNat unit.val)) = [unit] := by
  have hpoint : charPoint (Char.ofNat unit.val) = ofUnit unit :=
    Fin.ext (toNat_ofNat hvalid)
  rw [hpoint, utf16Point_ofUnit]

theorem ne_of_shortEscape_none {unit : CodeUnit} (h : shortEscape unit = none) :
    unit.val ≠ 0x22 ∧ unit.val ≠ 0x5C := by
  constructor
  · intro hunit
    rw [show unit = 0x22 from Fin.ext hunit, shortEscape_quote] at h
    exact absurd h (by simp)
  · intro hunit
    rw [show unit = 0x5C from Fin.ext hunit, shortEscape_backslash] at h
    exact absurd h (by simp)

theorem string_escapeAscii (unit : CodeUnit) (more : List Char) :
    string (escapeAscii unit ++ more) = (string more).map (prepend [unit]) := by
  unfold escapeAscii
  split
  · rename_i c hshort
    exact string_shortEscape hshort more
  · rename_i hshort
    obtain ⟨hquote, hbackslash⟩ := ne_of_shortEscape_none hshort
    split
    · rename_i hprintable
      have hvalid : unit.val.isValidChar := Or.inl (by omega)
      rw [List.singleton_append, string_literal hvalid hprintable.1 hquote hbackslash,
        utf16Point_charPoint hvalid]
    · exact string_unicodeEscape unit more

theorem string_escapeUnit (unit : CodeUnit) (more : List Char) :
    string (escapeUnit unit ++ more) = (string more).map (prepend [unit]) := by
  unfold escapeUnit
  split
  · rename_i c hshort
    exact string_shortEscape hshort more
  · rename_i hshort
    obtain ⟨hquote, hbackslash⟩ := ne_of_shortEscape_none hshort
    split
    · exact string_unicodeEscape unit more
    · rename_i hliteral
      have hvalid : unit.val.isValidChar := by
        simp only [isSurrogate, isHigh, isLow, Bool.or_eq_true, decide_eq_true_eq] at hliteral
        unfold Nat.isValidChar
        omega
      rw [List.singleton_append, string_literal hvalid (by omega) hquote hbackslash,
        utf16Point_charPoint hvalid]

theorem string_pair {high low : CodeUnit} (h : isHigh high = true ∧ isLow low = true)
    (more : List Char) :
    string (Char.ofNat (ofPair high low).val :: more) =
      (string more).map (prepend [high, low]) := by
  have hbound : 0x10000 ≤ (ofPair high low).val := by
    simp only [ofPair]
    omega
  have hvalid : (ofPair high low).val.isValidChar := Or.inr ⟨by omega, (ofPair high low).isLt⟩
  rw [string_literal hvalid (by omega) (by omega) (by omega),
    show charPoint (Char.ofNat (ofPair high low).val) = ofPair high low from
      Fin.ext (toNat_ofNat hvalid), utf16Point_ofPair h.1 h.2]

-- A way to write the body of a string that reading undoes.
def Faithful (quote : List CodeUnit → List Char) : Prop :=
  ∀ units rest, string (quote units ++ '"' :: rest) = some (units, rest)

theorem faithful_quoteAscii : Faithful quoteAscii := by
  intro units rest
  induction units with
  | nil => rfl
  | cons unit units ih =>
      have hcons : quoteAscii (unit :: units) = escapeAscii unit ++ quoteAscii units := rfl
      rw [hcons, List.append_assoc, string_escapeAscii, ih]
      rfl

theorem faithful_quoteLiteral : Faithful quoteLiteral := by
  intro units rest
  induction units using quoteLiteral.induct with
  | case1 => rfl
  | case2 unit =>
      rw [quoteLiteral, string_escapeUnit]
      rfl
  | case3 first second units hpair ih =>
      rw [quoteLiteral, if_pos hpair, List.cons_append, string_pair hpair, ih]
      rfl
  | case4 first second units hpair ih =>
      rw [quoteLiteral, if_neg hpair, List.append_assoc, string_escapeUnit, ih]
      rfl

theorem renderItems_eq (quote : List CodeUnit → List Char) (items : List Tree) :
    renderItems quote items = items.map (render quote) := by
  induction items with
  | nil => rfl
  | cons item items ih => rw [renderItems, ih, List.map_cons]

theorem renderMembers_eq (quote : List CodeUnit → List Char)
    (members : List (List CodeUnit × Tree)) :
    renderMembers quote members =
      members.map fun member => quoted quote member.1 ++ ':' :: render quote member.2 := by
  induction members with
  | nil => rfl
  | cons member members ih => rw [renderMembers, ih, List.map_cons]

-- How the text of a value starts: neither with white space nor as a closing bracket.
def Starts (text : List Char) : Prop :=
  ∃ c more, text = c :: more ∧ isSpace c = false ∧ c ≠ ']' ∧ c ≠ '\x7d'

theorem Starts.append {text : List Char} (h : Starts text) (more : List Char) :
    Starts (text ++ more) := by
  obtain ⟨c, tail, rfl, hc⟩ := h
  exact ⟨c, tail ++ more, rfl, hc⟩

theorem Starts.skip {text : List Char} (h : Starts text) : skip text = text := by
  obtain ⟨c, more, rfl, hspace, -⟩ := h
  unfold Json.skip
  rw [List.dropWhile_cons_of_neg (by simp [hspace])]

theorem digit_or_minus (number : Number) :
    ∃ c more, number.text = c :: more ∧ (c.isDigit = true ∨ c = '-' ∧
      ∃ d tail, more = d :: tail ∧ d.isDigit = true) := by
  have hdigits := number.wellFormed.integer
  have hne := number.wellFormed.unpadded.1
  cases hinteger : number.integer with
  | nil => exact absurd hinteger hne
  | cons d digits =>
      have hd : d.isDigit = true := hdigits d (by rw [hinteger]; exact List.mem_cons_self)
      unfold Number.text Numeral.text
      rw [hinteger]
      cases number.negative with
      | true => exact ⟨'-', _, rfl, Or.inr ⟨rfl, d, _, rfl, hd⟩⟩
      | false => exact ⟨d, _, rfl, Or.inl hd⟩

theorem not_digit {c : Char} (h : c.isDigit = true) :
    isSpace c = false ∧ c ≠ ']' ∧ c ≠ '\x7d' ∧ c ≠ '"' ∧ c ≠ '[' ∧ c ≠ '\x7b' ∧
      ∀ name ∈ words, name.1.head? ≠ some c := by
  refine ⟨?_, ?_, ?_, ?_, ?_, ?_, ?_⟩
  · simp only [isSpace, Bool.or_eq_false_iff, decide_eq_false_iff_not]
    refine ⟨⟨⟨?_, ?_⟩, ?_⟩, ?_⟩ <;> rintro rfl <;> exact absurd h (by decide)
  all_goals try (rintro rfl; exact absurd h (by decide))
  intro name hname hhead
  simp only [words, List.mem_cons, List.not_mem_nil, or_false] at hname
  rcases hname with rfl | rfl | rfl | rfl | rfl | rfl <;>
    (obtain rfl := Option.some.inj hhead; exact absurd h (by decide))

theorem word_eq_none {text : List Char} {names : List (List Char × Tree)}
    (h : ∀ name ∈ names, name.1.isPrefixOf text = false) : word text names = none := by
  induction names with
  | nil => rfl
  | cons name names ih =>
      have hname := h name List.mem_cons_self
      rw [word, if_neg (by simp [hname])]
      exact ih (fun other ho => h other (List.mem_cons_of_mem _ ho))

-- No word starts with a digit, and the one that starts with a minus goes on with a letter.
theorem word_number (number : Number) (rest : List Char) :
    word (number.text ++ rest) words = none := by
  apply word_eq_none
  intro name hname
  obtain ⟨c, more, htext, hc | ⟨rfl, d, tail, rfl, hd⟩⟩ := digit_or_minus number
  · have hhead := (not_digit hc).2.2.2.2.2.2 name hname
    rw [htext]
    cases hletters : name.1 with
    | nil =>
        simp only [words, List.mem_cons, List.not_mem_nil, or_false] at hname
        rcases hname with rfl | rfl | rfl | rfl | rfl | rfl <;> exact absurd hletters (by decide)
    | cons letter letters =>
        rw [hletters] at hhead
        have hne : letter ≠ c := fun h => hhead (congrArg some h)
        simp [List.isPrefixOf, hne]
  · have hd' : d ≠ 'I' := by
      rintro rfl
      exact absurd hd (by decide)
    rw [htext]
    simp only [words, List.mem_cons, List.not_mem_nil, or_false] at hname
    rcases hname with rfl | rfl | rfl | rfl | rfl | rfl <;>
      simp [List.isPrefixOf, Constant.text, Ne.symm hd']

theorem leaf_number (number : Number) {rest : List Char} (h : Numeral.Stops rest) :
    leaf (number.text ++ rest) = some (.number number, rest) := by
  unfold leaf
  rw [word_number, Number.read_text number h]
  rfl

theorem value_of_leaf {c : Char} {more : List Char} (fuel : ℕ) (hspace : isSpace c = false)
    (hstring : c ≠ '"') (harray : c ≠ '[') (hobject : c ≠ '\x7b') :
    value (fuel + 1) (c :: more) = leaf (c :: more) := by
  have hskip : skip (c :: more) = c :: more := by
    unfold skip
    rw [List.dropWhile_cons_of_neg (by simp [hspace])]
  rw [value, hskip]
  split <;> simp_all

theorem value_number (fuel : ℕ) (number : Number) {rest : List Char} (h : Numeral.Stops rest) :
    value (fuel + 1) (number.text ++ rest) = some (.number number, rest) := by
  have hleaf := leaf_number number h
  obtain ⟨c, more, htext, hc⟩ := digit_or_minus number
  have hhead : isSpace c = false ∧ c ≠ '"' ∧ c ≠ '[' ∧ c ≠ '\x7b' := by
    rcases hc with hc | ⟨rfl, -⟩
    · obtain ⟨hspace, -, -, hstring, harray, hobject, -⟩ := not_digit hc
      exact ⟨hspace, hstring, harray, hobject⟩
    · decide
  rw [htext, List.cons_append] at hleaf ⊢
  rw [value_of_leaf fuel hhead.1 hhead.2.1 hhead.2.2.1 hhead.2.2.2, hleaf]

section RoundTrip

variable {quote : List CodeUnit → List Char}

theorem starts_render (tree : Tree) : Starts (render quote tree) := by
  cases tree with
  | null => exact ⟨_, _, rfl, by decide⟩
  | bool value => cases value <;> exact ⟨_, _, rfl, by decide⟩
  | number value =>
      obtain ⟨c, more, htext, hc⟩ := digit_or_minus value
      refine ⟨c, more, htext, ?_⟩
      rcases hc with hc | ⟨rfl, -⟩
      · obtain ⟨hspace, hbracket, hbrace, -⟩ := not_digit hc
        exact ⟨hspace, hbracket, hbrace⟩
      · decide
  | constant value =>
      cases value with
      | nan => exact ⟨_, _, rfl, by decide⟩
      | infinity negative => cases negative <;> exact ⟨_, _, rfl, by decide⟩
  | string units => exact ⟨_, _, rfl, by decide⟩
  | array items => exact ⟨_, _, rfl, by decide⟩
  | object members => exact ⟨_, _, rfl, by decide⟩

theorem starts_separated_items {item : Tree} {items : List Tree} :
    Starts (separated (renderItems quote (item :: items))) := by
  cases items with
  | nil => exact starts_render item
  | cons next items => exact (starts_render item).append _

theorem starts_separated_members {key : List CodeUnit} {tree : Tree}
    {members : List (List CodeUnit × Tree)} :
    Starts (separated (renderMembers quote ((key, tree) :: members))) := by
  cases members with
  | nil => exact ⟨_, _, rfl, by decide⟩
  | cons next members => exact ⟨_, _, rfl, by decide⟩

theorem quoted_append (units : List CodeUnit) (more : List Char) :
    quoted quote units ++ more = '"' :: (quote units ++ '"' :: more) := by
  simp [quoted]

theorem stops_of_head {c : Char} {rest : List Char}
    (h : c.isDigit = false ∧ c ≠ '.' ∧ c ≠ 'e' ∧ c ≠ 'E') : Numeral.Stops (c :: rest) := by
  intro d hd
  obtain rfl := Option.some.inj hd
  exact h

theorem skip_cons {c : Char} {rest : List Char} (h : isSpace c = false) :
    skip (c :: rest) = c :: rest := by
  unfold skip
  rw [List.dropWhile_cons_of_neg (by simp [h])]

theorem value_string (hquote : Faithful quote) (fuel : ℕ) (units : List CodeUnit)
    (rest : List Char) :
    value (fuel + 1) (quoted quote units ++ rest) = some (.string units, rest) := by
  rw [quoted_append, value, skip_cons (by decide)]
  simp only [hquote units rest, Option.map_some]

theorem value_array_eq {fuel : ℕ} {text : List Char} (htext : Starts text) :
    value (fuel + 1) ('[' :: text) =
      (items fuel text).map fun (list, rest) => (.array list, rest) := by
  have hskip := htext.skip
  obtain ⟨c, more, rfl, -, hbracket, -⟩ := htext
  rw [value, skip_cons (by decide)]
  simp only [hskip]
  split
  · rename_i heq
    exact absurd (List.cons.inj heq).1 hbracket
  · rfl

theorem value_array {fuel : ℕ} {text rest : List Char} {list : List Tree} (htext : Starts text)
    (h : items fuel text = some (list, rest)) :
    value (fuel + 1) ('[' :: text) = some (.array list, rest) := by
  rw [value_array_eq htext, h]
  rfl

theorem value_object_eq {fuel : ℕ} {text : List Char} (htext : Starts text) :
    value (fuel + 1) ('\x7b' :: text) =
      (members fuel text).map fun (list, rest) => (.object list, rest) := by
  have hskip := htext.skip
  obtain ⟨c, more, rfl, -, -, hbrace⟩ := htext
  rw [value, skip_cons (by decide)]
  simp only [hskip]
  split
  · rename_i heq
    exact absurd (List.cons.inj heq).1 hbrace
  · rfl

theorem value_object {fuel : ℕ} {text rest : List Char} {list : List (List CodeUnit × Tree)}
    (htext : Starts text) (h : members fuel text = some (list, rest)) :
    value (fuel + 1) ('\x7b' :: text) = some (.object list, rest) := by
  rw [value_object_eq htext, h]
  rfl

theorem items_last {fuel : ℕ} {text rest : List Char} {item : Tree}
    (h : value fuel text = some (item, ']' :: rest)) :
    items (fuel + 1) text = some ([item], rest) := by
  rw [items, h]
  simp only [Option.bind_eq_bind, Option.bind_some, skip_cons (show isSpace ']' = false by decide)]

theorem items_more {fuel : ℕ} {text more rest : List Char} {item : Tree} {list : List Tree}
    (h : value fuel text = some (item, ',' :: more)) (hmore : items fuel more = some (list, rest)) :
    items (fuel + 1) text = some (item :: list, rest) := by
  rw [items, h]
  simp only [Option.bind_eq_bind, Option.bind_some, skip_cons (show isSpace ',' = false by decide),
    hmore, Option.map_some]

theorem members_last (hquote : Faithful quote) {fuel : ℕ} {text rest : List Char}
    {key : List CodeUnit} {tree : Tree} (h : value fuel text = some (tree, '\x7d' :: rest)) :
    members (fuel + 1) (quoted quote key ++ ':' :: text) = some ([(key, tree)], rest) := by
  rw [quoted_append, members, skip_cons (by decide)]
  simp only [hquote key, Option.bind_eq_bind, Option.bind_some,
    skip_cons (show isSpace ':' = false by decide), h,
    skip_cons (show isSpace '\x7d' = false by decide)]

theorem members_more (hquote : Faithful quote) {fuel : ℕ} {text more rest : List Char}
    {key : List CodeUnit} {tree : Tree} {list : List (List CodeUnit × Tree)}
    (h : value fuel text = some (tree, ',' :: more))
    (hmore : members fuel more = some (list, rest)) :
    members (fuel + 1) (quoted quote key ++ ':' :: text) = some ((key, tree) :: list, rest) := by
  rw [quoted_append, members, skip_cons (by decide)]
  simp only [hquote key, Option.bind_eq_bind, Option.bind_some,
    skip_cons (show isSpace ':' = false by decide), h,
    skip_cons (show isSpace ',' = false by decide), hmore, Option.map_some]

mutual

theorem value_render (hquote : Faithful quote) :
    ∀ (tree : Tree) (fuel : ℕ) (rest : List Char), (render quote tree).length < fuel →
      Numeral.Stops rest → value fuel (render quote tree ++ rest) = some (tree, rest)
  | _, 0, _, h, _ => absurd h (Nat.not_lt_zero _)
  | .null, fuel + 1, rest, _, _ => value_of_leaf fuel rfl (by decide) (by decide) (by decide)
  | .bool true, fuel + 1, rest, _, _ => value_of_leaf fuel rfl (by decide) (by decide) (by decide)
  | .bool false, fuel + 1, rest, _, _ => value_of_leaf fuel rfl (by decide) (by decide) (by decide)
  | .number number, fuel + 1, rest, _, hrest => value_number fuel number hrest
  | .constant .nan, fuel + 1, rest, _, _ =>
      value_of_leaf fuel rfl (by decide) (by decide) (by decide)
  | .constant (.infinity true), fuel + 1, rest, _, _ =>
      value_of_leaf fuel rfl (by decide) (by decide) (by decide)
  | .constant (.infinity false), fuel + 1, rest, _, _ =>
      value_of_leaf fuel rfl (by decide) (by decide) (by decide)
  | .string units, fuel + 1, rest, _, _ => value_string hquote fuel units rest
  | .array [], fuel + 1, rest, _, _ => by
      rw [render, renderItems, separated, value]
      rfl
  | .array (item :: list), fuel + 1, rest, h, _ => by
      simp only [render, List.length_append, List.length_cons, List.length_nil] at h
      have hitems := items_render hquote item list fuel rest (by omega)
      rw [render, List.cons_append, List.cons_append, List.append_assoc]
      exact value_array (starts_separated_items.append _) hitems
  | .object [], fuel + 1, rest, _, _ => by
      rw [render, renderMembers, separated, value]
      rfl
  | .object ((key, tree) :: list), fuel + 1, rest, h, _ => by
      simp only [render, List.length_append, List.length_cons, List.length_nil] at h
      have hmembers := members_render hquote key tree list fuel rest (by omega)
      rw [render, List.cons_append, List.cons_append, List.append_assoc]
      exact value_object (starts_separated_members.append _) hmembers

theorem items_render (hquote : Faithful quote) :
    ∀ (item : Tree) (list : List Tree) (fuel : ℕ) (rest : List Char),
      (separated (renderItems quote (item :: list))).length + 1 < fuel →
      items fuel (separated (renderItems quote (item :: list)) ++ ']' :: rest) =
        some (item :: list, rest)
  | _, _, 0, _, h => absurd h (Nat.not_lt_zero _)
  | item, [], fuel + 1, rest, h => by
      simp only [renderItems, separated] at h ⊢
      exact items_last (value_render hquote item fuel _ (by omega) (stops_of_head (by decide)))
  | item, next :: list, fuel + 1, rest, h => by
      have hsep : separated (renderItems quote (item :: next :: list)) =
          render quote item ++ ',' :: separated (renderItems quote (next :: list)) := rfl
      rw [hsep] at h ⊢
      simp only [List.length_append, List.length_cons] at h
      rw [List.append_assoc]
      exact items_more (value_render hquote item fuel _ (by omega) (stops_of_head (by decide)))
        (items_render hquote next list fuel rest (by omega))

theorem members_render (hquote : Faithful quote) :
    ∀ (key : List CodeUnit) (tree : Tree) (list : List (List CodeUnit × Tree)) (fuel : ℕ)
      (rest : List Char),
      (separated (renderMembers quote ((key, tree) :: list))).length + 1 < fuel →
      members fuel (separated (renderMembers quote ((key, tree) :: list)) ++ '\x7d' :: rest) =
        some ((key, tree) :: list, rest)
  | _, _, _, 0, _, h => absurd h (Nat.not_lt_zero _)
  | key, tree, [], fuel + 1, rest, h => by
      simp only [renderMembers, separated, List.length_append, List.length_cons] at h ⊢
      rw [List.append_assoc]
      exact members_last hquote
        (value_render hquote tree fuel _ (by omega) (stops_of_head (by decide)))
  | key, tree, (next, other) :: list, fuel + 1, rest, h => by
      have hsep : separated (renderMembers quote ((key, tree) :: (next, other) :: list)) =
          (quoted quote key ++ ':' :: render quote tree) ++
            ',' :: separated (renderMembers quote ((next, other) :: list)) := rfl
      rw [hsep] at h ⊢
      simp only [List.length_append, List.length_cons] at h
      rw [List.append_assoc, List.append_assoc]
      exact members_more hquote
        (value_render hquote tree fuel _ (by omega) (stops_of_head (by decide)))
        (members_render hquote next other list fuel rest (by omega))

end

theorem parse_render (hquote : Faithful quote) (tree : Tree) :
    parse (render quote tree) = some tree := by
  have hvalue := value_render hquote tree ((render quote tree).length + 1) [] (Nat.lt_succ_self _)
    (by simp [Numeral.Stops])
  rw [List.append_nil] at hvalue
  unfold parse
  rw [hvalue]
  rfl

-- Unique readability: a document has one reading.
theorem render_injective (hquote : Faithful quote) {tree other : Tree}
    (h : render quote tree = render quote other) : tree = other := by
  have hparse := parse_render hquote tree
  rw [h, parse_render hquote other] at hparse
  exact (Option.some.inj hparse).symm

theorem render_inj (hquote : Faithful quote) {tree other : Tree} :
    render quote tree = render quote other ↔ tree = other :=
  ⟨render_injective hquote, congrArg _⟩

end RoundTrip

end TrustlistCore.Library.Json
