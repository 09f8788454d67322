import TrustlistCore.Library.Json.Theorems

namespace TrustlistCore.Library.Json

open Unicode

-- Induction with an array or an object taken as a whole.
@[elab_as_elim]
theorem Tree.induct {motive : Tree → Prop} (null : motive .null) (bool : ∀ b, motive (.bool b))
    (number : ∀ n, motive (.number n)) (constant : ∀ c, motive (.constant c))
    (string : ∀ s, motive (.string s))
    (array : ∀ items, (∀ item ∈ items, motive item) → motive (.array items))
    (object : ∀ members, (∀ member ∈ members, motive member.2) → motive (.object members))
    (tree : Tree) : motive tree :=
  @Tree.rec motive (fun items => ∀ item ∈ items, motive item)
    (fun members => ∀ member ∈ members, motive member.2) (fun member => motive member.2)
    null bool number constant string array object
    (fun _ h => absurd h List.not_mem_nil)
    (fun _ _ hfirst hrest _ h => by
      rcases List.mem_cons.mp h with rfl | h
      · exact hfirst
      · exact hrest _ h)
    (fun _ h => absurd h List.not_mem_nil)
    (fun _ _ hfirst hrest _ h => by
      rcases List.mem_cons.mp h with rfl | h
      · exact hfirst
      · exact hrest _ h)
    (fun _ _ h => h) tree

section EveryString

variable (P : List CodeUnit → Prop)

mutual

-- A property of all the strings of a document, names included.
def EveryString : Tree → Prop
  | .string units => P units
  | .array items => EveryStringItem items
  | .object members => EveryStringMember members
  | _ => True

def EveryStringItem : List Tree → Prop
  | [] => True
  | item :: items => EveryString item ∧ EveryStringItem items

def EveryStringMember : List (List CodeUnit × Tree) → Prop
  | [] => True
  | (key, tree) :: members => P key ∧ EveryString tree ∧ EveryStringMember members

end

variable {P}

theorem everyStringItem_iff {items : List Tree} :
    EveryStringItem P items ↔ ∀ item ∈ items, EveryString P item := by
  induction items with
  | nil => simp [EveryStringItem]
  | cons item items ih => simp [EveryStringItem, ih]

theorem everyStringMember_iff {members : List (List CodeUnit × Tree)} :
    EveryStringMember P members ↔ ∀ member ∈ members, P member.1 ∧ EveryString P member.2 := by
  induction members with
  | nil => simp [EveryStringMember]
  | cons member members ih => simp [EveryStringMember, ih, and_assoc]

end EveryString

theorem length_separated (texts : List (List Char)) :
    (separated texts).length = (texts.map List.length).sum + (texts.length - 1) := by
  induction texts with
  | nil => rfl
  | cons text texts ih =>
      cases texts with
      | nil => simp [separated]
      | cons next rest =>
          have hmore : separated (text :: next :: rest) =
              text ++ ',' :: separated (next :: rest) := rfl
          rw [hmore, List.length_append, List.length_cons, ih]
          simp only [List.map_cons, List.sum_cons, List.length_cons]
          omega

theorem sum_le_and_eq {A : Type*} {f g : A → ℕ} {l : List A} (h : ∀ a ∈ l, f a ≤ g a) :
    (l.map f).sum ≤ (l.map g).sum ∧
      ((l.map f).sum = (l.map g).sum → ∀ a ∈ l, f a = g a) := by
  induction l with
  | nil => exact ⟨le_refl _, fun _ a ha => absurd ha List.not_mem_nil⟩
  | cons a l ih =>
      obtain ⟨hle, heq⟩ := ih fun b hb => h b (List.mem_cons_of_mem _ hb)
      have ha := h a List.mem_cons_self
      simp only [List.map_cons, List.sum_cons]
      refine ⟨by omega, fun hsum b hb => ?_⟩
      rcases List.mem_cons.mp hb with rfl | hb
      · omega
      · exact heq (by omega) b hb

section Render

-- Two ways to write a string, one of which never writes more.
variable {long short : List CodeUnit → List Char}

theorem render_congr {tree : Tree} (h : EveryString (fun units => short units = long units) tree) :
    render short tree = render long tree := by
  induction tree using Tree.induct with
  | bool b => cases b <;> rfl
  | string s =>
      have hs : short s = long s := h
      rw [render, render, quoted, quoted, hs]
  | array items ih =>
      have hitems := everyStringItem_iff.mp h
      rw [render, render, renderItems_eq, renderItems_eq,
        List.map_congr_left fun item hi => ih item hi (hitems item hi)]
  | object members ih =>
      have hmembers := everyStringMember_iff.mp h
      have htexts : renderMembers short members = renderMembers long members := by
        rw [renderMembers_eq, renderMembers_eq]
        refine List.map_congr_left fun member hm => ?_
        obtain ⟨hkey, hvalue⟩ := hmembers member hm
        rw [quoted, quoted, hkey, ih member hm hvalue]
      rw [render, render, htexts]
  | _ => rfl

variable (hle : ∀ units, (short units).length ≤ (long units).length)

include hle

-- As no part is longer, a document of the same length has all its strings of the same length.
theorem length_render (tree : Tree) :
    (render short tree).length ≤ (render long tree).length ∧
      ((render short tree).length = (render long tree).length →
        EveryString (fun units => (short units).length = (long units).length) tree) := by
  induction tree using Tree.induct with
  | bool b => cases b <;> exact ⟨le_refl _, fun _ => trivial⟩
  | string s =>
      have hs := hle s
      simp only [render, quoted, List.length_append, List.length_cons, List.length_nil]
      refine ⟨by omega, fun h => ?_⟩
      have hlength : (short s).length = (long s).length := by omega
      exact hlength
  | array items ih =>
      obtain ⟨hsum, heq⟩ := sum_le_and_eq fun item hi => (ih item hi).1
      simp only [render, renderItems_eq, List.length_append, List.length_cons, List.length_nil,
        length_separated, List.length_map, List.map_map, Function.comp_def]
      refine ⟨by omega, fun h => ?_⟩
      have hlength := heq (by omega)
      exact everyStringItem_iff.mpr fun item hi => (ih item hi).2 (hlength item hi)
  | object members ih =>
      have hmember : ∀ member ∈ members,
          (quoted short member.1 ++ ':' :: render short member.2).length ≤
            (quoted long member.1 ++ ':' :: render long member.2).length := by
        intro member hm
        have hkey := hle member.1
        have hvalue := (ih member hm).1
        simp only [quoted, List.length_append, List.length_cons, List.length_nil]
        omega
      obtain ⟨hsum, heq⟩ := sum_le_and_eq hmember
      simp only [render, renderMembers_eq, List.length_append, List.length_cons, List.length_nil,
        length_separated, List.length_map, List.map_map, Function.comp_def] at hsum heq ⊢
      refine ⟨by omega, fun h => ?_⟩
      have hlength := heq (by omega)
      refine everyStringMember_iff.mpr fun member hm => ?_
      have hboth := hlength member hm
      have hkey := hle member.1
      have hvalue := (ih member hm).1
      simp only [quoted, List.length_append, List.length_cons, List.length_nil] at hboth
      exact ⟨by omega, (ih member hm).2 (by omega)⟩
  | _ => exact ⟨le_refl _, fun _ => trivial⟩

theorem render_eq_iff
    (heq : ∀ units, (short units).length = (long units).length → short units = long units)
    (tree : Tree) : render short tree = render long tree ↔
      EveryString (fun units => short units = long units) tree := by
  refine ⟨fun h => ?_, render_congr⟩
  have hlength := (length_render hle tree).2 (congrArg List.length h)
  have hfun : (fun units => (short units).length = (long units).length) =
      fun units => short units = long units :=
    funext fun units => propext ⟨heq units, congrArg List.length⟩
  rwa [hfun] at hlength

end Render

section Ascii

-- A character that both ways of quoting write alike: printable ASCII, a control character or
-- a surrogate that stands alone.
def Shared (point : CodePoint) : Prop :=
  point.val < 0x7F ∨ 0xD800 ≤ point.val ∧ point.val < 0xE000

theorem length_unicodeEscape (unit : CodeUnit) : (unicodeEscape unit).length = 6 := rfl

theorem lt_of_shortEscape {unit : CodeUnit} {c : Char} (h : shortEscape unit = some c) :
    unit.val < 0x7F := by
  have hall : ∀ escape ∈ shortEscapes, escape.1.val < 0x7F := by decide
  exact hall _ (mem_of_shortEscape h)

theorem escapeUnit_of_shared {unit : CodeUnit} (h : Shared (ofUnit unit)) :
    escapeUnit unit = escapeAscii unit := by
  unfold escapeUnit escapeAscii
  cases hshort : shortEscape unit with
  | some c => rfl
  | none =>
      simp only [Shared, ofUnit] at h
      simp only [isSurrogate, isHigh, isLow, Bool.or_eq_true, decide_eq_true_eq]
      split <;> split
      · omega
      · rfl
      · rfl
      · omega

theorem length_escapeUnit_of_not_shared {unit : CodeUnit} (h : ¬ Shared (ofUnit unit)) :
    (escapeUnit unit).length = 1 ∧ (escapeAscii unit).length = 6 := by
  simp only [Shared, ofUnit, not_or] at h
  cases hshort : shortEscape unit with
  | some c => exact absurd (lt_of_shortEscape hshort) h.1
  | none =>
      unfold escapeUnit escapeAscii
      simp only [hshort, isSurrogate, isHigh, isLow, Bool.or_eq_true, decide_eq_true_eq]
      rw [if_neg (by omega), if_neg (by omega)]
      exact ⟨rfl, length_unicodeEscape unit⟩

theorem length_escapeAscii_of_surrogate {unit : CodeUnit} (h : isSurrogate unit = true) :
    (escapeAscii unit).length = 6 := by
  have hrange : 0xD800 ≤ unit.val := by
    simp only [isSurrogate, isHigh, isLow, Bool.or_eq_true, decide_eq_true_eq] at h
    omega
  cases hshort : shortEscape unit with
  | some c =>
      have hlt := lt_of_shortEscape hshort
      omega
  | none =>
      unfold escapeAscii
      simp only [hshort]
      rw [if_neg (by omega)]
      exact length_unicodeEscape unit

theorem not_shared_ofPair (high low : CodeUnit) : ¬ Shared (ofPair high low) := by
  simp only [Shared, ofPair]
  omega

theorem quoteAscii_cons (unit : CodeUnit) (units : List CodeUnit) :
    quoteAscii (unit :: units) = escapeAscii unit ++ quoteAscii units := rfl

theorem length_quoteLiteral (units : List CodeUnit) :
    (quoteLiteral units).length ≤ (quoteAscii units).length ∧
      ((quoteLiteral units).length = (quoteAscii units).length →
        ∀ point ∈ decode16 units, Shared point) := by
  have hone (unit : CodeUnit) : (escapeUnit unit).length ≤ (escapeAscii unit).length ∧
      ((escapeUnit unit).length = (escapeAscii unit).length → Shared (ofUnit unit)) := by
    by_cases h : Shared (ofUnit unit)
    · exact ⟨by rw [escapeUnit_of_shared h], fun _ => h⟩
    · obtain ⟨hshort, hlong⟩ := length_escapeUnit_of_not_shared h
      exact ⟨by omega, fun hlength => by omega⟩
  induction units using decode16.induct with
  | case1 => exact ⟨le_refl _, fun _ point hp => absurd hp List.not_mem_nil⟩
  | case2 unit =>
      have hascii : quoteAscii [unit] = escapeAscii unit := List.append_nil _
      rw [hascii, quoteLiteral, decode16]
      refine ⟨(hone unit).1, fun hlength point hp => ?_⟩
      rw [List.mem_singleton.mp hp]
      exact (hone unit).2 hlength
  | case3 first second units hpair ih =>
      have hfirst := @length_escapeAscii_of_surrogate first (by simp [isSurrogate, hpair.1])
      have hsecond := @length_escapeAscii_of_surrogate second (by simp [isSurrogate, hpair.2])
      rw [quoteLiteral, if_pos hpair, quoteAscii_cons, quoteAscii_cons]
      simp only [List.length_cons, List.length_append, hfirst, hsecond]
      have hrest := ih.1
      exact ⟨by omega, fun hlength => by omega⟩
  | case4 first second units hpair ih =>
      rw [quoteLiteral, if_neg hpair, quoteAscii_cons, decode16, if_neg hpair]
      obtain ⟨hle, hshared⟩ := hone first
      obtain ⟨hrest, hall⟩ := ih
      simp only [List.length_append]
      refine ⟨by omega, fun hlength point hp => ?_⟩
      rcases List.mem_cons.mp hp with rfl | hp
      · exact hshared (by omega)
      · exact hall (by omega) point hp

theorem quoteLiteral_of_shared {units : List CodeUnit} (h : ∀ point ∈ decode16 units, Shared point) :
    quoteLiteral units = quoteAscii units := by
  induction units using decode16.induct with
  | case1 => rfl
  | case2 unit =>
      rw [quoteLiteral, escapeUnit_of_shared (h _ List.mem_cons_self)]
      exact (List.append_nil _).symm
  | case3 first second units hpair ih =>
      rw [decode16, if_pos hpair] at h
      exact absurd (h _ List.mem_cons_self) (not_shared_ofPair first second)
  | case4 first second units hpair ih =>
      rw [decode16, if_neg hpair] at h
      rw [quoteLiteral, if_neg hpair, quoteAscii_cons,
        escapeUnit_of_shared (h _ List.mem_cons_self),
        ih fun point hp => h point (List.mem_cons_of_mem _ hp)]

theorem quoteLiteral_eq_iff {units : List CodeUnit} :
    quoteLiteral units = quoteAscii units ↔ ∀ point ∈ decode16 units, Shared point :=
  ⟨fun h => (length_quoteLiteral units).2 (congrArg List.length h), quoteLiteral_of_shared⟩

-- The two texts of one document are the same just where its characters are shared.
theorem render_quoteLiteral_eq_iff (tree : Tree) :
    render quoteLiteral tree = render quoteAscii tree ↔
      EveryString (fun units => ∀ point ∈ decode16 units, Shared point) tree := by
  have hfun : (fun units => quoteLiteral units = quoteAscii units) =
      fun units => ∀ point ∈ decode16 units, Shared point :=
    funext fun units => propext quoteLiteral_eq_iff
  rw [render_eq_iff (fun units => (length_quoteLiteral units).1)
    (fun units h => quoteLiteral_of_shared ((length_quoteLiteral units).2 h)) tree, hfun]

theorem hexDigit_printable {n : ℕ} (h : n < 0x10) :
    0x20 ≤ (hexDigit n).toNat ∧ (hexDigit n).toNat ≤ 0x7E := by
  interval_cases n <;> decide

theorem shortEscapes_printable :
    ∀ escape ∈ shortEscapes, 0x20 ≤ escape.2.toNat ∧ escape.2.toNat ≤ 0x7E := by
  decide

-- Under `ensure_ascii` all that is written is printable.
theorem printable_quoteAscii {units : List CodeUnit} {c : Char} (h : c ∈ quoteAscii units) :
    0x20 ≤ c.toNat ∧ c.toNat ≤ 0x7E := by
  obtain ⟨unit, -, hc⟩ := List.mem_flatMap.mp h
  have hunit := unit.isLt
  unfold escapeAscii at hc
  split at hc
  · rename_i escape hshort
    rcases List.mem_cons.mp hc with rfl | hc
    · decide
    · obtain rfl := List.mem_singleton.mp hc
      exact shortEscapes_printable _ (mem_of_shortEscape hshort)
  · split at hc
    · rename_i hprintable
      have hvalid : unit.val.isValidChar := Or.inl (by omega)
      obtain rfl := List.mem_singleton.mp hc
      rw [toNat_ofNat hvalid]
      exact hprintable
    · simp only [unicodeEscape, List.mem_cons, List.not_mem_nil, or_false] at hc
      rcases hc with rfl | rfl | rfl | rfl | rfl | rfl
      · decide
      · decide
      · exact hexDigit_printable (by omega)
      · exact hexDigit_printable (by omega)
      · exact hexDigit_printable (by omega)
      · exact hexDigit_printable (by omega)

end Ascii

end TrustlistCore.Library.Json
