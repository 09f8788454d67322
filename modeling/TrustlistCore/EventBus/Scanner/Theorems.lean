import TrustlistCore.EventBus.Scanner
import TrustlistCore.Library.Json.Suffix
import TrustlistCore.Library.Result

namespace TrustlistCore.EventBus.Scanner

open Library Unicode

-- The marks of a text without surrogates.
def spelled (text : List Char) : List Mark :=
  text.map fun c => (c, Json.charPoint c)

theorem marks_charPoints (text : List Char) : marks (text.map Json.charPoint) = spelled text := by
  rw [marks, spelled, List.map_map]
  apply List.map_congr_left
  intro c _
  exact Prod.ext (Char.ofNat_toNat c) rfl

theorem skip_spelled (text : List Char) : skip (spelled text) = spelled (Json.skip text) := by
  rw [skip, spelled, List.dropWhile_map]
  rfl

-- The units a string stands for, whichever way its parts were written.
def pieceUnits : List Piece → List CodeUnit
  | [] => []
  | .inl unit :: rest => unit :: pieceUnits rest
  | .inr point :: rest => utf16Point point ++ pieceUnits rest

def ScalarPieces (pieces : List Piece) : Prop :=
  ∀ point, .inr point ∈ pieces → isScalar point = true

theorem decode16_utf16Point {point : CodePoint} (h : isScalar point = true) (units : List CodeUnit) :
    decode16 (utf16Point point ++ units) = point :: decode16 units := by
  have hscalar : point.val < 0xD800 ∨ 0xE000 ≤ point.val := of_decide_eq_true h
  unfold utf16Point
  split
  · rename_i hbmp
    have hhigh : isHigh ⟨point.val, hbmp⟩ = false := by
      rw [isHigh, decide_eq_false_iff_not]
      simp only
      omega
    rw [List.singleton_append, decode16_cons_of_not_high hhigh]
    rfl
  · rename_i hwide
    have hpoint := point.isLt
    have hhigh : isHigh (highUnit point) = true := by
      rw [isHigh, decide_eq_true_eq]
      simp only [highUnit]
      omega
    have hlow : isLow (lowUnit point) = true := by
      rw [isLow, decide_eq_true_eq]
      simp only [lowUnit]
      omega
    simp only [List.cons_append, List.nil_append]
    rw [decode16, if_pos ⟨hhigh, hlow⟩, ofPair_highUnit_lowUnit hwide]

-- The first unit of a scalar value never completes a pair.
theorem decode16_unit_utf16Point {point : CodePoint} (h : isScalar point = true) (unit : CodeUnit)
    (units : List CodeUnit) :
    decode16 (unit :: (utf16Point point ++ units)) =
      ofUnit unit :: decode16 (utf16Point point ++ units) := by
  have hscalar : point.val < 0xD800 ∨ 0xE000 ≤ point.val := of_decide_eq_true h
  unfold utf16Point
  split
  · rename_i hbmp
    have hlow : isLow ⟨point.val, hbmp⟩ = false := by
      rw [isLow, decide_eq_false_iff_not]
      simp only
      omega
    rw [List.singleton_append, decode16, if_neg]
    simp [hlow]
  · rename_i hwide
    have hpoint := point.isLt
    have hlow : isLow (highUnit point) = false := by
      rw [isLow, decide_eq_false_iff_not]
      simp only [highUnit]
      omega
    simp only [List.cons_append, List.nil_append]
    rw [decode16, if_neg]
    simp [hlow]

theorem join_eq_decode16 {pieces : List Piece} (h : ScalarPieces pieces) :
    join pieces = decode16 (pieceUnits pieces) := by
  have htail : ∀ {piece : Piece} {rest : List Piece}, ScalarPieces (piece :: rest) →
      ScalarPieces rest := fun h point hpoint => h point (List.mem_cons_of_mem _ hpoint)
  induction pieces using join.induct with
  | case1 first second rest hpair ih =>
      rw [join, if_pos hpair, ih (htail (htail h))]
      simp only [pieceUnits]
      rw [decode16, if_pos hpair]
  | case2 first second rest hpair ih =>
      rw [join, if_neg hpair, ih (htail h)]
      simp only [pieceUnits]
      rw [decode16, if_neg hpair]
  | case3 unit rest hrest ih =>
      rw [join, ih (htail h)]
      · cases rest with
        | nil => rfl
        | cons piece rest =>
            cases piece with
            | inl second => exact absurd rfl (hrest second rest)
            | inr point =>
                have hscalar := h point (List.mem_cons_of_mem _ List.mem_cons_self)
                simp only [pieceUnits]
                rw [decode16_unit_utf16Point hscalar]
      · exact hrest
  | case4 point rest ih =>
      rw [join, ih (htail h), pieceUnits, decode16_utf16Point (h point List.mem_cons_self)]
  | case5 => rfl

theorem isScalar_charPoint (c : Char) : isScalar (Json.charPoint c) = true := by
  have hvalid : c.toNat < 0xD800 ∨ 0xDFFF < c.toNat ∧ c.toNat < 0x110000 := c.valid
  have hpoint : (Json.charPoint c).val = c.toNat := rfl
  rw [isScalar, decide_eq_true_eq, hpoint]
  omega

theorem escaped_u : Json.escaped 'u' = none := by
  decide

-- The scanner reads the string that `Json.string` reads.
def ReadsString (text : List Char) (units : List CodeUnit) (rest : List Char) : Prop :=
  ∃ pieces, string (spelled text) = some (pieces, spelled rest) ∧ ScalarPieces pieces ∧
    pieceUnits pieces = units

theorem readsString_escape {text more rest : List Char} {unit : CodeUnit} {units : List CodeUnit}
    (hread : string (spelled text) = (string (spelled more)).map (prepend (.inl unit)))
    (h : ReadsString more units rest) : ReadsString text (unit :: units) rest := by
  obtain ⟨pieces, hstring, hscalar, rfl⟩ := h
  refine ⟨.inl unit :: pieces, by rw [hread, hstring]; rfl, ?_, rfl⟩
  intro point hpoint
  rcases List.mem_cons.mp hpoint with hfirst | hrest
  · cases hfirst
  · exact hscalar point hrest

theorem readsString_of_string {text rest : List Char} {units : List CodeUnit}
    (h : Json.string text = some (units, rest)) : ReadsString text units rest := by
  have hmap : ∀ {text : List Char} {more units : List CodeUnit},
      (Json.string text).map (Json.prepend more) = some (units, rest) →
        ∃ units', Json.string text = some (units', rest) ∧ units = more ++ units' := by
    intro text more units hmapped
    obtain ⟨⟨units', rest'⟩, hstring, hpair⟩ := Option.map_eq_some_iff.mp hmapped
    obtain ⟨rfl, rfl⟩ := Prod.mk.inj hpair
    exact ⟨units', hstring, rfl⟩
  induction text using Json.string.induct generalizing units with
  | case1 => cases h
  | case2 text =>
      cases h
      exact ⟨[], rfl, by simp [ScalarPieces], rfl⟩
  | case3 a b c d text unit hunit ih =>
      rw [Json.string, hunit] at h
      obtain ⟨units', hstring, rfl⟩ := hmap h
      apply readsString_escape _ (ih hstring)
      simp only [spelled, List.map_cons, string, hunit]
  | case4 a b c d text hunit =>
      rw [Json.string, hunit] at h
      cases h
  | case5 c text hc unit hunit ih =>
      rw [Json.string.eq_4 _ _ hc, hunit] at h
      obtain ⟨units', hstring, rfl⟩ := hmap h
      apply readsString_escape _ (ih hstring)
      simp only [spelled, List.map_cons]
      have hu : c ≠ 'u' := by
        rintro rfl
        exact absurd hunit (by simp [escaped_u])
      rw [string.eq_4 _ _ _ _ fun _ _ _ _ _ _ _ _ _ _ => hu, hunit]
  | case6 c text hc hunit =>
      rw [Json.string.eq_4 _ _ hc, hunit] at h
      cases h
  | case7 c text hquote hescape hslash hlow =>
      rw [Json.string.eq_5 _ _ hquote hescape hslash, if_pos hlow] at h
      cases h
  | case8 c text hquote hescape hslash hlow ih =>
      rw [Json.string.eq_5 _ _ hquote hescape hslash, if_neg hlow] at h
      obtain ⟨units', hstring, rfl⟩ := hmap h
      obtain ⟨pieces, hpieces, hscalar, rfl⟩ := ih hstring
      have hread : string (spelled (c :: text)) =
          (string (spelled text)).map (prepend (.inr (Json.charPoint c))) := by
        have hnot : ∀ (mark : Mark) (rest : List Mark), spelled text = mark :: rest → c ≠ '\\' := by
          intro mark rest hmarks hc
          cases text with
          | nil => cases hmarks
          | cons d ds => exact hslash d ds hc rfl
        rw [spelled, List.map_cons, string.eq_5 _ _ _ hquote, if_neg]
        · rfl
        · exact hlow
        · intro _ _ _ _ _ _ _ _ _ _ hmarks
          exact hnot _ _ hmarks
        · intro _ _ _ hmarks
          exact hnot _ _ hmarks
      refine ⟨.inr (Json.charPoint c) :: pieces, by rw [hread, hpieces]; rfl, ?_, rfl⟩
      intro point hpoint
      rcases List.mem_cons.mp hpoint with hfirst | hrest
      · rw [Sum.inr.inj hfirst]
        exact isScalar_charPoint c
      · exact hscalar point hrest

theorem key_spelled {text rest : List Char} {units : List CodeUnit}
    (h : Json.string text = some (units, rest)) :
    key (spelled text) = .ok (decode16 units, spelled rest) := by
  obtain ⟨pieces, hpieces, hscalar, rfl⟩ := readsString_of_string h
  rw [key, hpieces]
  simp only [join_eq_decode16 hscalar]

-- How many containers of a document are open at once.
mutual

def depth : Json.Tree → ℕ
  | .array items => itemsDepth items + 1
  | .object members => membersDepth members + 1
  | _ => 0

def itemsDepth : List Json.Tree → ℕ
  | [] => 0
  | item :: items => max (depth item) (itemsDepth items)

def membersDepth : List (List CodeUnit × Json.Tree) → ℕ
  | [] => 0
  | (_, tree) :: members => max (depth tree) (membersDepth members)

end

section Scan

variable {maxStrDigits : ℕ}

theorem leaf_spelled {text rest : List Char} {tree : Json.Tree} {v : Value}
    (h : Json.leaf text = some (tree, rest)) (hv : Value.ofTree maxStrDigits tree = .ok v) :
    leaf maxStrDigits (spelled text) = .ok (v, spelled rest) := by
  obtain ⟨taken, rfl⟩ := Json.suffix_of_leaf h
  have hchars : (spelled (taken ++ rest)).map Prod.fst = taken ++ rest := by
    rw [spelled, List.map_map]
    exact List.map_id _
  have hdrop : (spelled (taken ++ rest)).drop ((spelled (taken ++ rest)).length - rest.length) =
      spelled rest := by
    simp [spelled]
  rw [leaf, hchars, h]
  simp only [hv, Except.map, hdrop]

theorem ofTree_array {list : List Json.Tree} {v : Value}
    (h : Value.ofTree maxStrDigits (.array list) = .ok v) :
    ∃ values, Members.gather (Value.ofItems maxStrDigits list) = .ok values ∧ v = .list values := by
  rw [Value.ofTree] at h
  obtain ⟨values, hvalues, rfl⟩ := Result.map_eq_ok.mp h
  exact ⟨values, hvalues, rfl⟩

theorem ofTree_object {list : List (List CodeUnit × Json.Tree)} {v : Value}
    (h : Value.ofTree maxStrDigits (.object list) = .ok v) :
    ∃ pairs, Members.collect (Value.ofMembers maxStrDigits list) = .ok pairs ∧
      v = .dict (Members.ofPairs pairs) := by
  rw [Value.ofTree] at h
  obtain ⟨pairs, hpairs, rfl⟩ := Result.map_eq_ok.mp h
  exact ⟨pairs, hpairs, rfl⟩

theorem gather_cons {first : Except Failure Value} {rest : List (Except Failure Value)}
    {values : List Value} (h : Members.gather (first :: rest) = .ok values) :
    ∃ v more, first = .ok v ∧ Members.gather rest = .ok more ∧ values = v :: more := by
  cases first with
  | error failure => cases h
  | ok v =>
      rw [Members.gather] at h
      obtain ⟨more, hmore, rfl⟩ := Result.map_eq_ok.mp h
      exact ⟨v, more, rfl, hmore, rfl⟩

theorem collect_cons {name : List CodePoint} {first : Except Failure Value}
    {rest : List (List CodePoint × Except Failure Value)} {pairs : List (List CodePoint × Value)}
    (h : Members.collect ((name, first) :: rest) = .ok pairs) :
    ∃ v more, first = .ok v ∧ Members.collect rest = .ok more ∧ pairs = (name, v) :: more := by
  cases first with
  | error failure => cases h
  | ok v =>
      rw [Members.collect] at h
      obtain ⟨more, hmore, rfl⟩ := Result.map_eq_ok.mp h
      exact ⟨v, more, rfl, hmore, rfl⟩

section Fuel

variable (maxStrDigits) (fuel : ℕ)

-- With as much fuel or more, a document within the depth is scanned to what it denotes.
def ScansValue : Prop :=
  ∀ text tree rest v d more, Json.value fuel text = some (tree, rest) →
    Value.ofTree maxStrDigits tree = .ok v → depth tree ≤ d → fuel ≤ more →
      value maxStrDigits more d (spelled text) = .ok (v, spelled rest)

def ScansItems : Prop :=
  ∀ text list rest values d more, Json.items fuel text = some (list, rest) →
    Members.gather (Value.ofItems maxStrDigits list) = .ok values → itemsDepth list ≤ d →
      fuel ≤ more → items maxStrDigits more d (spelled text) = .ok (values, spelled rest)

def ScansMembers : Prop :=
  ∀ text list rest pairs d more, Json.members fuel text = some (list, rest) →
    Members.collect (Value.ofMembers maxStrDigits list) = .ok pairs → membersDepth list ≤ d →
      fuel ≤ more → members maxStrDigits more d (spelled text) = .ok (pairs, spelled rest)

end Fuel

theorem spelled_cons (c : Char) (text : List Char) :
    spelled (c :: text) = (c, Json.charPoint c) :: spelled text := rfl

theorem spelled_eq_cons {text : List Char} {mark : Mark} {rest : List Mark}
    (h : spelled text = mark :: rest) : ∃ more, text = mark.1 :: more := by
  cases text with
  | nil => cases h
  | cons c more =>
      rw [spelled_cons] at h
      rw [← (List.cons.inj h).1]
      exact ⟨more, rfl⟩

theorem scansValue_succ {fuel : ℕ} (hitems : ScansItems maxStrDigits fuel)
    (hmembers : ScansMembers maxStrDigits fuel) : ScansValue maxStrDigits (fuel + 1) := by
  intro text tree rest v d more h hv hd hmore
  obtain ⟨more, rfl⟩ : ∃ n, more = n + 1 := ⟨more - 1, by omega⟩
  rw [Json.value] at h
  rw [value, skip_spelled]
  split at h
  · rename_i tail hskip
    obtain ⟨⟨units, rest'⟩, hstring, hpair⟩ := Option.map_eq_some_iff.mp h
    obtain ⟨rfl, rfl⟩ := Prod.mk.inj hpair
    cases hv
    rw [hskip, spelled_cons]
    simp only [key_spelled hstring]
    rfl
  · rename_i tail hskip
    rw [hskip, spelled_cons]
    simp only [skip_spelled]
    split at h
    · rename_i tail' hclose
      obtain ⟨rfl, rfl⟩ := Prod.mk.inj (Option.some.inj h)
      obtain ⟨values, hvalues, rfl⟩ := ofTree_array hv
      cases hvalues
      rw [depth] at hd
      rw [if_neg (by omega), hclose, spelled_cons]
      rfl
    · rename_i hopen
      obtain ⟨⟨list, rest'⟩, hlist, hpair⟩ := Option.map_eq_some_iff.mp h
      obtain ⟨rfl, rfl⟩ := Prod.mk.inj hpair
      obtain ⟨values, hvalues, rfl⟩ := ofTree_array hv
      rw [depth] at hd
      rw [if_neg (by omega)]
      have hscan := hitems _ _ _ _ (d - 1) more hlist hvalues (by omega) (by omega)
      split
      · rename_i hclose
        obtain ⟨tail', htail⟩ := spelled_eq_cons hclose
        exact absurd htail (hopen tail')
      · rw [hscan]
        rfl
  · rename_i tail hskip
    rw [hskip, spelled_cons]
    simp only [skip_spelled]
    split at h
    · rename_i tail' hclose
      obtain ⟨rfl, rfl⟩ := Prod.mk.inj (Option.some.inj h)
      obtain ⟨pairs, hpairs, rfl⟩ := ofTree_object hv
      cases hpairs
      rw [depth] at hd
      rw [if_neg (by omega), hclose, spelled_cons]
      rfl
    · rename_i hopen
      obtain ⟨⟨list, rest'⟩, hlist, hpair⟩ := Option.map_eq_some_iff.mp h
      obtain ⟨rfl, rfl⟩ := Prod.mk.inj hpair
      obtain ⟨pairs, hpairs, rfl⟩ := ofTree_object hv
      rw [depth] at hd
      rw [if_neg (by omega)]
      have hscan := hmembers _ _ _ _ (d - 1) more hlist hpairs (by omega) (by omega)
      split
      · rename_i hclose
        obtain ⟨tail', htail⟩ := spelled_eq_cons hclose
        exact absurd htail (hopen tail')
      · rw [hscan]
        rfl
  · rename_i hstring harray hobject
    have hleaf := leaf_spelled h hv
    split
    · rename_i heq
      obtain ⟨tail, htail⟩ := spelled_eq_cons heq
      exact absurd htail (hstring tail)
    · rename_i heq
      obtain ⟨tail, htail⟩ := spelled_eq_cons heq
      exact absurd htail (harray tail)
    · rename_i heq
      obtain ⟨tail, htail⟩ := spelled_eq_cons heq
      exact absurd htail (hobject tail)
    · exact hleaf

theorem scansItems_succ {fuel : ℕ} (hvalue : ScansValue maxStrDigits fuel)
    (hitems : ScansItems maxStrDigits fuel) : ScansItems maxStrDigits (fuel + 1) := by
  intro text list rest values d more h hv hd hmore
  obtain ⟨more, rfl⟩ : ∃ n, more = n + 1 := ⟨more - 1, by omega⟩
  rw [Json.items] at h
  obtain ⟨⟨item, middle⟩, hitem, hmiddle⟩ := Option.bind_eq_some_iff.mp h
  simp only at hmiddle
  rw [items]
  split at hmiddle
  · rename_i tail hskip
    obtain ⟨⟨others, rest'⟩, hothers, hpair⟩ := Option.map_eq_some_iff.mp hmiddle
    obtain ⟨rfl, rfl⟩ := Prod.mk.inj hpair
    rw [Value.ofItems] at hv
    obtain ⟨v, vs, hfirst, hrest, rfl⟩ := gather_cons hv
    simp only [itemsDepth] at hd
    have hscan := hvalue _ _ _ _ d more hitem hfirst (by omega) (by omega)
    have hscans := hitems _ _ _ _ d more hothers hrest (by omega) (by omega)
    simp only [hscan, bind, Except.bind, skip_spelled, hskip, spelled_cons, hscans]
    rfl
  · rename_i tail hskip
    obtain ⟨rfl, rfl⟩ := Prod.mk.inj (Option.some.inj hmiddle)
    rw [Value.ofItems, Value.ofItems] at hv
    obtain ⟨v, vs, hfirst, hrest, rfl⟩ := gather_cons hv
    cases hrest
    simp only [itemsDepth] at hd
    have hscan := hvalue _ _ _ _ d more hitem hfirst (by omega) (by omega)
    simp only [hscan, bind, Except.bind, skip_spelled, hskip, spelled_cons]
  · cases hmiddle

theorem scansMembers_succ {fuel : ℕ} (hvalue : ScansValue maxStrDigits fuel)
    (hmembers : ScansMembers maxStrDigits fuel) : ScansMembers maxStrDigits (fuel + 1) := by
  intro text list rest pairs d more h hv hd hmore
  obtain ⟨more, rfl⟩ : ∃ n, more = n + 1 := ⟨more - 1, by omega⟩
  rw [Json.members] at h
  rw [members, skip_spelled]
  split at h
  · rename_i tail hquote
    obtain ⟨⟨units, named⟩, hname, hcolon⟩ := Option.bind_eq_some_iff.mp h
    simp only at hcolon
    split at hcolon
    · rename_i body hskip
      obtain ⟨⟨tree, middle⟩, htree, hmiddle⟩ := Option.bind_eq_some_iff.mp hcolon
      simp only at hmiddle
      rw [hquote, spelled_cons]
      simp only [key_spelled hname, bind, Except.bind, skip_spelled, hskip, spelled_cons]
      split at hmiddle
      · rename_i tail' hcomma
        obtain ⟨⟨others, rest'⟩, hothers, hpair⟩ := Option.map_eq_some_iff.mp hmiddle
        obtain ⟨rfl, rfl⟩ := Prod.mk.inj hpair
        rw [Value.ofMembers] at hv
        obtain ⟨v, vs, hfirst, hrest, rfl⟩ := collect_cons hv
        simp only [membersDepth] at hd
        have hscan := hvalue _ _ _ _ d more htree hfirst (by omega) (by omega)
        have hscans := hmembers _ _ _ _ d more hothers hrest (by omega) (by omega)
        simp only [hscan, skip_spelled, hcomma, spelled_cons, hscans]
        rfl
      · rename_i tail' hclose
        obtain ⟨rfl, rfl⟩ := Prod.mk.inj (Option.some.inj hmiddle)
        rw [Value.ofMembers, Value.ofMembers] at hv
        obtain ⟨v, vs, hfirst, hrest, rfl⟩ := collect_cons hv
        cases hrest
        simp only [membersDepth] at hd
        have hscan := hvalue _ _ _ _ d more htree hfirst (by omega) (by omega)
        simp only [hscan, skip_spelled, hclose, spelled_cons]
      · cases hmiddle
    · cases hcolon
  · cases h

theorem scans (fuel : ℕ) : ScansValue maxStrDigits fuel ∧ ScansItems maxStrDigits fuel ∧
    ScansMembers maxStrDigits fuel := by
  induction fuel with
  | zero =>
      refine ⟨?_, ?_, ?_⟩
      · intro text tree rest v d more h
        cases h
      · intro text list rest values d more h
        cases h
      · intro text list rest pairs d more h
        cases h
  | succ fuel ih =>
      obtain ⟨hvalue, hitems, hmembers⟩ := ih
      exact ⟨scansValue_succ hitems hmembers, scansItems_succ hvalue hitems,
        scansMembers_succ hvalue hmembers⟩

-- Where the interpreter goes deep enough, the scanner is `Json.parse` and what it denotes.
theorem loads_charPoints {text : List Char} {tree : Json.Tree} {v : Value} {d : ℕ}
    (hparse : Json.parse text = some tree) (hv : Value.ofTree maxStrDigits tree = .ok v)
    (hd : depth tree ≤ d) : loads maxStrDigits d (text.map Json.charPoint) = .ok v := by
  obtain ⟨⟨tree', rest⟩, hvalue, hrest⟩ := Option.bind_eq_some_iff.mp hparse
  simp only at hrest
  split at hrest
  · rename_i hskip
    obtain rfl := Option.some.inj hrest
    have hscan := (scans _).1 _ _ _ _ d (2 * (text.map Json.charPoint).length + 2) hvalue hv hd
      (by rw [List.length_map]; omega)
    simp only [loads, marks_charPoints, hscan, bind, Except.bind, skip_spelled, hskip]
    rfl
  · cases hrest

end Scan

-- The failures of a scan: a `ValueError`, or the interpreter's own limit.
def Decoding (failure : Failure) : Prop :=
  (∃ message, failure = .valueError message) ∨ failure = tooDeep

def Raises {α : Type} (result : Except Failure α) : Prop :=
  ∀ failure, result = .error failure → Decoding failure

section Raises

variable {α β : Type}

theorem raises_ok (v : α) : Raises (.ok v : Except Failure α) := by
  intro failure h
  cases h

theorem raises_decodeError : Raises (.error decodeError : Except Failure α) := by
  intro failure h
  cases h
  exact .inl ⟨_, rfl⟩

theorem raises_tooDeep : Raises (.error tooDeep : Except Failure α) := by
  intro failure h
  cases h
  exact .inr rfl

theorem Raises.bind {result : Except Failure α} {next : α → Except Failure β} (h : Raises result)
    (hnext : ∀ v, Raises (next v)) : Raises (result.bind next) := by
  intro failure hfailure
  cases result with
  | error other =>
      obtain rfl : other = failure := Except.error.inj hfailure
      exact h other rfl
  | ok v => exact hnext v failure hfailure

theorem Raises.map {result : Except Failure α} (h : Raises result) (f : α → β) :
    Raises (result.map f) := by
  intro failure hfailure
  cases result with
  | error other =>
      obtain rfl : other = failure := Except.error.inj hfailure
      exact h other rfl
  | ok v => cases hfailure

theorem raises_key (text : List Mark) : Raises (key text) := by
  unfold key
  split
  · exact raises_ok _
  · exact raises_decodeError

theorem raises_readNumber (maxStrDigits : ℕ) (number : Number) :
    Raises (Value.readNumber maxStrDigits number) := by
  unfold Value.readNumber
  split
  · split
    · intro failure h
      cases h
      exact .inl ⟨_, rfl⟩
    · exact raises_ok _
  · exact raises_ok _

theorem raises_words (maxStrDigits : ℕ) :
    ∀ name ∈ Json.words, Raises (Value.ofTree maxStrDigits name.2) := by
  intro name hname
  simp only [Json.words, List.mem_cons, List.not_mem_nil, or_false] at hname
  rcases hname with rfl | rfl | rfl | rfl | rfl | rfl <;> exact raises_ok _

theorem raises_leaf (maxStrDigits : ℕ) (text : List Mark) : Raises (leaf maxStrDigits text) := by
  unfold leaf
  split
  · rename_i tree rest hleaf
    apply Raises.map
    unfold Json.leaf at hleaf
    split at hleaf
    · rename_i result hword
      cases hleaf
      obtain ⟨name, hname, rfl⟩ := Json.mem_of_word hword
      exact raises_words maxStrDigits name hname
    · obtain ⟨⟨number, rest'⟩, -, hpair⟩ := Option.map_eq_some_iff.mp hleaf
      obtain ⟨rfl, -⟩ := Prod.mk.inj hpair
      exact raises_readNumber maxStrDigits number
  · exact raises_decodeError

theorem raises_scan (maxStrDigits fuel : ℕ) :
    (∀ d text, Raises (value maxStrDigits fuel d text)) ∧
      (∀ d text, Raises (items maxStrDigits fuel d text)) ∧
      (∀ d text, Raises (members maxStrDigits fuel d text)) := by
  induction fuel with
  | zero => exact ⟨fun _ _ => raises_decodeError, fun _ _ => raises_decodeError,
      fun _ _ => raises_decodeError⟩
  | succ fuel ih =>
      obtain ⟨hvalue, hitems, hmembers⟩ := ih
      refine ⟨?_, ?_, ?_⟩
      · intro d text
        rw [value]
        split
        · exact (raises_key _).map _
        · split
          · exact raises_tooDeep
          · split
            · exact raises_ok _
            · exact (hitems _ _).map _
        · split
          · exact raises_tooDeep
          · split
            · exact raises_ok _
            · exact (hmembers _ _).map _
        · exact raises_leaf _ _
      · intro d text
        rw [items]
        apply (hvalue d text).bind
        rintro ⟨item, rest⟩
        simp only
        split
        · exact (hitems _ _).map _
        · exact raises_ok _
        · exact raises_decodeError
      · intro d text
        rw [members]
        split
        · apply (raises_key _).bind
          rintro ⟨name, rest⟩
          simp only
          split
          · apply (hvalue _ _).bind
            rintro ⟨member, rest⟩
            simp only
            split
            · exact (hmembers _ _).map _
            · exact raises_ok _
            · exact raises_decodeError
          · exact raises_decodeError
        · exact raises_decodeError

theorem raises_loads (maxStrDigits d : ℕ) (text : List CodePoint) :
    Raises (loads maxStrDigits d text) := by
  apply ((raises_scan maxStrDigits _).1 _ _).bind
  rintro ⟨result, rest⟩
  simp only
  split
  · exact raises_ok _
  · exact raises_decodeError

theorem raises_loadsBytes (maxStrDigits d : ℕ) (raw : List UInt8) :
    Raises (loadsBytes maxStrDigits d raw) := by
  unfold loadsBytes
  split
  · exact raises_loads _ _ _
  · intro failure h
    cases h
    exact .inl ⟨_, rfl⟩

end Raises

end TrustlistCore.EventBus.Scanner
