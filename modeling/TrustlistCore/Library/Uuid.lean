import Mathlib.Data.List.DropRight
import TrustlistCore.Library.Fixed
import TrustlistCore.Library.Json.Theorems

namespace TrustlistCore.Library

instance neZeroUuid : NeZero (2 ^ 128 : ℕ) :=
  ⟨by decide⟩

structure Uuid where
  int : Fin (2 ^ 128)
  deriving DecidableEq, Repr

namespace Uuid

-- The text cut into groups of the given sizes, with a hyphen after each.
def grouped : List ℕ → List Char → List Char
  | [], text => text
  | size :: sizes, text => text.take size ++ '-' :: grouped sizes (text.drop size)

-- The canonical text: the 32 hexadecimal digits in five groups.
def text (uuid : Uuid) : List Char :=
  grouped [8, 4, 4, 4] (Fixed.write 16 32 uuid.int.val)

-- The text without any occurrence of a word; the first argument counts the characters of
-- an occurrence still to be left out.
def remove (word : List Char) : ℕ → List Char → List Char
  | _, [] => []
  | left + 1, _ :: text => remove word left text
  | 0, c :: text =>
      if word.isPrefixOf (c :: text) then remove word (word.length - 1) text
      else c :: remove word 0 text

def isBrace (c : Char) : Bool :=
  c = '\x7b' || c = '\x7d'

def strip (text : List Char) : List Char :=
  (text.dropWhile isBrace).rdropWhile isBrace

-- Curly braces, hyphens and a URN prefix are all optional.
def hexDigits (text : List Char) : List Char :=
  (strip (remove ['u', 'u', 'i', 'd', ':'] 0 (remove ['u', 'r', 'n', ':'] 0 text))).filter (· ≠ '-')

def ofNat (n : ℕ) : Option Uuid :=
  if h : n < 2 ^ 128 then some ⟨n, h⟩ else none

-- The documented form: of the digits that are left, each is a hexadecimal digit.
def read (text : List Char) : Option Uuid :=
  if (hexDigits text).length = 32 then
    (Fixed.read Json.hexValue 16 (hexDigits text)).bind ofNat
  else none

theorem remove_of_not_mem {c : Char} {word text : List Char} (h : c ∉ text) :
    remove (c :: word) 0 text = text := by
  induction text with
  | nil => rfl
  | cons d text ih =>
      obtain ⟨hne, hrest⟩ := not_or.mp (List.mem_cons.not.mp h)
      have hprefix : (c :: word).isPrefixOf (d :: text) = false := by
        simp [List.isPrefixOf, hne]
      rw [remove, hprefix, if_neg Bool.false_ne_true, ih hrest]

theorem strip_of_forall {text : List Char} (h : ∀ c ∈ text, isBrace c = false) :
    strip text = text := by
  have hfront : text.dropWhile isBrace = text := by
    cases text with
    | nil => rfl
    | cons c text => rw [List.dropWhile_cons_of_neg (by simp [h c List.mem_cons_self])]
  unfold strip
  rw [hfront, List.rdropWhile_eq_self_iff]
  intro hne
  simp [h _ (List.getLast_mem hne)]

theorem mem_grouped {sizes : List ℕ} {text : List Char} {c : Char} (h : c ∈ grouped sizes text) :
    c = '-' ∨ c ∈ text := by
  induction sizes generalizing text with
  | nil => exact Or.inr h
  | cons size sizes ih =>
      rcases List.mem_append.mp h with h | h
      · exact Or.inr (List.mem_of_mem_take h)
      rcases List.mem_cons.mp h with h | h
      · exact Or.inl h
      · exact (ih h).imp_right List.mem_of_mem_drop

-- Taking the hyphens out puts the groups together again.
theorem filter_grouped {sizes : List ℕ} {text : List Char} (h : ∀ c ∈ text, c ≠ '-') :
    (grouped sizes text).filter (· ≠ '-') = text := by
  induction sizes generalizing text with
  | nil => exact List.filter_eq_self.mpr fun c hc => decide_eq_true (h c hc)
  | cons size sizes ih =>
      have hgroup : (text.take size).filter (· ≠ '-') = text.take size :=
        List.filter_eq_self.mpr fun c hc => decide_eq_true (h c (List.mem_of_mem_take hc))
      have hrest := ih fun c hc => h c (List.mem_of_mem_drop (i := size) hc)
      rw [grouped, List.filter_append, hgroup, List.filter_cons_of_neg (by decide), hrest,
        List.take_append_drop]

theorem digit_of_mem {uuid : Uuid} {c : Char} (h : c ∈ Fixed.write 16 32 uuid.int.val) :
    c ≠ 'u' ∧ c ≠ '-' ∧ isBrace c = false := by
  obtain ⟨digit, hdigit, rfl⟩ := Fixed.mem_write (by decide) h
  interval_cases digit <;> decide

theorem ne_of_mem_text {uuid : Uuid} {c : Char} (h : c ∈ text uuid) :
    c ≠ 'u' ∧ isBrace c = false := by
  rcases mem_grouped h with rfl | h
  · decide
  · exact ⟨(digit_of_mem h).1, (digit_of_mem h).2.2⟩

theorem read_text (uuid : Uuid) : read (text uuid) = some uuid := by
  have hurn : 'u' ∉ text uuid := fun h => (ne_of_mem_text h).1 rfl
  have hhex : hexDigits (text uuid) = Fixed.write 16 32 uuid.int.val := by
    unfold hexDigits
    rw [remove_of_not_mem hurn, remove_of_not_mem hurn,
      strip_of_forall fun c hc => (ne_of_mem_text hc).2]
    exact filter_grouped fun c hc => (digit_of_mem hc).2.1
  have hvalue : Fixed.read Json.hexValue 16 (Fixed.write 16 32 uuid.int.val) =
      some uuid.int.val :=
    Fixed.read_write (fun digit h => Json.hexValue_hexDigit h) (by
      have h := uuid.int.isLt
      have hpow : (16 : ℕ) ^ 32 = 2 ^ 128 := by norm_num
      omega)
  unfold read
  rw [hhex, if_pos (Fixed.length_write 16 32 _), hvalue]
  unfold ofNat
  rw [Option.bind_some, dif_pos uuid.int.isLt]

end Uuid

end TrustlistCore.Library
