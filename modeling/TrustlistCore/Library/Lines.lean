import Mathlib.Data.List.Basic

namespace TrustlistCore.Library.Lines

-- A stream of lines, each with its end.
def stream (texts : List (List Char)) : List Char :=
  texts.flatMap fun text => text ++ ['\n']

-- The complete lines of a stream, and what stands after the last of them.
def split : List Char → List (List Char) × List Char
  | [] => ([], [])
  | c :: rest =>
      if c = '\n' then ([] :: (split rest).1, (split rest).2)
      else
        match split rest with
        | ([], tail) => ([], c :: tail)
        | (first :: later, tail) => ((c :: first) :: later, tail)

theorem stream_append (texts others : List (List Char)) :
    stream (texts ++ others) = stream texts ++ stream others :=
  List.flatMap_append

theorem split_line {text rest : List Char} (h : '\n' ∉ text) :
    split (text ++ '\n' :: rest) = (text :: (split rest).1, (split rest).2) := by
  induction text with
  | nil => rw [List.nil_append, split, if_pos rfl]
  | cons c text ih =>
      obtain ⟨hhead, hrest⟩ := not_or.mp (List.mem_cons.not.mp h)
      rw [List.cons_append, split, if_neg (Ne.symm hhead), ih hrest]

-- A line without a line feed of its own comes back as it was written.
theorem split_stream {texts : List (List Char)} (h : ∀ text ∈ texts, '\n' ∉ text) :
    split (stream texts) = (texts, []) := by
  induction texts with
  | nil => rfl
  | cons text texts ih =>
      have hfirst := h text List.mem_cons_self
      have hrest := ih fun later hlater => h later (List.mem_cons_of_mem _ hlater)
      have hstream : stream (text :: texts) = text ++ '\n' :: stream texts := by
        simp [stream]
      rw [hstream, split_line hfirst, hrest]

end TrustlistCore.Library.Lines
