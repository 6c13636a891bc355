-- SUMMARY: Paragraphs of a text: splitting at two newlines in a row leaves the stretches of lines between the empty ones, up to trimming.
import CitraFlows.Lib.Trimming

/-!
# Paragraphs

The paragraphs of a text are the stretches of lines between its empty lines, trimmed. A split
at every two newlines in a row leaves other pieces, with newlines at their ends, but the same
paragraphs.
-/

namespace CitraFlows.Paragraphs

open Trimming

/-- `text.split("\n\n")` -/
def splitBlankLines : List Char → List (List Char)
  | '\n' :: '\n' :: cs => [] :: splitBlankLines cs
  | c :: cs => (splitBlankLines cs).modifyHead (c :: ·)
  | [] => [[]]

def lines (text : List Char) : List (List Char) := text.splitOn '\n'

def unlines (ls : List (List Char)) : List Char := ['\n'].intercalate ls

/-- The stretches of lines between empty ones -/
def stretches (ls : List (List Char)) : List (List Char) :=
  (ls.splitOnP List.isEmpty).map unlines

variable (blank : Char → Bool)

/-- The pieces that are left of a text, trimmed -/
def clean (pieces : List (List Char)) : List (List Char) :=
  (pieces.map (trim blank)).filter (· ≠ [])

def paragraphs (text : List Char) : List (List Char) := clean blank (stretches (lines text))

/-! ## Lines -/

section

variable {c : Char} {cs : List Char}

/-- The stretches of lines when the first line goes on with one that is not empty -/
def continued : List (List Char) → List (List Char)
  | [] => [[]]
  | l :: ls => ((ls.splitOnP List.isEmpty).modifyHead (l :: ·)).map unlines

theorem lines_ne_nil (cs : List Char) : lines cs ≠ [] := List.splitOn_ne_nil _ _

theorem lines_nil : lines [] = [[]] := List.splitOn_nil _

theorem lines_newline : lines ('\n' :: cs) = [] :: lines cs := by
  simp [lines, List.splitOn_cons_eq_if_modifyHead]

theorem lines_other (hc : c ≠ '\n') : lines (c :: cs) = (lines cs).modifyHead (c :: ·) := by
  simp [lines, List.splitOn_cons_eq_if_modifyHead, hc]

theorem unlines_cons (l : List Char) (ls : List (List Char)) :
    unlines ((c :: l) :: ls) = c :: unlines (l :: ls) := by
  cases ls with
  | nil => simp [unlines]
  | cons second ls => simp [unlines]

theorem stretches_newline : stretches (lines ('\n' :: cs)) = [] :: stretches (lines cs) := by
  simp [stretches, lines_newline, List.splitOnP_cons_eq_if_modifyHead, unlines]

theorem stretches_other (hc : c ≠ '\n') :
    stretches (lines (c :: cs)) = (continued (lines cs)).modifyHead (c :: ·) := by
  obtain ⟨l, ls, hlines⟩ := List.exists_cons_of_ne_nil (lines_ne_nil cs)
  obtain ⟨g, gs, hgroups⟩ := List.exists_cons_of_ne_nil (List.splitOnP_ne_nil List.isEmpty ls)
  simp [stretches, continued, lines_other hc, hlines, List.splitOnP_cons_eq_if_modifyHead, hgroups, unlines_cons]

theorem continued_nil : continued (lines []) = [[]] := by
  simp [continued, lines, unlines]

theorem continued_other (hc : c ≠ '\n') :
    continued (lines (c :: cs)) = (continued (lines cs)).modifyHead (c :: ·) := by
  obtain ⟨l, ls, hlines⟩ := List.exists_cons_of_ne_nil (lines_ne_nil cs)
  obtain ⟨g, gs, hgroups⟩ := List.exists_cons_of_ne_nil (List.splitOnP_ne_nil List.isEmpty ls)
  simp [continued, lines_other hc, hlines, hgroups, unlines_cons]

theorem continued_blank :
    continued (lines ('\n' :: '\n' :: cs)) = [] :: stretches (lines cs) := by
  simp [continued, lines_newline, List.splitOnP_cons_eq_if_modifyHead, unlines, stretches]

theorem continued_newline (hc : c ≠ '\n') :
    continued (lines ('\n' :: c :: cs)) =
      (continued (lines (c :: cs))).modifyHead ('\n' :: ·) := by
  obtain ⟨l, ls, hlines⟩ := List.exists_cons_of_ne_nil (lines_ne_nil cs)
  obtain ⟨g, gs, hgroups⟩ := List.exists_cons_of_ne_nil (List.splitOnP_ne_nil List.isEmpty ls)
  have hunlines : unlines ([] :: (c :: l) :: g) = '\n' :: unlines ((c :: l) :: g) := by
    simp [unlines]
  simp [continued, lines_newline, lines_other hc, hlines, hgroups,
    List.splitOnP_cons_eq_if_modifyHead, hunlines]

end

/-! ## The split -/

/-- Pieces and stretches that differ in a newline at the end of the first one -/
inductive Near (blank : Char → Bool) : List (List Char) → List (List Char) → Prop where
  | same {ps ks : List (List Char)} (piece : List Char) (rest : clean blank ps = clean blank ks) :
      Near blank (piece :: ps) (piece :: ks)
  | newline {ps ks : List (List Char)} (piece : List Char)
      (rest : clean blank ps = clean blank ks) : Near blank ((piece ++ ['\n']) :: ps) (piece :: ks)

section

variable {blank : Char → Bool} {ps ks : List (List Char)}

theorem clean_cons (piece : List Char) :
    clean blank (piece :: ps) =
      if trim blank piece = [] then clean blank ps else trim blank piece :: clean blank ps := by
  unfold clean
  split_ifs with h <;> simp [h]

theorem clean_nil_cons : clean blank ([] :: ps) = clean blank ps := by
  rw [clean_cons, if_pos (trim_eq_nil (by simp))]

theorem Near.cons (h : Near blank ps ks) (c : Char) :
    Near blank (ps.modifyHead (c :: ·)) (ks.modifyHead (c :: ·)) := by
  cases h with
  | same piece rest => exact same (c :: piece) rest
  | newline piece rest => exact newline (c :: piece) rest

theorem Near.clean_eq (hblank : blank '\n' = true) (h : Near blank ps ks) :
    clean blank ps = clean blank ks := by
  cases h with
  | same piece rest => rw [clean_cons, clean_cons, rest]
  | newline piece rest =>
    rw [clean_cons, clean_cons, trim_append_blank (by simpa using hblank), rest]

/-- A newline at the start is trimmed off. -/
theorem clean_newline (hblank : blank '\n' = true) :
    clean blank (ps.modifyHead ('\n' :: ·)) = clean blank ps := by
  cases ps with
  | nil => rfl
  | cons piece ps =>
    have htrim : trim blank (['\n'] ++ piece) = trim blank piece :=
      trim_blank_append (by simpa using hblank)
    rw [List.singleton_append] at htrim
    rw [List.modifyHead_cons, clean_cons, clean_cons, htrim]

/-- Both ways of splitting go on alike after a line that is not empty, and leave the same
paragraphs. -/
theorem near_splitBlankLines (hblank : blank '\n' = true) (text : List Char) :
    Near blank (splitBlankLines text) (continued (lines text)) ∧
      clean blank (splitBlankLines text) = paragraphs blank text := by
  induction text using splitBlankLines.induct with
  | case1 cs ih =>
    rw [splitBlankLines, continued_blank, paragraphs, stretches_newline, stretches_newline,
      clean_nil_cons, clean_nil_cons, clean_nil_cons]
    exact ⟨Near.same [] ih.2, ih.2⟩
  | case2 c cs hnotblank ih =>
    have hsplit : splitBlankLines (c :: cs) = (splitBlankLines cs).modifyHead (c :: ·) := by
      rw [splitBlankLines]
      exact hnotblank
    by_cases hc : c = '\n'
    · subst hc
      rw [hsplit, paragraphs, stretches_newline, clean_nil_cons, clean_newline hblank]
      refine ⟨?_, ih.2⟩
      cases cs with
      | nil => exact Near.newline [] clean_nil_cons.symm
      | cons d cs =>
        have hd : d ≠ '\n' := fun heq => hnotblank cs rfl (by rw [heq])
        rw [continued_newline hd]
        exact ih.1.cons '\n'
    · have hnear := ih.1.cons c
      rw [hsplit, continued_other hc, paragraphs, stretches_other hc]
      exact ⟨hnear, hnear.clean_eq hblank⟩
  | case3 =>
    have hstretches : stretches (lines []) = [[], []] := by
      simp [stretches, lines_nil, List.splitOnP_cons_eq_if_modifyHead, unlines]
    rw [splitBlankLines, continued_nil, paragraphs, hstretches, clean_nil_cons]
    exact ⟨Near.same [] rfl, rfl⟩

/-- Splitting at two newlines in a row finds the paragraphs. -/
theorem clean_splitBlankLines (hblank : blank '\n' = true) (text : List Char) :
    clean blank (splitBlankLines text) = paragraphs blank text :=
  (near_splitBlankLines hblank text).2

end

end CitraFlows.Paragraphs
