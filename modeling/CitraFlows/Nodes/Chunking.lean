-- SUMMARY: Cutting texts into chunks: for every text and all sizes the chunks are bounded, in order, and lose no paragraph.
import CitraFlows.Lib.Paragraphs
import CitraFlows.Lib.Scanning
import CitraFlows.Lib.Windows
import CitraFlows.Python
import Mathlib.Algebra.BigOperators.Group.List.Basic
import Mathlib.Algebra.Ring.Nat
import Mathlib.Order.Lattice

/-!
# Chunks of a text

`chunk_text` packs the paragraphs of a text into chunks for embedding, and cuts a paragraph
that fits into no chunk into windows. A `Piece` is a group of paragraphs with the chunks it
has become, and carries the proof that nothing of it is lost.
-/

namespace CitraFlows.Chunking

open Python
open Paragraphs Trimming
open Windows (Frame windowsFrom recover)

/-- `MAX_CHUNK_CHARS` -/
def maxChunkChars : ℕ := 65000

structure Sizes extends Frame where
  size_le : size ≤ maxChunkChars

/-- The sizes that `chunk_text` works with, whatever it is given -/
def effective (chunkSize overlap : ℤ) : Sizes :=
  let chunkSize := max 50 (min chunkSize maxChunkChars)
  let overlap := max 0 (min overlap (chunkSize - 1))
  { size := chunkSize.toNat
    overlap := overlap.toNat
    overlap_lt := by omega
    size_le := by
      have : (maxChunkChars : ℤ) = 65000 := rfl
      omega }

/-- `text.replace("\r\n", "\n")` -/
def unixNewlines (text : List Char) : List Char :=
  Scanning.replaceAll "\r\n".toList "\n".toList text

/-- `_split_paragraphs` -/
def splitParagraphs (text : List Char) : List (List Char) :=
  ((splitBlankLines (unixNewlines text)).map strip).filter (· ≠ [])

/-- The variables of the loop of `chunk_text` -/
structure Packing where
  chunks : List (List Char) := []
  buf : List (List Char) := []
  bufLen : ℕ := 0

def join (paras : List (List Char)) : List Char := "\n\n".toList.intercalate paras

namespace Packing

def flush (s : Packing) : Packing :=
  if s.buf = [] then s else { chunks := s.chunks ++ [strip (join s.buf)] }

/-- The body of the loop -/
def add (z : Sizes) (s : Packing) (para : List Char) : Packing :=
  if z.size < para.length then
    let s := s.flush
    { s with chunks := s.chunks ++ windowsFrom z.toFrame para 0 }
  else
    let s := if z.size < s.bufLen + para.length + 2 then s.flush else s
    { s with buf := s.buf ++ [para], bufLen := s.bufLen + para.length + 2 }

end Packing

/-- `chunk_text` -/
def chunkText (text : List Char) (chunkSize overlap : ℤ) : List (List Char) :=
  if text = [] then []
  else
    let z := effective chunkSize overlap
    let s := ((splitParagraphs text).foldl (Packing.add z) {}).flush
    (s.chunks.filter (· ≠ [])).map (·.take maxChunkChars)

/-! ## Joined paragraphs -/

section

variable {group : List (List Char)} {para : List Char}

theorem join_cons_cons (first second : List Char) (group : List (List Char)) :
    join (first :: second :: group) = first ++ "\n\n".toList ++ join (second :: group) :=
  List.intercalate_cons_cons

theorem infix_join (h : para ∈ group) : para <:+: join group := by
  induction group with
  | nil => cases h
  | cons first rest ih =>
    cases rest with
    | nil =>
      rw [List.mem_singleton.mp h, join, List.intercalate_singleton]
    | cons second rest =>
      rw [join_cons_cons]
      cases List.mem_cons.mp h with
      | inl hfirst =>
        rw [hfirst, List.append_assoc]
        exact (List.prefix_append _ _).isInfix
      | inr hrest => exact (ih hrest).trans (List.suffix_append _ _).isInfix

/-- The length that the loop counts is that of the joined text and of one more break. -/
theorem length_join (h : group ≠ []) :
    (join group).length + 2 = (group.map fun para => para.length + 2).sum := by
  induction group with
  | nil => exact absurd rfl h
  | cons first rest ih =>
    cases rest with
    | nil => simp [join]
    | cons second rest =>
      have hrest := ih (List.cons_ne_nil _ _)
      have hbreak : "\n\n".toList.length = 2 := rfl
      rw [join_cons_cons, List.map_cons, List.sum_cons, ← hrest, List.length_append,
        List.length_append, hbreak, Nat.add_assoc]

theorem strip_join (h : ∀ para ∈ group, para ≠ [] ∧ Trimmed isspace para) :
    strip (join group) = join group :=
  (Trimmed.intercalate h _).1.trim_eq

theorem join_ne_nil (h : ∀ para ∈ group, para ≠ [] ∧ Trimmed isspace para) (hne : group ≠ []) :
    join group ≠ [] :=
  (Trimmed.intercalate h _).2 hne

end

/-! ## Pieces -/

/-- A stretch of paragraphs with its chunks: either all of them fit and lie whole in the one
chunk, or it is a long one that its windows recover. -/
inductive Piece (f : Frame) where
  | packed (group : List (List Char)) (nonempty : group ≠ [])
      (fits : ∀ para ∈ group, para.length ≤ f.size)
  | cut (para : List Char) (windows : List (List Char)) (long : f.size < para.length)
      (recovers : recover f.overlap windows = para)

namespace Piece

variable {f : Frame}

def paragraphs : Piece f → List (List Char)
  | packed group _ _ => group
  | cut para _ _ _ => [para]

def chunks : Piece f → List (List Char)
  | packed group _ _ => [join group]
  | cut _ windows _ _ => windows

/-- A paragraph that fits lies whole in the chunk of its piece, which is the only one. -/
theorem whole (piece : Piece f) {para : List Char} (h : para ∈ piece.paragraphs)
    (hfits : para.length ≤ f.size) : ∃ chunk, piece.chunks = [chunk] ∧ para <:+: chunk := by
  cases piece with
  | packed group nonempty fits => exact ⟨join group, rfl, infix_join h⟩
  | cut long windows hlong recovers =>
    rw [paragraphs, List.mem_singleton] at h
    subst h
    exact absurd hlong (Nat.not_lt.mpr hfits)

end Piece

/-- Chunks that are bounded, and lose nothing of the paragraphs -/
structure Lossless (f : Frame) (paras chunks : List (List Char)) : Prop where
  bounded : ∀ chunk ∈ chunks, chunk ≠ [] ∧ chunk.length ≤ f.size
  pieces : ∃ pieces : List (Piece f),
    pieces.flatMap Piece.paragraphs = paras ∧ pieces.flatMap Piece.chunks = chunks

namespace Lossless

variable {f : Frame} {paras chunks : List (List Char)}

theorem nil : Lossless f [] [] where
  bounded chunk h := by cases h
  pieces := ⟨[], rfl, rfl⟩

theorem concat (h : Lossless f paras chunks) (piece : Piece f)
    (hbounded : ∀ chunk ∈ piece.chunks, chunk ≠ [] ∧ chunk.length ≤ f.size) :
    Lossless f (paras ++ piece.paragraphs) (chunks ++ piece.chunks) where
  bounded chunk hchunk := (List.mem_append.mp hchunk).elim (h.bounded chunk) (hbounded chunk)
  pieces := by
    obtain ⟨pieces, hparas, hchunks⟩ := h.pieces
    exact ⟨pieces ++ [piece], by simp [hparas], by simp [hchunks]⟩

end Lossless

/-! ## The loop -/

section

variable {z : Sizes} {s : Packing} {paras : List (List Char)} {para : List Char}

/-- The paragraphs so far are those of the pieces made of them and of the buffer, and the
buffer fits into a chunk. -/
structure Packs (z : Sizes) (paras : List (List Char)) (s : Packing) : Prop where
  lossless : ∃ before, paras = before ++ s.buf ∧ Lossless z.toFrame before s.chunks
  trimmed : ∀ para ∈ s.buf, para ≠ [] ∧ Trimmed isspace para
  fits : ∀ para ∈ s.buf, para.length ≤ z.size
  bufLen_eq : s.bufLen = (s.buf.map fun para => para.length + 2).sum
  room : s.bufLen ≤ z.size + 2

theorem flush_of_nil (h : s.buf = []) : s.flush = s := if_pos h

theorem flush_of_ne_nil (h : s.buf ≠ []) :
    s.flush = { chunks := s.chunks ++ [strip (join s.buf)] } := if_neg h

theorem flush_buf : s.flush.buf = [] := by
  by_cases h : s.buf = []
  · rwa [flush_of_nil h]
  · rw [flush_of_ne_nil h]

namespace Packs

theorem start : Packs z [] {} where
  lossless := ⟨[], rfl, Lossless.nil⟩
  trimmed para h := by cases h
  fits para h := by cases h
  bufLen_eq := rfl
  room := Nat.zero_le _

theorem flush_lossless (h : Packs z paras s) : Lossless z.toFrame paras s.flush.chunks := by
  obtain ⟨before, rfl, hbefore⟩ := h.lossless
  by_cases hbuf : s.buf = []
  · rw [flush_of_nil hbuf, hbuf, List.append_nil]
    exact hbefore
  · rw [flush_of_ne_nil hbuf, strip_join h.trimmed]
    refine hbefore.concat (.packed s.buf hbuf h.fits) fun chunk hchunk => ?_
    rw [Piece.chunks, List.mem_singleton] at hchunk
    have hlength := length_join hbuf
    have hroom := h.room
    rw [h.bufLen_eq, ← hlength] at hroom
    rw [hchunk]
    exact ⟨join_ne_nil h.trimmed hbuf, Nat.le_of_add_le_add_right hroom⟩

theorem flush_bufLen (h : Packs z paras s) : s.flush.bufLen = 0 := by
  by_cases hbuf : s.buf = []
  · rw [flush_of_nil hbuf, h.bufLen_eq, hbuf]
    rfl
  · rw [flush_of_ne_nil hbuf]

/-- With an empty buffer, the chunks are all there is to the paragraphs. -/
theorem of_empty (h : Lossless z.toFrame paras s.chunks) (hbuf : s.buf = [])
    (hlen : s.bufLen = 0) : Packs z paras s where
  lossless := ⟨paras, by rw [hbuf, List.append_nil], h⟩
  trimmed para hpara := by simp [hbuf] at hpara
  fits para hpara := by simp [hbuf] at hpara
  bufLen_eq := by simp [hbuf, hlen]
  room := by simp [hlen]

theorem flush (h : Packs z paras s) : Packs z paras s.flush :=
  of_empty h.flush_lossless flush_buf h.flush_bufLen

theorem push (h : Packs z paras s) (hpara : para ≠ [] ∧ Trimmed isspace para)
    (hroom : s.bufLen + para.length ≤ z.size) :
    Packs z (paras ++ [para])
      { s with buf := s.buf ++ [para], bufLen := s.bufLen + para.length + 2 } where
  lossless := by
    obtain ⟨before, rfl, hbefore⟩ := h.lossless
    exact ⟨before, by simp, hbefore⟩
  trimmed p hp := by
    cases List.mem_append.mp hp with
    | inl old => exact h.trimmed p old
    | inr new => rwa [List.mem_singleton.mp new]
  fits p hp := by
    cases List.mem_append.mp hp with
    | inl old => exact h.fits p old
    | inr new =>
      rw [List.mem_singleton.mp new]
      exact le_trans (Nat.le_add_left _ _) hroom
  bufLen_eq := by simp [h.bufLen_eq, Nat.add_assoc]
  room := Nat.add_le_add_right hroom 2

/-- A paragraph that fits goes to the buffer, after a flush if there is no room for it. -/
theorem add_short (h : Packs z paras s) (hpara : para ≠ [] ∧ Trimmed isspace para)
    (hshort : ¬z.size < para.length) : Packs z (paras ++ [para]) (s.add z para) := by
  rw [Packing.add, if_neg hshort]
  dsimp only
  split_ifs with hfull
  · refine h.flush.push hpara ?_
    rw [h.flush_bufLen, Nat.zero_add]
    exact Nat.not_lt.mp hshort
  · refine h.push hpara ?_
    omega

/-- A long paragraph is cut into windows, after what was in the buffer. -/
theorem add_long (h : Packs z paras s) (hlong : z.size < para.length) :
    Packs z (paras ++ [para]) (s.add z para) := by
  rw [Packing.add, if_pos hlong]
  refine of_empty ?_ flush_buf h.flush_bufLen
  exact h.flush_lossless.concat (.cut para _ hlong Windows.recover_windowsFrom)
    fun window hwindow => Windows.windowsFrom_bounded hwindow

end Packs

theorem foldl_packs (h : ∀ para ∈ paras, para ≠ [] ∧ Trimmed isspace para) :
    Packs z paras (paras.foldl (Packing.add z) {}) := by
  induction paras using List.reverseRecOn with
  | nil => exact Packs.start
  | append_singleton paras para ih =>
    have before := ih fun p hp => h p (List.mem_append_left _ hp)
    rw [List.foldl_append, List.foldl_cons, List.foldl_nil]
    by_cases hlong : z.size < para.length
    · exact before.add_long hlong
    · exact before.add_short (h para (by simp)) hlong

end

/-! ## The chunks of a text -/

theorem splitParagraphs_eq (text : List Char) :
    splitParagraphs text = paragraphs isspace (unixNewlines text) :=
  clean_splitBlankLines rfl _

theorem splitParagraphs_trimmed {text para : List Char} (h : para ∈ splitParagraphs text) :
    para ≠ [] ∧ Trimmed isspace para := by
  obtain ⟨hmap, hne⟩ := List.mem_filter.mp h
  obtain ⟨piece, -, rfl⟩ := List.mem_map.mp hmap
  exact ⟨by simpa using hne, trimmed_trim⟩

/-- The last pass drops and shortens nothing. -/
theorem Lossless.last_pass {z : Sizes} {paras chunks : List (List Char)}
    (h : Lossless z.toFrame paras chunks) :
    (chunks.filter (· ≠ [])).map (·.take maxChunkChars) = chunks := by
  have hfilter : chunks.filter (· ≠ []) = chunks :=
    List.filter_eq_self.mpr fun chunk hchunk => by simpa using (h.bounded chunk hchunk).1
  rw [hfilter, List.map_congr_left (g := id), List.map_id]
  intro chunk hchunk
  exact List.take_of_length_le ((h.bounded chunk hchunk).2.trans z.size_le)

/-- Whatever the text and the sizes: the chunks of a text are bounded, and its paragraphs lie
in them in their order, whole or as windows that give them back. -/
theorem chunkText_lossless (text : List Char) (chunkSize overlap : ℤ) :
    Lossless (effective chunkSize overlap).toFrame (paragraphs isspace (unixNewlines text))
      (chunkText text chunkSize overlap) := by
  rw [← splitParagraphs_eq, chunkText]
  split_ifs with hempty
  · subst hempty
    exact Lossless.nil
  · have hpacks : Packs (effective chunkSize overlap) (splitParagraphs text) _ :=
      foldl_packs fun _ => splitParagraphs_trimmed
    dsimp only
    rw [hpacks.flush_lossless.last_pass]
    exact hpacks.flush_lossless

end CitraFlows.Chunking
