-- SUMMARY: Putting values into a template step by step: what it means that a value is never looked at again, and when it is so.
import CitraFlows.Lib.Scanning

/-!
# Templates

A template is rendered in steps; each looks for its own kind of placeholder in what the steps
before it have made. `run` looks through the whole text, as a chain of `str.replace` and `re.sub`
does. `put` knows which parts of the text are still the template's, and looks through these only,
so that a value stays what it is. `Apart` says that both find the same.
-/

namespace Templates

open Scanning

/-- One step: the placeholders it looks for, and the values of those it knows. -/
structure Step where
  Captured : Type
  pattern : Pattern Captured
  value : Captured → Option (List Char)

/-- A part of a text: of the template, or a value that was put in. -/
inductive Segment where
  | written (text : List Char)
  | value (text : List Char)

def Segment.text : Segment → List Char
  | .written text => text
  | .value text => text

/-- The text that the parts make. -/
def flat (segs : List Segment) : List Char := segs.flatMap Segment.text

/-- A placeholder without a value is left as it is. -/
def Step.replace (s : Step) (a : s.Captured) (placeholder : List Char) : List Char :=
  (s.value a).getD placeholder

/-- The step on a text. -/
def Step.run (s : Step) (text : List Char) : List Char := sub s.pattern s.replace text

/-- What belongs to the template goes before the parts that follow. -/
def write (text : List Char) : List Segment → List Segment
  | .written text' :: segs => .written (text ++ text') :: segs
  | segs => .written text :: segs

/-- The parts that the pieces of a written part become. -/
def Step.cut (s : Step) : List (Piece s.Captured) → List Segment
  | [] => []
  | .char c :: ps => write [c] (s.cut ps)
  | .found a placeholder :: ps =>
      match s.value a with
      | some value => .value value :: s.cut ps
      | none => write placeholder (s.cut ps)

/-- The step on the parts that are still the template's. -/
def Step.put (s : Step) (segs : List Segment) : List Segment :=
  segs.flatMap fun seg =>
    match seg with
    | .written text => s.cut (scan s.pattern text)
    | .value text => [.value text]

/-- All steps on the text, and on the template's parts of it. -/
def runAll (steps : List Step) (text : List Char) : List Char :=
  steps.foldl (fun text s => s.run text) text

def putAll (steps : List Step) (segs : List Segment) : List Segment :=
  steps.foldl (fun segs s => s.put segs) segs

section

variable {α : Type} (m : Pattern α)

/-- What is found in the template's parts, one after the other. -/
def spared (segs : List Segment) : List (Piece α) :=
  segs.flatMap fun seg =>
    match seg with
    | .written text => scan m text
    | .value text => text.map .char

/-- Nothing is found in a value, or where one begins or ends. -/
def Apart (segs : List Segment) : Prop := scan m (flat segs) = spared m segs

end

/-- Each step finds nothing in what the steps before it have put in. -/
def AllApart : List Step → List Segment → Prop
  | [], _ => True
  | s :: steps, segs => Apart s.pattern segs ∧ AllApart steps (s.put segs)

/-! ## Text and parts -/

variable {α : Type} {m : Pattern α} {s : Step} {steps : List Step} {segs : List Segment}

@[simp] theorem flat_nil : flat [] = [] := rfl

@[simp] theorem flat_cons (seg : Segment) (segs : List Segment) :
    flat (seg :: segs) = seg.text ++ flat segs := List.flatMap_cons

@[simp] theorem flat_append (segs segs' : List Segment) :
    flat (segs ++ segs') = flat segs ++ flat segs' := List.flatMap_append

theorem spared_written (text : List Char) (segs : List Segment) :
    spared m (.written text :: segs) = scan m text ++ spared m segs := List.flatMap_cons

theorem spared_value (text : List Char) (segs : List Segment) :
    spared m (.value text :: segs) = text.map .char ++ spared m segs := List.flatMap_cons

@[simp] theorem flat_write (text : List Char) (segs : List Segment) :
    flat (write text segs) = text ++ flat segs := by
  unfold write
  split <;> simp [Segment.text]

theorem flat_cut (ps : List (Piece s.Captured)) :
    flat (s.cut ps) = ps.flatMap (Piece.replace s.replace) := by
  induction ps with
  | nil => rfl
  | cons p ps ih =>
      cases p with
      | char c => rw [Step.cut, flat_write, ih, List.flatMap_cons, Piece.replace]
      | found a tok =>
          rw [Step.cut, List.flatMap_cons, Piece.replace, Step.replace, ← ih]
          cases s.value a <;> simp [Segment.text]

theorem flat_put (segs : List Segment) :
    flat (s.put segs) = (spared s.pattern segs).flatMap (Piece.replace s.replace) := by
  induction segs with
  | nil => rfl
  | cons seg segs ih =>
      cases seg with
      | written text =>
          have hput : s.put (.written text :: segs) = s.cut (scan s.pattern text) ++ s.put segs :=
            List.flatMap_cons
          rw [hput, spared_written, flat_append, flat_cut, ih, List.flatMap_append]
      | value text =>
          have hput : s.put (.value text :: segs) = .value text :: s.put segs :=
            List.flatMap_cons
          rw [hput, spared_value, flat_cons, ih, List.flatMap_append, flatMap_replace_chars]
          rfl

/-- A step that finds nothing in a value leaves the values as they are. -/
theorem Apart.run_eq (h : Apart s.pattern segs) : s.run (flat segs) = flat (s.put segs) := by
  rw [Step.run, sub, h, flat_put]

theorem AllApart.runAll_eq (h : AllApart steps segs) :
    runAll steps (flat segs) = flat (putAll steps segs) := by
  induction steps generalizing segs with
  | nil => rfl
  | cons s steps ih =>
      have hstep : runAll (s :: steps) (flat segs) = runAll steps (s.run (flat segs)) := rfl
      rw [hstep, h.1.run_eq]
      exact ih h.2

/-- The first step meets no value. -/
theorem apart_written (text : List Char) : Apart m [.written text] := by
  simp [Apart, spared, Segment.text]

/-! ## What a step shows of its text -/

/-- What a pattern matches it matches whatever follows. -/
def Local (m : Pattern α) : Prop :=
  ∀ cs a rest more, m cs = some (a, rest) → m (cs ++ more) = some (a, rest ++ more)

/-- The text that pieces make. -/
def source (ps : List (Piece α)) : List Char := ps.flatMap (Piece.replace fun _ tok => tok)

/-- Each match among the pieces is one of the pattern, where it stands. -/
def Reads (m : Pattern α) : List (Piece α) → Prop
  | [] => True
  | .char _ :: ps => Reads m ps
  | .found a tok :: ps => tok ≠ [] ∧ m (tok ++ source ps) = some (a, source ps) ∧ Reads m ps

theorem source_append (ps qs : List (Piece α)) : source (ps ++ qs) = source ps ++ source qs :=
  List.flatMap_append

theorem source_spared (hm : m.Lawful) (segs : List Segment) :
    source (spared m segs) = flat segs := by
  induction segs with
  | nil => rfl
  | cons seg segs ih =>
      cases seg with
      | written text =>
          rw [spared_written, source_append, ih, flat_cons]
          exact congrArg (· ++ flat segs) (sub_id hm text)
      | value text =>
          rw [spared_value, source_append, ih, flat_cons]
          exact congrArg (· ++ flat segs) (flatMap_replace_chars _ text)

theorem Reads.append (hlocal : Local m) {ps qs : List (Piece α)} (hps : Reads m ps)
    (hqs : Reads m qs) : Reads m (ps ++ qs) := by
  induction ps with
  | nil => exact hqs
  | cons p ps ih =>
      cases p with
      | char c => exact ih hps
      | found a tok =>
          obtain ⟨hne, hmatch, hps⟩ := hps
          refine ⟨hne, ?_, ih hps⟩
          have hsource : source (ps.append qs) = source ps ++ source qs := source_append ps qs
          rw [hsource, ← List.append_assoc]
          exact hlocal _ _ _ _ hmatch

theorem reads_chars (text : List Char) : Reads m (text.map .char) := by
  induction text with
  | nil => trivial
  | cons c text ih => exact ih

theorem reads_scan (hm : m.Lawful) (text : List Char) : Reads m (scan m text) := by
  induction text using scan_induction hm with
  | nil => trivial
  | char c cs hnone ih =>
      rw [scan_of_none hnone]
      exact ih
  | found c tok rest a hsome ih =>
      rw [scan_of_some hm hsome]
      have hrest : source (scan m rest) = rest := sub_id hm rest
      refine ⟨List.cons_ne_nil _ _, ?_, ih⟩
      rw [hrest]
      exact hsome

theorem reads_spared (hm : m.Lawful) (hlocal : Local m) (segs : List Segment) :
    Reads m (spared m segs) := by
  induction segs with
  | nil => trivial
  | cons seg segs ih =>
      cases seg with
      | written text =>
          rw [spared_written]
          exact (reads_scan hm text).append hlocal ih
      | value text =>
          rw [spared_value]
          exact (reads_chars text).append hlocal ih

/-- Pieces that every substitution treats as the text itself are what the scan finds, if for each
match there is a substitution that shows it by another first character. -/
theorem scan_eq_of_sub_eq (hm : m.Lawful) {F : (α → List Char → List Char) → Prop}
    (hshow : ∀ c tok rest a, m (c :: tok ++ rest) = some (a, rest) →
      ∃ f, F f ∧ ∃ d ds, f a (c :: tok) = d :: ds ∧ d ≠ c)
    {ps : List (Piece α)} (hps : Reads m ps)
    (hsame : ∀ f, F f → sub m f (source ps) = ps.flatMap (Piece.replace f)) :
    scan m (source ps) = ps := by
  induction ps with
  | nil => rfl
  | cons p ps ih =>
      cases p with
      | char c =>
          have hsource : source (.char c :: ps) = c :: source ps := rfl
          rw [hsource] at hsame ⊢
          cases hmatch : m (c :: source ps) with
          | none =>
              rw [scan_of_none hmatch, ih hps fun f hf => ?_]
              have hf := hsame f hf
              rw [sub_of_none hmatch] at hf
              exact (List.cons.inj hf).2
          | some r =>
              -- the scan has found what the pieces take for a character
              obtain ⟨a, rest⟩ := r
              obtain ⟨c', tok, heq⟩ := hm _ _ _ hmatch
              rw [heq] at hmatch
              obtain ⟨f, hf, d, ds, hfa, hne⟩ := hshow c' tok rest a hmatch
              have hf := hsame f hf
              rw [heq, sub_of_some hm hmatch, hfa] at hf
              obtain rfl : c = c' := (List.cons.inj heq).1
              exact absurd (List.cons.inj hf).1 hne
      | found a tok =>
          obtain ⟨hne, hmatch, hps⟩ := hps
          obtain ⟨c, tok, rfl⟩ := List.exists_cons_of_ne_nil hne
          have hsource : source (.found a (c :: tok) :: ps) = c :: tok ++ source ps := rfl
          rw [hsource] at hsame ⊢
          rw [scan_of_some hm hmatch, ih hps fun f hf => ?_]
          have hf := hsame f hf
          rw [sub_of_some hm hmatch] at hf
          exact List.append_cancel_left hf

/-- A text on which every substitution is one on the template's parts has nothing to be found
elsewhere. -/
theorem apart_of_sub_eq (hm : m.Lawful) (hlocal : Local m)
    {F : (α → List Char → List Char) → Prop}
    (hshow : ∀ c tok rest a, m (c :: tok ++ rest) = some (a, rest) →
      ∃ f, F f ∧ ∃ d ds, f a (c :: tok) = d :: ds ∧ d ≠ c)
    (hsame : ∀ f, F f →
      sub m f (flat segs) = (spared m segs).flatMap (Piece.replace f)) : Apart m segs := by
  rw [← source_spared hm] at hsame
  have hscan := scan_eq_of_sub_eq hm hshow (reads_spared hm hlocal segs) hsame
  rwa [source_spared hm] at hscan

end Templates
