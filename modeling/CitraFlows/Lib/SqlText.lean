-- SUMMARY: SQL text read character by character: what is code and what a literal, a quoted identifier or a comment, and the words of the code.
import Mathlib.Data.List.Basic
import Mathlib.Data.Char

/-!
# SQL texts

`step` reads one character of an SQL text. Literals and quoted identifiers are in single and
double quotes, a doubled quote closes and opens again; comments go from two dashes to the end of
the line, or stand between `/*` and `*/`. A comment that starts with `/*!` and a version number is
code.
-/

namespace SqlText

inductive Mode where
  /-- Between words -/
  | code
  | word
  /-- The last character may be the first one of a mark: `--`, `/*`, `*/`. -/
  | dash
  | slash
  | star
  /-- In a string literal, in single quotes -/
  | literal
  /-- In a quoted identifier, in double quotes -/
  | quoted
  | line
  /-- In a comment: at its start, inside, after a `*` -/
  | opened
  | block
  | blockStar
  /-- In the version number of an executable comment -/
  | version
  deriving DecidableEq

structure State where
  mode : Mode := .code
  /-- An executable comment is open. -/
  executable : Bool := false
  deriving DecidableEq

/-- The characters of a word. -/
def isIdent (c : Char) : Bool := c.isAlphanum || c == '_' || decide (128 ≤ c.toNat)

/-- What a character of the code starts. -/
def codeMode (c : Char) : Mode :=
  if c = '\'' then .literal
  else if c = '"' then .quoted
  else if isIdent c then .word
  else if c = '-' then .dash
  else if c = '/' then .slash
  else if c = '*' then .star
  else .code

def step (s : State) (c : Char) : State :=
  match s.mode with
  | .code | .word => { s with mode := codeMode c }
  | .dash => if c = '-' then { s with mode := .line } else { s with mode := codeMode c }
  | .slash => if c = '*' then { s with mode := .opened } else { s with mode := codeMode c }
  | .star => if c = '/' ∧ s.executable then {} else { s with mode := codeMode c }
  | .literal => if c = '\'' then { s with mode := .code } else s
  | .quoted => if c = '"' then { s with mode := .code } else s
  | .line => if c = '\n' then { s with mode := .code } else s
  | .opened =>
      if c = '!' then { mode := .version, executable := true }
      else if c = '*' then { s with mode := .blockStar }
      else { s with mode := .block }
  | .block => if c = '*' then { s with mode := .blockStar } else s
  | .blockStar =>
      if c = '/' then { s with mode := .code }
      else if c = '*' then s
      else { s with mode := .block }
  | .version => if c.isDigit then s else { s with mode := codeMode c }

def readFrom (s : State) (cs : List Char) : State := cs.foldl step s

/-- How far the text has been read. -/
def read (cs : List Char) : State := readFrom {} cs

/-- The next character is code, or opens something. -/
def State.inCode (s : State) : Bool :=
  match s.mode with
  | .code | .word | .dash | .slash | .star | .version => true
  | _ => false

/-- The next character is inside a string literal, or ends it. -/
def State.inLiteral (s : State) : Bool := s.mode = .literal

@[simp] theorem readFrom_nil (s : State) : readFrom s [] = s := rfl

@[simp] theorem readFrom_cons (s : State) (c : Char) (cs : List Char) :
    readFrom s (c :: cs) = readFrom (step s c) cs := rfl

@[simp] theorem readFrom_append (s : State) (cs ds : List Char) :
    readFrom s (cs ++ ds) = readFrom (readFrom s cs) ds := List.foldl_append

@[simp] theorem read_nil : read [] = {} := rfl

theorem read_append (cs ds : List Char) : read (cs ++ ds) = readFrom (read cs) ds :=
  readFrom_append _ _ _

/-! ## Words -/

/-- Between the two parts of a text, `w` is a word of the code. -/
structure WordAt (before w after : List Char) : Prop where
  inCode : (read before).inCode = true
  first : (read before).mode ≠ .word
  starts : ∃ c, w.head? = some c ∧ c.isDigit = false
  ident : ∀ c ∈ w, isIdent c = true
  ends : ∀ c, after.head? = some c → isIdent c = false

/-- A word of the code comes after the part `before` of a text. -/
def WordAfter (before after : List Char) : Prop :=
  ∃ mid w rest, after = mid ++ w ++ rest ∧ WordAt (before ++ mid) w rest

/-- A separator of the code, with a statement after it. -/
def SeparatorAt (before after : List Char) : Prop :=
  (read before).inCode = true ∧ WordAfter (before ++ [';']) after

/-- The keyword, in capitals, stands there in the code. -/
def KeywordAt (keyword before w after : List Char) : Prop :=
  WordAt before w after ∧ w.map Char.toUpper = keyword

/-- The first keyword stands in the code, and the second one after it. -/
def InOrder (first second cs : List Char) : Prop :=
  ∃ before w mid w' after, cs = before ++ w ++ mid ++ w' ++ after ∧
    KeywordAt first before w (mid ++ w' ++ after) ∧
    KeywordAt second (before ++ w ++ mid) w' after

/-- A character after which the code goes on between words, or in a mark, is of no word. -/
theorem step_boundary {s : State} {c : Char} (hcode : (step s c).inCode = true)
    (hword : (step s c).mode ≠ .word) (hversion : (step s c).mode ≠ .version) :
    isIdent c = false := by
  have hmode : codeMode c ≠ .word → isIdent c = false := by
    intro h
    by_cases hident : isIdent c = true
    · have hsingle : c ≠ '\'' := fun hc => absurd hident (by rw [hc]; decide)
      have hdouble : c ≠ '"' := fun hc => absurd hident (by rw [hc]; decide)
      exact absurd (by rw [codeMode, if_neg hsingle, if_neg hdouble, if_pos hident]) h
    · exact eq_false_of_ne_true hident
  -- in code, the character was read as code; elsewhere it has ended what it stood in
  unfold step at hcode hword hversion
  cases hs : s.mode with
  | code | word =>
      rw [hs] at hword
      exact hmode hword
  | dash | slash =>
      rw [hs] at hcode hword
      simp only at hcode hword
      split at hword
      next hc =>
        rw [if_pos hc] at hcode
        cases hcode
      next => exact hmode hword
  | star =>
      rw [hs] at hword
      simp only at hword
      split at hword
      next hc =>
        rw [hc.1]
        decide
      next => exact hmode hword
  | literal | quoted | line =>
      rw [hs] at hcode
      simp only at hcode
      split at hcode
      next hc =>
        rw [hc]
        decide
      next => simp [State.inCode, hs] at hcode
  | opened =>
      rw [hs] at hcode hversion
      simp only at hcode hversion
      split at hcode
      next hc =>
        rw [if_pos hc] at hversion
        exact absurd rfl hversion
      next => split at hcode <;> cases hcode
  | block =>
      rw [hs] at hcode
      simp only at hcode
      split at hcode
      next => cases hcode
      next => simp [State.inCode, hs] at hcode
  | blockStar =>
      rw [hs] at hcode
      simp only at hcode
      split at hcode
      next hc =>
        rw [hc]
        decide
      next =>
        split at hcode
        next => simp [State.inCode, hs] at hcode
        next => cases hcode
  | version =>
      rw [hs] at hword hversion
      simp only at hword hversion
      split at hword
      next hc =>
        rw [if_pos hc] at hversion
        exact absurd hs hversion
      next => exact hmode hword

/-- What stands before a word of the code is no part of a word, or a version number. -/
theorem WordAt.boundary {before w after : List Char} (h : WordAt before w after)
    (hversion : (read before).mode ≠ .version) :
    ∀ c, before.getLast? = some c → isIdent c = false := by
  intro c hlast
  obtain ⟨ds, rfl⟩ := List.getLast?_eq_some_iff.mp hlast
  have hread : read (ds ++ [c]) = step (read ds) c := read_append ds [c]
  have hcode := h.inCode
  have hfirst := h.first
  rw [hread] at hcode hfirst hversion
  exact step_boundary hcode hfirst hversion

/-! ## Plain text -/

/-- The state with the word, if there is one, at its end. -/
def State.between (s : State) : State :=
  { s with mode := if s.mode = .word then .code else s.mode }

/-- The state after text without marks. -/
def State.settle (s : State) : State :=
  match s.mode with
  | .literal | .quoted | .line => s
  | .opened | .block | .blockStar => { s with mode := .block }
  | .code | .word | .dash | .slash | .star | .version => { s with mode := .code }

/-- The character is part of no mark, wherever it stands. -/
def IsPlain (c : Char) : Prop := c ∉ ['\'', '"', '-', '/', '*', '!', '\n']

theorem step_between (s : State) (c : Char) : step s.between c = step s c := by
  obtain ⟨mode, executable⟩ := s
  cases mode <;> rfl

/-- Whether a word has ended makes no difference for what follows. -/
theorem readFrom_between {s s' : State} (h : s.between = s'.between) (cs : List Char) :
    (readFrom s cs).between = (readFrom s' cs).between := by
  cases cs with
  | nil => exact h
  | cons c cs => rw [readFrom_cons, readFrom_cons, ← step_between s, h, step_between]

theorem between_inLiteral (s : State) : s.between.inLiteral = s.inLiteral := by
  obtain ⟨mode, executable⟩ := s
  cases mode <;> rfl

theorem settle_congr {s s' : State} (h : s.between = s'.between) : s.settle = s'.settle := by
  have hbetween : ∀ s : State, s.between.settle = s.settle := by
    intro s
    obtain ⟨mode, executable⟩ := s
    cases mode <;> rfl
  rw [← hbetween s, h, hbetween]

theorem codeMode_plain {c : Char} (h : IsPlain c) : codeMode c = .code ∨ codeMode c = .word := by
  simp only [IsPlain, List.mem_cons, List.not_mem_nil, or_false, not_or] at h
  obtain ⟨hsingle, hdouble, hdash, hslash, hstar, -, -⟩ := h
  rw [codeMode, if_neg hsingle, if_neg hdouble, if_neg hdash, if_neg hslash, if_neg hstar]
  split
  next => exact .inr rfl
  next => exact .inl rfl

theorem codeMode_between {c : Char} (h : IsPlain c) (executable : Bool) :
    (State.mk (codeMode c) executable).between = ⟨.code, executable⟩ := by
  rcases codeMode_plain h with hmode | hmode <;> rw [hmode] <;> rfl

theorem step_plain {s : State} {c : Char} (h : IsPlain c) (hdigit : c.isDigit = false) :
    (step s c).between = s.settle := by
  have hcode := codeMode_between h s.executable
  simp only [IsPlain, List.mem_cons, List.not_mem_nil, or_false, not_or] at h
  obtain ⟨hsingle, hdouble, hdash, hslash, hstar, hbang, hline⟩ := h
  obtain ⟨mode, executable⟩ := s
  cases mode <;>
    simp [step, State.settle, hsingle, hdouble, hdash, hslash, hstar, hbang, hline, hdigit, hcode]
  all_goals rfl

/-- Plain text after plain text changes nothing. -/
theorem settle_plain {s : State} {c : Char} (h : IsPlain c) :
    (step s.settle c).between = s.settle := by
  have hcode := codeMode_between h s.executable
  simp only [IsPlain, List.mem_cons, List.not_mem_nil, or_false, not_or] at h
  obtain ⟨hsingle, hdouble, hdash, hslash, hstar, hbang, hline⟩ := h
  obtain ⟨mode, executable⟩ := s
  cases mode <;> simp [step, State.settle, hsingle, hdouble, hstar, hline, hcode]
  all_goals rfl

theorem readFrom_plain {s : State} {c : Char} {cs : List Char} (hdigit : c.isDigit = false)
    (h : ∀ d ∈ c :: cs, IsPlain d) : (readFrom s (c :: cs)).between = s.settle := by
  have hrest : ∀ (cs : List Char) (s' : State), (∀ d ∈ cs, IsPlain d) → s'.between = s.settle →
      (readFrom s' cs).between = s.settle := by
    intro cs
    induction cs with
    | nil => exact fun s' _ hs' => hs'
    | cons d cs ih =>
        intro s' hplain hs'
        refine ih _ (fun e he => hplain e (List.mem_cons_of_mem d he)) ?_
        rw [← step_between, hs', settle_plain (hplain d List.mem_cons_self)]
  exact hrest cs _ (fun d hd => h d (List.mem_cons_of_mem c hd))
    (step_plain (h c List.mem_cons_self) hdigit)

/-- Plain text in quotes opens and closes a literal, or closes and opens one, or opens
nothing. -/
theorem readFrom_quoted {s : State} {q : Char} (hq : q = '\'' ∨ q = '"') {c : Char}
    {cs : List Char} (hdigit : c.isDigit = false) (h : ∀ d ∈ c :: cs, IsPlain d) :
    (readFrom s (q :: (c :: cs) ++ [q])).between = s.settle := by
  rw [List.cons_append, readFrom_cons, readFrom_append]
  have hplain : (readFrom (step s q) (c :: cs)).between = (step s q).settle :=
    readFrom_plain hdigit h
  have hlast : readFrom (readFrom (step s q) (c :: cs)) [q] = step (step s q).settle q := by
    rw [← hplain, step_between]
    rfl
  rw [hlast]
  obtain ⟨mode, executable⟩ := s
  rcases hq with rfl | rfl <;> cases mode <;> rfl

end SqlText
