-- SUMMARY: Scanning a text from the left for a pattern: its pieces, what a substitution makes of them, and the keys it depends on.
import Mathlib.Data.List.Basic

/-!
# Scanning a text

A `Pattern` says what it matches at the head of a text, and what follows. `scan` looks for it from
the left, without overlaps, as `re.sub` and `str.replace` do; `sub` replaces what was found by
texts that may depend on what the pattern has captured.
-/

namespace Scanning

variable {α β : Type}

/-- What is captured at the head of a text, and the rest of the text. -/
abbrev Pattern (α : Type) := List Char → Option (α × List Char)

/-- A match is not empty, and the rest is what follows it. -/
def Pattern.Lawful (m : Pattern α) : Prop :=
  ∀ cs a rest, m cs = some (a, rest) → ∃ c tok, cs = c :: tok ++ rest

/-- A piece of a text: a character that belongs to no match, or a match. -/
inductive Piece (α : Type) where
  | char (c : Char)
  | found (a : α) (text : List Char)

/-- The pieces of a text; `fuel` bounds the characters still to be read. -/
def scanFrom (m : Pattern α) : Nat → List Char → List (Piece α)
  | 0, _ => []
  | _ + 1, [] => []
  | fuel + 1, c :: cs =>
      match m (c :: cs) with
      | none => .char c :: scanFrom m fuel cs
      | some (a, rest) =>
          .found a ((c :: cs).take ((c :: cs).length - rest.length)) :: scanFrom m fuel rest

def scan (m : Pattern α) (cs : List Char) : List (Piece α) := scanFrom m cs.length cs

/-- The text that stands for a piece. -/
def Piece.replace (f : α → List Char → List Char) : Piece α → List Char
  | .char c => [c]
  | .found a text => f a text

/-- `pattern.sub(f, text)` -/
def sub (m : Pattern α) (f : α → List Char → List Char) (cs : List Char) : List Char :=
  (scan m cs).flatMap (Piece.replace f)

/-- What was captured, from the left. -/
def captures (m : Pattern α) (cs : List Char) : List α :=
  (scan m cs).filterMap fun
    | .char _ => none
    | .found a _ => some a

/-! ## Steps of a scan -/

variable {m : Pattern α} {c : Char} {cs tok rest : List Char} {a : α}

/-- The fuel that is left over is not used. -/
theorem scanFrom_of_le (hm : m.Lawful) {fuel : Nat} (h : cs.length ≤ fuel) :
    scanFrom m fuel cs = scan m cs := by
  have hstable : ∀ n fuel fuel' (cs : List Char), cs.length ≤ n → cs.length ≤ fuel →
      cs.length ≤ fuel' → scanFrom m fuel cs = scanFrom m fuel' cs := by
    intro n
    induction n with
    | zero =>
        intro fuel fuel' cs hn _ _
        obtain rfl := List.length_eq_zero_iff.mp (Nat.le_zero.mp hn)
        cases fuel <;> cases fuel' <;> rfl
    | succ n ih =>
        intro fuel fuel' cs hn hfuel hfuel'
        cases cs with
        | nil => cases fuel <;> cases fuel' <;> rfl
        | cons c cs =>
            obtain ⟨fuel, rfl⟩ : ∃ k, fuel = k + 1 := ⟨fuel - 1, by simp at hfuel; omega⟩
            obtain ⟨fuel', rfl⟩ : ∃ k, fuel' = k + 1 := ⟨fuel' - 1, by simp at hfuel'; omega⟩
            simp only [List.length_cons, Nat.add_le_add_iff_right] at hn hfuel hfuel'
            rw [scanFrom, scanFrom]
            cases hmatch : m (c :: cs) with
            | none => simp only [ih fuel fuel' cs hn hfuel hfuel']
            | some r =>
                obtain ⟨a, rest⟩ := r
                obtain ⟨d, tok, heq⟩ := hm _ _ _ hmatch
                have hlt : rest.length ≤ cs.length := by
                  have := congrArg List.length heq
                  simp only [List.length_cons, List.length_append] at this
                  omega
                simp only [ih fuel fuel' rest (by omega) (by omega) (by omega)]
  exact hstable cs.length _ _ cs (Nat.le_refl _) h (Nat.le_refl _)

@[simp] theorem scan_nil : scan m [] = [] := rfl

theorem scan_of_none (h : m (c :: cs) = none) : scan m (c :: cs) = .char c :: scan m cs := by
  simp only [scan, List.length_cons, scanFrom, h]

theorem scan_of_some (hm : m.Lawful) (h : m (c :: tok ++ rest) = some (a, rest)) :
    scan m (c :: tok ++ rest) = .found a (c :: tok) :: scan m rest := by
  have hlength : (c :: (tok ++ rest)).length - rest.length = tok.length + 1 := by
    simp only [List.length_cons, List.length_append]
    omega
  rw [List.cons_append] at h ⊢
  rw [scan, List.length_cons, scanFrom, h]
  simp only [hlength, List.take_succ_cons, List.take_left]
  rw [scanFrom_of_le hm (by simp)]

/-- A text is read by reading off a match or a character that starts none. -/
theorem scan_induction (hm : m.Lawful) {P : List Char → Prop} (nil : P [])
    (char : ∀ c cs, m (c :: cs) = none → P cs → P (c :: cs))
    (found : ∀ c tok rest a, m (c :: tok ++ rest) = some (a, rest) → P rest →
      P (c :: tok ++ rest)) (cs : List Char) : P cs := by
  have hall : ∀ n (cs : List Char), cs.length ≤ n → P cs := by
    intro n
    induction n with
    | zero =>
        intro cs hn
        obtain rfl := List.length_eq_zero_iff.mp (Nat.le_zero.mp hn)
        exact nil
    | succ n ih =>
        intro cs hn
        cases cs with
        | nil => exact nil
        | cons c cs =>
            cases hmatch : m (c :: cs) with
            | none => exact char c cs hmatch (ih cs (by simpa using hn))
            | some r =>
                obtain ⟨a, rest⟩ := r
                obtain ⟨d, tok, heq⟩ := hm _ _ _ hmatch
                rw [heq] at hmatch hn ⊢
                refine found d tok rest a hmatch (ih rest ?_)
                simp only [List.length_append, List.length_cons] at hn
                omega
  exact hall cs.length cs (Nat.le_refl _)

/-! ## Substitutions -/

variable {f g : α → List Char → List Char}

@[simp] theorem sub_nil : sub m f [] = [] := rfl

theorem sub_of_none (h : m (c :: cs) = none) : sub m f (c :: cs) = c :: sub m f cs := by
  simp [sub, scan_of_none h, Piece.replace]

theorem sub_of_some (hm : m.Lawful) (h : m (c :: tok ++ rest) = some (a, rest)) :
    sub m f (c :: tok ++ rest) = f a (c :: tok) ++ sub m f rest := by
  simp only [sub, scan_of_some hm h, List.flatMap_cons, Piece.replace]

theorem captures_of_none (h : m (c :: cs) = none) : captures m (c :: cs) = captures m cs := by
  simp [captures, scan_of_none h]

theorem captures_of_some (hm : m.Lawful) (h : m (c :: tok ++ rest) = some (a, rest)) :
    captures m (c :: tok ++ rest) = a :: captures m rest := by
  simp only [captures, scan_of_some hm h, List.filterMap_cons]

/-- What is put back leaves the text as it was. -/
theorem sub_id (hm : m.Lawful) (cs : List Char) : sub m (fun _ tok => tok) cs = cs := by
  induction cs using scan_induction hm with
  | nil => rfl
  | char c cs h ih => rw [sub_of_none h, ih]
  | found c tok rest a h ih => rw [sub_of_some hm h, ih]

/-- A substitution depends on the captures of the text only. -/
theorem sub_congr (hm : m.Lawful) (h : ∀ a ∈ captures m cs, f a = g a) :
    sub m f cs = sub m g cs := by
  induction cs using scan_induction hm with
  | nil => rfl
  | char c cs hnone ih =>
      rw [captures_of_none hnone] at h
      rw [sub_of_none hnone, sub_of_none hnone, ih h]
  | found c tok rest a hsome ih =>
      rw [captures_of_some hm hsome] at h
      rw [sub_of_some hm hsome, sub_of_some hm hsome, h a List.mem_cons_self,
        ih fun b hb => h b (List.mem_cons_of_mem a hb)]

/-- A substitution that puts something shorter for one capture, and nothing longer for the
others, makes the text shorter. -/
theorem sub_length_lt (hm : m.Lawful) (hle : ∀ a tok, (f a tok).length ≤ tok.length)
    (ha : a ∈ captures m cs) (hlt : ∀ c tok, (f a (c :: tok)).length < (c :: tok).length) :
    (sub m f cs).length < cs.length := by
  have hall : ∀ cs, (sub m f cs).length ≤ cs.length := by
    intro cs
    induction cs using scan_induction hm with
    | nil => exact Nat.le_refl _
    | char c cs hnone ih =>
        rw [sub_of_none hnone]
        simpa using ih
    | found c tok rest b hsome ih =>
        rw [sub_of_some hm hsome, List.length_append, List.length_append]
        exact Nat.add_le_add (hle b _) ih
  induction cs using scan_induction hm with
  | nil => simp [captures] at ha
  | char c cs hnone ih =>
      rw [captures_of_none hnone] at ha
      rw [sub_of_none hnone]
      simpa using ih ha
  | found c tok rest b hsome ih =>
      rw [captures_of_some hm hsome] at ha
      rw [sub_of_some hm hsome, List.length_append, List.length_append]
      rcases List.mem_cons.mp ha with rfl | ha
      · exact Nat.add_lt_add_of_lt_of_le (hlt c tok) (hall rest)
      · exact Nat.add_lt_add_of_le_of_lt (hle b _) (ih ha)

/-- Characters that start no match are copied. -/
theorem sub_append (h : ∀ c ∈ tok, ∀ rest, m (c :: rest) = none) (cs : List Char) :
    sub m f (tok ++ cs) = tok ++ sub m f cs := by
  induction tok with
  | nil => rfl
  | cons c tok ih =>
      rw [List.cons_append, sub_of_none (h c List.mem_cons_self _),
        ih fun d hd => h d (List.mem_cons_of_mem c hd), List.cons_append]

theorem captures_append (h : ∀ c ∈ tok, ∀ rest, m (c :: rest) = none) (cs : List Char) :
    captures m (tok ++ cs) = captures m cs := by
  induction tok with
  | nil => rfl
  | cons c tok ih =>
      rw [List.cons_append, captures_of_none (h c List.mem_cons_self _),
        ih fun d hd => h d (List.mem_cons_of_mem c hd)]

/-- What the result starts with was there, if nothing that is put for a match starts like
it. -/
theorem sub_eq_append (hm : m.Lawful) {P : Char → Prop}
    (hf : ∀ c tok rest a, m (c :: tok ++ rest) = some (a, rest) →
      ∃ d ds, f a (c :: tok) = d :: ds ∧ ¬ P d)
    (hP : ∀ c ∈ tok, P c) (h : sub m f cs = tok ++ rest) :
    ∃ cs', cs = tok ++ cs' ∧ sub m f cs' = rest := by
  induction tok generalizing cs with
  | nil => exact ⟨cs, rfl, h⟩
  | cons d tok ih =>
      cases cs with
      | nil => cases h
      | cons c cs =>
          cases hmatch : m (c :: cs) with
          | none =>
              rw [sub_of_none hmatch] at h
              obtain ⟨rfl, htail⟩ := List.cons.inj h
              obtain ⟨cs', rfl, hrest⟩ := ih (fun e he => hP e (List.mem_cons_of_mem c he)) htail
              exact ⟨cs', rfl, hrest⟩
          | some r =>
              obtain ⟨a, after⟩ := r
              obtain ⟨c', tok', heq⟩ := hm _ _ _ hmatch
              rw [heq] at hmatch h
              obtain ⟨e, es, hfe, hnot⟩ := hf c' tok' after a hmatch
              rw [sub_of_some hm hmatch, hfe] at h
              obtain ⟨rfl, -⟩ := List.cons.inj h
              exact absurd (hP e List.mem_cons_self) hnot

/-- A match of the scan is one of the pattern. -/
theorem found_of_mem_scan (hm : m.Lawful) (h : .found a tok ∈ scan m cs) :
    ∃ rest, m (tok ++ rest) = some (a, rest) := by
  induction cs using scan_induction hm with
  | nil => cases h
  | char c cs hnone ih =>
      rw [scan_of_none hnone] at h
      rcases List.mem_cons.mp h with heq | hmem
      · cases heq
      · exact ih hmem
  | found c tok' rest a' hsome ih =>
      rw [scan_of_some hm hsome] at h
      rcases List.mem_cons.mp h with heq | hmem
      · cases heq
        exact ⟨rest, hsome⟩
      · exact ih hmem

/-! ## Parts that are spared -/

/-- The scan of `pre ++ tok ++ post` reads the middle part as characters of no match, and the
substitution makes `pre'` and `post'` of the other two. -/
def Spared (m : Pattern α) (f : α → List Char → List Char) (pre tok post pre' post' : List Char) :
    Prop :=
  ∃ ps qs, scan m (pre ++ tok ++ post) = ps ++ tok.map .char ++ qs ∧
    ps.flatMap (Piece.replace fun _ text => text) = pre ∧
    ps.flatMap (Piece.replace f) = pre' ∧ qs.flatMap (Piece.replace f) = post'

variable {pre post pre' post' : List Char}

theorem flatMap_replace_chars (f : α → List Char → List Char) (tok : List Char) :
    (tok.map Piece.char).flatMap (Piece.replace f) = tok := by
  rw [List.flatMap_map]
  exact List.flatMap_singleton' tok

theorem Spared.sub_eq (h : Spared m f pre tok post pre' post') :
    sub m f (pre ++ tok ++ post) = pre' ++ tok ++ post' := by
  obtain ⟨ps, qs, hscan, -, rfl, rfl⟩ := h
  rw [sub, hscan, List.flatMap_append, List.flatMap_append, flatMap_replace_chars]

/-- Before the part is what was there, or what has come for a match. -/
theorem Spared.getLast (h : Spared m f pre tok post pre' post') {P : Char → Prop}
    (hf : ∀ a text, ∃ c, (f a text).getLast? = some c ∧ P c)
    (hpre : ∀ c, pre.getLast? = some c → P c) : ∀ c, pre'.getLast? = some c → P c := by
  obtain ⟨ps, qs, -, rfl, rfl, -⟩ := h
  intro c hc
  rcases List.eq_nil_or_concat ps with rfl | ⟨ps, p, rfl⟩
  · cases hc
  · rw [List.concat_eq_append, List.flatMap_append, List.flatMap_singleton,
      List.getLast?_append] at hpre hc
    cases p with
    | char d =>
        obtain rfl : d = c := by simpa [Piece.replace] using hc
        exact hpre d (by simp [Piece.replace])
    | found a text =>
        obtain ⟨d, hd, hP⟩ := hf a text
        rw [Piece.replace, hd] at hc
        obtain rfl : d = c := by simpa using hc
        exact hP

/-- After the part is what was there, or what has come for a match. -/
theorem Spared.head (hm : m.Lawful) (h : Spared m f pre tok post pre' post') {P : Char → Prop}
    (hf : ∀ a text, ∃ c, (f a text).head? = some c ∧ P c)
    (hpost : ∀ c, post.head? = some c → P c) : ∀ c, post'.head? = some c → P c := by
  obtain ⟨ps, qs, hscan, rfl, -, rfl⟩ := h
  have hrest : qs.flatMap (Piece.replace fun _ text => text) = post := by
    have hid := sub_id hm (ps.flatMap (Piece.replace fun _ text => text) ++ tok ++ post)
    rw [sub, hscan, List.flatMap_append, List.flatMap_append, flatMap_replace_chars] at hid
    exact List.append_cancel_left hid
  intro c hc
  cases qs with
  | nil => cases hc
  | cons q qs =>
      rw [← hrest] at hpost
      rw [List.flatMap_cons, List.head?_append] at hpost hc
      cases q with
      | char d =>
          obtain rfl : d = c := by simpa [Piece.replace] using hc
          exact hpost d (by simp [Piece.replace])
      | found a text =>
          obtain ⟨d, hd, hP⟩ := hf a text
          rw [Piece.replace, hd] at hc
          obtain rfl : d = c := by simpa using hc
          exact hP

/-! ## Patterns -/

/-- A fixed text, as `str.replace` looks for it. -/
def literal (old : List Char) : Pattern Unit := fun cs =>
  if old.isPrefixOf cs then some ((), cs.drop old.length) else none

/-- `text.replace(old, new)` -/
def replaceAll (old new : List Char) (cs : List Char) : List Char :=
  sub (literal old) (fun _ _ => new) cs

example : replaceAll "aa".toList "b".toList "caaab".toList = "cbab".toList := by decide

end Scanning
