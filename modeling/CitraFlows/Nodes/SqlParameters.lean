-- SUMMARY: What sql_parameterize makes of a query: binds for its placeholders, outside of literals where the template has them there.
import CitraFlows.Agents.ReadOnly
import CitraFlows.Lib.SqlText
import CitraFlows.Nodes.Interpolation

/-!
# Parameters of a query

`sql_parameterize` replaces the placeholders of a query by binds in two passes: the first takes
those alone in quotes, with the quotes, and the second the others. Neither looks at the literals
of the query, nor at what stands next to a bind. `Delimits` says where SQLAlchemy reads one.
-/

namespace CitraFlows

open Agent (Interpreter)
open Scanning (Pattern Piece scan sub captures)
open SqlText (State read readFrom IsPlain)

namespace SqlParameters

/-! ## The two passes -/

section

/- The characters of `\w`. -/
variable (word : Char → Bool)

/-- `_QUOTED_VAR`: a placeholder alone in quotes, with the quote and the name -/
def quotedVar : Pattern (Char × List Char)
  | q :: cs =>
      if q = '\'' ∨ q = '"' then
        match varPattern word cs with
        | some (key, q' :: rest) => if q' = q then some ((q, key), rest) else none
        | _ => none
      else none
  | [] => none

/-- The text that stands for a placeholder: `_quoted_replacer` and `_replacer` -/
def bindText (vars : Variables) (key placeholder : List Char) : List Char :=
  if (vars.lookup (String.ofList key)).isSome then ':' :: key else placeholder

/-- `binds[key] = variables[key]`, for each key that is a variable -/
def addBinds (vars binds : Variables) (keys : List (List Char)) : Variables :=
  keys.foldl (fun binds key =>
    match vars.lookup (String.ofList key) with
    | some v => binds.insert (String.ofList key) v
    | none => binds) binds

/-- `sql_parameterize` -/
def sqlParameterize (query : List Char) (vars : Variables) : List Char × Variables :=
  if query.isEmpty || vars.entries.isEmpty then (query, ∅)
  else
    let binds := addBinds vars ∅ ((captures (quotedVar word) query).map Prod.snd)
    let parameterized := sub (quotedVar word) (fun p text => bindText vars p.2 text) query
    (sub (varPattern word) (bindText vars) parameterized,
      addBinds vars binds (captures (varPattern word) parameterized))

end

example : (sqlParameterize Char.isAlphanum
    "SELECT * FROM t WHERE a = '\x7b\x7ba\x7d\x7d' AND b = \x7b\x7bb\x7d\x7d".toList
    (AList.insert "a" (.int 7) ∅)).1 =
      "SELECT * FROM t WHERE a = :a AND b = \x7b\x7bb\x7d\x7d".toList := by
  decide +kernel

/-! ## One pass for both -/

/-- A placeholder of a template, with the quotes that the first pass takes with it. -/
structure Placeholder where
  quote : Option Char
  key : List Char

section

variable (word : Char → Bool)

def placeholder : Pattern Placeholder := fun cs =>
  match quotedVar word cs with
  | some ((q, key), rest) => some (⟨some q, key⟩, rest)
  | none => (varPattern word cs).map fun p => (⟨none, p.1⟩, p.2)

end

/-- `{{key}}` -/
def written (key : List Char) : List Char := '{' :: '{' :: key ++ ['}', '}']

/-- What a placeholder looks like in the template. -/
def Placeholder.source (p : Placeholder) : List Char :=
  p.quote.toList ++ written p.key ++ p.quote.toList

def Placeholder.replace (vars : Variables) (p : Placeholder) (text : List Char) : List Char :=
  bindText vars p.key text

/-- What a name may be. -/
def IsName (it : Interpreter) (key : List Char) : Prop :=
  key ≠ [] ∧ ∀ c ∈ key, it.isWord c = true

variable {it : Interpreter} {vars : Variables} {cs key rest : List Char} {q c : Char}
  {p : Placeholder}

/-- The characters of a name are none of the marks. -/
theorem ne_of_isWord {d : Char} (h : it.isWord c = true) (hascii : d.toNat < 128)
    (hd : (d.isAlphanum || d == '_') = false) : c ≠ d := by
  rintro rfl
  rw [it.isWord_ascii c hascii, hd] at h
  cases h

theorem quotedVar_eq (h : quotedVar it.isWord cs = some ((q, key), rest)) :
    cs = q :: written key ++ q :: rest ∧ (q = '\'' ∨ q = '"') ∧ IsName it key := by
  unfold quotedVar at h
  split at h
  next q' cs =>
    obtain ⟨hmark, hsome⟩ := Option.ite_none_right_eq_some.mp h
    split at hsome
    next key' q'' rest' hvar =>
      obtain ⟨rfl, hsome⟩ := Option.ite_none_right_eq_some.mp hsome
      cases hsome
      obtain ⟨rfl, hne, hkey⟩ := varPattern_eq hvar
      exact ⟨by simp [written], hmark, hne, hkey⟩
    next => cases hsome
  next => cases h

/-- A placeholder without quotes is found. -/
theorem varPattern_written (hkey : IsName it key) (rest : List Char) :
    varPattern it.isWord (written key ++ rest) = some (key, rest) := by
  have hfound := varPattern_placeholder (it.isWord_ascii '}' (by decide)) hkey.1 hkey.2 rest
  simpa [written] using hfound

theorem quotedVar_lawful : (quotedVar it.isWord).Lawful := by
  rintro cs ⟨q, key⟩ rest h
  obtain ⟨rfl, -, -⟩ := quotedVar_eq h
  exact ⟨q, written key ++ [q], by simp⟩

/-- Without a quote, there is no match. -/
theorem quotedVar_none (h : ¬ (c = '\'' ∨ c = '"')) (cs : List Char) :
    quotedVar it.isWord (c :: cs) = none := by
  rw [quotedVar, if_neg h]

theorem varPattern_none (h : c ≠ '{') (cs : List Char) :
    varPattern it.isWord (c :: cs) = none := by
  cases hvar : varPattern it.isWord (c :: cs) with
  | none => rfl
  | some r =>
      obtain ⟨key, after⟩ := r
      obtain ⟨hcs, -⟩ := varPattern_eq hvar
      exact absurd (List.cons.inj hcs).1 h

/-- What the one pass finds, with or without quotes. -/
theorem placeholder_eq (h : placeholder it.isWord cs = some (p, rest)) :
    cs = p.source ++ rest ∧ IsName it p.key ∧
      ((∃ q, p.quote = some q ∧ (q = '\'' ∨ q = '"') ∧
          quotedVar it.isWord cs = some ((q, p.key), rest)) ∨
        p.quote = none ∧ quotedVar it.isWord cs = none ∧
          varPattern it.isWord cs = some (p.key, rest)) := by
  unfold placeholder at h
  split at h
  next q key rest' hquoted =>
    cases h
    obtain ⟨rfl, hmark, hname⟩ := quotedVar_eq hquoted
    exact ⟨by simp [Placeholder.source], hname, .inl ⟨q, rfl, hmark, hquoted⟩⟩
  next hnone =>
    obtain ⟨⟨key, after⟩, hvar, hr⟩ := Option.map_eq_some_iff.mp h
    cases hr
    obtain ⟨rfl, hne, hkey⟩ := varPattern_eq hvar
    exact ⟨by simp [Placeholder.source, written], ⟨hne, hkey⟩, .inr ⟨rfl, hnone, hvar⟩⟩

theorem placeholder_mark (h : placeholder it.isWord cs = some (p, rest)) :
    ∀ q ∈ p.quote, q = '\'' ∨ q = '"' := by
  intro q hq
  obtain ⟨-, -, ⟨q', hquote, hmark, -⟩ | ⟨hquote, -⟩⟩ := placeholder_eq h
  · rw [hquote] at hq
    cases hq
    exact hmark
  · rw [hquote] at hq
    cases hq

theorem placeholder_lawful : (placeholder it.isWord).Lawful := by
  intro cs p rest h
  obtain ⟨rfl, -, -⟩ := placeholder_eq h
  obtain ⟨quote, key⟩ := p
  cases quote with
  | none => exact ⟨'{', '{' :: key ++ ['}', '}'], by simp [Placeholder.source, written]⟩
  | some q => exact ⟨q, written key ++ [q], by simp [Placeholder.source]⟩

/-- The first pass -/
def quotedPass (it : Interpreter) (vars : Variables) (query : List Char) : List Char :=
  sub (quotedVar it.isWord) (fun p text => bindText vars p.2 text) query

theorem IsName.ne (h : IsName it key) (hc : c ∈ key) {d : Char} (hascii : d.toNat < 128)
    (hd : (d.isAlphanum || d == '_') = false) : c ≠ d :=
  ne_of_isWord (h.2 c hc) hascii hd

/-- The first pass leaves placeholders without quotes, and makes none. -/
theorem varPattern_quotedPass (h : placeholder it.isWord (c :: cs) = none) :
    varPattern it.isWord (c :: quotedPass it vars cs) = none := by
  cases hvar : varPattern it.isWord (c :: quotedPass it vars cs) with
  | none => rfl
  | some r =>
      obtain ⟨key, after⟩ := r
      obtain ⟨htext, hname⟩ := varPattern_eq hvar
      obtain ⟨rfl, htail⟩ := List.cons.inj htext
      have hsplit : quotedPass it vars cs = ('{' :: key ++ ['}', '}']) ++ after := by
        rw [htail]
        simp
      obtain ⟨cs', rfl, -⟩ := Scanning.sub_eq_append quotedVar_lawful
        (P := fun d => d ≠ ':' ∧ d ≠ '\'' ∧ d ≠ '"')
        (fun d tok rest a hmatch => by
          obtain ⟨q, key'⟩ := a
          obtain ⟨heq, hmark, -⟩ := quotedVar_eq hmatch
          obtain ⟨rfl, -⟩ := List.cons.inj heq
          unfold bindText
          split
          · exact ⟨':', key', rfl, fun hP => hP.1 rfl⟩
          · exact ⟨d, tok, rfl, fun hP => hmark.elim hP.2.1 hP.2.2⟩)
        (fun d hd => by
          rcases List.mem_append.mp hd with hd | hd
          · rcases List.mem_cons.mp hd with rfl | hd
            · decide
            · exact ⟨ne_of_isWord (hname.2 d hd) (by decide) (by decide),
                ne_of_isWord (hname.2 d hd) (by decide) (by decide),
                ne_of_isWord (hname.2 d hd) (by decide) (by decide)⟩
          · have hbrace : d = '}' := by simpa using hd
            subst hbrace
            decide) hsplit
      have hthere : varPattern it.isWord ('{' :: ('{' :: key ++ ['}', '}'] ++ cs')) =
          some (key, cs') := varPattern_written hname cs'
      unfold placeholder at h
      rw [quotedVar_none (by decide), hthere] at h
      cases h

theorem sub_written (hkey : IsName it key) (cs : List Char) :
    sub (varPattern it.isWord) (bindText vars) (written key ++ cs) =
      bindText vars key (written key) ++ sub (varPattern it.isWord) (bindText vars) cs := by
  have hmatch : varPattern it.isWord ('{' :: ('{' :: key ++ ['}', '}']) ++ cs) =
      some (key, cs) := varPattern_written hkey cs
  exact Scanning.sub_of_some varPattern_lawful hmatch

theorem captures_written (hkey : IsName it key) (cs : List Char) :
    captures (varPattern it.isWord) (written key ++ cs) =
      key :: captures (varPattern it.isWord) cs := by
  have hmatch : varPattern it.isWord ('{' :: ('{' :: key ++ ['}', '}']) ++ cs) =
      some (key, cs) := varPattern_written hkey cs
  exact Scanning.captures_of_some varPattern_lawful hmatch

theorem written_ne_mark (hkey : IsName it key) (hc : c ∈ written key) :
    ¬ (c = '\'' ∨ c = '"') := by
  rintro hmark
  rcases List.mem_append.mp hc with hc | hc
  · rcases List.mem_cons.mp hc with rfl | hc
    · revert hmark
      decide
    · rcases List.mem_cons.mp hc with rfl | hc
      · revert hmark
        decide
      · exact hmark.elim (hkey.ne hc (by decide) (by decide)) (hkey.ne hc (by decide) (by decide))
  · have hbrace : c = '}' := by simpa using hc
    subst hbrace
    revert hmark
    decide

/-- What the first pass has put for a placeholder in quotes, the second one leaves. -/
theorem secondPass_quoted (vars : Variables) (hq : q = '\'' ∨ q = '"') (hkey : IsName it key)
    (cs : List Char) :
    sub (varPattern it.isWord) (bindText vars)
        (bindText vars key (q :: written key ++ [q]) ++ cs) =
      bindText vars key (q :: written key ++ [q]) ++ sub (varPattern it.isWord) (bindText vars) cs ∧
    ∀ key' ∈ captures (varPattern it.isWord) cs,
      key' ∈ captures (varPattern it.isWord)
        (bindText vars key (q :: written key ++ [q]) ++ cs) := by
  have hmark : ∀ d ∈ [q], ∀ rest, varPattern it.isWord (d :: rest) = none := by
    intro d hd rest
    obtain rfl : d = q := by simpa using hd
    rcases hq with rfl | rfl <;> exact varPattern_none (by decide) rest
  by_cases hresolved : (vars.lookup (String.ofList key)).isSome = true
  · have hbind : ∀ d ∈ ':' :: key, ∀ rest, varPattern it.isWord (d :: rest) = none := by
      intro d hd rest
      rcases List.mem_cons.mp hd with rfl | hd
      · exact varPattern_none (by decide) rest
      · exact varPattern_none (hkey.ne hd (by decide) (by decide)) rest
    rw [bindText, if_pos hresolved]
    exact ⟨Scanning.sub_append hbind cs, fun key' hkey' => by
      rw [Scanning.captures_append hbind]
      exact hkey'⟩
  · have htext : bindText vars key (q :: written key ++ [q]) ++ cs =
        [q] ++ (written key ++ ([q] ++ cs)) := by
      rw [bindText, if_neg hresolved]
      simp
    rw [htext, Scanning.sub_append hmark, sub_written hkey, Scanning.sub_append hmark,
      Scanning.captures_append hmark, captures_written hkey, Scanning.captures_append hmark]
    refine ⟨by simp [bindText, hresolved], fun key' hkey' => List.mem_cons_of_mem key hkey'⟩

/-- The keys that the two passes bind. -/
def boundKeys (it : Interpreter) (vars : Variables) (query : List Char) : List (List Char) :=
  (captures (quotedVar it.isWord) query).map Prod.snd ++
    captures (varPattern it.isWord) (quotedPass it vars query)

/-- The two passes are one, and bind what that finds. -/
theorem passes_eq (it : Interpreter) (vars : Variables) (query : List Char) :
    sub (varPattern it.isWord) (bindText vars) (quotedPass it vars query) =
        sub (placeholder it.isWord) (Placeholder.replace vars) query ∧
      ∀ p ∈ captures (placeholder it.isWord) query,
        (vars.lookup (String.ofList p.key)).isSome = true → p.key ∈ boundKeys it vars query := by
  have hlawful : (placeholder it.isWord).Lawful := placeholder_lawful
  induction query using Scanning.scan_induction hlawful with
  | nil => exact ⟨rfl, fun p hp => by cases hp⟩
  | char c cs hnone ih =>
      have hquoted : quotedVar it.isWord (c :: cs) = none := by
        cases hquoted : quotedVar it.isWord (c :: cs) with
        | none => rfl
        | some r =>
            obtain ⟨⟨q, key⟩, after⟩ := r
            rw [placeholder, hquoted] at hnone
            cases hnone
      have hpass : quotedPass it vars (c :: cs) = c :: quotedPass it vars cs :=
        Scanning.sub_of_none hquoted
      have hvar : varPattern it.isWord (c :: quotedPass it vars cs) = none :=
        varPattern_quotedPass hnone
      rw [hpass, Scanning.sub_of_none hvar, Scanning.sub_of_none hnone, ih.1]
      refine ⟨rfl, fun p hp hresolved => ?_⟩
      rw [Scanning.captures_of_none hnone] at hp
      rw [boundKeys, Scanning.captures_of_none hquoted, hpass, Scanning.captures_of_none hvar]
      exact ih.2 p hp hresolved
  | found c tok rest p hsome ih =>
      rw [Scanning.sub_of_some hlawful hsome, Scanning.captures_of_some hlawful hsome]
      obtain ⟨hsource, hname, ⟨q, hquote, hmark, hquoted⟩ | ⟨hquote, hquoted, hvar⟩⟩ :=
        placeholder_eq hsome
      · -- in quotes: the first pass takes it, or both leave it
        have hpass : quotedPass it vars (c :: tok ++ rest) =
            bindText vars p.key (c :: tok) ++ quotedPass it vars rest :=
          Scanning.sub_of_some quotedVar_lawful hquoted
        have htext : c :: tok = q :: written p.key ++ [q] := by
          rw [Placeholder.source, hquote] at hsource
          exact List.append_cancel_right hsource
        obtain ⟨hsub, hcaptures⟩ := secondPass_quoted vars hmark hname (quotedPass it vars rest)
        rw [hpass, htext, hsub, ih.1]
        refine ⟨rfl, fun p' hp' hresolved => ?_⟩
        rw [← htext, boundKeys, Scanning.captures_of_some quotedVar_lawful hquoted, hpass, htext,
          List.mem_append, List.map_cons, List.mem_cons]
        rcases List.mem_cons.mp hp' with rfl | hp'
        · exact .inl (.inl rfl)
        · exact (List.mem_append.mp (ih.2 p' hp' hresolved)).imp .inr (hcaptures _)
      · -- without quotes: the first pass copies it, and the second one takes it
        have htext : c :: tok = written p.key := by
          rw [Placeholder.source, hquote] at hsource
          simpa using List.append_cancel_right hsource
        have hcopied : ∀ d ∈ written p.key, ∀ rest, quotedVar it.isWord (d :: rest) = none :=
          fun d hd => quotedVar_none (written_ne_mark hname hd)
        have hpass : quotedPass it vars (written p.key ++ rest) =
            written p.key ++ quotedPass it vars rest := Scanning.sub_append hcopied rest
        rw [htext, hpass, sub_written hname, ih.1]
        refine ⟨rfl, fun p' hp' hresolved => ?_⟩
        rw [boundKeys, Scanning.captures_append hcopied, hpass, captures_written hname,
          List.mem_append, List.mem_cons]
        rcases List.mem_cons.mp hp' with rfl | hp'
        · exact .inr (.inl rfl)
        · exact (List.mem_append.mp (ih.2 p' hp' hresolved)).imp_right .inr

/-! ## The binds -/

theorem addBinds_lookup (vars : Variables) (keys : List (List Char)) (binds : Variables)
    (name : String) :
    (addBinds vars binds keys).lookup name =
      if name ∈ keys.map String.ofList ∧ (vars.lookup name).isSome = true then vars.lookup name
      else binds.lookup name := by
  induction keys generalizing binds with
  | nil => simp [addBinds]
  | cons key keys ih =>
      have hstep : addBinds vars binds (key :: keys) =
          addBinds vars (addBinds vars binds [key]) keys := rfl
      have hone : (addBinds vars binds [key]).lookup name =
          if name = String.ofList key ∧ (vars.lookup name).isSome = true then vars.lookup name
          else binds.lookup name := by
        by_cases hname : name = String.ofList key
        · subst hname
          cases hlookup : vars.lookup (String.ofList key) with
          | none => simp [addBinds, hlookup]
          | some v => simp [addBinds, hlookup, AList.lookup_insert]
        · rw [if_neg fun h => hname h.1]
          cases hlookup : vars.lookup (String.ofList key) with
          | none => simp [addBinds, hlookup]
          | some v => simp [addBinds, hlookup, AList.lookup_insert_ne hname]
      rw [hstep, ih, hone]
      by_cases hresolved : (vars.lookup name).isSome = true
      · by_cases hmem : name ∈ keys.map String.ofList <;> simp [hresolved, hmem]
      · simp [hresolved]

/-- Without variables nothing is replaced. -/
theorem replace_empty (h : vars.entries.isEmpty = true) (text : List Char) :
    p.replace vars text = text := by
  have hlookup : vars.lookup (String.ofList p.key) = none := by
    rw [AList.lookup_eq_none, AList.mem_keys, AList.keys, List.isEmpty_iff.mp h]
    simp
  rw [Placeholder.replace, bindText, hlookup]
  rfl

/-- The text is the template with its placeholders replaced. -/
theorem sqlParameterize_text (it : Interpreter) (vars : Variables) (query : List Char) :
    (sqlParameterize it.isWord query vars).1 =
      sub (placeholder it.isWord) (Placeholder.replace vars) query := by
  unfold sqlParameterize
  split
  next hempty =>
    rcases Bool.or_eq_true_iff.mp hempty with hquery | hvars
    · rw [List.isEmpty_iff.mp hquery]
      rfl
    · have hid : Placeholder.replace vars = fun _ text => text := by
        funext p text
        exact replace_empty hvars text
      rw [hid, Scanning.sub_id placeholder_lawful]
  next => exact (passes_eq it vars query).1

/-- Each placeholder of a variable has its bind. -/
theorem sqlParameterize_binds {query : List Char} {v : Value}
    (hp : p ∈ captures (placeholder it.isWord) query)
    (hv : vars.lookup (String.ofList p.key) = some v) :
    (sqlParameterize it.isWord query vars).2.lookup (String.ofList p.key) = some v := by
  have hresolved : (vars.lookup (String.ofList p.key)).isSome = true := by rw [hv]; rfl
  unfold sqlParameterize
  split
  next hempty =>
    rcases Bool.or_eq_true_iff.mp hempty with hquery | hvars
    · rw [List.isEmpty_iff.mp hquery] at hp
      cases hp
    · have hnone : vars.lookup (String.ofList p.key) = none := by
        rw [AList.lookup_eq_none, AList.mem_keys, AList.keys, List.isEmpty_iff.mp hvars]
        simp
      rw [hnone] at hv
      cases hv
  next =>
    have hmem := (passes_eq it vars query).2 p hp hresolved
    simp only [addBinds_lookup]
    rcases List.mem_append.mp hmem with hquoted | hplain
    · have hname : String.ofList p.key ∈
          ((captures (quotedVar it.isWord) query).map Prod.snd).map String.ofList :=
        List.mem_map_of_mem hquoted
      rw [if_pos (⟨hname, hresolved⟩ : _ ∧ _), hv, ite_self]
    · have hname : String.ofList p.key ∈
          (captures (varPattern it.isWord) (quotedPass it vars query)).map String.ofList :=
        List.mem_map_of_mem hplain
      rw [if_pos ⟨hname, hresolved⟩, hv]

/-! ## Literals -/

/-- Part of a template, and what becomes of it -/
def sourceOf (ps : List (Piece Placeholder)) : List Char :=
  ps.flatMap (Piece.replace fun _ text => text)

def resultOf (vars : Variables) (ps : List (Piece Placeholder)) : List Char :=
  ps.flatMap (Piece.replace (Placeholder.replace vars))

theorem IsName.isPlain (hkey : IsName it key) (hc : c ∈ key) : IsPlain c := by
  intro hmark
  simp only [List.mem_cons, List.not_mem_nil, or_false] at hmark
  have hne : ∀ d ∈ ['\'', '"', '-', '/', '*', '!', '\n'], c ≠ d := by
    intro d hd
    have hascii : ∀ d ∈ ['\'', '"', '-', '/', '*', '!', '\n'],
        d.toNat < 128 ∧ (d.isAlphanum || d == '_') = false := forall_mem_of_all (by decide)
    exact hkey.ne hc (hascii d hd).1 (hascii d hd).2
  exact hne c (by simpa using hmark) rfl

/-- A placeholder, without its quotes, is plain text. -/
theorem isPlain_written (hkey : IsName it key) (hc : c ∈ written key) : IsPlain c := by
  have hbraces : ∀ d ∈ ['{', '}'], IsPlain d := by
    unfold IsPlain
    exact forall_mem_of_all (by decide)
  simp only [written, List.mem_append, List.mem_cons, List.not_mem_nil, or_false,
    List.cons_append] at hc
  rcases hc with rfl | rfl | hc | rfl | rfl
  · exact hbraces _ (by decide)
  · exact hbraces _ (by decide)
  · exact hkey.isPlain hc
  · exact hbraces _ (by decide)
  · exact hbraces _ (by decide)

theorem read_source (hname : IsName it p.key) (hmark : ∀ q ∈ p.quote, q = '\'' ∨ q = '"')
    (s : State) : (readFrom s p.source).between = s.settle := by
  have hplain : ∀ d ∈ '{' :: ('{' :: p.key ++ ['}', '}']), IsPlain d := fun d hd =>
    isPlain_written hname hd
  obtain ⟨quote, key⟩ := p
  cases quote with
  | none =>
      have hsource : Placeholder.source ⟨none, key⟩ = '{' :: ('{' :: key ++ ['}', '}']) := by
        simp [Placeholder.source, written]
      rw [hsource]
      exact SqlText.readFrom_plain (by decide) hplain
  | some q => exact SqlText.readFrom_quoted (hmark q rfl) (by decide) hplain

/-- The result is read as the template is, up to the ends of words. -/
theorem read_resultOf (it : Interpreter) (vars : Variables) (ps : List (Piece Placeholder))
    (hps : ∀ p text, .found p text ∈ ps → text = p.source ∧ IsName it p.key ∧
      ∀ q ∈ p.quote, q = '\'' ∨ q = '"')
    {s s' : State} (h : s.between = s'.between) :
    (readFrom s (resultOf vars ps)).between = (readFrom s' (sourceOf ps)).between := by
  induction ps generalizing s s' with
  | nil => exact h
  | cons piece ps ih =>
      have hrest := fun p text hmem => hps p text (List.mem_cons_of_mem piece hmem)
      rw [resultOf, sourceOf, List.flatMap_cons, List.flatMap_cons, SqlText.readFrom_append,
        SqlText.readFrom_append]
      refine ih hrest ?_
      cases piece with
      | char c => exact SqlText.readFrom_between h [c]
      | found p text =>
          obtain ⟨rfl, hname, hmark⟩ := hps p text List.mem_cons_self
          have hsource : (readFrom s' p.source).between = s'.settle :=
            read_source hname hmark s'
          rw [Piece.replace, Piece.replace, hsource, Placeholder.replace, bindText]
          split
          next =>
            rw [← SqlText.settle_congr h]
            refine SqlText.readFrom_plain (by decide) fun d hd => ?_
            rcases List.mem_cons.mp hd with rfl | hd
            · unfold IsPlain
              decide
            · exact hname.isPlain hd
          next =>
            rw [SqlText.readFrom_between h, hsource]

/-! ## Where placeholders are -/

/-- The placeholder is what the passes find between the two parts of the query. -/
def PlaceholderAt (it : Interpreter) (query : List Char) (ps : List (Piece Placeholder))
    (p : Placeholder) (qs : List (Piece Placeholder)) : Prop :=
  ∃ text, scan (placeholder it.isWord) query = ps ++ .found p text :: qs

/-- Text without opening braces holds no placeholder. -/
theorem append_braces {tok text before after : List Char} (h : ∀ d ∈ tok, d ≠ '{')
    (heq : tok ++ text = before ++ '{' :: after) :
    ∃ before', before = tok ++ before' ∧ text = before' ++ '{' :: after := by
  induction tok generalizing before with
  | nil => exact ⟨before, rfl, heq⟩
  | cons d tok ih =>
      cases before with
      | nil => exact absurd (List.cons.inj heq).1 (h d List.mem_cons_self)
      | cons e before =>
          obtain ⟨rfl, htail⟩ := List.cons.inj heq
          obtain ⟨before', rfl, htext⟩ := ih (fun e he => h e (List.mem_cons_of_mem d he)) htail
          exact ⟨before', rfl, htext⟩

/-- Placeholders do not overlap. -/
theorem source_append {before after : List Char} (hname : IsName it p.key)
    (hmark : ∀ q ∈ p.quote, q = '\'' ∨ q = '"') (hkey : IsName it key)
    (heq : p.source ++ rest = before ++ written key ++ after) :
    (p.quote.toList = before ∧ p.key = key) ∨
      ∃ before', before = p.source ++ before' ∧ rest = before' ++ written key ++ after := by
  have hquote : ∀ d ∈ p.quote.toList, d ≠ '{' := by
    intro d hd hbrace
    subst hbrace
    exact absurd (hmark _ (Option.mem_toList.mp hd)) (by decide)
  have hsource :
      p.quote.toList ++ ('{' :: '{' :: (p.key ++ '}' :: '}' :: (p.quote.toList ++ rest))) =
        before ++ '{' :: ('{' :: (key ++ '}' :: '}' :: after)) := by
    simpa [Placeholder.source, written] using heq
  obtain ⟨before', rfl, hrest⟩ := append_braces hquote hsource
  cases before' with
  | nil =>
      have hleft := varPattern_written hname (p.quote.toList ++ rest)
      have hright := varPattern_written hkey after
      simp only [written, List.cons_append, List.append_assoc, List.nil_append] at hleft hright
      rw [hrest, List.nil_append, hright] at hleft
      obtain ⟨hsame, -⟩ := Prod.mk.inj (Option.some.inj hleft)
      exact .inl ⟨by simp, hsame.symm⟩
  | cons d before' =>
      obtain ⟨rfl, hsecond⟩ := List.cons.inj hrest
      cases before' with
      | nil =>
          -- a second brace, and then a name
          obtain ⟨c, cs, hcs⟩ := List.exists_cons_of_ne_nil hname.1
          have hhead := (List.cons.inj hsecond).2
          rw [hcs] at hhead
          have hc : c ∈ p.key := by simp [hcs]
          exact absurd (List.cons.inj hhead).1 (hname.ne hc (by decide) (by decide))
      | cons e before' =>
          obtain ⟨rfl, hthird⟩ := List.cons.inj hsecond
          have hclean : ∀ d ∈ p.key ++ '}' :: '}' :: p.quote.toList, d ≠ '{' := by
            intro d hd
            simp only [List.mem_append, List.mem_cons] at hd
            rcases hd with hd | rfl | rfl | hd
            · exact hname.ne hd (by decide) (by decide)
            · decide
            · decide
            · exact hquote d hd
          have hrest' : (p.key ++ '}' :: '}' :: p.quote.toList) ++ rest =
              before' ++ '{' :: ('{' :: (key ++ '}' :: '}' :: after)) := by
            simpa using hthird
          obtain ⟨before'', rfl, hafter⟩ := append_braces hclean hrest'
          exact .inr ⟨before'', by simp [Placeholder.source, written], by
            simpa [written] using hafter⟩

/-- Every placeholder of the query is found. -/
theorem exists_placeholderAt {query before after : List Char} (hkey : IsName it key)
    (heq : query = before ++ written key ++ after) :
    ∃ ps p qs, PlaceholderAt it query ps p qs ∧ p.key = key ∧
      sourceOf ps ++ p.quote.toList = before := by
  have hlawful : (placeholder it.isWord).Lawful := placeholder_lawful
  induction query using Scanning.scan_induction hlawful generalizing before with
  | nil => simp [written] at heq
  | char c cs hnone ih =>
      cases before with
      | nil =>
          have hthere := varPattern_written hkey after
          rw [← List.nil_append (written key), ← heq] at hthere
          rw [placeholder] at hnone
          cases hquoted : quotedVar it.isWord (c :: cs) with
          | some r =>
              rw [hquoted] at hnone
              cases hnone
          | none =>
              rw [hquoted, hthere] at hnone
              cases hnone
      | cons d before =>
          obtain ⟨rfl, hcs⟩ := List.cons.inj heq
          obtain ⟨ps, p, qs, ⟨text, hscan⟩, hp, hbefore⟩ := ih hcs
          refine ⟨.char c :: ps, p, qs, ⟨text, ?_⟩, hp, ?_⟩
          · rw [Scanning.scan_of_none hnone, hscan]
            rfl
          · rw [← hbefore]
            rfl
  | found c tok rest p hsome ih =>
      obtain ⟨hsource, hname, -⟩ := placeholder_eq hsome
      have hmark := placeholder_mark hsome
      rw [hsource] at heq
      rcases source_append hname hmark hkey heq with ⟨rfl, hsame⟩ | ⟨before', rfl, hrest⟩
      · exact ⟨[], p, scan (placeholder it.isWord) rest,
          ⟨c :: tok, Scanning.scan_of_some hlawful hsome⟩, hsame, rfl⟩
      · obtain ⟨ps, p', qs, ⟨text, hscan⟩, hp, hbefore⟩ := ih hrest
        refine ⟨.found p (c :: tok) :: ps, p', qs, ⟨text, ?_⟩, hp, ?_⟩
        · rw [Scanning.scan_of_some hlawful hsome, hscan]
          rfl
        · have htext : c :: tok = p.source := List.append_cancel_right hsource
          rw [← hbefore, htext]
          simp [sourceOf, Piece.replace]

/-! ## What is read as a bind -/

/-- The characters that may not stand next to the bind `:key`. `text` reads
`(?<![:\w\x5c]):(\w+)(?!:)`, and the compiler `(?<![:\w\$\x5c]):([\w\$]+)(?![:\w\$])`; a
backslash escapes the colon. -/
def JoinsBefore (it : Interpreter) (c : Char) : Prop :=
  c = ':' ∨ c = '$' ∨ c = '\\' ∨ it.isWord c = true

def JoinsAfter (it : Interpreter) (c : Char) : Prop :=
  c = ':' ∨ c = '$' ∨ it.isWord c = true

/-- Between the two texts `:key` is read as the bind of that name. -/
def Delimits (it : Interpreter) (before after : List Char) : Prop :=
  (∀ c, before.getLast? = some c → ¬ JoinsBefore it c) ∧
    ∀ c, after.head? = some c → ¬ JoinsAfter it c

/-- What stands before a placeholder in the template leaves its bind one. -/
def SeparatesBefore (it : Interpreter) (vars : Variables) : Piece Placeholder → Prop
  | .char c => ¬ JoinsBefore it c
  | .found p _ => (vars.lookup (String.ofList p.key)).isSome = false

def SeparatesAfter (it : Interpreter) (vars : Variables) : Piece Placeholder → Prop
  | .char c => ¬ JoinsAfter it c
  | .found p _ => (vars.lookup (String.ofList p.key)).isSome = false

/-- The first character of a placeholder is a brace or a quote. -/
theorem source_head (hmark : ∀ q ∈ p.quote, q = '\'' ∨ q = '"') :
    ∃ c cs, p.source = c :: cs ∧ (c = '{' ∨ c = '\'' ∨ c = '"') := by
  obtain ⟨quote, key⟩ := p
  cases quote with
  | none => exact ⟨'{', _, rfl, .inl rfl⟩
  | some q => exact ⟨q, _, rfl, .inr (hmark q rfl)⟩

/-- The last one is a brace or a quote. -/
theorem source_getLast (hmark : ∀ q ∈ p.quote, q = '\'' ∨ q = '"') :
    ∃ c, p.source.getLast? = some c ∧ (c = '}' ∨ c = '\'' ∨ c = '"') := by
  obtain ⟨quote, key⟩ := p
  cases quote with
  | none =>
      have hsource : Placeholder.source ⟨none, key⟩ = ('{' :: '{' :: key ++ ['}']) ++ ['}'] := by
        simp [Placeholder.source, written]
      exact ⟨'}', by rw [hsource, List.getLast?_concat], .inl rfl⟩
  | some q =>
      have hsource : Placeholder.source ⟨some q, key⟩ = (q :: written key) ++ [q] := rfl
      exact ⟨q, by rw [hsource, List.getLast?_concat], .inr (hmark q rfl)⟩

theorem not_joinsBefore_mark (it : Interpreter) (hc : c ∈ ['{', '}', '\'', '"']) : ¬ JoinsBefore it c := by
  have hall : ∀ d ∈ ['{', '}', '\'', '"'], d.toNat < 128 ∧ (d.isAlphanum || d == '_') = false ∧
      d ≠ ':' ∧ d ≠ '$' ∧ d ≠ '\\' := forall_mem_of_all (by decide)
  obtain ⟨hascii, hword, hcolon, hdollar, hslash⟩ := hall c hc
  rintro (h | h | h | h)
  · exact hcolon h
  · exact hdollar h
  · exact hslash h
  · rw [it.isWord_ascii c hascii, hword] at h
    cases h

theorem not_joinsAfter_mark (hc : c ∈ ['{', '}', '\'', '"']) : ¬ JoinsAfter it c := by
  intro h
  refine not_joinsBefore_mark it hc ?_
  exact h.imp_right fun h => h.imp_right .inr

/-- What a piece becomes ends like a bind exactly if it was one, or ends so by itself. -/
theorem replace_getLast (vars : Variables) (piece : Piece Placeholder)
    (hpiece : ∀ p text, piece = .found p text → text = p.source ∧ IsName it p.key ∧
      ∀ q ∈ p.quote, q = '\'' ∨ q = '"') :
    ∃ c, (piece.replace (Placeholder.replace vars)).getLast? = some c ∧
      (JoinsBefore it c ↔ ¬ SeparatesBefore it vars piece) := by
  cases piece with
  | char c => exact ⟨c, rfl, not_not.symm⟩
  | found p text =>
      obtain ⟨rfl, hname, hmark⟩ := hpiece p text rfl
      rw [Piece.replace, Placeholder.replace, bindText, SeparatesBefore, Bool.not_eq_false]
      split
      next hresolved =>
        have hne : p.key ≠ [] := hname.1
        refine ⟨p.key.getLast hne, ?_, iff_of_true (.inr (.inr (.inr ?_))) hresolved⟩
        · rw [List.getLast?_cons_of_ne_nil hne, List.getLast?_eq_some_getLast hne]
        · exact hname.2 _ (List.getLast_mem hne)
      next hresolved =>
        obtain ⟨c, hlast, hc⟩ := source_getLast hmark
        refine ⟨c, hlast, iff_of_false (not_joinsBefore_mark it ?_) hresolved⟩
        rcases hc with rfl | rfl | rfl <;> decide

/-- The same of how it starts. -/
theorem replace_head (vars : Variables) (piece : Piece Placeholder)
    (hpiece : ∀ p text, piece = .found p text → text = p.source ∧ IsName it p.key ∧
      ∀ q ∈ p.quote, q = '\'' ∨ q = '"') :
    ∃ c, (piece.replace (Placeholder.replace vars)).head? = some c ∧
      (JoinsAfter it c ↔ ¬ SeparatesAfter it vars piece) := by
  cases piece with
  | char c => exact ⟨c, rfl, not_not.symm⟩
  | found p text =>
      obtain ⟨rfl, hname, hmark⟩ := hpiece p text rfl
      rw [Piece.replace, Placeholder.replace, bindText, SeparatesAfter, Bool.not_eq_false]
      split
      next hresolved => exact ⟨':', rfl, iff_of_true (.inl rfl) hresolved⟩
      next hresolved =>
        obtain ⟨c, cs, hsource, hc⟩ := source_head hmark
        refine ⟨c, by rw [hsource]; rfl, iff_of_false (not_joinsAfter_mark ?_) hresolved⟩
        rcases hc with rfl | rfl | rfl <;> decide

/-! ## Main results -/

/-- The text depends on the names of the variables only; every placeholder of a variable becomes a
bind of its value, which is in no string literal and is read as that bind. -/
structure Parameterizes (it : Interpreter) (vars : Variables) (query : List Char) : Prop where
  names : ∀ vars' : Variables,
    (∀ name, (vars'.lookup name).isSome = (vars.lookup name).isSome) →
      (sqlParameterize it.isWord query vars').1 = (sqlParameterize it.isWord query vars).1
  found : ∀ before key after, IsName it key → query = before ++ written key ++ after →
    ∃ ps p qs, PlaceholderAt it query ps p qs ∧ p.key = key ∧
      sourceOf ps ++ p.quote.toList = before
  binds : ∀ ps p qs v, PlaceholderAt it query ps p qs →
    vars.lookup (String.ofList p.key) = some v →
      (sqlParameterize it.isWord query vars).1 =
          resultOf vars ps ++ ':' :: p.key ++ resultOf vars qs ∧
        (sqlParameterize it.isWord query vars).2.lookup (String.ofList p.key) = some v
  outside : ∀ ps p qs, PlaceholderAt it query ps p qs →
    (vars.lookup (String.ofList p.key)).isSome = true →
      (read (resultOf vars ps)).inLiteral = false
  delimited : ∀ ps p qs, PlaceholderAt it query ps p qs →
    (vars.lookup (String.ofList p.key)).isSome = true →
      Delimits it (resultOf vars ps) (resultOf vars qs)

/-- No placeholder of a variable starts, with the quotes that are taken with it, in a string
literal of the template. -/
def OutsideLiterals (it : Interpreter) (vars : Variables) (query : List Char) : Prop :=
  ∀ ps p qs, PlaceholderAt it query ps p qs →
    (vars.lookup (String.ofList p.key)).isSome = true → (read (sourceOf ps)).inLiteral = false

/-- Next to a placeholder of a variable, with its quotes, is neither another one nor a character
that a bind would be read with. -/
def Separated (it : Interpreter) (vars : Variables) (query : List Char) : Prop :=
  ∀ ps p qs, PlaceholderAt it query ps p qs →
    (vars.lookup (String.ofList p.key)).isSome = true →
      (∀ piece, ps.getLast? = some piece → SeparatesBefore it vars piece) ∧
        ∀ piece, qs.head? = some piece → SeparatesAfter it vars piece

/-- A bind is read as one exactly where its placeholder is separated. -/
theorem delimits_iff {ps qs : List (Piece Placeholder)}
    (hps : ∀ p text, .found p text ∈ ps → text = p.source ∧ IsName it p.key ∧
      ∀ q ∈ p.quote, q = '\'' ∨ q = '"')
    (hqs : ∀ p text, .found p text ∈ qs → text = p.source ∧ IsName it p.key ∧
      ∀ q ∈ p.quote, q = '\'' ∨ q = '"') :
    Delimits it (resultOf vars ps) (resultOf vars qs) ↔
      (∀ piece, ps.getLast? = some piece → SeparatesBefore it vars piece) ∧
        ∀ piece, qs.head? = some piece → SeparatesAfter it vars piece := by
  refine and_congr ?_ ?_
  · rcases List.eq_nil_or_concat ps with rfl | ⟨ps, piece, rfl⟩
    · simp [resultOf]
    · obtain ⟨c, hlast, hc⟩ := replace_getLast vars piece
        fun p text h => hps p text (by simp [h])
      simp [resultOf, hlast, hc]
  · cases qs with
    | nil => simp [resultOf]
    | cons piece qs =>
        obtain ⟨c, hhead, hc⟩ := replace_head vars piece
          fun p text h => hqs p text (by simp [h])
        simp [resultOf, hhead, hc]

theorem parameterizes_iff (it : Interpreter) (vars : Variables) (query : List Char) :
    Parameterizes it vars query ↔
      OutsideLiterals it vars query ∧ Separated it vars query := by
  have hlawful : (placeholder it.isWord).Lawful := placeholder_lawful
  have hpieces : ∀ p text, .found p text ∈ scan (placeholder it.isWord) query →
      text = p.source ∧ IsName it p.key ∧ ∀ q ∈ p.quote, q = '\'' ∨ q = '"' := by
    intro p text hmem
    obtain ⟨rest, hmatch⟩ := Scanning.found_of_mem_scan hlawful hmem
    obtain ⟨hsource, hname, -⟩ := placeholder_eq hmatch
    exact ⟨List.append_cancel_right hsource, hname, placeholder_mark hmatch⟩
  have hdelimits : ∀ ps p qs, PlaceholderAt it query ps p qs →
      (Delimits it (resultOf vars ps) (resultOf vars qs) ↔
        (∀ piece, ps.getLast? = some piece → SeparatesBefore it vars piece) ∧
          ∀ piece, qs.head? = some piece → SeparatesAfter it vars piece) := by
    rintro ps p qs ⟨text, hscan⟩
    rw [hscan] at hpieces
    exact delimits_iff (fun p' text' hmem => hpieces p' text' (List.mem_append_left _ hmem))
      fun p' text' hmem =>
        hpieces p' text' (List.mem_append_right _ (List.mem_cons_of_mem _ hmem))
  have hread : ∀ ps p qs, PlaceholderAt it query ps p qs →
      (read (resultOf vars ps)).inLiteral = (read (sourceOf ps)).inLiteral := by
    rintro ps p qs ⟨text, hscan⟩
    have hps : ∀ p text, .found p text ∈ ps → text = p.source ∧ IsName it p.key ∧
        ∀ q ∈ p.quote, q = '\'' ∨ q = '"' := fun p' text' hmem =>
      hpieces p' text' (hscan ▸ List.mem_append_left _ hmem)
    have hbetween : (readFrom {} (resultOf vars ps)).between =
        (readFrom {} (sourceOf ps)).between := read_resultOf it vars ps hps rfl
    rw [← SqlText.between_inLiteral, ← SqlText.between_inLiteral (read (sourceOf ps))]
    exact congrArg State.inLiteral hbetween
  constructor
  · intro h
    refine ⟨fun ps p qs hat hresolved => ?_, fun ps p qs hat hresolved => ?_⟩
    · rw [← hread ps p qs hat]
      exact h.outside ps p qs hat hresolved
    · exact (hdelimits ps p qs hat).mp (h.delimited ps p qs hat hresolved)
  · rintro ⟨houtside, hseparated⟩
    refine ⟨fun vars' hnames => ?_, fun before key after hkey heq => exists_placeholderAt hkey heq,
      fun ps p qs v hat hv => ?_, fun ps p qs hat hresolved => ?_,
      fun ps p qs hat hresolved =>
        (hdelimits ps p qs hat).mpr (hseparated ps p qs hat hresolved)⟩
    · have hreplace : Placeholder.replace vars' = Placeholder.replace vars := by
        funext p text
        rw [Placeholder.replace, Placeholder.replace, bindText, bindText, hnames]
      rw [sqlParameterize_text, sqlParameterize_text, hreplace]
    · obtain ⟨text, hscan⟩ := hat
      have hresolved : (vars.lookup (String.ofList p.key)).isSome = true := by rw [hv]; rfl
      refine ⟨?_, sqlParameterize_binds ?_ hv⟩
      · rw [sqlParameterize_text, sub, hscan, List.flatMap_append, List.flatMap_cons]
        simp [resultOf, Piece.replace, Placeholder.replace, bindText, hresolved]
      · rw [captures, hscan, List.filterMap_append]
        simp
    · rw [hread ps p qs hat]
      exact houtside ps p qs hat hresolved

/-- The bind of a pattern stays in its quotes. -/
theorem bind_in_pattern : ¬ ∀ it vars query, Parameterizes it vars query := by
  intro h
  have hat : PlaceholderAt .ascii "SELECT * FROM t WHERE a LIKE '%\x7b\x7ba\x7d\x7d%'".toList
      ("SELECT * FROM t WHERE a LIKE '%".toList.map Piece.char) ⟨none, ['a']⟩
      ("%'".toList.map Piece.char) := ⟨"\x7b\x7ba\x7d\x7d".toList, rfl⟩
  have hfalse := (h .ascii (AList.insert "a" (.str "x") ∅) _).outside _ _ _ hat rfl
  revert hfalse
  decide +kernel

end SqlParameters

end CitraFlows
