-- SUMMARY: What the two read-only guards admit: single queries, where the comments they strip are those of SQL and no separator or INTO is left.
import CitraFlows.Agents.ReadOnly
import CitraFlows.Lib.Scanning
import CitraFlows.Lib.SqlText
import Mathlib

/-!
# The read-only guards on SQL

`_validate_readonly_sql` and `SQLSourceNode` strip what two regular expressions take for comments,
and look for keywords in the rest. `SingleRead` is about the text as SQL reads it, where `/*` in a
literal is no comment.
-/

namespace CitraFlows

open Agent (Interpreter validateReadonlySql afterBlock stripBlockComments stripLineComments
  noComments firstWord hasWord destructiveSqlKw)
open Python (strip isspace)
open Scanning (Pattern Spared sub)
open SqlText (isIdent read WordAt KeywordAt SeparatorAt InOrder)

namespace SqlGuards

/-- What remains of a text for the keyword scan: `_upper` -/
def upperText (it : Interpreter) (text : List Char) : List Char :=
  (strip (noComments (strip text))).flatMap it.upper

/-- The guard of `SQLSourceNode.execute` -/
def sqlSourceGuard (it : Interpreter) (parameterizedQuery : String) : Except PyError Unit :=
  let upper := upperText it parameterizedQuery.toList
  if firstWord upper ≠ "SELECT".toList ∧ firstWord upper ≠ "WITH".toList then
    .error (.valueError "Only SELECT queries are allowed in source nodes")
  else
    match it.keywords.find? fun kw => hasWord it.isWord kw.toList false upper with
    | some kw =>
        .error (.valueError
          ("Destructive SQL keyword '" ++ kw ++ "' is not allowed in source nodes"))
    | none => .ok ()

/-- What remains starts as a query, and has none of the keywords as a word. -/
def Readable (it : Interpreter) (text : List Char) : Prop :=
  (firstWord (upperText it text) = "SELECT".toList ∨
    firstWord (upperText it text) = "WITH".toList) ∧
  ∀ kw ∈ destructiveSqlKw, hasWord it.isWord kw.toList false (upperText it text) = false

theorem sqlSourceGuard_ok {it : Interpreter} {sql : String} :
    sqlSourceGuard it sql = .ok () ↔ Readable it sql.toList := by
  simp only [sqlSourceGuard, Readable]
  split
  next hfirst =>
    constructor
    · intro h
      cases h
    · rintro ⟨hfirst', -⟩
      exact absurd hfirst' (not_or.mpr hfirst)
  next hfirst =>
    have hfirst := (not_and_or.mp hfirst).imp not_not.mp not_not.mp
    rw [← it.find_keyword]
    split
    next kw hfind =>
      constructor
      · intro h
        cases h
      · rintro ⟨-, hnone⟩
        rw [hfind] at hnone
        cases hnone
    next hfind => exact ⟨fun _ => ⟨hfirst, hfind⟩, fun _ => rfl⟩

/-- The guard of the agent looks for separators besides. -/
theorem validateReadonlySql_ok {it : Interpreter} {sql : String} :
    validateReadonlySql it sql = .ok () ↔
      Readable it sql.toList ∧ ';' ∉ noComments (strip sql.toList) := by
  rw [Agent.validateReadonlySql_ok]
  exact ⟨fun ⟨hfirst, hsemi, hkw⟩ => ⟨⟨hfirst, hkw⟩, hsemi⟩,
    fun ⟨⟨hfirst, hkw⟩, hsemi⟩ => ⟨hfirst, hsemi, hkw⟩⟩

/-! ## Queries -/

/-- The keywords that modify data or create objects. -/
def modifyingKeywords : List String :=
  ["INSERT", "UPDATE", "DELETE", "MERGE", "DROP", "ALTER", "CREATE", "TRUNCATE", "GRANT", "REVOKE",
    "EXEC"]

/-- As SQL reads it, the text is a single statement that modifies nothing. -/
structure SingleRead (cs : List Char) : Prop where
  single : ∀ before after, cs = before ++ ';' :: after → ¬ SeparatorAt before after
  reads : ∀ kw ∈ modifyingKeywords, ∀ before w after, cs = before ++ w ++ after →
    ¬ KeywordAt kw.toList before w after
  noInto : ¬ SqlText.InOrder "SELECT".toList "INTO".toList cs

/-! ## What the regular expressions strip -/

/-- `/\*.*?\*/` -/
def blockComment : Pattern Unit
  | '/' :: '*' :: cs => (afterBlock cs).map fun rest => ((), rest)
  | _ => none

/-- `--[^\n]*` -/
def lineComment : Pattern Unit
  | '-' :: '-' :: cs => some ((), cs.dropWhile (· ≠ '\n'))
  | _ => none

/-- What a comment is replaced by. -/
def blank (_ : Unit) (_ : List Char) : List Char := [' ']

theorem afterBlock_eq {cs rest : List Char} (h : afterBlock cs = some rest) :
    ∃ tok, cs = tok ++ rest := by
  fun_induction afterBlock cs with
  | case1 => cases h
  | case2 cs =>
      cases h
      exact ⟨['*', '/'], rfl⟩
  | case3 c cs hne ih =>
      obtain ⟨tok, rfl⟩ := ih h
      exact ⟨c :: tok, rfl⟩

theorem blockComment_lawful : blockComment.Lawful := by
  intro cs a rest h
  unfold blockComment at h
  split at h
  next cs =>
    obtain ⟨rest', hafter, hrest⟩ := Option.map_eq_some_iff.mp h
    cases hrest
    obtain ⟨tok, rfl⟩ := afterBlock_eq hafter
    exact ⟨'/', '*' :: tok, rfl⟩
  next => cases h

theorem lineComment_lawful : lineComment.Lawful := by
  intro cs a rest h
  unfold lineComment at h
  split at h
  next cs =>
    cases h
    exact ⟨'-', '-' :: cs.takeWhile (· ≠ '\n'), by simp [List.takeWhile_append_dropWhile]⟩
  next => cases h

theorem stripBlockComments_cons {fuel : Nat} {c : Char} {cs : List Char}
    (h : blockComment (c :: cs) = none) :
    stripBlockComments (fuel + 1) (c :: cs) = c :: stripBlockComments fuel cs := by
  rw [Agent.stripBlockComments.eq_def]
  split
  next => omega
  next heq => cases heq
  next hfuel heq =>
    cases heq
    cases hfuel
    rw [blockComment, Option.map_eq_none_iff] at h
    rw [h]
  next hfuel heq =>
    cases heq
    cases hfuel
    rfl

theorem stripBlockComments_comment {fuel : Nat} {cs rest : List Char}
    (h : blockComment cs = some ((), rest)) :
    stripBlockComments (fuel + 1) cs = ' ' :: stripBlockComments fuel rest := by
  unfold blockComment at h
  split at h
  next cs =>
    obtain ⟨rest', hafter, hrest⟩ := Option.map_eq_some_iff.mp h
    cases hrest
    rw [stripBlockComments, hafter]
  next => cases h

theorem stripBlockComments_eq (cs : List Char) (fuel : Nat) (h : cs.length ≤ fuel) :
    stripBlockComments fuel cs = sub blockComment blank cs := by
  induction cs using Scanning.scan_induction blockComment_lawful generalizing fuel with
  | nil => cases fuel <;> rfl
  | char c cs hnone ih =>
      obtain ⟨fuel, rfl⟩ : ∃ k, fuel = k + 1 := ⟨fuel - 1, by simp at h; omega⟩
      rw [Scanning.sub_of_none hnone, stripBlockComments_cons hnone, ih fuel (by simpa using h)]
  | found c tok rest a hsome ih =>
      obtain ⟨fuel, rfl⟩ : ∃ k, fuel = k + 1 := ⟨fuel - 1, by simp at h; omega⟩
      have hle : rest.length ≤ fuel := by
        simp only [List.length_append, List.length_cons] at h
        omega
      rw [Scanning.sub_of_some blockComment_lawful hsome, stripBlockComments_comment hsome,
        ih fuel hle]
      rfl

theorem stripLineComments_cons {fuel : Nat} {c : Char} {cs : List Char}
    (h : lineComment (c :: cs) = none) :
    stripLineComments (fuel + 1) (c :: cs) = c :: stripLineComments fuel cs := by
  rw [Agent.stripLineComments.eq_def]
  split
  next => omega
  next heq => cases heq
  next heq =>
    rw [heq] at h
    cases h
  next hfuel heq =>
    cases heq
    cases hfuel
    rfl

theorem stripLineComments_comment {fuel : Nat} {cs rest : List Char}
    (h : lineComment cs = some ((), rest)) :
    stripLineComments (fuel + 1) cs = ' ' :: stripLineComments fuel rest := by
  unfold lineComment at h
  split at h
  next cs =>
    cases h
    rw [stripLineComments]
  next => cases h

theorem stripLineComments_eq (cs : List Char) (fuel : Nat) (h : cs.length ≤ fuel) :
    stripLineComments fuel cs = sub lineComment blank cs := by
  induction cs using Scanning.scan_induction lineComment_lawful generalizing fuel with
  | nil => cases fuel <;> rfl
  | char c cs hnone ih =>
      obtain ⟨fuel, rfl⟩ : ∃ k, fuel = k + 1 := ⟨fuel - 1, by simp at h; omega⟩
      rw [Scanning.sub_of_none hnone, stripLineComments_cons hnone, ih fuel (by simpa using h)]
  | found c tok rest a hsome ih =>
      obtain ⟨fuel, rfl⟩ : ∃ k, fuel = k + 1 := ⟨fuel - 1, by simp at h; omega⟩
      have hle : rest.length ≤ fuel := by
        simp only [List.length_append, List.length_cons] at h
        omega
      rw [Scanning.sub_of_some lineComment_lawful hsome, stripLineComments_comment hsome,
        ih fuel hle]
      rfl

theorem noComments_eq (cs : List Char) :
    noComments cs = sub lineComment blank (sub blockComment blank cs) := by
  rw [noComments, stripLineComments_eq _ _ (Nat.le_refl _), stripBlockComments_eq _ _ (Nat.le_refl _)]

/-! ## What stays in the text -/

/-- `text.lstrip()` -/
def lstrip (cs : List Char) : List Char := cs.dropWhile isspace

/-- `text.rstrip()` -/
def rstrip (cs : List Char) : List Char := (cs.reverse.dropWhile isspace).reverse

/-- Neither of the regular expressions takes the middle part, or some of it, for a comment. -/
def Exposed (before tok after : List Char) : Prop :=
  ∃ before₁ after₁ before₂ after₂,
    Spared blockComment blank (lstrip before) tok (rstrip after) before₁ after₁ ∧
      Spared lineComment blank before₁ tok after₁ before₂ after₂

/-- A part without blanks stands between what is left of the other two. -/
theorem strip_append {before tok after : List Char} (hne : tok ≠ [])
    (htok : ∀ c ∈ tok, isspace c = false) :
    strip (before ++ tok ++ after) = lstrip before ++ tok ++ rstrip after := by
  have hleft : ∀ cs tok rest : List Char, tok ≠ [] → (∀ c ∈ tok, isspace c = false) →
      (cs ++ tok ++ rest).dropWhile isspace = cs.dropWhile isspace ++ tok ++ rest := by
    intro cs tok rest hne htok
    obtain ⟨c, tok, rfl⟩ := List.exists_cons_of_ne_nil hne
    have hc : isspace c = false := htok c List.mem_cons_self
    rw [List.append_assoc, List.dropWhile_append, List.append_assoc]
    split
    next hempty =>
      rw [List.isEmpty_iff.mp hempty, List.cons_append, List.dropWhile_cons, hc]
      rfl
    next => rfl
  have hrev : ∀ c ∈ tok.reverse, isspace c = false := fun c hc => htok c (List.mem_reverse.mp hc)
  rw [strip, hleft _ _ _ hne htok, List.reverse_append, List.reverse_append, ← List.append_assoc,
    hleft _ _ _ (by simpa using hne) hrev]
  simp [lstrip, rstrip, List.append_assoc]

/-- A part that is exposed stays. -/
theorem Exposed.stays {before tok after : List Char} (h : Exposed before tok after)
    (hne : tok ≠ []) (htok : ∀ c ∈ tok, isspace c = false) :
    ∃ before' after', noComments (strip (before ++ tok ++ after)) = before' ++ tok ++ after' := by
  obtain ⟨before₁, after₁, before₂, after₂, hblock, hline⟩ := h
  exact ⟨before₂, after₂, by rw [strip_append hne htok, noComments_eq, hblock.sub_eq, hline.sub_eq]⟩

/-! ## Words that stay -/

theorem hasWord_append {isWord : Char → Bool} {kw before after : List Char} (hne : kw ≠ [])
    {afterWord : Bool} (hstart : before = [] → afterWord = false)
    (hbefore : ∀ c, before.getLast? = some c → isWord c = false)
    (hafter : ∀ c, after.head? = some c → isWord c = false) :
    hasWord isWord kw afterWord (before ++ kw ++ after) = true := by
  induction before generalizing afterWord with
  | nil =>
      obtain ⟨c, kw, rfl⟩ := List.exists_cons_of_ne_nil hne
      have hends : after.head?.any isWord = false := by
        cases hhead : after.head? with
        | none => rfl
        | some d => exact hafter d hhead
      have hmatch : (c :: kw).isPrefixOf (c :: (kw ++ after)) = true := by
        rw [List.isPrefixOf_iff_prefix]
        exact List.prefix_append (c :: kw) after
      rw [List.nil_append, List.cons_append, hasWord, hstart rfl, hmatch]
      simp [hends]
  | cons c before ih =>
      have hrest : hasWord isWord kw (isWord c) (before ++ kw ++ after) = true := by
        refine ih (fun hnil => hbefore c ?_) fun d hd => hbefore d ?_
        · rw [hnil]
          rfl
        · rw [List.getLast?_cons, hd]
          rfl
      rw [List.cons_append, List.cons_append, hasWord, hrest, Bool.or_true]

/-- A character of no word is none for the regular expressions, and is its own capital. -/
theorem upper_of_not_isIdent (it : Interpreter) {c : Char} (h : isIdent c = false) :
    it.upper c = [c] ∧ it.isWord c = false := by
  rw [isIdent, Bool.or_eq_false_iff, decide_eq_false_iff_not, not_le] at h
  obtain ⟨hword, hascii⟩ := h
  have hlower : c.isLower = false := by
    rw [Bool.or_eq_false_iff, Char.isAlphanum, Bool.or_eq_false_iff, Char.isAlpha,
      Bool.or_eq_false_iff] at hword
    exact hword.1.1.2
  exact ⟨by rw [it.upper_ascii c hascii, Char.toUpper_eq_of_not_isLower (by simp [hlower])],
    by rw [it.isWord_ascii c hascii, hword]⟩

theorem toNat_of_isAlpha {c : Char} (h : c.isAlpha = true) : 65 ≤ c.toNat ∧ c.toNat < 128 := by
  simp only [Char.isAlpha, Char.isUpper, Char.isLower, Bool.or_eq_true, Bool.and_eq_true,
    decide_eq_true_eq, ge_iff_le, UInt32.le_iff_toNat_le] at h
  change 65 ≤ c.val.toNat ∧ c.val.toNat < 128
  have hA : 'A'.val.toNat = 65 := rfl
  have hZ : 'Z'.val.toNat = 90 := rfl
  have ha : 'a'.val.toNat = 97 := rfl
  have hz : 'z'.val.toNat = 122 := rfl
  omega

theorem isspace_of_isAlpha {c : Char} (h : c.isAlpha = true) : isspace c = false := by
  have hbounds := toNat_of_isAlpha h
  simp only [isspace, Bool.or_eq_false_iff, decide_eq_false_iff_not]
  omega

/-- A keyword of the code, in small letters or in capitals. -/
theorem upper_keyword (it : Interpreter) {w kw : List Char} (h : w.map Char.toUpper = kw)
    (hkw : ∀ c ∈ kw, c.isUpper = true) :
    (∀ c ∈ w, isspace c = false) ∧ w.flatMap it.upper = kw := by
  have halpha : ∀ c ∈ w, c.isAlpha = true := by
    intro c hc
    rw [← Char.isUpper_toUpper_eq_isAlpha]
    refine hkw _ ?_
    rw [← h]
    exact List.mem_map_of_mem hc
  refine ⟨fun c hc => isspace_of_isAlpha (halpha c hc), ?_⟩
  have hupper : ∀ c ∈ w, it.upper c = [c.toUpper] := fun c hc =>
    it.upper_ascii c (toNat_of_isAlpha (halpha c hc)).2
  rw [← h, List.flatMap_congr hupper, List.map_eq_flatMap]

theorem lstrip_getLast {cs : List Char} {c : Char} (h : (lstrip cs).getLast? = some c) :
    cs.getLast? = some c := by
  rw [← List.takeWhile_append_dropWhile (p := isspace) (l := cs), List.getLast?_append]
  rw [lstrip] at h
  rw [h]
  rfl

theorem rstrip_head {cs : List Char} {c : Char} (h : (rstrip cs).head? = some c) :
    cs.head? = some c := by
  rw [rstrip, List.head?_reverse] at h
  rw [← List.getLast?_reverse]
  exact lstrip_getLast h

/-- The last character before a word stays one that is of no word. -/
theorem flatMap_upper_getLast (it : Interpreter) {cs : List Char}
    (h : ∀ c, cs.getLast? = some c → isIdent c = false) :
    ∀ c, (cs.flatMap it.upper).getLast? = some c → it.isWord c = false := by
  intro c hc
  rcases List.eq_nil_or_concat cs with rfl | ⟨cs, d, rfl⟩
  · cases hc
  · rw [List.concat_eq_append] at h hc
    obtain ⟨hupper, hword⟩ := upper_of_not_isIdent it (h d (by simp))
    obtain rfl : d = c := by simpa [hupper] using hc
    exact hword

theorem flatMap_upper_head (it : Interpreter) {cs : List Char}
    (h : ∀ c, cs.head? = some c → isIdent c = false) :
    ∀ c, (cs.flatMap it.upper).head? = some c → it.isWord c = false := by
  intro c hc
  cases cs with
  | nil => cases hc
  | cons d cs =>
      obtain ⟨hupper, hword⟩ := upper_of_not_isIdent it (h d rfl)
      obtain rfl : d = c := by simpa [hupper] using hc
      exact hword

/-- A keyword of the code that stays is found. -/
theorem Exposed.not_readable (it : Interpreter) {kw : String} {before w after : List Char}
    (hkw : kw ∈ modifyingKeywords) (hword : KeywordAt kw.toList before w after)
    (hversion : (read before).mode ≠ .version) (h : Exposed before w after) :
    ¬ Readable it (before ++ w ++ after) := by
  obtain ⟨hword, hupper⟩ := hword
  have hcapitals : ∀ kw ∈ modifyingKeywords, kw ∈ destructiveSqlKw ∧ kw.toList ≠ [] ∧
      kw.toList.all Char.isUpper = true := by decide
  obtain ⟨hdestructive, hkwne, hkwupper⟩ := hcapitals kw hkw
  obtain ⟨hspace, hflat⟩ := upper_keyword it hupper (List.all_eq_true.mp hkwupper)
  have hwne : w ≠ [] := by
    rintro rfl
    exact hkwne (hupper.symm)
  have hblank : isIdent ' ' = false := by decide
  obtain ⟨before₁, after₁, before₂, after₂, hblock, hline⟩ := h
  -- on both sides, the passes leave a character that is of no word
  have hbefore : ∀ c, (lstrip before₂).getLast? = some c → isIdent c = false := fun c hc =>
    hline.getLast (fun _ _ => ⟨' ', rfl, hblank⟩)
      (hblock.getLast (fun _ _ => ⟨' ', rfl, hblank⟩)
        fun c hc => hword.boundary hversion c (lstrip_getLast hc)) c (lstrip_getLast hc)
  have hafter : ∀ c, (rstrip after₂).head? = some c → isIdent c = false := fun c hc =>
    hline.head lineComment_lawful (fun _ _ => ⟨' ', rfl, hblank⟩)
      (hblock.head blockComment_lawful (fun _ _ => ⟨' ', rfl, hblank⟩)
        fun c hc => hword.ends c (rstrip_head hc)) c (rstrip_head hc)
  have htext : upperText it (before ++ w ++ after) =
      (lstrip before₂).flatMap it.upper ++ kw.toList ++ (rstrip after₂).flatMap it.upper := by
    rw [upperText, strip_append hwne hspace, noComments_eq, hblock.sub_eq, hline.sub_eq,
      strip_append hwne hspace, List.flatMap_append, List.flatMap_append, hflat]
  intro hreadable
  have hfound : hasWord it.isWord kw.toList false (upperText it (before ++ w ++ after)) = true := by
    rw [htext]
    exact hasWord_append hkwne (fun _ => rfl) (flatMap_upper_getLast it hbefore)
      (flatMap_upper_head it hafter)
  rw [hreadable.2 kw hdestructive] at hfound
  cases hfound

/-! ## Main results -/

/-- The guards admit single queries only, and the same ones. -/
structure Sound (it : Interpreter) (sql : String) : Prop where
  agent : validateReadonlySql it sql = .ok () → SingleRead sql.toList
  source : sqlSourceGuard it sql = .ok () → SingleRead sql.toList
  agree : validateReadonlySql it sql = .ok () ↔ sqlSourceGuard it sql = .ok ()

/-- What the guards see of a text is the code of it, and holds no separator and no `INTO`. -/
structure Visible (cs : List Char) : Prop where
  noSeparator : ';' ∉ noComments (strip cs)
  noInto : ¬ SqlText.InOrder "SELECT".toList "INTO".toList cs
  keywords : ∀ kw ∈ modifyingKeywords, ∀ before w after, cs = before ++ w ++ after →
    KeywordAt kw.toList before w after →
    Exposed before w after ∧ (read before).mode ≠ .version
  separators : ∀ before after, cs = before ++ ';' :: after → SeparatorAt before after →
    Exposed before [';'] after

theorem sound_iff (it : Interpreter) (sql : String) :
    Sound it sql ↔ (Readable it sql.toList → Visible sql.toList) := by
  constructor
  · intro h hreadable
    have hsource := sqlSourceGuard_ok.mpr hreadable
    have hread := h.source hsource
    exact
      { noSeparator := (validateReadonlySql_ok.mp (h.agree.mpr hsource)).2
        noInto := hread.noInto
        keywords := fun kw hkw before w after heq hword =>
          absurd hword (hread.reads kw hkw before w after heq)
        separators := fun before after heq hsep =>
          absurd hsep (hread.single before after heq) }
  · intro h
    have hsingle : Readable it sql.toList → SingleRead sql.toList := by
      intro hreadable
      obtain ⟨hsemi, hinto, hkeywords, hseparators⟩ := h hreadable
      refine ⟨fun before after heq hsep => hsemi ?_, fun kw hkw before w after heq hword => ?_,
        hinto⟩
      · have htext : sql.toList = before ++ [';'] ++ after := by simpa using heq
        obtain ⟨before', after', hstays⟩ := (hseparators before after heq hsep).stays (by simp)
          (forall_mem_of_all (by decide))
        rw [htext, hstays]
        simp
      · obtain ⟨hexposed, hversion⟩ := hkeywords kw hkw before w after heq hword
        rw [heq] at hreadable
        exact hexposed.not_readable it hkw hword hversion hreadable
    exact
      { agent := fun hok => hsingle (validateReadonlySql_ok.mp hok).1
        source := fun hok => hsingle (sqlSourceGuard_ok.mp hok)
        agree := ⟨fun hok => sqlSourceGuard_ok.mpr (validateReadonlySql_ok.mp hok).1, fun hok =>
          validateReadonlySql_ok.mpr
            ⟨sqlSourceGuard_ok.mp hok, (h (sqlSourceGuard_ok.mp hok)).noSeparator⟩⟩ }

/-- Between two literals, the statement is taken for a comment. -/
theorem drop_between_literals : ¬ ∀ it sql, Sound it sql := by
  intro h
  have hsound := h .ascii "SELECT '/*'; DROP TABLE t; --*/'"
  have hguard : (validateReadonlySql .ascii "SELECT '/*'; DROP TABLE t; --*/'").toBool = true := by
    decide +kernel
  have hok : validateReadonlySql .ascii "SELECT '/*'; DROP TABLE t; --*/'" = .ok () := by
    cases hresult : validateReadonlySql .ascii "SELECT '/*'; DROP TABLE t; --*/'" with
    | ok u => rfl
    | error e =>
        rw [hresult] at hguard
        cases hguard
  refine (hsound.agent hok).reads "DROP" (by decide) "SELECT '/*'; ".toList "DROP".toList
    " TABLE t; --*/'".toList (by decide) ⟨⟨by decide, by decide, ⟨'D', rfl, by decide⟩,
      forall_mem_of_all (by decide), fun c hc => ?_⟩, by decide⟩
  cases hc
  decide

end SqlGuards

end CitraFlows
