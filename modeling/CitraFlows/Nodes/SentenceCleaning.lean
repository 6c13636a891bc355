-- SUMMARY: How extracted texts are cleaned of semicolons: what the two substitutions do to the visible characters, and when a second cleaning changes nothing.
import CitraFlows.Lib.Scanning
import CitraFlows.Python

/-!
# Cleaning sentences

`_normalize_extracted_fields` cleans a text with two substitutions and a `strip`. Both patterns skip
white space, so what happens to the other characters, the visible ones, depends on them alone.
-/

namespace CitraFlows

open Python
open Scanning

namespace SentenceCleaning

/-! ## The substitutions -/

/-- `\.\s*;\s*` -/
def stopPattern : Pattern Unit
  | '.' :: cs =>
      match cs.dropWhile isspace with
      | ';' :: rest => some ((), rest.dropWhile isspace)
      | _ => none
  | _ => none

/-- `[A-Z]` -/
def isCapital (c : Char) : Bool := 'A' ≤ c ∧ c ≤ 'Z'

/-- `;\s*([A-Z])` -/
def capitalPattern : Pattern Char
  | ';' :: cs =>
      match cs.dropWhile isspace with
      | c :: rest => if isCapital c then some (c, rest) else none
      | [] => none
  | _ => none

/-- `re.sub(r'\.\s*;\s*', '. ', text)` -/
def joinStops (cs : List Char) : List Char := sub stopPattern (fun _ _ => ['.', ' ']) cs

/-- `re.sub(r';\s*([A-Z])', r'. \1', text)` -/
def endSentences (cs : List Char) : List Char := sub capitalPattern (fun c _ => ['.', ' ', c]) cs

def cleaned (cs : List Char) : List Char := strip (endSentences (joinStops cs))

/-! ## Visible characters -/

def visible (cs : List Char) : List Char := cs.filter fun c => !isspace c

def startsCapital (cs : List Char) : Bool := cs.head?.any isCapital

/-- The semicolons right after a full stop are dropped, one for each full stop. -/
def dropAfterStops : List Char → List Char
  | '.' :: ';' :: cs => '.' :: dropAfterStops cs
  | c :: cs => c :: dropAfterStops cs
  | [] => []

/-- The semicolons right before a capital letter become full stops. -/
def stopBeforeCapitals : List Char → List Char
  | [] => []
  | c :: cs => (if c = ';' ∧ startsCapital cs then '.' else c) :: stopBeforeCapitals cs

/-- A semicolon stands right after a full stop. -/
def hasStop : List Char → Bool
  | [] => false
  | c :: cs => c == '.' && cs.head? == some ';' || hasStop cs

/-- A semicolon stands right before a capital letter. -/
def hasCapital : List Char → Bool
  | [] => false
  | c :: cs => c == ';' && startsCapital cs || hasCapital cs

/-- Two semicolons, of which the second is not before a capital letter -/
def startsUntidy : List Char → Bool
  | ';' :: ';' :: cs => !startsCapital cs
  | _ => false

/-- A full stop is followed by two semicolons, of which the second is not before a capital. -/
def untidy : List Char → Bool
  | [] => false
  | c :: cs => c == '.' && startsUntidy cs || untidy cs

variable {c : Char} {cs rest : List Char}

@[simp] theorem visible_nil : visible [] = [] := rfl

theorem visible_cons_of_space (h : isspace c = true) : visible (c :: cs) = visible cs := by
  simp [visible, h]

theorem visible_cons (h : isspace c = false) : visible (c :: cs) = c :: visible cs := by
  simp [visible, h]

theorem visible_append (cs cs' : List Char) : visible (cs ++ cs') = visible cs ++ visible cs' :=
  List.filter_append cs cs'

theorem visible_dropWhile (cs : List Char) : visible (cs.dropWhile isspace) = visible cs := by
  induction cs with
  | nil => rfl
  | cons c cs ih =>
      cases h : isspace c with
      | true => rw [List.dropWhile_cons_of_pos h, ih, visible_cons_of_space h]
      | false => rw [List.dropWhile_cons_of_neg (by simp [h])]

theorem visible_strip (cs : List Char) : visible (strip cs) = visible cs := by
  rw [strip, visible, List.filter_reverse, ← visible, visible_dropWhile, visible,
    List.filter_reverse, List.reverse_reverse, ← visible, visible_dropWhile]

/-- What follows the white space starts with the first visible character. -/
theorem dropWhile_eq_cons (h : cs.dropWhile isspace = c :: rest) :
    isspace c = false ∧ visible cs = c :: visible rest := by
  have hc : isspace c = false := by
    have := List.head?_dropWhile_not isspace cs
    rw [h] at this
    simpa using this
  exact ⟨hc, by rw [← visible_dropWhile, h, visible_cons hc]⟩

theorem dropWhile_eq_nil (h : cs.dropWhile isspace = []) : visible cs = [] := by
  rw [← visible_dropWhile, h, visible_nil]

/-! ## What the patterns match -/

theorem stopPattern_lawful : stopPattern.Lawful := by
  intro cs a rest h
  unfold stopPattern at h
  split at h
  next cs =>
    split at h
    next r hr =>
      cases h
      refine ⟨'.', cs.takeWhile isspace ++ ';' :: r.takeWhile isspace, ?_⟩
      rw [List.cons_append, List.append_assoc, List.cons_append, List.takeWhile_append_dropWhile,
        ← hr, List.takeWhile_append_dropWhile]
    next => cases h
  next => cases h

theorem visible_of_stop {u : Unit} (h : stopPattern cs = some (u, rest)) :
    visible cs = '.' :: ';' :: visible rest := by
  unfold stopPattern at h
  split at h
  next cs =>
    split at h
    next r hr =>
      cases h
      rw [visible_cons (by decide), (dropWhile_eq_cons hr).2, visible_dropWhile]
    next => cases h
  next => cases h

theorem head_visible_of_no_stop (h : stopPattern ('.' :: cs) = none) :
    (visible cs).head? ≠ some ';' := by
  intro hhead
  cases hdrop : cs.dropWhile isspace with
  | nil =>
      rw [dropWhile_eq_nil hdrop] at hhead
      cases hhead
  | cons d r =>
      rw [(dropWhile_eq_cons hdrop).2, List.head?_cons, Option.some.injEq] at hhead
      rw [stopPattern, hdrop, hhead] at h
      cases h

theorem capitalPattern_lawful : capitalPattern.Lawful := by
  intro cs a rest h
  unfold capitalPattern at h
  split at h
  next cs =>
    split at h
    next d r hr =>
      split at h
      · cases h
        refine ⟨';', cs.takeWhile isspace ++ [a], ?_⟩
        rw [List.cons_append, List.append_assoc, List.singleton_append, ← hr,
          List.takeWhile_append_dropWhile]
      · cases h
    next => cases h
  next => cases h

theorem visible_of_capital (h : capitalPattern cs = some (c, rest)) :
    isCapital c = true ∧ isspace c = false ∧ visible cs = ';' :: c :: visible rest := by
  unfold capitalPattern at h
  split at h
  next cs =>
    split at h
    next d r hr =>
      split at h
      next hcapital =>
        cases h
        obtain ⟨hspace, hvisible⟩ := dropWhile_eq_cons hr
        exact ⟨hcapital, hspace, by rw [visible_cons (by decide), hvisible]⟩
      next => cases h
    next => cases h
  next => cases h

theorem startsCapital_visible_of_no_capital (h : capitalPattern (';' :: cs) = none) :
    startsCapital (visible cs) = false := by
  cases hdrop : cs.dropWhile isspace with
  | nil => rw [dropWhile_eq_nil hdrop]; rfl
  | cons d r =>
      rw [capitalPattern, hdrop] at h
      rw [(dropWhile_eq_cons hdrop).2, startsCapital, List.head?_cons, Option.any_some]
      cases hd : isCapital d with
      | true => simp [hd] at h
      | false => rfl

/-! ## The substitutions on visible characters -/

theorem dropAfterStops_cons (h : c = '.' → cs.head? ≠ some ';') :
    dropAfterStops (c :: cs) = c :: dropAfterStops cs := by
  rw [dropAfterStops]
  rintro cs rfl rfl
  exact h rfl rfl

theorem visible_joinStops (cs : List Char) :
    visible (joinStops cs) = dropAfterStops (visible cs) := by
  induction cs using scan_induction stopPattern_lawful with
  | nil => rfl
  | char c cs h ih =>
      rw [joinStops, sub_of_none h, ← joinStops]
      cases hspace : isspace c with
      | true => rw [visible_cons_of_space hspace, ih, visible_cons_of_space hspace]
      | false =>
          rw [visible_cons hspace, ih, visible_cons hspace, dropAfterStops_cons]
          rintro rfl
          exact head_visible_of_no_stop h
  | found c tok rest a h ih =>
      rw [joinStops, sub_of_some stopPattern_lawful h, ← joinStops, visible_append, ih,
        visible_of_stop h]
      rfl

theorem visible_endSentences (cs : List Char) :
    visible (endSentences cs) = stopBeforeCapitals (visible cs) := by
  induction cs using scan_induction capitalPattern_lawful with
  | nil => rfl
  | char c cs h ih =>
      rw [endSentences, sub_of_none h, ← endSentences]
      cases hspace : isspace c with
      | true => rw [visible_cons_of_space hspace, ih, visible_cons_of_space hspace]
      | false =>
          rw [visible_cons hspace, ih, visible_cons hspace, stopBeforeCapitals, if_neg]
          rintro ⟨rfl, hcapital⟩
          rw [startsCapital_visible_of_no_capital h] at hcapital
          cases hcapital
  | found c tok rest a h ih =>
      obtain ⟨hcapital, hspace, hvisible⟩ := visible_of_capital h
      have hne : a ≠ ';' := by
        rintro rfl
        cases hcapital
      rw [endSentences, sub_of_some capitalPattern_lawful h, ← endSentences, visible_append, ih,
        hvisible, stopBeforeCapitals, if_pos ⟨rfl, hcapital⟩, stopBeforeCapitals,
        if_neg fun h => hne h.1]
      have hpiece : visible ['.', ' ', a] = ['.', a] := by
        rw [visible_cons (by decide), visible_cons_of_space (by decide), visible_cons hspace,
          visible_nil]
      rw [hpiece]
      rfl

theorem visible_cleaned (cs : List Char) :
    visible (cleaned cs) = stopBeforeCapitals (dropAfterStops (visible cs)) := by
  rw [cleaned, visible_strip, visible_endSentences, visible_joinStops]

/-! ## Settled texts -/

theorem joinStops_of_no_stop (h : hasStop (visible cs) = false) : joinStops cs = cs := by
  induction cs using scan_induction stopPattern_lawful with
  | nil => rfl
  | char c cs hnone ih =>
      rw [joinStops, sub_of_none hnone, ← joinStops, ih]
      cases hspace : isspace c with
      | true => rwa [visible_cons_of_space hspace] at h
      | false =>
          rw [visible_cons hspace, hasStop, Bool.or_eq_false_iff] at h
          exact h.2
  | found c tok rest a hsome ih =>
      rw [visible_of_stop hsome] at h
      cases h

theorem endSentences_of_no_capital (h : hasCapital (visible cs) = false) :
    endSentences cs = cs := by
  induction cs using scan_induction capitalPattern_lawful with
  | nil => rfl
  | char c cs hnone ih =>
      rw [endSentences, sub_of_none hnone, ← endSentences, ih]
      cases hspace : isspace c with
      | true => rwa [visible_cons_of_space hspace] at h
      | false =>
          rw [visible_cons hspace, hasCapital, Bool.or_eq_false_iff] at h
          exact h.2
  | found c tok rest a hsome ih =>
      obtain ⟨hcapital, -, hvisible⟩ := visible_of_capital hsome
      rw [hvisible, hasCapital, startsCapital, List.head?_cons, Option.any_some, hcapital] at h
      cases h

/-- The semicolons that are left bound the cleanings that change something. -/
def semicolons (cs : List Char) : Nat := (visible cs).count ';'

theorem count_dropAfterStops (cs : List Char) :
    (dropAfterStops cs).count ';' ≤ cs.count ';' ∧
      (hasStop cs = true → (dropAfterStops cs).count ';' < cs.count ';') := by
  fun_induction dropAfterStops cs with
  | case1 cs ih =>
      have heq : ('.' :: ';' :: cs).count ';' = cs.count ';' + 1 := by simp
      have heq' : ('.' :: dropAfterStops cs).count ';' = (dropAfterStops cs).count ';' := by simp
      rw [heq, heq']
      exact ⟨by omega, fun _ => by omega⟩
  | case2 c cs h ih =>
      rw [List.count_cons, List.count_cons]
      refine ⟨Nat.add_le_add_right ih.1 _, fun hstop => Nat.add_lt_add_right (ih.2 ?_) _⟩
      rw [hasStop, Bool.or_eq_true] at hstop
      refine hstop.resolve_left fun hc => ?_
      simp only [Bool.and_eq_true, beq_iff_eq] at hc
      obtain ⟨cs', rfl⟩ := List.head?_eq_some_iff.mp hc.2
      exact h cs' hc.1 rfl
  | case3 => exact ⟨Nat.le_refl _, fun h => (by cases h)⟩

theorem count_stopBeforeCapitals (cs : List Char) :
    (stopBeforeCapitals cs).count ';' ≤ cs.count ';' ∧
      (hasCapital cs = true → (stopBeforeCapitals cs).count ';' < cs.count ';') := by
  induction cs with
  | nil => exact ⟨Nat.le_refl _, fun h => (by cases h)⟩
  | cons c cs ih =>
      rw [stopBeforeCapitals, hasCapital]
      by_cases h : c = ';' ∧ startsCapital cs = true
      · obtain ⟨rfl, hcapital⟩ := h
        rw [if_pos ⟨rfl, hcapital⟩, List.count_cons_of_ne (by decide), List.count_cons_self]
        exact ⟨by omega, fun _ => by omega⟩
      · rw [if_neg h, List.count_cons, List.count_cons]
        refine ⟨Nat.add_le_add_right ih.1 _, fun hcapital => Nat.add_lt_add_right (ih.2 ?_) _⟩
        rw [Bool.or_eq_true] at hcapital
        refine hcapital.resolve_left fun hc => h ?_
        simpa only [Bool.and_eq_true, beq_iff_eq] using hc

theorem semicolons_cleaned_le (cs : List Char) : semicolons (cleaned cs) ≤ semicolons cs := by
  rw [semicolons, visible_cleaned]
  exact (count_stopBeforeCapitals _).1.trans (count_dropAfterStops _).1

/-- A cleaning that takes no semicolon finds none of the patterns. -/
theorem no_stop_no_capital (h : semicolons cs ≤ semicolons (cleaned cs)) :
    hasStop (visible cs) = false ∧ hasCapital (visible cs) = false := by
  rw [semicolons, semicolons, visible_cleaned] at h
  have hcapitals := count_stopBeforeCapitals (dropAfterStops (visible cs))
  have hstops := count_dropAfterStops (visible cs)
  have hstop : hasStop (visible cs) = false := by
    refine Bool.eq_false_iff.mpr fun hstop => ?_
    have := hstops.2 hstop
    omega
  refine ⟨hstop, Bool.eq_false_iff.mpr fun hcapital => ?_⟩
  have hsame : dropAfterStops (visible cs) = visible cs := by
    rw [← visible_joinStops, joinStops_of_no_stop hstop]
  rw [hsame] at hcapitals h
  have := hcapitals.2 hcapital
  omega

theorem cleaned_of_settled (hstop : hasStop (visible (cleaned cs)) = false)
    (hcapital : hasCapital (visible (cleaned cs)) = false) :
    cleaned (cleaned cs) = cleaned cs := by
  rw [cleaned, joinStops_of_no_stop hstop, endSentences_of_no_capital hcapital, cleaned,
    strip_eq_trim, strip_eq_trim, Trimming.trim_trim]

theorem cleaned_cleaned_iff_settled : cleaned (cleaned cs) = cleaned cs ↔
    hasStop (visible (cleaned cs)) = false ∧ hasCapital (visible (cleaned cs)) = false :=
  ⟨fun h => no_stop_no_capital (by rw [h]), fun h => cleaned_of_settled h.1 h.2⟩

/-! ## Tidy texts -/

theorem head_dropAfterStops (cs : List Char) : (dropAfterStops cs).head? = cs.head? := by
  fun_cases dropAfterStops cs <;> rfl

theorem startsCapital_dropAfterStops (cs : List Char) :
    startsCapital (dropAfterStops cs) = startsCapital cs := by
  rw [startsCapital, head_dropAfterStops, startsCapital]

theorem startsCapital_stopBeforeCapitals (cs : List Char) :
    startsCapital (stopBeforeCapitals cs) = startsCapital cs := by
  cases cs with
  | nil => rfl
  | cons c cs =>
      change isCapital (if c = ';' ∧ startsCapital cs = true then '.' else c) = isCapital c
      split
      next h =>
        rw [h.1]
        rfl
      next => rfl

theorem not_hasCapital_stopBeforeCapitals (cs : List Char) :
    hasCapital (stopBeforeCapitals cs) = false := by
  induction cs with
  | nil => rfl
  | cons c cs ih =>
      rw [stopBeforeCapitals, hasCapital, startsCapital_stopBeforeCapitals, ih, Bool.or_false]
      split
      next => rfl
      next h => simpa using h

theorem startsUntidy_iff : startsUntidy cs = true ↔
    ∃ cs', cs = ';' :: ';' :: cs' ∧ startsCapital cs' = false := by
  constructor
  · intro h
    unfold startsUntidy at h
    split at h
    next cs' => exact ⟨cs', rfl, by simpa using h⟩
    next => cases h
  · rintro ⟨cs', rfl, h⟩
    rw [startsUntidy, h]
    rfl

/-- After both substitutions a text starts with a semicolon if it did before, and no capital letter
follows. -/
theorem head_stopBeforeCapitals (cs : List Char) :
    ((stopBeforeCapitals (dropAfterStops cs)).head? == some ';') = startsUntidy (';' :: cs) := by
  cases cs with
  | nil => rfl
  | cons c cs =>
      by_cases hc : c = ';'
      · subst hc
        rw [dropAfterStops_cons fun h => absurd h (by decide), stopBeforeCapitals,
          startsCapital_dropAfterStops, startsUntidy, List.head?_cons]
        cases startsCapital cs <;> rfl
      · have hright : startsUntidy (';' :: c :: cs) = false := by
          rw [startsUntidy]
          rintro cs' heq
          simp only [List.cons.injEq] at heq
          exact hc heq.2.1
        rw [hright]
        obtain ⟨rest, hrest⟩ := List.head?_eq_some_iff.mp (head_dropAfterStops (c :: cs))
        rw [hrest, stopBeforeCapitals, if_neg fun h => hc h.1, List.head?_cons]
        simpa using hc

/-- What is cleaned has a semicolon right after a full stop if the text is untidy. -/
theorem hasStop_stopBeforeCapitals (cs : List Char) :
    hasStop (stopBeforeCapitals (dropAfterStops cs)) = untidy cs := by
  fun_induction dropAfterStops cs with
  | case1 cs ih =>
      rw [stopBeforeCapitals, if_neg fun h => absurd h.1 (by decide), hasStop,
        head_stopBeforeCapitals, ih, untidy, untidy]
      rfl
  | case2 c cs h ih =>
      rw [stopBeforeCapitals, hasStop, head_stopBeforeCapitals, ih, untidy,
        startsCapital_dropAfterStops]
      -- a full stop before a semicolon is the first case
      have hright : (c == '.' && startsUntidy cs) = false := by
        refine Bool.eq_false_iff.mpr fun hr => ?_
        rw [Bool.and_eq_true, beq_iff_eq] at hr
        obtain ⟨cs', rfl, -⟩ := startsUntidy_iff.mp hr.2
        exact h _ hr.1 rfl
      have hleft : ((if c = ';' ∧ startsCapital cs = true then '.' else c) == '.' &&
          startsUntidy (';' :: cs)) = false := by
        refine Bool.eq_false_iff.mpr fun hl => ?_
        rw [Bool.and_eq_true, beq_iff_eq] at hl
        obtain ⟨cs', heq, -⟩ := startsUntidy_iff.mp hl.2
        rw [List.cons.injEq] at heq
        obtain ⟨-, rfl⟩ := heq
        have hcapital : startsCapital (';' :: cs') = false := rfl
        rw [hcapital, if_neg fun h => absurd h.2 Bool.false_ne_true] at hl
        exact h _ hl.1 rfl
      rw [hright, hleft]
  | case3 => rfl

/-- A second cleaning changes nothing if and only if the text is tidy. -/
theorem cleaned_cleaned_iff : cleaned (cleaned cs) = cleaned cs ↔ untidy (visible cs) = false := by
  rw [cleaned_cleaned_iff_settled, visible_cleaned, not_hasCapital_stopBeforeCapitals,
    hasStop_stopBeforeCapitals]
  exact and_iff_left rfl

theorem semicolons_iterate_le (n : Nat) (cs : List Char) :
    semicolons (cleaned^[n] cs) ≤ semicolons cs := by
  induction n with
  | zero => exact Nat.le_refl _
  | succ n ih =>
      rw [Function.iterate_succ_apply']
      exact (semicolons_cleaned_le _).trans ih

/-- After several cleanings, as many more change nothing if and only if the text was tidy before
the last one. -/
theorem cleaned_iterate_iff (n : Nat) (cs : List Char) :
    cleaned^[n + 1] (cleaned^[n + 1] cs) = cleaned^[n + 1] cs ↔
      untidy (visible (cleaned^[n] cs)) = false := by
  have hlast : cleaned^[n + 1] cs = cleaned (cleaned^[n] cs) :=
    Function.iterate_succ_apply' cleaned n cs
  rw [← cleaned_cleaned_iff, ← hlast]
  constructor
  · intro h
    have hle : semicolons (cleaned^[n + 1] cs) ≤ semicolons (cleaned (cleaned^[n + 1] cs)) := by
      conv_lhs => rw [← h, Function.iterate_succ_apply]
      exact semicolons_iterate_le n _
    obtain ⟨hstop, hcapital⟩ := no_stop_no_capital hle
    rw [hlast] at hstop hcapital ⊢
    exact cleaned_of_settled hstop hcapital
  · exact fun h => Function.iterate_fixed h _

end SentenceCleaning

end CitraFlows
