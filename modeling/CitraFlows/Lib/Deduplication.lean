-- SUMMARY: Removal of duplicates by a signature: what a pass over a list leaves, and that it leaves one representative of every class.
import Mathlib.Data.List.Basic

/-!
# Deduplication

A pass over a list gives every element that has a signature the slot of the first one with the
same signature, and an element without a signature a slot of its own. A slot keeps its first
element, or takes every later one. `representatives` says what is left by a relation between the
elements alone.
-/

namespace Deduplication

variable {α κ : Type} [DecidableEq κ]

/-! ## By a relation -/

/-- Of an element and those after it, the one that stands for its class. -/
def representative (same : α → α → Bool) (last : Bool) (rest : List α) (a : α) : α :=
  if last then ((rest.filter (same a)).getLast?).getD a else a

/-- The elements that are no duplicates of one before, or what stands for them. -/
def representatives (same : α → α → Bool) (last : Bool) : List α → List α → List α
  | _, [] => []
  | earlier, a :: rest =>
      if earlier.any (same · a) then representatives same last (earlier ++ [a]) rest
      else representative same last rest a :: representatives same last (earlier ++ [a]) rest

variable {same same' : α → α → Bool} {last : Bool} {earlier rest : List α} {a : α}

theorem representative_congr (h : ∀ b ∈ rest, same a b = same' a b) :
    representative same last rest a = representative same' last rest a := by
  rw [representative, representative, List.filter_congr h]

/-- Only how an element is related to those after it matters. -/
theorem representatives_congr (hearlier : ∀ a ∈ earlier, ∀ b ∈ rest, same a b = same' a b)
    (hrest : rest.Pairwise fun a b => same a b = same' a b) :
    representatives same last earlier rest = representatives same' last earlier rest := by
  induction rest generalizing earlier with
  | nil => rfl
  | cons a rest ih =>
      obtain ⟨ha, hpairs⟩ := List.pairwise_cons.mp hrest
      have hany : earlier.any (same · a) = earlier.any (same' · a) := by
        rw [Bool.eq_iff_iff, List.any_eq_true, List.any_eq_true]
        exact exists_congr fun e => and_congr_right fun he => by
          rw [hearlier e he a List.mem_cons_self]
      have hnext : ∀ e ∈ earlier ++ [a], ∀ b ∈ rest, same e b = same' e b := by
        intro e he b hb
        rcases List.mem_append.mp he with he | he
        · exact hearlier e he b (List.mem_cons_of_mem a hb)
        · obtain rfl := List.mem_singleton.mp he
          exact ha b hb
      rw [representatives, representatives, hany, ih hnext hpairs, representative_congr ha]

/-! ## By a signature -/

section

variable (sig : α → Option κ) (last : Bool)

/-- Two elements have a signature, and the same one. -/
def sameSig (a b : α) : Bool := (sig a).isSome && decide (sig a = sig b)

/-- The element takes its slot: that of its signature, or a new one. -/
def place (order : List α) (a : α) : List α :=
  match order.findIdx? (sameSig sig · a) with
  | none => order ++ [a]
  | some i => if last then order.set i a else order

/-- No two slots have the same signature. -/
def Distinct (order : List α) : Prop := order.Pairwise fun a b => sameSig sig a b = false

end

variable {sig : α → Option κ} {order : List α} {b c : α}

theorem sameSig_iff : sameSig sig a b = true ↔ ∃ s, sig a = some s ∧ sig b = some s := by
  rw [sameSig, Bool.and_eq_true, decide_eq_true_eq]
  constructor
  · rintro ⟨hsome, heq⟩
    obtain ⟨s, hs⟩ := Option.isSome_iff_exists.mp hsome
    exact ⟨s, hs, heq ▸ hs⟩
  · rintro ⟨s, ha, hb⟩
    exact ⟨by rw [ha]; rfl, by rw [ha, hb]⟩

theorem sameSig_symm (h : sameSig sig a b = true) : sameSig sig b a = true := by
  obtain ⟨s, ha, hb⟩ := sameSig_iff.mp h
  exact sameSig_iff.mpr ⟨s, hb, ha⟩

theorem sameSig_trans (hab : sameSig sig a b = true) (hbc : sameSig sig b c = true) :
    sameSig sig a c = true := by
  obtain ⟨s, ha, hb⟩ := sameSig_iff.mp hab
  obtain ⟨t, hb', hc⟩ := sameSig_iff.mp hbc
  rw [hb] at hb'
  cases hb'
  exact sameSig_iff.mpr ⟨s, ha, hc⟩

theorem place_of_new (h : ∀ o ∈ order, sameSig sig o a = false) :
    place sig last order a = order ++ [a] := by
  rw [place, List.findIdx?_eq_none_iff.mpr h]

/-- The slot of an element that is a duplicate -/
theorem place_of_slot {before after : List α} (ha : sameSig sig b a = true)
    (hbefore : ∀ o ∈ before, sameSig sig o a = false) :
    place sig last (before ++ b :: after) a =
      if last then before ++ a :: after else before ++ b :: after := by
  have hfind : (before ++ b :: after).findIdx? (sameSig sig · a) = some before.length := by
    rw [List.findIdx?_append, List.findIdx?_eq_none_iff.mpr hbefore, List.findIdx?_cons, ha]
    simp
  rw [place, hfind]
  simp

/-- Either the element is new, or there is one slot for it. -/
theorem slot_cases (sig : α → Option κ) (a : α) (order : List α) :
    (∀ o ∈ order, sameSig sig o a = false) ∨
      ∃ before b after, order = before ++ b :: after ∧ sameSig sig b a = true ∧
        ∀ o ∈ before, sameSig sig o a = false := by
  induction order with
  | nil => exact .inl fun o ho => by cases ho
  | cons o order ih =>
      cases ho : sameSig sig o a with
      | true => exact .inr ⟨[], o, order, rfl, ho, fun o ho => by cases ho⟩
      | false =>
          rcases ih with hnew | ⟨before, b, after, rfl, hb, hbefore⟩
          · refine .inl fun o' ho' => ?_
            rcases List.mem_cons.mp ho' with rfl | ho'
            · exact ho
            · exact hnew o' ho'
          · refine .inr ⟨o :: before, b, after, rfl, hb, fun o' ho' => ?_⟩
            rcases List.mem_cons.mp ho' with rfl | ho'
            · exact ho
            · exact hbefore o' ho'

theorem sameSig_of_slot (ha : sameSig sig b a = true) (c : α) :
    sameSig sig b c = sameSig sig a c := by
  rw [Bool.eq_iff_iff]
  exact ⟨sameSig_trans (sameSig_symm ha), sameSig_trans ha⟩

/-- The slots stay distinct. -/
theorem distinct_place (h : Distinct sig order) (a : α) :
    Distinct sig (place sig last order a) := by
  rcases slot_cases sig a order with hnew | ⟨before, b, after, rfl, hb, hbefore⟩
  · rw [place_of_new hnew, Distinct, List.pairwise_append]
    exact ⟨h, List.pairwise_singleton _ _, fun o ho a' ha' => by
      obtain rfl := List.mem_singleton.mp ha'
      exact hnew o ho⟩
  · rw [place_of_slot hb hbefore]
    split
    · obtain ⟨hfirst, hrest, hcross⟩ := List.pairwise_append.mp h
      obtain ⟨hslot, hafter⟩ := List.pairwise_cons.mp hrest
      refine List.pairwise_append.mpr ⟨hfirst, List.pairwise_cons.mpr ⟨fun o ho => ?_, hafter⟩,
        fun o ho o' ho' => ?_⟩
      · rw [← sameSig_of_slot hb]
        exact hslot o ho
      · rcases List.mem_cons.mp ho' with rfl | ho'
        · exact hbefore o ho
        · exact hcross o ho o' (List.mem_cons_of_mem b ho')
    · exact h

/-- The order of the slots stands for the elements before. -/
def Summarises (sig : α → Option κ) (earlier order : List α) : Prop :=
  ∀ c, earlier.any (sameSig sig · c) = order.any (sameSig sig · c)

/-- The pass over a list: what becomes of the slots, and the new ones. -/
theorem foldl_place (hdistinct : Distinct sig order) (hsum : Summarises sig earlier order)
    (rest : List α) :
    rest.foldl (place sig last) order =
      order.map (representative (sameSig sig) last rest) ++
        representatives (sameSig sig) last earlier rest := by
  induction rest generalizing earlier order with
  | nil =>
      have hself : ∀ o, representative (sameSig sig) last [] o = o := by
        intro o
        unfold representative
        split <;> rfl
      rw [List.foldl_nil, representatives, List.map_congr_left fun o _ => hself o, List.map_id',
        List.append_nil]
  | cons a rest ih =>
      have hskip : ∀ o, sameSig sig o a = false →
          representative (sameSig sig) last (a :: rest) o =
            representative (sameSig sig) last rest o := by
        intro o ho
        rw [representative, representative, List.filter_cons_of_neg (by simp [ho])]
      rw [List.foldl_cons, representatives, hsum a]
      rcases slot_cases sig a order with hnew | ⟨before, b, after, rfl, hb, hbefore⟩
      · have hany : order.any (sameSig sig · a) = false := by
          rw [List.any_eq_false]
          exact fun o ho => by rw [hnew o ho]; decide
        have hsum' : Summarises sig (earlier ++ [a]) (order ++ [a]) := by
          intro c
          rw [List.any_append, List.any_append, hsum c]
        have hplaced : Distinct sig (place sig last order a) := distinct_place hdistinct a
        rw [place_of_new hnew] at hplaced ⊢
        rw [hany, if_neg (by decide), ih hplaced hsum', List.map_append, List.append_assoc,
          List.map_congr_left fun o ho => hskip o (hnew o ho)]
        rfl
      · have hany : (before ++ b :: after).any (sameSig sig · a) = true := by
          rw [List.any_eq_true]
          exact ⟨b, by simp, hb⟩
        have hplaced : Distinct sig (place sig last (before ++ b :: after) a) := distinct_place hdistinct a
        have habsorbed : ∀ c, ((before ++ b :: after).any (sameSig sig · c) || sameSig sig a c) =
            (before ++ b :: after).any (sameSig sig · c) := by
          intro c
          rw [← sameSig_of_slot hb, List.any_append, List.any_cons]
          cases sameSig sig b c <;> simp
        rw [place_of_slot hb hbefore] at hplaced ⊢
        rw [hany, if_pos rfl]
        cases last with
        | false =>
            have hsum' : Summarises sig (earlier ++ [a]) (before ++ b :: after) := by
              intro c
              rw [List.any_append, hsum c, List.any_cons, List.any_nil, Bool.or_false, habsorbed]
            have hself : ∀ rest o, representative (sameSig sig) false rest o = o := fun _ _ => rfl
            rw [if_neg (by decide), ih hdistinct hsum',
              List.map_congr_left fun o _ => hself rest o,
              List.map_congr_left fun o _ => hself (a :: rest) o]
        | true =>
            have hsum' : Summarises sig (earlier ++ [a]) (before ++ a :: after) := by
              intro c
              rw [List.any_append, hsum c, List.any_cons, List.any_nil, Bool.or_false, habsorbed,
                List.any_append, List.any_append, List.any_cons, List.any_cons, sameSig_of_slot hb]
            obtain ⟨-, hrest, -⟩ := List.pairwise_append.mp hdistinct
            have hafter : ∀ o ∈ after, sameSig sig o a = false := by
              intro o ho
              refine Bool.eq_false_iff.mpr fun hoa => ?_
              have hbo := (List.pairwise_cons.mp hrest).1 o ho
              rw [sameSig_trans hb (sameSig_symm hoa)] at hbo
              cases hbo
            have hslot : representative (sameSig sig) true (a :: rest) b =
                representative (sameSig sig) true rest a := by
              have hfilter : rest.filter (sameSig sig b) = rest.filter (sameSig sig a) :=
                List.filter_congr fun c _ => sameSig_of_slot hb c
              rw [representative, representative, if_pos rfl, if_pos rfl,
                List.filter_cons_of_pos hb, hfilter, List.getLast?_cons]
              rfl
            rw [if_pos rfl] at hplaced
            rw [if_pos rfl, ih hplaced hsum', List.map_append, List.map_append, List.map_cons,
              List.map_cons, hslot, List.map_congr_left fun o ho => hskip o (hbefore o ho),
              List.map_congr_left fun o ho => hskip o (hafter o ho)]

/-- A pass over a list leaves one representative of every class. -/
theorem foldl_place_nil (sig : α → Option κ) (last : Bool) (as : List α) :
    as.foldl (place sig last) [] = representatives (sameSig sig) last [] as := by
  have hrun : as.foldl (place sig last) [] =
      ([] : List α).map (representative (sameSig sig) last as) ++
        representatives (sameSig sig) last [] as :=
    foldl_place List.Pairwise.nil (fun _ => rfl) as
  rw [hrun, List.map_nil, List.nil_append]

theorem distinct_foldl_place (h : Distinct sig order) (as : List α) :
    Distinct sig (as.foldl (place sig last) order) := by
  induction as generalizing order with
  | nil => exact h
  | cons a as ih => exact ih (distinct_place h a)

/-- What is left was there. -/
theorem mem_foldl_place {as : List α} (h : a ∈ as.foldl (place sig last) order) :
    a ∈ order ∨ a ∈ as := by
  induction as generalizing order with
  | nil => exact .inl h
  | cons b as ih =>
      rcases ih h with hplaced | has
      · rcases slot_cases sig b order with hnew | ⟨before, c, after, rfl, hc, hbefore⟩
        · rw [place_of_new hnew, List.mem_append, List.mem_singleton] at hplaced
          rcases hplaced with hplaced | rfl
          · exact .inl hplaced
          · exact .inr List.mem_cons_self
        · rw [place_of_slot hc hbefore] at hplaced
          split at hplaced
          · rcases List.mem_append.mp hplaced with hbefore' | hafter
            · exact .inl (List.mem_append_left _ hbefore')
            · rcases List.mem_cons.mp hafter with rfl | hafter
              · exact .inr List.mem_cons_self
              · exact .inl (List.mem_append_right _ (List.mem_cons_of_mem c hafter))
          · exact .inl hplaced
      · exact .inr (List.mem_cons_of_mem b has)

/-- A pass over elements of distinct classes changes nothing. -/
theorem foldl_place_distinct (h : Distinct sig (order ++ rest)) :
    rest.foldl (place sig last) order = order ++ rest := by
  induction rest generalizing order with
  | nil => rw [List.foldl_nil, List.append_nil]
  | cons a rest ih =>
      obtain ⟨-, -, hcross⟩ := List.pairwise_append.mp h
      have hnew : ∀ o ∈ order, sameSig sig o a = false := fun o ho =>
        hcross o ho a List.mem_cons_self
      have heq : order ++ a :: rest = order ++ [a] ++ rest := by simp
      rw [List.foldl_cons, place_of_new hnew, heq]
      exact ih (by rwa [heq] at h)

/-! ## By equality -/

theorem nodup_eraseDups [BEq α] [LawfulBEq α] (xs : List α) : xs.eraseDups.Nodup := by
  induction hlen : xs.length using Nat.strongRecOn generalizing xs with
  | ind n ih =>
      cases xs with
      | nil => simp
      | cons a as =>
          rw [List.eraseDups_cons, List.nodup_cons]
          have hle : (as.filter fun b => !b == a).length ≤ as.length := List.length_filter_le _ _
          refine ⟨by simp [List.mem_eraseDups], ih _ ?_ _ rfl⟩
          rw [← hlen, List.length_cons]
          omega

end Deduplication
