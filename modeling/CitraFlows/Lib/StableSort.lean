-- SUMMARY: Stable sorting by a key: what it leaves is determined, parts may be sorted first, and the place of an element is counted.
import Mathlib.Data.List.Sort
import Mathlib.Data.Prod.Lex

/-!
# Stable sorting

A stable sort by a key orders a list by the key and leaves the elements of one key in their order.
The two determine the result, so sorting parts of a list first, or once more, changes nothing.
-/

namespace StableSort

variable {α β κ : Type} [LinearOrder κ]

def sortBy (key : α → κ) (l : List α) : List α := l.insertionSort fun a b => key a ≤ key b

/-- The elements of a key, in their order -/
def ofKey (key : α → κ) (k : κ) (l : List α) : List α := l.filter fun a => key a = k

variable {key : α → κ} {l l' : List α}

theorem sortBy_perm (l : List α) : (sortBy key l).Perm l := List.perm_insertionSort _ l

theorem length_sortBy (l : List α) : (sortBy key l).length = l.length := (sortBy_perm l).length_eq

theorem sortBy_pairwise (l : List α) : (sortBy key l).Pairwise fun a b => key a ≤ key b := by
  have : Std.Total fun a b : α => key a ≤ key b := ⟨fun a b => le_total (key a) (key b)⟩
  have : IsTrans α fun a b : α => key a ≤ key b := ⟨fun _ _ _ => le_trans⟩
  exact List.pairwise_insertionSort _ l

/-- Elements of one key keep their order. -/
theorem ofKey_sortBy (k : κ) (l : List α) : ofKey key k (sortBy key l) = ofKey key k l := by
  have : Std.Total fun a b : α => key a ≤ key b := ⟨fun a b => le_total (key a) (key b)⟩
  have : IsTrans α fun a b : α => key a ≤ key b := ⟨fun _ _ _ => le_trans⟩
  have hkey : ∀ a ∈ ofKey key k l, key a = k := fun a ha =>
    of_decide_eq_true (List.mem_filter.mp ha).2
  have hpairs : (ofKey key k l).Pairwise fun a b => key a ≤ key b :=
    List.pairwise_of_forall_mem_list fun a ha b hb => ((hkey a ha).trans (hkey b hb).symm).le
  have hsub : List.Sublist (ofKey key k l) (sortBy key l) :=
    List.sublist_insertionSort hpairs List.filter_sublist
  have hfilter : List.Sublist (ofKey key k l) (ofKey key k (sortBy key l)) := by
    have h := hsub.filter fun a => decide (key a = k)
    rwa [ofKey, List.filter_filter, show (fun a => decide (key a = k) && decide (key a = k)) =
      fun a => decide (key a = k) from funext fun a => Bool.and_self _] at h
  exact (hfilter.eq_of_length ((sortBy_perm l).filter _).length_eq.symm).symm

/-- A sorted list is determined by its elements of each key. -/
theorem eq_of_ofKey (hl : l.Pairwise fun a b => key a ≤ key b)
    (hl' : l'.Pairwise fun a b => key a ≤ key b) (h : ∀ k, ofKey key k l = ofKey key k l') :
    l = l' := by
  have hmem : ∀ {l l' : List α}, (∀ k, ofKey key k l = ofKey key k l') → ∀ a ∈ l, a ∈ l' := by
    intro l l' h a ha
    have hmem : a ∈ ofKey key (key a) l := List.mem_filter.mpr ⟨ha, decide_eq_true rfl⟩
    rw [h] at hmem
    exact (List.mem_filter.mp hmem).1
  induction l generalizing l' with
  | nil =>
      cases l' with
      | nil => rfl
      | cons b l' => cases hmem (fun k => (h k).symm) b List.mem_cons_self
  | cons a l ih =>
      cases l' with
      | nil => cases hmem h a List.mem_cons_self
      | cons b l' =>
          obtain ⟨ha, hrest⟩ := List.pairwise_cons.mp hl
          obtain ⟨hb, hrest'⟩ := List.pairwise_cons.mp hl'
          have hle : ∀ {a b : α} {l : List α}, (∀ c ∈ l, key a ≤ key c) → b ∈ a :: l →
              key a ≤ key b := by
            intro a b l hmin hb
            rcases List.mem_cons.mp hb with rfl | hb
            · exact le_rfl
            · exact hmin b hb
          have hkey : key a = key b :=
            le_antisymm (hle ha (hmem (fun k => (h k).symm) b List.mem_cons_self))
              (hle hb (hmem h a List.mem_cons_self))
          have hheads := h (key a)
          rw [ofKey, ofKey, List.filter_cons_of_pos (by simp),
            List.filter_cons_of_pos (by simp [hkey])] at hheads
          obtain ⟨rfl, -⟩ := List.cons.inj hheads
          refine congrArg _ (ih hrest hrest' fun k => ?_)
          have hk := h k
          rw [ofKey, ofKey, List.filter_cons, List.filter_cons] at hk
          split at hk
          · exact (List.cons.inj hk).2
          · exact hk

/-- Sorting is the only way to order a list by the key and to keep the elements of each key. -/
theorem sortBy_eq (hl' : l'.Pairwise fun a b => key a ≤ key b)
    (h : ∀ k, ofKey key k l' = ofKey key k l) : sortBy key l = l' :=
  eq_of_ofKey (sortBy_pairwise l) hl' fun k => (ofKey_sortBy k l).trans (h k).symm

/-- Parts may be sorted first. -/
theorem sortBy_flatten (groups : List (List α)) :
    sortBy key (groups.map (sortBy key)).flatten = sortBy key groups.flatten := by
  refine sortBy_eq (sortBy_pairwise _) fun k => ?_
  rw [ofKey_sortBy, ofKey, ofKey, List.filter_flatten, List.filter_flatten, List.map_map]
  exact congrArg _ (List.map_congr_left fun group _ => (ofKey_sortBy k group).symm)

theorem sortBy_map (f : β → α) (l : List β) :
    sortBy key (l.map f) = (sortBy (fun b => key (f b)) l).map f :=
  (List.map_insertionSort _ _ f l fun _ _ _ _ => Iff.rfl).symm

/-- Elements that are related one by one and have the same keys stay so. -/
theorem sortBy_forall₂ {R : α → β → Prop} {key' : β → κ} {l' : List β}
    (hR : ∀ a b, R a b → key a = key' b) (h : List.Forall₂ R l l') :
    List.Forall₂ R (sortBy key l) (sortBy key' l') := by
  have hinsert : ∀ {a b} {l : List α} {l' : List β}, R a b → List.Forall₂ R l l' →
      List.Forall₂ R (l.orderedInsert (fun a b => key a ≤ key b) a)
        (l'.orderedInsert (fun a b => key' a ≤ key' b) b) := by
    intro a b l l' hab hl
    induction hl with
    | nil => exact .cons hab .nil
    | @cons c d l l' hcd hl ih =>
        rw [List.orderedInsert_cons, List.orderedInsert_cons, hR a b hab, hR c d hcd]
        split
        · exact .cons hab (.cons hcd hl)
        · exact .cons hcd ih
  induction h with
  | nil => exact .nil
  | cons hab _ ih => exact hinsert hab ih

/-! ## Places -/

/-- In a list that is strictly ordered by a key, the elements before which fewer than `c` come are
the first `c` ones. -/
theorem mem_take_iff (hl : l.Pairwise fun x y => key x < key y) {x : α} (hx : x ∈ l) (c : Nat) :
    x ∈ l.take c ↔ (l.countP fun y => key y < key x) < c := by
  induction l generalizing c with
  | nil => cases hx
  | cons a l ih =>
      obtain ⟨ha, hl⟩ := List.pairwise_cons.mp hl
      cases c with
      | zero => simp
      | succ c =>
          rw [List.take_succ_cons, List.mem_cons]
          rcases List.mem_cons.mp hx with rfl | hx
          · have hnone : ((x :: l).countP fun y => key y < key x) = 0 := by
              rw [List.countP_eq_zero]
              intro b hb
              rcases List.mem_cons.mp hb with rfl | hb
              · simp
              · simpa using (ha b hb).le
            rw [hnone]
            exact iff_of_true (.inl rfl) (Nat.succ_pos c)
          · have hlt : key a < key x := ha x hx
            have hne : x ≠ a := by
              rintro rfl
              exact lt_irrefl _ hlt
            rw [List.countP_cons_of_pos (by simpa using hlt), Nat.add_lt_add_iff_right,
              ← ih hl hx c]
            exact or_iff_right hne

/-- The key of an element and its position -/
def placeKey (key : α → κ) (x : α × Nat) : κ ×ₗ Nat := toLex (key x.1, x.2)

/-- How many elements a stable sort puts before one, which stands at a position of the list -/
def place (key : α → κ) (l : List α) (x : α × Nat) : Nat :=
  l.zipIdx.countP fun y => key y.1 < key x.1 ∨ key y.1 = key x.1 ∧ y.2 < x.2

/-- The list in its order, every element with the position where it stood -/
def sortPlaces (key : α → κ) (l : List α) : List (α × Nat) := sortBy (placeKey key) l.zipIdx

theorem zipIdx_pairwise (l : List α) : l.zipIdx.Pairwise fun x y => x.2 < y.2 := by
  rw [List.pairwise_iff_getElem]
  intro i j hi hj hij
  simpa using hij

theorem sortPlaces_perm (l : List α) : (sortPlaces key l).Perm l.zipIdx := sortBy_perm l.zipIdx

/-- No position comes twice. -/
theorem sortPlaces_positions (l : List α) :
    (sortPlaces key l).Pairwise fun x y => x.2 ≠ y.2 := by
  have hperm : (sortPlaces key l).Perm l.zipIdx := sortPlaces_perm l
  refine (hperm.pairwise_iff fun {x y} (h : x.2 ≠ y.2) => h.symm).mpr ?_
  exact (zipIdx_pairwise l).imp fun h => h.ne

theorem sortPlaces_pairwise (l : List α) :
    (sortPlaces key l).Pairwise fun x y => placeKey key x < placeKey key y := by
  have hsorted : (sortPlaces key l).Pairwise fun x y => placeKey key x ≤ placeKey key y :=
    sortBy_pairwise l.zipIdx
  refine (hsorted.and (sortPlaces_positions l)).imp fun {x y} h => lt_of_le_of_ne h.1 fun heq => h.2 ?_
  exact congrArg (fun p => (ofLex p).2) heq

theorem map_sortPlaces (l : List α) : (sortPlaces key l).map Prod.fst = sortBy key l := by
  have hlt : ∀ {x y : α × Nat}, placeKey key x < placeKey key y →
      key x.1 < key y.1 ∨ key x.1 = key y.1 ∧ x.2 < y.2 := fun h => Prod.Lex.toLex_lt_toLex.mp h
  refine (sortBy_eq ?_ fun k => ?_).symm
  · rw [List.pairwise_map]
    exact (sortPlaces_pairwise l).imp fun h => (hlt h).elim le_of_lt fun h => h.1.le
  · -- The elements of one key are in the order of their positions, before and after.
    have hsame : (sortPlaces key l).filter (fun x => decide (key x.1 = k)) =
        l.zipIdx.filter fun x => decide (key x.1 = k) := by
      refine ((sortPlaces_perm l).filter _).eq_of_pairwise
        (fun (x y : α × Nat) _ _ (hxy : x.2 < y.2) hyx => absurd hyx hxy.asymm) ?_
        ((zipIdx_pairwise l).filter _)
      rw [List.pairwise_filter]
      refine (sortPlaces_pairwise l).imp fun {x y} h hx hy => ?_
      have hkeys : key x.1 = key y.1 := (of_decide_eq_true hx).trans (of_decide_eq_true hy).symm
      exact (hlt h).elim (fun h => absurd hkeys h.ne) And.right
    have hfilter : ∀ ps : List (α × Nat), ofKey key k (ps.map Prod.fst) =
        (ps.filter fun x => decide (key x.1 = k)).map Prod.fst := fun ps => List.filter_map
    rw [hfilter, hsame, ← hfilter, List.zipIdx_map_fst]

theorem mem_take_sortPlaces {x : α × Nat} (hx : x ∈ l.zipIdx) (c : Nat) :
    x ∈ (sortPlaces key l).take c ↔ place key l x < c := by
  have hperm : (sortPlaces key l).Perm l.zipIdx := sortPlaces_perm l
  have hsorted : (sortPlaces key l).Pairwise fun x y => placeKey key x < placeKey key y :=
    sortPlaces_pairwise l
  rw [mem_take_iff hsorted (hperm.mem_iff.mpr hx), hperm.countP_eq]
  simp only [placeKey, Prod.Lex.toLex_lt_toLex, place]

end StableSort
