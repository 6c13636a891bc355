-- SUMMARY: Lists whose elements have a key: the dict that collects them by key, and what it hides.
import Mathlib.Algebra.Ring.Nat
import Mathlib.Data.List.Perm.Basic
import Mathlib.Data.List.Nodup
import Mathlib.Data.List.Induction

/-!
# Keyed lists

A dict that collects the elements of a list by a key holds the last element of each key. The
elements before it with the same key are hidden.
-/

namespace KeyedLists

variable {α β : Type} [DecidableEq β] (key : α → β)

/-- `d[key(x)] = x`, where `d` is given by its values. -/
def put (x : α) : List α → List α
  | [] => [x]
  | y :: d => if key y = key x then x :: d else y :: put x d

/-- `{key(x): x for x in xs}` -/
def dictBy (xs : List α) : List α := xs.foldl (fun d x => put key x d) []

/-- `d.get(k)` -/
def get (k : β) (d : List α) : Option α := d.find? fun x => key x = k

/-- The last element with the key. -/
def lastWith (k : β) (xs : List α) : Option α := get key k xs.reverse

/-- The elements that no later one has the key of. -/
def lasts : List α → List α
  | [] => []
  | x :: xs => if key x ∈ xs.map key then lasts xs else x :: lasts xs

/-- The elements that a later one has the key of. -/
def hidden : List α → List α
  | [] => []
  | x :: xs => if key x ∈ xs.map key then x :: hidden xs else hidden xs

variable {key} {k : β} {x y : α} {d xs : List α}

/-! ## Looking up -/

theorem key_of_get (h : get key k d = some x) : key x = k := by
  simpa using List.find?_some h

theorem mem_of_get (h : get key k d = some x) : x ∈ d := List.mem_of_find?_eq_some h

theorem get_isSome_iff : (get key k d).isSome ↔ k ∈ d.map key := by
  simp [get, List.find?_isSome]

theorem get_eq_none_iff : get key k d = none ↔ k ∉ d.map key := by
  rw [← get_isSome_iff, Option.not_isSome_iff_eq_none]

theorem get_cons : get key k (x :: d) = if key x = k then some x else get key k d := by
  unfold get
  by_cases hx : key x = k <;> simp [hx]

theorem get_put : get key k (put key x d) = if key x = k then some x else get key k d := by
  induction d with
  | nil => exact get_cons
  | cons y d ih =>
      unfold put
      split
      next hy => rw [get_cons, get_cons, hy]; split <;> rfl
      next hy =>
        rw [get_cons, get_cons, ih]
        by_cases hk : key y = k
        · rw [if_pos hk, if_pos hk, if_neg fun hx => hy (hk.trans hx.symm)]
        · rw [if_neg hk, if_neg hk]

theorem get_append {d' : List α} : get key k (d ++ d') = (get key k d).or (get key k d') :=
  List.find?_append

theorem lastWith_cons :
    lastWith key k (x :: xs) = (lastWith key k xs).or (if key x = k then some x else none) := by
  rw [lastWith, List.reverse_cons, get_append, get_cons]
  rfl

theorem key_of_lastWith (h : lastWith key k xs = some x) : key x = k := key_of_get h

theorem mem_of_lastWith (h : lastWith key k xs = some x) : x ∈ xs :=
  List.mem_reverse.mp (mem_of_get h)

theorem lastWith_isSome_iff : (lastWith key k xs).isSome ↔ k ∈ xs.map key := by
  rw [lastWith, get_isSome_iff, List.map_reverse, List.mem_reverse]

theorem lastWith_eq_none_iff : lastWith key k xs = none ↔ k ∉ xs.map key := by
  rw [← lastWith_isSome_iff, Option.not_isSome_iff_eq_none]

theorem lastWith_append {ys : List α} :
    lastWith key k (xs ++ ys) = (lastWith key k ys).or (lastWith key k xs) := by
  rw [lastWith, List.reverse_append, get_append]
  rfl

/-- The elements that a filter by key lets through are found as before. -/
theorem lastWith_filter {p : β → Bool} (hp : p k = true) :
    lastWith key k (xs.filter fun x => p (key x)) = lastWith key k xs := by
  induction xs with
  | nil => rfl
  | cons x xs ih =>
      by_cases hx : p (key x) = true
      · rw [List.filter_cons_of_pos (by exact hx), lastWith_cons, lastWith_cons, ih]
      · have hne : key x ≠ k := by
          rintro rfl
          exact hx hp
        rw [List.filter_cons_of_neg (by exact hx), ih, lastWith_cons, if_neg hne, Option.or_none]

theorem lastWith_map {γ : Type} {key' : γ → β} {f : α → γ} (hf : ∀ x, key' (f x) = key x) :
    lastWith key' k (xs.map f) = (lastWith key k xs).map f := by
  induction xs with
  | nil => rfl
  | cons x xs ih =>
      rw [List.map_cons, lastWith_cons, lastWith_cons, ih, hf]
      cases lastWith key k xs with
      | some y => rfl
      | none => by_cases hx : key x = k <;> simp [hx]

/-! ## The dict of a list -/

theorem map_put : (put key x d).map key =
    if key x ∈ d.map key then d.map key else d.map key ++ [key x] := by
  induction d with
  | nil => simp [put]
  | cons y d ih =>
      unfold put
      split
      next hy => simp [hy]
      next hy =>
        rw [List.map_cons, ih, List.map_cons]
        have hmem : key x ∈ key y :: d.map key ↔ key x ∈ d.map key := by
          rw [List.mem_cons]
          exact or_iff_right fun h => hy h.symm
        by_cases hd : key x ∈ d.map key
        · rw [if_pos hd, if_pos (hmem.mpr hd)]
        · rw [if_neg hd, if_neg fun h => hd (hmem.mp h)]
          rfl

theorem nodup_put (h : (d.map key).Nodup) : ((put key x d).map key).Nodup := by
  rw [map_put]
  split
  next => exact h
  next hx => exact h.append (List.nodup_singleton _) (by simpa using hx)

private theorem dictBy_concat : dictBy key (xs ++ [x]) = put key x (dictBy key xs) := by
  simp [dictBy]

/-- The dict has one element for each key. -/
theorem nodup_dictBy : ((dictBy key xs).map key).Nodup := by
  induction xs using List.reverseRecOn with
  | nil => exact List.nodup_nil
  | append_singleton xs x ih =>
      rw [dictBy_concat]
      exact nodup_put ih

/-- The dict holds the last element with a key. -/
theorem get_dictBy : get key k (dictBy key xs) = lastWith key k xs := by
  induction xs using List.reverseRecOn with
  | nil => rfl
  | append_singleton xs x ih =>
      have hlast : lastWith key k (xs ++ [x]) = get key k (x :: xs.reverse) := by
        rw [lastWith, List.reverse_append]
        rfl
      rw [dictBy_concat, get_put, ih, hlast, get_cons]
      rfl

theorem get_eq_some_of_mem (hd : (d.map key).Nodup) (h : x ∈ d) : get key (key x) d = some x := by
  induction d with
  | nil => cases h
  | cons y d ih =>
      rw [List.map_cons, List.nodup_cons] at hd
      rw [get_cons]
      rcases List.mem_cons.mp h with rfl | h
      · exact if_pos rfl
      · have hne : key y ≠ key x := fun heq => hd.1 (heq ▸ List.mem_map_of_mem h)
        rw [if_neg hne, ih hd.2 h]

/-- In a list without repeated keys the last element with a key is the only one. -/
theorem lastWith_eq_some_iff (hd : (d.map key).Nodup) :
    lastWith key k d = some x ↔ x ∈ d ∧ key x = k := by
  constructor
  · exact fun h => ⟨mem_of_lastWith h, key_of_lastWith h⟩
  · rintro ⟨hx, rfl⟩
    refine get_eq_some_of_mem ?_ (List.mem_reverse.mpr hx)
    rw [List.map_reverse, List.nodup_reverse]
    exact hd

theorem mem_dictBy : x ∈ dictBy key xs ↔ lastWith key (key x) xs = some x := by
  rw [← get_dictBy]
  exact ⟨get_eq_some_of_mem nodup_dictBy, mem_of_get⟩

theorem mem_keys_dictBy : k ∈ (dictBy key xs).map key ↔ k ∈ xs.map key := by
  rw [← get_isSome_iff, get_dictBy, lastWith_isSome_iff]

theorem mem_of_mem_dictBy (h : x ∈ dictBy key xs) : x ∈ xs := mem_of_lastWith (mem_dictBy.mp h)

/-- Elements that keep their keys apart may be changed before or after they are collected. -/
theorem dictBy_map {α' β' : Type} [DecidableEq β'] {key' : α' → β'} {f : α → α'}
    (hf : ∀ x ∈ xs, ∀ y ∈ xs, key' (f x) = key' (f y) ↔ key x = key y) :
    dictBy key' (xs.map f) = (dictBy key xs).map f := by
  have hput : ∀ {x : α} {d : List α}, (∀ y ∈ d, key' (f y) = key' (f x) ↔ key y = key x) →
      put key' (f x) (d.map f) = (put key x d).map f := by
    intro x d hd
    induction d with
    | nil => rfl
    | cons y d ih =>
        obtain ⟨hy, hd⟩ := List.forall_mem_cons.mp hd
        rw [List.map_cons, put, put]
        by_cases hkey : key y = key x
        · rw [if_pos hkey, if_pos (hy.mpr hkey), List.map_cons]
        · rw [if_neg hkey, if_neg fun h => hkey (hy.mp h), ih hd, List.map_cons]
  induction xs using List.reverseRecOn with
  | nil => rfl
  | append_singleton xs x ih =>
      rw [List.map_append, List.map_singleton, dictBy_concat, dictBy_concat,
        ih fun y hy z hz => hf y (List.mem_append_left _ hy) z (List.mem_append_left _ hz)]
      exact hput fun y hy => hf y (List.mem_append_left _ (mem_of_mem_dictBy hy)) x (by simp)

/-! ## What the dict holds and hides -/

theorem mem_lasts : x ∈ lasts key xs ↔ lastWith key (key x) xs = some x := by
  induction xs with
  | nil => simp [lasts, lastWith, get]
  | cons y xs ih =>
      rw [lastWith_cons]
      unfold lasts
      by_cases hy : key y ∈ xs.map key
      · rw [if_pos hy, ih]
        by_cases hx : key x ∈ xs.map key
        · obtain ⟨z, hz⟩ := Option.isSome_iff_exists.mp (lastWith_isSome_iff.mpr hx)
          rw [hz, Option.some_or]
        · have hne : key y ≠ key x := fun heq => hx (heq ▸ hy)
          rw [lastWith_eq_none_iff.mpr hx, Option.none_or, if_neg hne]
      · rw [if_neg hy, List.mem_cons, ih]
        by_cases hx : key x ∈ xs.map key
        · obtain ⟨z, hz⟩ := Option.isSome_iff_exists.mp (lastWith_isSome_iff.mpr hx)
          have hne : x ≠ y := by
            rintro rfl
            exact hy hx
          rw [hz, Option.some_or]
          exact or_iff_right hne
        · rw [lastWith_eq_none_iff.mpr hx, Option.none_or]
          by_cases heq : key y = key x
          · rw [if_pos heq]
            simp [eq_comm]
          · rw [if_neg heq]
            simp only [reduceCtorEq, or_false, iff_false]
            rintro rfl
            exact heq rfl

theorem nodup_lasts : ((lasts key xs).map key).Nodup := by
  induction xs with
  | nil => exact List.nodup_nil
  | cons y xs ih =>
      unfold lasts
      split
      next => exact ih
      next hy =>
        rw [List.map_cons, List.nodup_cons]
        refine ⟨fun h => hy ?_, ih⟩
        obtain ⟨x, hx, heq⟩ := List.mem_map.mp h
        rw [← heq, ← lastWith_isSome_iff, mem_lasts.mp hx]
        rfl

/-- The dict holds the last elements. -/
theorem dictBy_perm : (dictBy key xs).Perm (lasts key xs) :=
  (List.perm_ext_iff_of_nodup nodup_dictBy.of_map nodup_lasts.of_map).mpr fun _ =>
    mem_dictBy.trans mem_lasts.symm

theorem lasts_append_hidden : (lasts key xs ++ hidden key xs).Perm xs := by
  induction xs with
  | nil => exact .nil
  | cons x xs ih =>
      unfold lasts hidden
      split
      next => exact List.perm_middle.trans (ih.cons x)
      next => exact ih.cons x

theorem hidden_eq_nil_iff : hidden key xs = [] ↔ (xs.map key).Nodup := by
  induction xs with
  | nil => simp [hidden]
  | cons x xs ih =>
      unfold hidden
      rw [List.map_cons, List.nodup_cons]
      split
      next hx => exact iff_of_false (List.cons_ne_nil _ _) fun h => h.1 hx
      next hx => exact ih.trans (and_iff_right hx).symm

/-- What is counted in a list is counted in its dict or in what the dict hides. -/
theorem sum_dictBy (key : α → β) (f : α → Nat) (xs : List α) :
    ((dictBy key xs).map f).sum + ((hidden key xs).map f).sum = (xs.map f).sum := by
  rw [(dictBy_perm.map f).sum_nat, ← List.sum_append, ← List.map_append]
  exact (lasts_append_hidden.map f).sum_nat

private theorem put_of_not_mem (h : key x ∉ d.map key) : put key x d = d ++ [x] := by
  induction d with
  | nil => rfl
  | cons y d ih =>
      rw [List.map_cons, List.mem_cons, not_or] at h
      rw [put, if_neg fun heq => h.1 heq.symm, ih h.2, List.cons_append]

/-- A list without repeated keys is its own dict. -/
theorem dictBy_of_nodup (h : (xs.map key).Nodup) : dictBy key xs = xs := by
  induction xs using List.reverseRecOn with
  | nil => rfl
  | append_singleton xs x ih =>
      rw [List.map_append, List.map_singleton, List.nodup_append] at h
      obtain ⟨hxs, -, hdisjoint⟩ := h
      rw [dictBy_concat, ih hxs]
      exact put_of_not_mem fun hx => hdisjoint _ hx _ (List.mem_singleton_self _) rfl

/-- Whether an element is hidden depends on those with its key. -/
theorem lasts_filter (p : β → Bool) :
    lasts key (xs.filter fun x => p (key x)) = (lasts key xs).filter fun x => p (key x) := by
  induction xs with
  | nil => rfl
  | cons x xs ih =>
      by_cases hp : p (key x) = true
      · have hmem : key x ∈ (xs.filter fun x => p (key x)).map key ↔ key x ∈ xs.map key := by
          simp only [List.mem_map, List.mem_filter]
          constructor
          · rintro ⟨y, ⟨hy, -⟩, heq⟩
            exact ⟨y, hy, heq⟩
          · rintro ⟨y, hy, heq⟩
            exact ⟨y, ⟨hy, by rw [heq]; exact hp⟩, heq⟩
        rw [List.filter_cons_of_pos (by exact hp)]
        unfold lasts
        by_cases hx : key x ∈ xs.map key
        · rw [if_pos (hmem.mpr hx), if_pos hx, ih]
        · rw [if_neg fun h => hx (hmem.mp h), if_neg hx, ih, List.filter_cons_of_pos (by exact hp)]
      · rw [List.filter_cons_of_neg (by exact hp), ih]
        conv_rhs => unfold lasts
        split
        next => rfl
        next => rw [List.filter_cons_of_neg (by exact hp)]

/-! ## Lists of pairs -/

section

variable {l : List (β × α)} {ks : List β}

theorem lookup_of_mem (hl : (l.map Prod.fst).Nodup) (h : (k, x) ∈ l) : l.lookup k = some x := by
  induction l with
  | nil => cases h
  | cons p l ih =>
      rw [List.map_cons, List.nodup_cons] at hl
      rcases List.mem_cons.mp h with rfl | h
      · exact List.lookup_cons_self
      · have hne : (k == p.1) = false :=
          beq_eq_false_iff_ne.mpr fun heq => hl.1 (heq ▸ List.mem_map_of_mem h)
        rw [List.lookup_cons, hne, ih hl.2 h]

theorem mem_of_lookup (h : l.lookup k = some x) : (k, x) ∈ l := by
  obtain ⟨l₁, l₂, rfl, -⟩ := List.lookup_eq_some_iff.mp h
  exact List.mem_append_right _ List.mem_cons_self

theorem lookup_put {k' : β} :
    (put Prod.fst (k', x) l).lookup k = if k = k' then some x else l.lookup k := by
  induction l with
  | nil =>
      rw [put, List.lookup_cons, List.lookup_nil]
      by_cases heq : k = k'
      · rw [if_pos heq, beq_iff_eq.mpr heq]
      · rw [if_neg heq, beq_eq_false_iff_ne.mpr heq]
  | cons p l ih =>
      unfold put
      split
      next hp =>
        rw [List.lookup_cons, List.lookup_cons, hp]
        by_cases heq : k = k'
        · rw [if_pos heq, beq_iff_eq.mpr heq]
        · rw [if_neg heq, beq_eq_false_iff_ne.mpr heq]
      next hp =>
        rw [List.lookup_cons, List.lookup_cons, ih]
        by_cases heq : k = p.1
        · have hne : k ≠ k' := fun h => hp (heq.symm.trans h)
          rw [if_neg hne, if_neg hne]
        · rw [beq_eq_false_iff_ne.mpr heq]

/-- What a key has already may be put again. -/
theorem put_of_lookup (h : l.lookup k = some x) : put Prod.fst (k, x) l = l := by
  induction l with
  | nil => cases h
  | cons p l ih =>
      unfold put
      split
      next hp =>
        rw [List.lookup_cons, beq_iff_eq.mpr hp.symm] at h
        have hx : p.2 = x := Option.some.inj h
        rw [← hx]
        exact congrArg (fun q => q :: l) (Prod.ext hp.symm rfl)
      next hp =>
        rw [List.lookup_cons, beq_eq_false_iff_ne.mpr fun heq => hp heq.symm] at h
        rw [ih h]

theorem lookup_zip_map {f : β → α} (h : k ∈ ks) : (ks.zip (ks.map f)).lookup k = some (f k) := by
  induction ks with
  | nil => cases h
  | cons k' ks ih =>
      rw [List.map_cons, List.zip_cons_cons, List.lookup_cons]
      by_cases heq : k = k'
      · rw [heq, beq_self_eq_true]
      · rw [beq_eq_false_iff_ne.mpr heq, ih ((List.mem_cons.mp h).resolve_left heq)]

end

end KeyedLists
