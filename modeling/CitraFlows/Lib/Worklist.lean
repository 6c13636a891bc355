-- SUMMARY: Dependency-gated worklists: schedules that visit an element once its dependencies are visited, and the frontier that makes them exhaustive.
import Mathlib.Data.Finset.Card
import Mathlib.Data.List.Nodup
import Mathlib.Order.WellFounded

/-!
# Dependency-gated worklists

Every element `x` waits for the elements of `deps x`. A worklist visits elements one
by one, each at most once and only after everything it waits for. This file has the
two facts such an algorithm rests on, over any type and any dependency function:

* a `Schedule` visits each element at most once, after its dependencies, and cannot
  be longer than the universe it runs in;
* as long as the pending elements form a `Frontier`, that is, contain every element
  that is ready, a worklist with nothing ready left has visited the whole universe.
-/

namespace Worklist

variable {α : Type*} [DecidableEq α] {deps : α → List α}

/-- `x` is not visited yet and everything it waits for is. -/
def Ready (deps : α → List α) (E : Finset α) (x : α) : Prop :=
  x ∉ E ∧ ∀ d ∈ deps x, d ∈ E

instance (E : Finset α) (x : α) : Decidable (Ready deps E x) :=
  inferInstanceAs (Decidable (_ ∧ _))

/-! ## Schedules -/

/-- `Schedule deps E xs E'`: from the visited set `E`, the elements `xs` are visited in
this order, each when it is ready, and leave the visited set `E'`. -/
inductive Schedule (deps : α → List α) : Finset α → List α → Finset α → Prop where
  | nil (E : Finset α) : Schedule deps E [] E
  | snoc {E E' : Finset α} {xs : List α} {x : α} (h : Schedule deps E xs E')
      (hx : Ready deps E' x) : Schedule deps E (xs ++ [x]) (insert x E')

namespace Schedule

theorem visited {E E' : Finset α} {xs : List α} (h : Schedule deps E xs E') :
    ∀ x, x ∈ E' ↔ x ∈ E ∨ x ∈ xs := by
  induction h with
  | nil => simp
  | snoc h hx ih =>
      intro y
      simp only [Finset.mem_insert, ih, List.mem_append, List.mem_singleton]
      tauto

theorem subset {E E' : Finset α} {xs : List α} (h : Schedule deps E xs E') : E ⊆ E' :=
  fun x hx => (h.visited x).mpr (.inl hx)

/-- Nothing visited before the schedule is visited by it. -/
theorem not_mem_start {E E' : Finset α} {xs : List α} (h : Schedule deps E xs E') :
    ∀ x ∈ xs, x ∉ E := by
  induction h with
  | nil => simp
  | snoc h hx ih =>
      intro y hy
      rcases List.mem_append.mp hy with hy | hy
      · exact ih y hy
      · rw [List.mem_singleton] at hy
        subst hy
        exact fun hE => hx.1 (h.subset hE)

/-- Each element is visited at most once. -/
theorem nodup {E E' : Finset α} {xs : List α} (h : Schedule deps E xs E') : xs.Nodup := by
  induction h with
  | nil => exact List.nodup_nil
  | snoc h hx ih =>
      refine List.Nodup.append ih (List.nodup_singleton _) ?_
      intro y hy hyx
      rw [List.mem_singleton] at hyx
      subst hyx
      exact hx.1 ((h.visited _).mpr (.inr hy))

/-- An element is visited after everything it waits for. -/
theorem deps_before {E E' : Finset α} {xs : List α} (h : Schedule deps E xs E')
    {pre post : List α} {x : α} (hxs : xs = pre ++ x :: post) :
    ∀ d ∈ deps x, d ∈ E ∨ d ∈ pre := by
  induction h generalizing post with
  | nil => simp at hxs
  | @snoc E' xs y h hy ih =>
      rcases List.eq_nil_or_concat post with rfl | ⟨post', z, rfl⟩
      · obtain ⟨rfl, hyx⟩ := List.append_inj' hxs rfl
        simp only [List.cons.injEq, and_true] at hyx
        subst hyx
        exact fun d hd => (h.visited d).mp (hy.2 d hd)
      · rw [List.concat_eq_append, ← List.cons_append, ← List.append_assoc] at hxs
        exact ih (List.append_inj' hxs rfl).1

theorem append {E E' E'' : Finset α} {xs ys : List α} (h : Schedule deps E xs E')
    (h' : Schedule deps E' ys E'') : Schedule deps E (xs ++ ys) E'' := by
  induction h' with
  | nil => simpa using h
  | snoc _ hx ih =>
      rw [← List.append_assoc]
      exact ih.snoc hx

/-- A schedule inside a universe is no longer than the unvisited part of it. -/
theorem length_le {E E' U : Finset α} {xs : List α} (h : Schedule deps E xs E')
    (hU : ∀ x ∈ xs, x ∈ U) : xs.length ≤ (U \ E).card := by
  have hsub : xs.toFinset ⊆ U \ E := by
    intro x hx
    rw [List.mem_toFinset] at hx
    exact Finset.mem_sdiff.mpr ⟨hU x hx, h.not_mem_start x hx⟩
  calc xs.length = xs.toFinset.card := (List.toFinset_card_of_nodup h.nodup).symm
    _ ≤ (U \ E).card := Finset.card_le_card hsub

/-- Where a schedule visits everything that waits for something, no element waits for
itself, however indirectly. -/
theorem wellFounded {E : Finset α} {xs : List α} {E₀ : Finset α} (h : Schedule deps E₀ xs E)
    (h₀ : ∀ x ∈ E₀, deps x = []) (hout : ∀ x ∉ E, deps x = []) :
    WellFounded fun d x => d ∈ deps x := by
  have hacc : ∀ x ∈ E, Acc (fun d x => d ∈ deps x) x := by
    clear hout
    induction h with
    | nil => exact fun x hx => ⟨x, fun d hd => by simp [h₀ x hx] at hd⟩
    | snoc h hy ih =>
        intro x hx
        rcases Finset.mem_insert.mp hx with rfl | hx
        · exact ⟨x, fun d hd => ih d (hy.2 d hd)⟩
        · exact ih x hx
  refine ⟨fun x => ?_⟩
  by_cases hx : x ∈ E
  · exact hacc x hx
  · exact ⟨x, fun d hd => by simp [hout x hx] at hd⟩

end Schedule

/-! ## Frontiers -/

/-- Every ready element of the universe is pending. -/
def Frontier (deps : α → List α) (U E : Finset α) (Q : List α) : Prop :=
  ∀ x ∈ U, Ready deps E x → x ∈ Q

namespace Frontier

omit [DecidableEq α] in
theorem mono {U E : Finset α} {Q Q' : List α} (h : Frontier deps U E Q)
    (hQ : ∀ x ∈ Q, Ready deps E x → x ∈ Q') : Frontier deps U E Q' :=
  fun x hx hr => hQ x (h x hx hr) hr

/-- Visiting `x` keeps the frontier when every element waiting for `x` is added. -/
theorem visit {U E : Finset α} {Q Q' : List α} {x : α} (h : Frontier deps U E Q)
    (hkeep : ∀ y ∈ Q, y ≠ x → y ∈ Q')
    (hadd : ∀ y ∈ U, x ∈ deps y → y ∉ insert x E → y ∈ Q') :
    Frontier deps U (insert x E) Q' := by
  intro y hy hr
  have hyx : y ≠ x := fun heq => hr.1 (by simp [heq])
  by_cases hdep : x ∈ deps y
  · exact hadd y hy hdep hr.1
  · refine hkeep y (h y hy ⟨fun hE => hr.1 (Finset.mem_insert_of_mem hE), ?_⟩) hyx
    intro d hd
    rcases Finset.mem_insert.mp (hr.2 d hd) with rfl | hdE
    · exact absurd hd hdep
    · exact hdE

/-- Where dependencies are well founded and stay in the universe, some unvisited
element is ready. -/
theorem exists_ready {U E : Finset α} (hwf : WellFounded fun d x => d ∈ deps x)
    (hU : ∀ x ∈ U, ∀ d ∈ deps x, d ∈ U) (hne : ¬ U ⊆ E) : ∃ x ∈ U, Ready deps E x := by
  obtain ⟨y, hyU, hyE⟩ := Finset.not_subset.mp hne
  obtain ⟨x, ⟨hxU, hxE⟩, hmin⟩ := hwf.has_min {x | x ∈ U ∧ x ∉ E} ⟨y, hyU, hyE⟩
  refine ⟨x, hxU, hxE, fun d hd => ?_⟩
  by_contra hdE
  exact hmin d ⟨hU x hxU d hd, hdE⟩ hd

/-- A worklist whose frontier holds nothing ready has visited the whole universe. -/
theorem covers {U E : Finset α} {Q : List α} (h : Frontier deps U E Q)
    (hwf : WellFounded fun d x => d ∈ deps x) (hU : ∀ x ∈ U, ∀ d ∈ deps x, d ∈ U)
    (hdone : ∀ x ∈ Q, ¬ Ready deps E x) : U ⊆ E := by
  by_contra hne
  obtain ⟨x, hxU, hr⟩ := exists_ready hwf hU hne
  exact hdone x (h x hxU hr) hr

end Frontier

/-! ## Stranded elements -/

/-- `x` waits for nothing any more, but the worklist does not hold it. -/
def Stranded (deps : α → List α) (E : Finset α) (Q : List α) (x : α) : Prop :=
  Ready deps E x ∧ x ∉ Q

/-- A stranded element stays stranded: only a visit to something it waits for could
add it, and all of those are visited. -/
theorem Stranded.visit {E : Finset α} {Q Q' : List α} {x y : α}
    (h : Stranded deps E Q x) (hy : Ready deps E y) (hyx : y ≠ x)
    (hadd : ∀ z ∈ Q', z ∈ Q ∨ y ∈ deps z) : Stranded deps (insert y E) Q' x := by
  refine ⟨⟨?_, fun d hd => Finset.mem_insert_of_mem (h.1.2 d hd)⟩, fun hx => ?_⟩
  · simp [Ne.symm hyx, h.1.1]
  · rcases hadd x hx with hx | hx
    · exact h.2 hx
    · exact hy.1 (h.1.2 y hx)

/-! ## Ancestors -/

/-- `y` waits for `x`, however indirectly. -/
def Before (deps : α → List α) : α → α → Prop := Relation.TransGen fun d x => d ∈ deps x

omit [DecidableEq α] in
theorem Before.irrefl (hwf : WellFounded fun d x => d ∈ deps x) (x : α) : ¬ Before deps x x :=
  fun h => hwf.transGen.irrefl.irrefl x h

/-- A schedule from nothing visits an element after all its ancestors. -/
theorem Schedule.mem_of_before {E : Finset α} {xs pre post : List α} {x y : α}
    (h : Schedule deps ∅ xs E) (hxs : xs = pre ++ x :: post) (hy : Before deps y x) : y ∈ pre := by
  induction hy generalizing pre post with
  | single hd => exact (h.deps_before hxs y hd).resolve_left (Finset.notMem_empty y)
  | @tail z x _ hz ih =>
      obtain ⟨a, b, rfl⟩ := List.append_of_mem
        ((h.deps_before hxs z hz).resolve_left (Finset.notMem_empty z))
      have hya : y ∈ a := @ih a (b ++ x :: post) (by simpa using hxs)
      exact List.mem_append_left _ hya

/-- No element is visited before one of its ancestors. -/
theorem Schedule.pairwise_before {E : Finset α} {xs : List α} (h : Schedule deps ∅ xs E) :
    xs.Pairwise fun x y => ¬ Before deps y x := by
  refine List.pairwise_iff_getElem.mpr fun i j hi hj hij hb => ?_
  have hsplit : xs = xs.take i ++ xs[i] :: xs.drop (i + 1) := by simp
  have hmem := h.mem_of_before hsplit hb
  obtain ⟨k, hk, heq⟩ := List.mem_take_iff_getElem.mp hmem
  have hkj : k = j := (List.Nodup.getElem_inj_iff h.nodup).mp heq
  omega

omit [DecidableEq α] in
/-- Two lists of the same elements, of any two of which one is an ancestor of the other, and none
of which stands before an ancestor, are equal. -/
theorem eq_of_pairwise_before (hwf : WellFounded fun d x => d ∈ deps x) {l l' : List α}
    (hl : l.Pairwise fun x y => ¬ Before deps y x) (hl' : l'.Pairwise fun x y => ¬ Before deps y x)
    (hnodup : l.Nodup) (hnodup' : l'.Nodup) (hmem : ∀ x, x ∈ l ↔ x ∈ l')
    (hchain : ∀ x ∈ l, ∀ y ∈ l, x ≠ y → Before deps x y ∨ Before deps y x) : l = l' := by
  have hsorted : ∀ m : List α, (∀ x ∈ m, x ∈ l) → m.Pairwise (fun x y => ¬ Before deps y x) →
      m.Nodup → m.Pairwise (Before deps) := by
    intro m hsub hm hnodup
    refine (hm.and hnodup).imp_of_mem fun {x y} hx hy hxy => ?_
    exact (hchain x (hsub x hx) y (hsub y hy) hxy.2).resolve_right hxy.1
  have hnone : ∀ x y, x ∈ l → y ∈ l' → Before deps x y → Before deps y x → x = y :=
    fun x y _ _ hxy hyx => absurd (hxy.trans hyx) (Before.irrefl hwf x)
  exact List.Perm.eq_of_pairwise hnone
    (hsorted l (fun _ hx => hx) hl hnodup) (hsorted l' (fun x hx => (hmem x).mpr hx) hl' hnodup')
    ((List.perm_ext_iff_of_nodup hnodup hnodup').mpr hmem)

end Worklist
