-- SUMMARY: Which child of a switch node execute() runs: the selection of a route, the handles of the edges, and the case the gate lets through.
import CitraFlows.Nodes.Logic
import CitraFlows.Executor.Order
import CitraFlows.Dag

/-!
# Switch routing

The selection of a route is made in the node and carried to the executor in the metadata of
its output; the executor compares it with the handles of the edges. `Selects` says which
route a field value selects, without the loop. Where the node selects none, its metadata has
`None` for the matched route, which the executor takes for "no gating".
-/

namespace CitraFlows

open Python

variable {env : RunEnv} {wf : WorkflowDefinition} {sw c : NodeId}

/-! ## Reading a handle -/

theorem digitValue_of_isDigit {c : Char} (h : c.isDigit = true) :
    digitValue c = some (c.toNat - '0'.toNat) := by
  obtain ⟨h₁, h₂⟩ : 48 ≤ c.toNat ∧ c.toNat ≤ 57 := by
    simpa [Char.isDigit, UInt32.le_iff_toNat_le] using h
  have hz : 0x30 ≤ c.toNat ∧ c.toNat < 0x30 + 10 := ⟨h₁, by omega⟩
  rw [digitValue, decimalZeros, List.find?_cons_of_pos (by simpa using hz)]
  rfl

theorem readDigits_of_isDigit {cs : List Char} (h : ∀ c ∈ cs, c.isDigit = true) (acc : Nat) :
    readDigits cs acc = some (Nat.ofDigitChars 10 cs acc) := by
  induction cs generalizing acc with
  | nil => simp [readDigits]
  | cons c cs ih =>
      have hc := digitValue_of_isDigit (h c List.mem_cons_self)
      have ih' := ih (fun d hd => h d (List.mem_cons_of_mem _ hd))
      rw [Nat.ofDigitChars_cons, Nat.mul_comm]
      cases cs with
      | nil => simp [readDigits, hc]
      | cons d cs =>
          have hd : d ≠ '_' := by
            rintro rfl
            exact absurd (h '_' (by simp)) (by decide)
          rw [readDigits, hc]
          simp only [hd, if_false]
          exact ih' _

theorem strip_of_isDigit {cs : List Char} (h : ∀ c ∈ cs, c.isDigit = true) : strip cs = cs :=
  Trimming.Trimmed.trim_eq
    { head := fun _ hc => isspace_of_isDigit (h _ (List.mem_of_mem_head? hc))
      last := fun _ hc => isspace_of_isDigit (h _ (List.mem_of_mem_getLast? hc)) }

/-- `int(str(k))` is `k`. -/
theorem int_toDigits (k : Nat) : int (Nat.toDigits 10 k) = some (k : Int) := by
  have hdigits : ∀ c ∈ Nat.toDigits 10 k, c.isDigit = true := fun c hc =>
    Nat.isDigit_of_mem_toDigits (by decide) (by decide) hc
  have hread := readDigits_of_isDigit hdigits 0
  rw [Nat.ofDigitChars_ten_toDigits] at hread
  unfold int
  rw [strip_of_isDigit hdigits]
  split
  case h_1 hnil => exact absurd hnil Nat.toDigits_ne_nil
  case h_2 hplus =>
    rw [hplus] at hdigits
    exact absurd (hdigits '+' (by simp)) (by decide)
  case h_3 hminus =>
    rw [hminus] at hdigits
    exact absurd (hdigits '-' (by simp)) (by decide)
  case h_4 => rw [hread]; rfl

private theorem removeAll_of_not_mem {c : Char} {old : List Char} {cs : List Char}
    (h : c ∉ cs) (fuel : Nat) : removeAll (c :: old) fuel cs = cs := by
  induction fuel generalizing cs with
  | zero => rfl
  | succ fuel ih =>
      cases cs with
      | nil => rfl
      | cons d cs =>
          have hd : (c :: old).isPrefixOf (d :: cs) = false := by
            simp only [List.isPrefixOf, Bool.and_eq_false_iff, beq_eq_false_iff_ne]
            exact .inl fun heq => h (by simp [heq])
          rw [removeAll, hd, ih fun hm => h (List.mem_cons_of_mem _ hm)]
          rfl

/-- The handle of the `k`-th output. -/
def outHandle (k : Nat) : String := "out-" ++ toString k

/-- The executor reads the handle of the `k`-th output as `k`. -/
theorem edgeSwitchRoute_outHandle {e : EdgeDefinition} {k : Nat}
    (h : e.sourceHandle = some (outHandle k)) : edgeSwitchRoute e = some (k : Int) := by
  have hlist : (outHandle k).toList = "out-".toList ++ Nat.toDigits 10 k := by
    simp [outHandle, Nat.toString_eq_repr, Nat.toList_repr]
  have hne : outHandle k ≠ "" := by
    intro heq
    have := congrArg String.toList heq
    rw [hlist] at this
    cases this
  have ho : 'o' ∉ Nat.toDigits 10 k := fun hm => by
    have := Nat.isDigit_of_mem_toDigits (by decide) (by decide) hm
    exact absurd this (by decide)
  have hremove : removeAll "out-".toList (outHandle k).toList.length (outHandle k).toList =
      Nat.toDigits 10 k := by
    rw [hlist]
    exact removeAll_of_not_mem ho _
  simp only [edgeSwitchRoute, h, hne, if_false, hremove]
  exact int_toDigits k

theorem outHandle_inj {i k : Nat} (h : outHandle i = outHandle k) : i = k := by
  have hi := edgeSwitchRoute_outHandle (e := ⟨"", "", some (outHandle i), none⟩) rfl
  rw [edgeSwitchRoute_outHandle (congrArg some h)] at hi
  exact (Int.natCast_inj.mp (Option.some_inj.mp hi)).symm

/-! ## Which route is selected -/

namespace SwitchRouterNode

/-- The route is no default route, and its value reads like the field value. -/
def Matches (value : String) (route : List (String × Value)) : Prop :=
  isDefault route = false ∧ routeText route = value

/-- The first route that matches. -/
def FirstMatch (routes : List (List (String × Value))) (value : String) (i : Nat) : Prop :=
  (∃ route, routes[i]? = some route ∧ Matches value route) ∧
    ∀ j < i, ∀ route, routes[j]? = some route → ¬ Matches value route

/-- The last default route. -/
def LastDefault (routes : List (List (String × Value))) (i : Nat) : Prop :=
  (∃ route, routes[i]? = some route ∧ isDefault route = true) ∧
    ∀ j > i, ∀ route, routes[j]? = some route → isDefault route = false

/-- The route a field value selects: the first one that matches, or the default route when
none does. -/
def Selects (routes : List (List (String × Value))) (value : String) (i : Nat) : Prop :=
  FirstMatch routes value i ∨ ((∀ route ∈ routes, ¬ Matches value route) ∧ LastDefault routes i)

variable {route : List (String × Value)} {routes : List (List (String × Value))} {value : String}

theorem firstMatch_cons_succ {i : Nat} :
    FirstMatch (route :: routes) value (i + 1) ↔
      ¬ Matches value route ∧ FirstMatch routes value i := by
  constructor
  · rintro ⟨hi, hfirst⟩
    exact ⟨hfirst 0 (by omega) route rfl, hi, fun j hj => hfirst (j + 1) (by omega)⟩
  · rintro ⟨hno, hi, hfirst⟩
    refine ⟨hi, fun j hj r hr => ?_⟩
    cases j with
    | zero => cases hr; exact hno
    | succ j => exact hfirst j (by omega) r hr

theorem lastDefault_cons_succ {i : Nat} :
    LastDefault (route :: routes) (i + 1) ↔ LastDefault routes i := by
  constructor
  · rintro ⟨hi, hlast⟩
    exact ⟨hi, fun j hj => hlast (j + 1) (by omega)⟩
  · rintro ⟨hi, hlast⟩
    refine ⟨hi, fun j hj r hr => ?_⟩
    cases j with
    | zero => omega
    | succ j => exact hlast j (by omega) r hr

/-- A route of a list that has no match is none. -/
theorem FirstMatch.exists {i : Nat} (h : FirstMatch routes value i) :
    ∃ route ∈ routes, Matches value route := by
  obtain ⟨⟨route, hr, hm⟩, -⟩ := h
  exact ⟨route, List.mem_of_getElem? hr, hm⟩

/-- The search finds the first match, and while there is none it keeps the last default. -/
theorem findRoute_ok (value : String) (routes : List (List (String × Value))) (i : Nat)
    (default : Option Nat) :
    ∃ sel, findRoute value (routes.map .dict) i default = .ok sel ∧
      ((∃ j, FirstMatch routes value j ∧ sel.matched = some (i + j)) ∨
        ((∀ route ∈ routes, ¬ Matches value route) ∧ sel.matched = none ∧
          ((∃ j, LastDefault routes j ∧ sel.default = some (i + j)) ∨
            ((∀ route ∈ routes, isDefault route = false) ∧ sel.default = default)))) := by
  induction routes generalizing i default with
  | nil => exact ⟨{ default }, rfl, .inr ⟨by simp, rfl, .inr ⟨by simp, rfl⟩⟩⟩
  | cons route routes ih =>
      rw [List.map_cons, findRoute]
      have hshift : ∀ j, i + 1 + j = i + (j + 1) := fun j => by omega
      by_cases hdef : isDefault route = true
      · -- a default is remembered and does not match
        have hno : ¬ Matches value route := by simp [Matches, hdef]
        obtain ⟨sel, hsel, h⟩ := ih (i + 1) (some i)
        refine ⟨sel, by rw [if_pos hdef, hsel], ?_⟩
        rcases h with ⟨j, hj, hm⟩ | ⟨hnone, hm, ⟨j, hj, hd⟩ | ⟨hnodef, hd⟩⟩
        · exact .inl ⟨j + 1, firstMatch_cons_succ.mpr ⟨hno, hj⟩, by rw [hm, hshift]⟩
        · exact .inr ⟨List.forall_mem_cons.mpr ⟨hno, hnone⟩, hm,
            .inl ⟨j + 1, lastDefault_cons_succ.mpr hj, by rw [hd, hshift]⟩⟩
        · refine .inr ⟨List.forall_mem_cons.mpr ⟨hno, hnone⟩, hm,
            .inl ⟨0, ⟨⟨route, rfl, hdef⟩, fun j hj r hr => ?_⟩, by rw [hd]; rfl⟩⟩
          obtain ⟨j, rfl⟩ : ∃ k, j = k + 1 := ⟨j - 1, by omega⟩
          exact hnodef r (List.mem_of_getElem? hr)
      · rw [Bool.not_eq_true] at hdef
        rw [if_neg (by simp [hdef])]
        by_cases heq : routeText route = value
        · -- the first route with the value ends the search
          refine ⟨_, by rw [if_pos heq], .inl ⟨0, ⟨⟨route, rfl, hdef, heq⟩, ?_⟩, rfl⟩⟩
          intro j hj
          omega
        · have hno : ¬ Matches value route := fun h => heq h.2
          obtain ⟨sel, hsel, h⟩ := ih (i + 1) default
          refine ⟨sel, by rw [if_neg heq, hsel], ?_⟩
          rcases h with ⟨j, hj, hm⟩ | ⟨hnone, hm, ⟨j, hj, hd⟩ | ⟨hnodef, hd⟩⟩
          · exact .inl ⟨j + 1, firstMatch_cons_succ.mpr ⟨hno, hj⟩, by rw [hm, hshift]⟩
          · exact .inr ⟨List.forall_mem_cons.mpr ⟨hno, hnone⟩, hm,
              .inl ⟨j + 1, lastDefault_cons_succ.mpr hj, by rw [hd, hshift]⟩⟩
          · exact .inr ⟨List.forall_mem_cons.mpr ⟨hno, hnone⟩, hm,
              .inr ⟨List.forall_mem_cons.mpr ⟨hdef, hnodef⟩, hd⟩⟩

/-- The index of the first match, and that of the last default, is one. -/
private theorem index_unique {P : Nat → Prop} (h : ∀ i j, P i → P j → ¬ i < j) {i j : Nat}
    (hi : P i) (hj : P j) : i = j := by
  rcases Nat.lt_trichotomy i j with hlt | heq | hlt
  · exact absurd hlt (h i j hi hj)
  · exact heq
  · exact absurd hlt (h j i hj hi)

theorem FirstMatch.unique {i j : Nat} (hi : FirstMatch routes value i)
    (hj : FirstMatch routes value j) : i = j := by
  refine index_unique (fun i j hi hj hlt => ?_) hi hj
  obtain ⟨⟨route, hr, hm⟩, -⟩ := hi
  exact hj.2 i hlt route hr hm

theorem LastDefault.unique {i j : Nat} (hi : LastDefault routes i) (hj : LastDefault routes j) :
    i = j := by
  refine index_unique (fun i j hi hj hlt => ?_) hi hj
  obtain ⟨⟨route, hr, hm⟩, -⟩ := hj
  rw [hi.2 j hlt route hr] at hm
  cases hm

/-- The index the node puts into its metadata is that of the selected route. -/
theorem findRoute_selects (routes : List (List (String × Value))) (value : String) :
    ∃ sel, findRoute value (routes.map .dict) 0 none = .ok sel ∧
      ∀ i, sel.matched.or sel.default = some i ↔ Selects routes value i := by
  obtain ⟨sel, hsel, h⟩ := findRoute_ok value routes 0 none
  refine ⟨sel, hsel, fun i => ?_⟩
  rcases h with ⟨j, hj, hm⟩ | ⟨hnone, hm, ⟨j, hj, hd⟩ | ⟨hnodef, hd⟩⟩
  · rw [hm, Nat.zero_add, Option.some_or, Option.some_inj]
    constructor
    · rintro rfl
      exact .inl hj
    · rintro (hi | ⟨hno, -⟩)
      · exact hj.unique hi
      · obtain ⟨route, hr, hmatch⟩ := hj.exists
        exact absurd hmatch (hno route hr)
  · rw [hm, hd, Nat.zero_add, Option.none_or, Option.some_inj]
    constructor
    · rintro rfl
      exact .inr ⟨hnone, hj⟩
    · rintro (hi | ⟨-, hi⟩)
      · obtain ⟨route, hr, hmatch⟩ := hi.exists
        exact absurd hmatch (hnone route hr)
      · exact hj.unique hi
  · rw [hm, hd]
    refine iff_of_false (by simp) ?_
    rintro (hi | ⟨-, ⟨route, hr, hdef⟩, -⟩)
    · obtain ⟨route, hr, hmatch⟩ := hi.exists
      exact hnone route hr hmatch
    · rw [hnodef route (List.mem_of_getElem? hr)] at hdef
      cases hdef

/-- At most one route is selected. -/
theorem Selects.unique {i j : Nat} (hi : Selects routes value i) (hj : Selects routes value j) :
    i = j := by
  obtain ⟨sel, -, h⟩ := findRoute_selects routes value
  have heq := (h i).mpr hi
  rw [(h j).mpr hj] at heq
  exact (Option.some_inj.mp heq).symm

/-- The route at this index has a label. -/
def Labelled (routes : List (List (String × Value))) (i : Nat) : Prop :=
  ∃ route label, routes[i]? = some route ∧ Value.field route "label" = some label

/-- The metadata of a switch that selected this route. -/
def switchMeta (matched : Option Nat) (label : Value) (value : String) : List (String × Value) :=
  [("switch_result", .bool true), ("matched_route", routeValue matched),
    ("matched_label", label), ("field_value", .str value)]

/-- What the node returns for a list of routes and a field value that resolves. It raises
only where the selected route has no label. -/
theorem execute_cases {jsonLoads : String → Except PyError Value} {ctx : NodeContext}
    (hroutes : configuredRoutes jsonLoads ctx.config = .ok (.list (routes.map .dict)))
    (hvalue : fieldValue ctx = .ok value) :
    (∃ matched label, execute jsonLoads ctx = .ok (makeOutput ctx.items
        (switchMeta matched label value)) ∧ (∀ i, matched = some i ↔ Selects routes value i) ∧
        ∀ i, Selects routes value i → Labelled routes i) ∨
      ∃ e, execute jsonLoads ctx = .error e ∧ ∃ i, Selects routes value i ∧ ¬ Labelled routes i := by
  obtain ⟨sel, hsel, hiff⟩ := findRoute_selects routes value
  have hexec : execute jsonLoads ctx =
      (matchedLabel (routes.map .dict) (sel.matched.or sel.default)).bind fun label =>
        .ok (makeOutput ctx.items (switchMeta (sel.matched.or sel.default) label value)) := by
    unfold execute
    rw [hroutes, hvalue]
    simp only [bind, Except.bind, iterate, hsel]
    cases matchedLabel (routes.map .dict) (sel.matched.or sel.default) <;> rfl
  rw [hexec]
  cases hm : sel.matched.or sel.default with
  | none =>
      refine .inl ⟨none, .str "none", rfl, fun i => ?_, fun i hi => ?_⟩
      · rw [← hiff i, hm]
      · rw [← hiff i, hm] at hi
        cases hi
  | some i =>
      have hi := (hiff i).mp hm
      obtain ⟨route, hr⟩ : ∃ route, routes[i]? = some route := by
        rcases hi with ⟨⟨route, hr, -⟩, -⟩ | ⟨-, ⟨route, hr, -⟩, -⟩
        · exact ⟨route, hr⟩
        · exact ⟨route, hr⟩
      have hget : (routes.map Value.dict)[i]? = some (.dict route) := by simp [hr]
      cases hl : Value.field route "label" with
      | some label =>
          refine .inl ⟨some i, label, by simp [matchedLabel, hget, hl, Except.bind], fun j => ?_,
            fun j hj => hj.unique hi ▸ ⟨route, label, hr, hl⟩⟩
          rw [← hiff j, hm]
      | none =>
          refine .inr ⟨.keyError "label", by simp [matchedLabel, hget, hl, Except.bind], i, hi, ?_⟩
          rintro ⟨route', label, hr', hl'⟩
          rw [hr] at hr'
          cases hr'
          rw [hl] at hl'
          cases hl'

end SwitchRouterNode

/-! ## Which child is run -/

open SwitchRouterNode

/-- The node is run in the course of the trace. -/
def IsRun (t : List Event) (nid : NodeId) : Prop := ∃ ctx result, (nid, .ran ctx result) ∈ fates t

theorem isRun_iff {t : List Event} {nid : NodeId} :
    IsRun t nid ↔ (fates t).any (fun p => p.1 = nid && !p.2.isSkipped) = true := by
  rw [List.any_eq_true]
  constructor
  · rintro ⟨ctx, result, hm⟩
    exact ⟨_, hm, by simp [Fate.isSkipped]⟩
  · rintro ⟨⟨m, f⟩, hm, hp⟩
    simp only [Bool.and_eq_true, decide_eq_true_eq] at hp
    obtain ⟨rfl, hf⟩ := hp
    cases f with
    | skipped => simp [Fate.isSkipped] at hf
    | ran ctx result => exact ⟨ctx, result, hm⟩

instance (t : List Event) (nid : NodeId) : Decidable (IsRun t nid) :=
  decidable_of_iff _ isRun_iff.symm

/-- An edge from the switch to the node leaves by the handle of output `i`. -/
def BehindHandle (wf : WorkflowDefinition) (sw nid : NodeId) (i : Nat) : Prop :=
  ∃ e ∈ wf.edgesBetween sw nid, e.sourceHandle = some (outHandle i)

theorem isSwitchMeta_switchMeta (matched : Option Nat) (label : Value) (value : String) :
    isConditionMeta (switchMeta matched label value) = false ∧
      isSwitchMeta (switchMeta matched label value) = true := by
  constructor <;> rfl

/-- The gate of a switch whose edges leave by output handles: it is closed for a node that is
not behind the selected route, and open for every node when no route is selected. -/
theorem gateClosed_switch {n : NodeDefinition} (hn : wf.nodeMap sw = some n)
    (hhandles : ∀ e ∈ wf.edgesBetween sw c, ∃ k, e.sourceHandle = some (outHandle k))
    {items : List Value} {matched : Option Nat} {label : Value} {value : String} :
    gateClosed wf sw c (makeOutput items (switchMeta matched label value)) = true ↔
      ∃ i, matched = some i ∧ ¬ BehindHandle wf sw c i := by
  obtain ⟨hc, hs⟩ := isSwitchMeta_switchMeta matched label value
  have hroute : Value.getD (switchMeta matched label value) "matched_route" = routeValue matched :=
    rfl
  have hgate : gateClosed wf sw c (makeOutput items (switchMeta matched label value)) =
      switchSkips wf sw c (switchMeta matched label value) := by
    simp [gateClosed, gates, hc, hs, hn]
  rw [hgate, switchSkips, hroute]
  cases matched with
  | none => simp [routeValue, Value.isNone]
  | some i =>
      simp only [routeValue, Value.isNone, Bool.not_false, Bool.true_and, Bool.not_eq_true',
        Option.some.injEq, exists_eq_left']
      rw [← Bool.not_eq_true, List.any_eq_true]
      refine not_congr (exists_congr fun e => and_congr_right fun he => ?_)
      obtain ⟨k, hk⟩ := hhandles e he
      rw [edgeSwitchRoute_outHandle hk, hk, Option.any_some, Value.eqInt_int, decide_eq_true_eq,
        Option.some_inj]
      exact ⟨fun h => by rw [Int.natCast_inj.mp h], fun h => by rw [outHandle_inj h]⟩

section
variable {seg : Segment} {s₀ s : LoopState} {f : Fate}

/-- A loop decides a node in one way. -/
theorem Final.fate_unique (h : Final seg env wf s₀ s) {nid : NodeId} {g : Fate}
    (hf : (nid, f) ∈ fates s.trace) (hg : (nid, g) ∈ fates s.trace) : f = g := by
  obtain ⟨pre, post, hsplit⟩ := List.append_of_mem hf
  rw [hsplit, List.mem_append, List.mem_cons] at hg
  rcases hg with hg | hg | hg
  · obtain ⟨a, b, rfl⟩ := List.append_of_mem hg
    have hsplit' : fates s.trace = a ++ (nid, g) :: (b ++ (nid, f) :: post) := by simp [hsplit]
    exact absurd (by simp) (h.once hsplit' f)
  · exact (Prod.mk.inj hg).2.symm
  · exact absurd hg (h.once hsplit g)

/-- A node whose only parent was run by the same loop of `execute()` is run exactly when that
parent completed and does not close the way to it. -/
theorem Final.isRun_child (h : Final .execute env wf s₀ s) (hsw : (sw, f) ∈ fates s.trace)
    (hrun : f ≠ .skipped) (hc : c ∈ decisions s.trace) (hne : wf.incoming c ≠ [])
    (hparents : ∀ p ∈ wf.incoming c, p = sw) :
    IsRun s.trace c ↔ ∃ output, f.output = some output ∧ gateClosed wf sw c output = false := by
  obtain ⟨g, hg⟩ := mem_decisions.mp hc
  obtain ⟨pre, post, hsplit⟩ := List.append_of_mem hg
  have hin : sw ∈ wf.incoming c := by
    obtain ⟨p, hp⟩ := List.exists_mem_of_ne_nil _ hne
    exact hparents p hp ▸ hp
  have hrec : Recorded env s sw f := by
    rcases h.parent hsplit hin with ⟨-, hno⟩ | ⟨f', hf', hrec, -⟩
    · exact absurd (mem_decisions.mpr ⟨f, hsw⟩) hno
    · rwa [h.fate_unique hsw (g := f') (by simp [hsplit, hf'])]
  have hisRun : IsRun s.trace c ↔ g ≠ .skipped := by
    constructor
    · rintro ⟨ctx, result, hm⟩
      rw [← h.fate_unique hm hg]
      simp
    · intro hns
      cases g with
      | skipped => exact absurd rfl hns
      | ran ctx result => exact ⟨ctx, result, hg⟩
  -- the switch is the only parent, so its gate and its death decide
  have hskip : g = .skipped ↔ gateClosed wf sw c (outputOf s.nodeOutputs sw) = true ∨
      allParentsSkipped wf s.execution.nodeResults s.softFailed c = true := by
    have hd := h.decides c g hg
    have hany : (∃ p ∈ wf.incoming c, gateClosed wf p c (outputOf s.nodeOutputs p) = true) ↔
        gateClosed wf sw c (outputOf s.nodeOutputs sw) = true :=
      ⟨fun ⟨p, hp, hg⟩ => hparents p hp ▸ hg, fun hg => ⟨sw, hin, hg⟩⟩
    cases g with
    | skipped =>
        obtain ⟨n, r, -, hr, hskip⟩ := hd
        have := (route_ok hr).1.mp hskip
        rw [hany] at this
        simpa [hne] using this
    | ran ctx result =>
        obtain ⟨n, r, -, hr, hskip, -⟩ := hd
        have := (route_ok hr).1
        rw [hany, hskip] at this
        simpa [hne] using this
  -- the switch was run, so it is dead only if it has failed softly
  have hdead : allParentsSkipped wf s.execution.nodeResults s.softFailed c = true ↔
      f.failed = true := by
    have hone : allParentsSkipped wf s.execution.nodeResults s.softFailed c = true ↔
        (sw ∈ s.softFailed ∨ (s.execution.nodeResults.lookup sw).any
          fun r => decide (r.status = .skipped)) := by
      simp only [allParentsSkipped, List.all_eq_true, Bool.or_eq_true, decide_eq_true_eq]
      exact ⟨fun hall => hall sw hin, fun hsw p hp => by rw [hparents p hp]; exact hsw⟩
    rw [hone, hrec.softFailed, hrec.result]
    refine or_iff_left fun hst => hrun ?_
    cases f with
    | skipped => rfl
    | ran ctx result => cases result <;> simp [Fate.result, NodeRun.result] at hst
  rw [hisRun, ne_eq, hskip, hdead]
  cases ho : f.output with
  | none =>
      have hfail : f.failed = true := by
        cases f with
        | skipped => exact absurd rfl hrun
        | ran ctx result => cases result <;> simp_all [Fate.output, Fate.failed]
      simp [hfail]
  | some output =>
      have hfail : f.failed = false := by
        cases f with
        | skipped => rfl
        | ran ctx result => cases result <;> simp_all [Fate.output, Fate.failed]
      simp [hfail, outputOf, hrec.output, ho]

end

section
variable {triggerData : List (String × Value)} {executionId environment : String}

/-- For a switch node that `execute()` runs with a list of routes and a field value that
resolves, and a node `c` with no other parent, behind output handles: `c` is run exactly when
it is behind the selected route, if and only if some route is selected (unless the switch
fails for a negative `max_retries`), and the switch does not fail where the selected route
leads to `c`. -/
theorem execute_switch_exact_iff {jsonLoads : String → Except PyError Value}
    (henv : env.RunsLogic jsonLoads wf) {n : NodeDefinition} (hn : wf.nodeMap sw = some n)
    (htype : n.type = .switchRouter) {ctx : NodeContext} {result : NodeRun}
    (hsw : (sw, .ran ctx result) ∈
      fates (execute env wf triggerData executionId environment).trace)
    {routes : List (List (String × Value))} {value : String}
    (hroutes : configuredRoutes jsonLoads n.config = .ok (.list (routes.map .dict)))
    (hvalue : fieldValue ctx = .ok value) (hne : wf.incoming c ≠ [])
    (hparents : ∀ p ∈ wf.incoming c, p = sw)
    (hhandles : ∀ e ∈ wf.edgesBetween sw c, ∃ k, e.sourceHandle = some (outHandle k))
    (hc : c ∈ decisions (execute env wf triggerData executionId environment).trace ∨
      (Fate.ran ctx result).failed = true) :
    (IsRun (execute env wf triggerData executionId environment).trace c ↔
        ∃ i, Selects routes value i ∧ BehindHandle wf sw c i) ↔
      (0 ≤ BaseNode.maxRetries {} n.config → ∃ i, Selects routes value i) ∧
      ∀ i, Selects routes value i → BehindHandle wf sw c i →
        0 ≤ BaseNode.maxRetries {} n.config ∧ Labelled routes i := by
  have hfinal := executeLoop_final env wf triggerData executionId environment wf.nodeIds.card
  unfold IsRun decisions at *
  rw [execute_fates] at hsw hc ⊢
  generalize (executeLoop env wf triggerData executionId environment wf.nodeIds.card).state = s
    at hsw hc hfinal ⊢
  have hruns : RunsAs n.config (SwitchRouterNode.execute jsonLoads ctx) result := by
    obtain ⟨n', r, hn', -, -, hid, hconfig, -, rfl⟩ := hfinal.decides sw _ hsw
    have := henv ctx n (SwitchRouterNode.execute jsonLoads) (by rw [hid, hn]) (by rw [htype]; rfl)
    rw [hn] at hn'
    cases hn'
    rwa [hconfig] at this
  have hconfig : ctx.config = n.config := by
    obtain ⟨n', r, hn', -, -, -, hconfig, -, -⟩ := hfinal.decides sw _ hsw
    rw [hn] at hn'
    cases hn'
    exact hconfig
  -- a switch that has failed runs no child
  have hfailed : (Fate.ran ctx result).failed = true →
      ¬ ∃ ctx result, (c, .ran ctx result) ∈ fates s.trace := by
    intro hfail hrun
    have hdec : c ∈ decisions s.trace := by
      obtain ⟨ctx, result, hm⟩ := hrun
      exact mem_decisions.mpr ⟨_, hm⟩
    obtain ⟨output, ho, -⟩ := (hfinal.isRun_child hsw (by simp) hdec hne hparents).mp hrun
    cases result <;> simp_all [Fate.output, Fate.failed]
  rcases execute_cases (hconfig ▸ hroutes) hvalue with
    ⟨matched, label, hok, hmatched, hlabelled⟩ | ⟨e, herror, i, hi, hno⟩
  · rw [hok] at hruns
    by_cases hretries : 0 ≤ BaseNode.maxRetries {} n.config
    · have hresult := hruns.of_ok.1 hretries
      subst hresult
      have hdec : c ∈ decisions s.trace := hc.resolve_right (by simp [Fate.failed])
      have hchild := hfinal.isRun_child hsw (by simp) hdec hne hparents
      simp only [Fate.output, Option.some.injEq, exists_eq_left'] at hchild
      unfold IsRun at hchild
      rw [hchild, ← Bool.not_eq_true, gateClosed_switch hn hhandles]
      cases matched with
      | none =>
          have hnone : ∀ i, ¬ Selects routes value i := fun i hi => by
            have := (hmatched i).mpr hi
            cases this
          simp [hnone, hretries]
      | some i =>
          have hi := (hmatched i).mp rfl
          have huniq : ∀ j, Selects routes value j ↔ j = i := fun j => by
            rw [← hmatched j, Option.some_inj]
            exact eq_comm
          simp only [huniq, Option.some.injEq, exists_eq_left', exists_eq_left, not_not, hretries,
            true_and, forall_eq, exists_eq, implies_true, true_iff]
          exact fun _ => hlabelled i hi
    · have hresult := hruns.of_ok.2 (by omega)
      have hnorun := hfailed (by rw [hresult]; rfl)
      simp [hnorun, hretries]
  · have hnorun : ¬ ∃ ctx result, (c, .ran ctx result) ∈ fates s.trace := by
      rw [herror] at hruns
      refine hfailed ?_
      rcases hruns.of_error with ⟨error, retries, errors, rfl⟩ | rfl <;> rfl
    simp only [hnorun, false_iff, not_exists, not_and]
    constructor
    · exact fun h => ⟨fun _ => ⟨i, hi⟩, fun j hj hb => absurd hb (h j hj)⟩
    · rintro ⟨-, h⟩ j hj hb
      exact hno (hj.unique hi ▸ (h j hj hb).2)

end

/-- A switch on the variable `region` with two routes and no default route, and a node behind
each of its two outputs. -/
def switchFlow : WorkflowDefinition where
  nodes := [{ id := "start", type := .manualTrigger },
    { id := "switch", type := .switchRouter, config := [("field", .str "region"),
      ("routes", .list [.dict [("label", .str "A"), ("value", .str "a")],
        .dict [("label", .str "B"), ("value", .str "b")]])] },
    { id := "left", type := .dataTransform }, { id := "right", type := .dataTransform }]
  edges := [{ source := "start", target := "switch" },
    { source := "switch", target := "left", sourceHandle := some "out-0" },
    { source := "switch", target := "right", sourceHandle := some "out-1" }]

def switchFlowRoutes : List (List (String × Value)) :=
  [[("label", .str "A"), ("value", .str "a")], [("label", .str "B"), ("value", .str "b")]]

/-- The run of `switchFlow` for a region. -/
def switchFlowRun (region : String) : CallResult :=
  execute (.logic (fun _ => .ok .none) switchFlow fun _ => makeOutput [] []) switchFlow
    [("region", .str region)] "ex" "test"

/-- A node that was run with this field value. -/
def metFieldValue (value : String) : Fate → Bool
  | .ran ctx _ => (fieldValue ctx).toOption == some value
  | .skipped => false

theorem switchFlowRun_meets (region : String)
    (h : ((fates (switchFlowRun region).trace).any fun p =>
      p.1 = "switch" && metFieldValue region p.2) = true) :
    ∃ ctx result, ("switch", .ran ctx result) ∈ fates (switchFlowRun region).trace ∧
      fieldValue ctx = .ok region := by
  obtain ⟨⟨nid, f⟩, hm, hp⟩ := List.any_eq_true.mp h
  simp only [Bool.and_eq_true, decide_eq_true_eq] at hp
  obtain ⟨rfl, hf⟩ := hp
  cases f with
  | skipped => cases hf
  | ran ctx result =>
      refine ⟨ctx, result, hm, ?_⟩
      cases hv : fieldValue ctx with
      | error e => simp [metFieldValue, hv, Except.toOption] at hf
      | ok v => simpa [metFieldValue, hv, Except.toOption] using hf

theorem switchFlow_exact :
    IsRun (switchFlowRun "b").trace "right" ↔
      ∃ i, Selects switchFlowRoutes "b" i ∧ BehindHandle switchFlow "switch" "right" i := by
  obtain ⟨ctx, result, hsw, hvalue⟩ :=
    switchFlowRun_meets "b" (by decide +kernel)
  have hselects : Selects switchFlowRoutes "b" 1 := by
    refine .inl ⟨⟨_, rfl, by decide, by decide⟩, fun j hj route hr => ?_⟩
    obtain rfl : j = 0 := by omega
    cases hr
    exact fun h => absurd h.2 (by decide)
  have hroutes : configuredRoutes (fun _ => .ok .none) switchFlow.nodes[1].config =
      .ok (.list (switchFlowRoutes.map .dict)) := by rfl
  refine (execute_switch_exact_iff (n := switchFlow.nodes[1]) (RunEnv.logic_runsLogic _ _ _)
    (by rfl) (by rfl) hsw hroutes hvalue (by decide) (by decide)
    ?_ (.inl (by decide +kernel))).mpr ⟨fun _ => ⟨1, hselects⟩, fun i hi _ => ⟨by decide, ?_⟩⟩
  · intro e he
    have hright : e.sourceHandle = some "out-1" := by
      revert e
      decide
    exact ⟨1, by rw [hright]; rfl⟩
  · rw [hi.unique hselects]
    exact ⟨_, _, rfl, rfl⟩

/-- Without a default route, a value that matches no route runs every child of the switch. -/
theorem switchFlow_runs_unselected :
    ¬ ∀ jsonLoads wf env triggerData executionId environment sw c n ctx result routes value,
      validateDag wf = [] → RunEnv.RunsLogic env jsonLoads wf → wf.nodeMap sw = some n →
      n.type = .switchRouter →
      (sw, .ran ctx result) ∈ fates (execute env wf triggerData executionId environment).trace →
      configuredRoutes jsonLoads n.config = .ok (.list (routes.map .dict)) →
      fieldValue ctx = .ok value → wf.incoming c ≠ [] → (∀ p ∈ wf.incoming c, p = sw) →
      (∀ e ∈ wf.edgesBetween sw c, ∃ k, e.sourceHandle = some (outHandle k)) →
      c ∈ decisions (execute env wf triggerData executionId environment).trace →
      (IsRun (execute env wf triggerData executionId environment).trace c ↔
        ∃ i, Selects routes value i ∧ BehindHandle wf sw c i) := by
  intro h
  obtain ⟨ctx, result, hsw, hvalue⟩ :=
    switchFlowRun_meets "z" (by decide +kernel)
  have hiff := h (fun _ => .ok .none) switchFlow
    (.logic (fun _ => .ok .none) switchFlow fun _ => makeOutput [] []) [("region", .str "z")]
    "ex" "test" "switch" "left" switchFlow.nodes[1] ctx result switchFlowRoutes "z"
    (by decide +kernel) (RunEnv.logic_runsLogic _ _ _) (by rfl) (by rfl) hsw (by rfl) hvalue
    (by decide) (by decide) ?_ (by decide +kernel)
  · obtain ⟨i, hi, -⟩ := hiff.mp (by decide +kernel)
    have hnone : ∀ route ∈ switchFlowRoutes, isDefault route = false ∧ routeText route ≠ "z" := by
      decide
    rcases hi with hi | ⟨-, ⟨route, hr, hdef⟩, -⟩
    · obtain ⟨route, hr, hmatch⟩ := hi.exists
      exact (hnone route hr).2 hmatch.2
    · rw [(hnone route (List.mem_of_getElem? hr)).1] at hdef
      cases hdef
  · intro e he
    have hleft : e.sourceHandle = some "out-0" := by
      revert e
      decide
    exact ⟨0, by rw [hleft]; rfl⟩

end CitraFlows
