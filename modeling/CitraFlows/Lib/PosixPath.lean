-- SUMMARY: Lexical resolution of paths as POSIX has it: normal forms, joins, and when a path stays below another.
import Mathlib.Data.List.Induction
import Mathlib.Tactic.IntervalCases

/-!
# Paths, resolved lexically

A path resolves to the slashes it starts with and a stack of parts. A parent takes the part
before it off the stack, where there is one. Writing a resolved path out and resolving the
text again gives it back, and a path that never needs more parents than it has parts stays
below whatever directory it is joined to.
-/

namespace CitraFlows.PosixPath

abbrev Part := List Char

/-- `.` -/
def here : Part := ['.']

/-- `..` -/
def parent : Part := ['.', '.']

/-- Whether a part goes on the stack: all but a parent that finds a part to take away do. -/
abbrev Stays (rooted : Bool) (stack : List Part) (part : Part) : Prop :=
  part ≠ parent ∨ (rooted = false ∧ stack = []) ∨ stack.getLast? = some parent

def push (rooted : Bool) (stack : List Part) (part : Part) : List Part :=
  if part = [] ∨ part = here then stack
  else if Stays rooted stack part then stack ++ [part]
  else stack.dropLast

/-- The stack at the end of a list of parts -/
def walk (rooted : Bool) (parts : List Part) : List Part := parts.foldl (push rooted) []

section

variable {rooted : Bool} {stack parts : List Part} {part : Part}

theorem push_blank (h : part = [] ∨ part = here) : push rooted stack part = stack :=
  if_pos h

theorem push_stays (hblank : ¬(part = [] ∨ part = here)) (h : Stays rooted stack part) :
    push rooted stack part = stack ++ [part] := by
  rw [push, if_neg hblank, if_pos h]

theorem push_pop (hblank : ¬(part = [] ∨ part = here)) (h : ¬Stays rooted stack part) :
    push rooted stack part = stack.dropLast := by
  rw [push, if_neg hblank, if_neg h]

theorem walk_concat : walk rooted (parts ++ [part]) = push rooted (walk rooted parts) part := by
  simp [walk]

/-! ## Stacks -/

/-- The stacks that a walk can end with -/
inductive Normal (rooted : Bool) : List Part → Prop where
  | nil : Normal rooted []
  | concat {stack : List Part} {part : Part} (stack_normal : Normal rooted stack)
      (proper : ¬(part = [] ∨ part = here)) (slashless : '/' ∉ part)
      (stays : Stays rooted stack part) : Normal rooted (stack ++ [part])

namespace Normal

theorem dropLast (h : Normal rooted stack) : Normal rooted stack.dropLast := by
  cases h with
  | nil => exact nil
  | concat stack_normal => simpa using stack_normal

theorem push (h : Normal rooted stack) (hslash : '/' ∉ part) :
    Normal rooted (push rooted stack part) := by
  by_cases hblank : part = [] ∨ part = here
  · rwa [push_blank hblank]
  · by_cases hstays : Stays rooted stack part
    · rw [push_stays hblank hstays]
      exact h.concat hblank hslash hstays
    · rw [push_pop hblank hstays]
      exact h.dropLast

theorem walk (h : ∀ part ∈ parts, '/' ∉ part) : Normal rooted (walk rooted parts) := by
  induction parts using List.reverseRecOn with
  | nil => exact nil
  | append_singleton parts part ih =>
    rw [walk_concat]
    exact (ih fun p hp => h p (List.mem_append_left _ hp)).push (h part (by simp))

theorem walk_eq (h : Normal rooted stack) : PosixPath.walk rooted stack = stack := by
  induction h with
  | nil => rfl
  | concat stack_normal proper slashless stays ih => rw [walk_concat, ih, push_stays proper stays]

theorem not_mem (h : Normal rooted stack) (hpart : part ∈ stack) :
    ¬(part = [] ∨ part = here) ∧ '/' ∉ part := by
  induction h with
  | nil => cases hpart
  | concat stack_normal proper slashless stays ih =>
    cases List.mem_append.mp hpart with
    | inl before => exact ih before
    | inr last =>
      rw [List.mem_singleton.mp last]
      exact ⟨proper, slashless⟩

/-- Parents stay in a relative path only, and at its start. -/
theorem head_parent (h : Normal rooted stack) (hparent : parent ∈ stack) :
    rooted = false ∧ stack.head? = some parent := by
  induction h with
  | nil => cases hparent
  | @concat stack part stack_normal proper slashless stays ih =>
    have before : parent ∈ stack → rooted = false ∧ (stack ++ [part]).head? = some parent :=
      fun hmem => by simp [ih hmem]
    cases List.mem_append.mp hparent with
    | inl hmem => exact before hmem
    | inr last =>
      have hpart := List.mem_singleton.mp last
      rcases stays with other | ⟨hrooted, hnil⟩ | hlast
      · exact absurd hpart.symm other
      · simp [hrooted, hnil, hpart]
      · exact before (List.mem_of_getLast? hlast)

end Normal

/-- A step that leaves no parent found none, and does the same on top of any stack. -/
theorem push_append {base : List Part} (h : parent ∉ push false stack part) :
    parent ∉ stack ∧ push rooted (base ++ stack) part = base ++ push false stack part := by
  by_cases hblank : part = [] ∨ part = here
  · simp only [push_blank hblank] at h ⊢
    exact ⟨h, trivial⟩
  · by_cases hstays : Stays false stack part
    · rw [push_stays hblank hstays] at h ⊢
      simp only [List.mem_append, List.mem_singleton, not_or] at h
      refine ⟨h.1, ?_⟩
      rw [push_stays hblank (Or.inl (Ne.symm h.2)), List.append_assoc]
    · -- the parent takes away a part of the stack itself, which is not a parent
      rw [push_pop hblank hstays] at h ⊢
      simp only [Stays, not_or, not_and, ne_eq, not_not, forall_const] at hstays
      obtain ⟨hparent, hne, hlast⟩ := hstays
      cases List.eq_nil_or_concat stack with
      | inl hnil => exact absurd hnil hne
      | inr hconcat =>
        obtain ⟨before, last, rfl⟩ := hconcat
        simp only [List.concat_eq_append, List.getLast?_concat, List.dropLast_concat,
          Option.some.injEq] at hlast h ⊢
        refine ⟨by simpa using ⟨h, Ne.symm hlast⟩, ?_⟩
        have hpop : ¬Stays rooted (base ++ (before ++ [last])) part := by
          simp [Stays, hparent, ← List.append_assoc, hlast]
        rw [push_pop hblank hpop, ← List.append_assoc, List.dropLast_concat]

/-- A walk that leaves no parent goes the same way from any stack. -/
theorem foldl_push_eq (h : parent ∉ walk false parts) :
    parts.foldl (push rooted) stack = stack ++ walk false parts := by
  induction parts using List.reverseRecOn with
  | nil => simp [walk]
  | append_singleton parts part ih =>
    rw [walk_concat] at h ⊢
    have step : parent ∉ walk false parts ∧ push rooted (stack ++ walk false parts) part =
        stack ++ push false (walk false parts) part := push_append h
    rw [List.foldl_append, List.foldl_cons, List.foldl_nil, ih step.1, step.2]

end

/-! ## Paths -/

/-- Two leading slashes are kept, and three or more are one. -/
def slashes (path : List Char) : Nat :=
  if ['/', '/', '/'] <+: path then 1
  else if ['/', '/'] <+: path then 2
  else if ['/'] <+: path then 1
  else 0

/-- What a path resolves to -/
@[ext]
structure Resolved where
  slashes : Nat
  parts : List Part
  slashes_le : slashes ≤ 2
  normal : Normal (decide (slashes ≠ 0)) parts

theorem slashes_le {path : List Char} : slashes path ≤ 2 := by
  unfold slashes
  split_ifs <;> decide

theorem slashless_of_mem_splitOn {path : List Char} {part : Part}
    (h : part ∈ path.splitOn '/') : '/' ∉ part := by
  induction path generalizing part with
  | nil =>
    rw [List.splitOn_nil, List.mem_singleton] at h
    simp [h]
  | cons c path ih =>
    rw [List.splitOn_cons_eq_if_modifyHead] at h
    split_ifs at h with hc
    · cases List.mem_cons.mp h with
      | inl hnil => simp [hnil]
      | inr hmem => exact ih hmem
    · cases hsplit : path.splitOn '/' with
      | nil => simp [hsplit] at h
      | cons first rest =>
        rw [hsplit, List.modifyHead_cons] at h
        cases List.mem_cons.mp h with
        | inl hfirst =>
          have hslash : '/' ∉ first := ih (by simp [hsplit])
          simp only [beq_iff_eq] at hc
          simp [hfirst, hslash, Ne.symm hc]
        | inr hmem => exact ih (by simp [hsplit, hmem])

def resolve (path : List Char) : Resolved where
  slashes := slashes path
  parts := walk (decide (slashes path ≠ 0)) (path.splitOn '/')
  slashes_le := slashes_le
  normal := Normal.walk fun _ => slashless_of_mem_splitOn

@[simp] theorem resolve_slashes {path : List Char} : (resolve path).slashes = slashes path := rfl

theorem resolve_parts {path : List Char} :
    (resolve path).parts = walk (decide (slashes path ≠ 0)) (path.splitOn '/') := rfl

namespace Resolved

/-- The text of a resolved path: the empty one is the directory itself. -/
def render (r : Resolved) : List Char :=
  let path := List.replicate r.slashes '/' ++ ['/'].intercalate r.parts
  if path = [] then here else path

section

variable {r : Resolved} {n : Nat} {path : List Char} {parts : List Part}

theorem slashes_replicate (hn : n ≤ 2) (hpath : path.head? ≠ some '/') :
    PosixPath.slashes (List.replicate n '/' ++ path) = n := by
  cases path with
  | nil => interval_cases n <;> rfl
  | cons c path =>
    have hc : '/' ≠ c := by simpa [eq_comm] using hpath
    interval_cases n <;> simp [PosixPath.slashes, hc]

theorem splitOn_replicate :
    (List.replicate n '/' ++ path).splitOn '/' = List.replicate n [] ++ path.splitOn '/' := by
  induction n with
  | zero => simp
  | succ n ih => simp [List.replicate_succ, List.splitOn_cons_eq_if_modifyHead, ih]

theorem head_intercalate (h : ∀ part ∈ parts, part ≠ [] ∧ '/' ∉ part) :
    (['/'].intercalate parts).head? ≠ some '/' := by
  cases parts with
  | nil => simp
  | cons first rest =>
    obtain ⟨hne, hslash⟩ := h first (by simp)
    obtain ⟨c, first, rfl⟩ := List.exists_cons_of_ne_nil hne
    have hc : c ≠ '/' := fun heq => hslash (by simp [heq])
    cases rest with
    | nil => simpa using hc
    | cons second rest => simpa using hc

theorem walk_replicate {rooted : Bool} :
    walk rooted (List.replicate n [] ++ parts) = walk rooted parts := by
  induction n with
  | zero => simp
  | succ n ih =>
    rw [List.replicate_succ, List.cons_append]
    simpa [walk, push_blank] using ih

theorem proper (r : Resolved) {part : Part} (h : part ∈ r.parts) : part ≠ [] ∧ '/' ∉ part := by
  obtain ⟨hblank, hslash⟩ := r.normal.not_mem h
  exact ⟨fun hnil => hblank (Or.inl hnil), hslash⟩

/-- The parts of the text are those of the path, and blanks. -/
theorem walk_splitOn_body {rooted : Bool} (h : ∀ part ∈ parts, part ≠ [] ∧ '/' ∉ part) :
    walk rooted ((List.replicate n '/' ++ ['/'].intercalate parts).splitOn '/') =
      walk rooted parts := by
  rw [splitOn_replicate, walk_replicate]
  by_cases hparts : parts = []
  · subst hparts
    rfl
  · rw [List.splitOn_intercalate '/' (fun part hpart => (h part hpart).2) hparts]

theorem resolve_body (r : Resolved) :
    resolve (List.replicate r.slashes '/' ++ ['/'].intercalate r.parts) = r := by
  have hslashes := slashes_replicate r.slashes_le (head_intercalate fun _ => r.proper)
  ext1
  · exact hslashes
  · rw [resolve_parts, hslashes, walk_splitOn_body fun _ => r.proper]
    exact r.normal.walk_eq

/-- Writing a resolved path out loses nothing. -/
theorem resolve_render (r : Resolved) : resolve r.render = r := by
  have hbody := r.resolve_body
  unfold render
  dsimp only
  split_ifs with hempty
  · rw [hempty] at hbody
    rw [← hbody]
    rfl
  · exact hbody

/-- The text of a path that needs parents starts with one. -/
theorem parent_prefix_render (r : Resolved) (h : parent ∈ r.parts) : parent <+: r.render := by
  obtain ⟨hroot, hhead⟩ := r.normal.head_parent h
  have hslashes : r.slashes = 0 := by simpa using hroot
  obtain ⟨rest, hparts⟩ := List.head?_eq_some_iff.mp hhead
  have hbody : parent <+: ['/'].intercalate r.parts := by
    rw [hparts]
    cases rest with
    | nil => simp
    | cons next rest => simp
  simp only [render, hslashes, List.replicate_zero, List.nil_append]
  split_ifs with hempty
  · rw [hempty] at hbody
    exact absurd hbody (by decide)
  · exact hbody

theorem mem_splitOn_render (r : Resolved) (h : parent ∈ r.render.splitOn '/') :
    parent ∈ r.parts := by
  unfold render at h
  dsimp only at h
  split_ifs at h with hempty
  · exact absurd h (by decide)
  · rw [splitOn_replicate, List.mem_append] at h
    cases h with
    | inl blank => exact absurd (List.eq_of_mem_replicate blank) (by decide)
    | inr hmem =>
      by_cases hparts : r.parts = []
      · rw [hparts] at hmem
        exact absurd hmem (by decide)
      · rwa [List.splitOn_intercalate '/' (fun part hpart => (r.proper hpart).2) hparts] at hmem

end

end Resolved


/-- `posixpath.normpath` -/
def normpath (path : List Char) : List Char := (resolve path).render

/-- A path is relative if it starts with no slash. -/
def Relative (path : List Char) : Prop := path.head? ≠ some '/'

instance {path : List Char} : Decidable (Relative path) := inferInstanceAs (Decidable (_ ≠ _))

/-- `posixpath.join` of two paths: an absolute one replaces what is before it. -/
def join (base path : List Char) : List Char :=
  if ¬Relative path then path
  else if base = [] ∨ base.getLast? = some '/' then base ++ path
  else base ++ '/' :: path

section

variable {base path : List Char}

@[simp] theorem resolve_normpath : resolve (normpath path) = resolve path :=
  Resolved.resolve_render _

/-- Normalising a path again changes nothing. -/
theorem normpath_normpath : normpath (normpath path) = normpath path := by
  rw [normpath, resolve_normpath, normpath]

theorem relative_iff : Relative path ↔ slashes path = 0 := by
  cases path with
  | nil => simp [Relative, slashes]
  | cons c path =>
    by_cases hc : c = '/'
    · subst hc
      simp only [Relative, slashes]
      split_ifs <;> simp_all
    · simp [Relative, slashes, hc, Ne.symm hc]

/-! ## Joined paths -/

theorem join_relative (h : Relative path) :
    join base path =
      if base = [] ∨ base.getLast? = some '/' then base ++ path else base ++ '/' :: path :=
  if_neg (not_not_intro h)

/-- The slashes at the front are those of the base, if what is appended cannot add to them. -/
theorem replicate_prefix_append {n : Nat} {rest : List Char}
    (h : base = [] ∨ base.getLast? = some '/' → Relative rest) :
    List.replicate n '/' <+: base ++ rest ↔ List.replicate n '/' <+: base := by
  induction n generalizing base with
  | zero => simp
  | succ n ih =>
    rw [List.replicate_succ]
    cases base with
    | nil =>
      cases rest with
      | nil => rfl
      | cons c rest =>
        have hc : c ≠ '/' := by simpa [Relative] using h (Or.inl rfl)
        simp [Ne.symm hc]
    | cons c base =>
      rw [List.cons_append, List.cons_prefix_cons, List.cons_prefix_cons]
      refine and_congr_right fun hc => ih fun hbase => h (Or.inr ?_)
      cases hbase with
      | inl hnil => simp [hnil, ← hc]
      | inr hlast => simp [List.getLast?_cons, hlast]

theorem slashes_append {rest : List Char}
    (h : base = [] ∨ base.getLast? = some '/' → Relative rest) :
    slashes (base ++ rest) = slashes base := by
  have three : ['/', '/', '/'] <+: base ++ rest ↔ ['/', '/', '/'] <+: base :=
    replicate_prefix_append (n := 3) h
  have two : ['/', '/'] <+: base ++ rest ↔ ['/', '/'] <+: base :=
    replicate_prefix_append (n := 2) h
  have one : ['/'] <+: base ++ rest ↔ ['/'] <+: base := replicate_prefix_append (n := 1) h
  simp only [slashes, three, two, one]

theorem slashes_join (h : Relative path) : slashes (join base path) = slashes base := by
  rw [join_relative h]
  split_ifs with hbase
  · exact slashes_append fun _ => h
  · exact slashes_append fun hends => absurd hends hbase

/-- The parts of a joined path are those of the base, up to blanks, and those of the path. -/
theorem splitOn_join (base : List Char) (h : Relative path) :
    ∃ front, (join base path).splitOn '/' = front ++ path.splitOn '/' ∧
      ∀ rooted, walk rooted front = walk rooted (base.splitOn '/') := by
  rw [join_relative h]
  split_ifs with hbase
  · cases List.eq_nil_or_concat base with
    | inl hnil =>
      subst hnil
      exact ⟨[], rfl, fun _ => rfl⟩
    | inr hconcat =>
      obtain ⟨before, last, rfl⟩ := hconcat
      have hlast : last = '/' := by simpa using hbase
      subst hlast
      refine ⟨before.splitOn '/', ?_, fun rooted => ?_⟩
      · rw [List.concat_eq_append, List.append_assoc, List.singleton_append,
          List.splitOn_append_cons_self]
      · rw [List.concat_eq_append, List.splitOn_append_cons_self, List.splitOn_nil, walk_concat,
          push_blank (Or.inl rfl)]
  · exact ⟨base.splitOn '/', List.splitOn_append_cons_self .., fun _ => rfl⟩

theorem parts_join (h : Relative path) :
    (resolve (join base path)).parts =
      (path.splitOn '/').foldl (push (decide (slashes base ≠ 0))) (resolve base).parts := by
  obtain ⟨front, hsplit, hfront⟩ := splitOn_join base h
  rw [resolve_parts, resolve_parts, hsplit, slashes_join h, ← hfront, walk, walk,
    List.foldl_append]

/-- A path lies below another if it goes down from it: no parent is left on the way. -/
structure Below (base path : List Char) : Prop where
  slashes : slashes path = slashes base
  parts : ∃ rest, (resolve path).parts = (resolve base).parts ++ rest ∧ parent ∉ rest

/-- Joined to any base, a relative path lies below it if no parent is left of the path. -/
theorem below_join (h : Relative path) (hparent : parent ∉ (resolve path).parts) :
    Below base (join base path) where
  slashes := slashes_join h
  parts := by
    have hroot : decide (PosixPath.slashes path ≠ 0) = false := by simpa using relative_iff.mp h
    rw [resolve_parts, hroot] at hparent
    refine ⟨_, ?_, hparent⟩
    rw [parts_join h, foldl_push_eq hparent]

end

end CitraFlows.PosixPath
