-- SUMMARY: The holes of a JSON text: where they are in its value, what is read once they are filled, and how long a string can get.
import CitraFlows.Lib.JsonText

/-!
# Filled JSON texts

A hole may be filled with a text before the whole is read, or with the content of the text after.
For plain texts the two agree. A text that is not plain ends its string, or takes part in an escape;
what is read of it then is always shorter than the text.
-/

namespace JsonText

variable {H G : Type}

/-! ## The strings that are read -/

mutual

/-- The keys and strings of a value, in their order -/
def Json.strings : Json H → List (Content H)
  | .scalar _ => []
  | .string s => [s]
  | .array xs => stringsList xs
  | .object fields => stringsFields fields

def stringsList : List (Json H) → List (Content H)
  | [] => []
  | x :: xs => x.strings ++ stringsList xs

def stringsFields : List (Content H × Json H) → List (Content H)
  | [] => []
  | f :: fields => stringsField f ++ stringsFields fields

def stringsField : Content H × Json H → List (Content H)
  | (k, v) => k :: v.strings

end

/-- The strings among the tokens -/
def stringTokens (tokens : List (Token H)) : List (Content H) :=
  tokens.filterMap fun
    | .string s => some s
    | _ => none

section

variable {tokens : List (Token H)}

theorem stringTokens_tail {c : Char} (h : headIs c tokens = true) :
    stringTokens tokens.tail = stringTokens tokens := by
  cases tokens with
  | nil => rfl
  | cons t tokens =>
      cases t with
      | punct d => rfl
      | scalar cs => rfl
      | string s => cases h

/-- A value is read with all the strings of its tokens. -/
theorem readValue_strings (fuel : Nat) :
    (∀ (tokens : List (Token H)) v rest, readValue fuel tokens = some (v, rest) →
      stringTokens tokens = v.strings ++ stringTokens rest) ∧
    (∀ (tokens : List (Token H)) vs rest, readElements fuel tokens = some (vs, rest) →
      stringTokens tokens = stringsList vs ++ stringTokens rest) ∧
    (∀ (tokens : List (Token H)) fs rest, readMembers fuel tokens = some (fs, rest) →
      stringTokens tokens = stringsFields fs ++ stringTokens rest) := by
  induction fuel with
  | zero =>
      exact ⟨fun _ _ _ h => (by cases h), fun _ _ _ h => (by cases h), fun _ _ _ h => (by cases h)⟩
  | succ fuel ih =>
      obtain ⟨hvalue, helements, hmembers⟩ := ih
      refine ⟨fun tokens v rest h => ?_, fun tokens vs rest h => ?_, fun tokens fs rest h => ?_⟩
      · cases tokens with
        | nil => cases h
        | cons t tail =>
            cases t with
            | scalar cs =>
                rw [readValue] at h
                split at h
                · cases h
                  rfl
                · cases h
            | string s =>
                cases h
                rfl
            | punct c =>
                have hskip : stringTokens (.punct c :: tail) = stringTokens tail := rfl
                rw [hskip]
                rw [readValue] at h
                split at h
                · split at h
                  · next hclose =>
                      cases h
                      exact (stringTokens_tail hclose).symm
                  · obtain ⟨⟨vs, rest'⟩, hread, heq⟩ := Option.map_eq_some_iff.mp h
                    cases heq
                    exact helements _ _ _ hread
                · split at h
                  · split at h
                    · next hclose =>
                        cases h
                        exact (stringTokens_tail hclose).symm
                    · obtain ⟨⟨fs, rest'⟩, hread, heq⟩ := Option.map_eq_some_iff.mp h
                      cases heq
                      exact hmembers _ _ _ hread
                  · cases h
      · rw [readElements] at h
        split at h
        · cases h
        · next v mid hread =>
            rw [hvalue _ _ _ hread]
            split at h
            · next hcomma =>
                obtain ⟨⟨vs', rest'⟩, hrest, heq⟩ := Option.map_eq_some_iff.mp h
                cases heq
                rw [← stringTokens_tail hcomma, helements _ _ _ hrest, stringsList,
                  List.append_assoc]
            · split at h
              · next hclose =>
                  cases h
                  rw [← stringTokens_tail hclose, stringsList, stringsList, List.append_nil]
              · cases h
      · cases tokens with
        | nil => cases h
        | cons t tail =>
            cases t with
            | scalar cs => cases h
            | punct c => cases h
            | string k =>
                have hkey : stringTokens (.string k :: tail) = k :: stringTokens tail := rfl
                rw [hkey]
                rw [readMembers] at h
                split at h
                · next hcolon =>
                    split at h
                    · cases h
                    · next v mid hread =>
                        rw [← stringTokens_tail hcolon, hvalue _ _ _ hread]
                        split at h
                        · next hcomma =>
                            obtain ⟨⟨fs', rest'⟩, hrest, heq⟩ := Option.map_eq_some_iff.mp h
                            cases heq
                            rw [← stringTokens_tail hcomma, hmembers _ _ _ hrest, stringsFields,
                              stringsField, List.cons_append, List.cons_append, List.append_assoc]
                        · split at h
                          · next hclose =>
                              cases h
                              rw [← stringTokens_tail hclose, stringsFields, stringsFields,
                                stringsField, List.append_nil, List.cons_append]
                          · cases h
                · cases h

theorem strings_of_readTokens {v : Json H} (h : readTokens tokens = some v) :
    v.strings = stringTokens tokens := by
  unfold readTokens at h
  split at h
  next v' hread =>
    cases h
    rw [(readValue_strings _).1 _ _ _ hread, stringTokens, List.filterMap_nil, List.append_nil]
  next => cases h

end

/-- The keys and the strings of the value are as it is said. -/
inductive Json.All (P Q : Content H → Prop) : Json H → Prop
  | scalar (cs : List Char) : All P Q (.scalar cs)
  | string {s : Content H} : Q s → All P Q (.string s)
  | array {xs : List (Json H)} : (∀ x ∈ xs, All P Q x) → All P Q (.array xs)
  | object {fields : List (Content H × Json H)} : (∀ f ∈ fields, P f.1) →
      (∀ f ∈ fields, All P Q f.2) → All P Q (.object fields)

section

variable {P Q : Content H → Prop}

theorem stringsList_eq (xs : List (Json H)) : stringsList xs = xs.flatMap Json.strings := by
  induction xs with
  | nil => rfl
  | cons x xs ih => rw [stringsList, ih, List.flatMap_cons]

theorem stringsFields_eq (fields : List (Content H × Json H)) :
    stringsFields fields = fields.flatMap fun f => f.1 :: f.2.strings := by
  induction fields with
  | nil => rfl
  | cons f fields ih =>
      obtain ⟨k, v⟩ := f
      rw [stringsFields, stringsField, ih, List.flatMap_cons]

theorem Json.All.mono {P' Q' : Content H → Prop} {v : Json H} (h : v.All P Q)
    (hP : ∀ s, P s → P' s) (hQ : ∀ s, Q s → Q' s) : v.All P' Q' := by
  induction h with
  | scalar cs => exact .scalar cs
  | string hs => exact .string (hQ _ hs)
  | array _ ih => exact .array ih
  | object hkeys _ ih => exact .object (fun f hf => hP f.1 (hkeys f hf)) ih

theorem Json.All.mem_strings {v : Json H} (h : v.All P Q) : ∀ s ∈ v.strings, P s ∨ Q s := by
  induction h with
  | scalar cs => exact fun s hs => by cases hs
  | string hQ =>
      intro s hs
      rw [Json.strings, List.mem_singleton] at hs
      exact .inr (hs ▸ hQ)
  | @array xs _ ih =>
      intro s hs
      rw [Json.strings, stringsList_eq] at hs
      obtain ⟨x, hx, hs⟩ := List.mem_flatMap.mp hs
      exact ih x hx s hs
  | @object fields hkeys _ ih =>
      intro s hs
      rw [Json.strings, stringsFields_eq] at hs
      obtain ⟨f, hf, hs⟩ := List.mem_flatMap.mp hs
      rcases List.mem_cons.mp hs with rfl | hs
      · exact .inl (hkeys f hf)
      · exact ih f hf s hs

mutual

theorem Json.all_of_strings : (v : Json H) → (∀ s ∈ v.strings, P s) → v.All P P
  | .scalar cs, _ => .scalar cs
  | .string s, h => .string (h s (List.mem_singleton_self s))
  | .array xs, h => .array (all_of_stringsList xs h)
  | .object fields, h =>
      .object (fun f hf => (all_of_stringsFields fields h f hf).1) fun f hf =>
        (all_of_stringsFields fields h f hf).2

theorem all_of_stringsList : (xs : List (Json H)) → (∀ s ∈ stringsList xs, P s) →
    ∀ x ∈ xs, x.All P P
  | [], _ => fun x hx => by cases hx
  | x :: xs, h =>
      List.forall_mem_cons.mpr ⟨x.all_of_strings fun s hs => h s (List.mem_append_left _ hs),
        all_of_stringsList xs fun s hs => h s (List.mem_append_right _ hs)⟩

theorem all_of_stringsFields : (fields : List (Content H × Json H)) →
    (∀ s ∈ stringsFields fields, P s) → ∀ f ∈ fields, P f.1 ∧ f.2.All P P
  | [], _ => fun f hf => by cases hf
  | f :: fields, h =>
      List.forall_mem_cons.mpr ⟨all_of_stringsField f fun s hs => h s (List.mem_append_left _ hs),
        all_of_stringsFields fields fun s hs => h s (List.mem_append_right _ hs)⟩

theorem all_of_stringsField : (f : Content H × Json H) → (∀ s ∈ stringsField f, P s) →
    P f.1 ∧ f.2.All P P
  | (k, v), h =>
      ⟨h k List.mem_cons_self, v.all_of_strings fun s hs => h s (List.mem_cons_of_mem k hs)⟩

end

/-- Strings may be changed one time after another. -/
theorem Json.map_map {F : Type} (key string : Content F → Content G)
    (key' string' : Content G → Content H) (v : Json F) :
    (v.map key string).map key' string' = v.map (key' ∘ key) (string' ∘ string) := by
  have hall : v.All (fun _ => True) fun _ => True := v.all_of_strings fun _ _ => trivial
  induction hall with
  | scalar cs => rfl
  | string _ => rfl
  | @array xs _ ih =>
      rw [Json.map, Json.map, Json.map, mapList_eq, mapList_eq,
        mapList_eq, List.map_map]
      exact congrArg _ (List.map_congr_left ih)
  | @object fields _ _ ih =>
      rw [Json.map, Json.map, Json.map, mapFields_eq, mapFields_eq,
        mapFields_eq, List.map_map]
      refine congrArg _ (List.map_congr_left fun f hf => ?_)
      rw [Function.comp_apply, ih f hf]
      rfl

end

/-! ## Changing the strings of dicts -/

section

variable [DecidableEq H] [DecidableEq G] {P Q : Content H → Prop}

theorem Json.All.collapse {v : Json H} (h : v.All P Q) : v.collapse.All P Q := by
  induction h with
  | scalar cs => exact .scalar cs
  | string hs => exact .string hs
  | @array xs _ ih =>
      rw [Json.collapse, collapseList_eq]
      refine .array fun x hx => ?_
      obtain ⟨y, hy, rfl⟩ := List.mem_map.mp hx
      exact ih y hy
  | @object fields hkeys _ ih =>
      rw [Json.collapse, collapseFields_eq]
      have hmem : ∀ f ∈ KeyedLists.dictBy Prod.fst (fields.map fun f => (f.1, f.2.collapse)),
          ∃ f' ∈ fields, f = (f'.1, f'.2.collapse) := by
        intro f hf
        obtain ⟨f', hf', heq⟩ := List.mem_map.mp (KeyedLists.mem_of_mem_dictBy hf)
        exact ⟨f', hf', heq.symm⟩
      refine .object (fun f hf => ?_) fun f hf => ?_
      · obtain ⟨f', hf', rfl⟩ := hmem f hf
        exact hkeys f' hf'
      · obtain ⟨f', hf', rfl⟩ := hmem f hf
        exact ih f' hf'

omit [DecidableEq H] [DecidableEq G] in
/-- Only the keys and strings that are there count. -/
theorem Json.map_congr {key key' string string' : Content H → Content G}
    (hkey : ∀ s, P s → key s = key' s) (hstring : ∀ s, Q s → string s = string' s) {v : Json H}
    (h : v.All P Q) : v.map key string = v.map key' string' := by
  induction h with
  | scalar cs => rfl
  | string hs => rw [Json.map, Json.map, hstring _ hs]
  | @array xs _ ih =>
      rw [Json.map, Json.map, mapList_eq, mapList_eq]
      exact congrArg _ (List.map_congr_left ih)
  | @object fields hkeys _ ih =>
      rw [Json.map, Json.map, mapFields_eq, mapFields_eq]
      refine congrArg _ (List.map_congr_left fun f hf => ?_)
      rw [hkey f.1 (hkeys f hf), ih f hf]

/-- Keys that stay apart may be changed before or after the dicts are made. -/
theorem Json.collapse_map {key string : Content H → Content G}
    (hkey : ∀ s s', P s → P s' → key s = key s' → s = s') {v : Json H} (h : v.All P Q) :
    (v.map key string).collapse = v.collapse.map key string := by
  induction h with
  | scalar cs => rfl
  | string hs => rfl
  | @array xs _ ih =>
      rw [Json.map, Json.collapse, Json.collapse, Json.map, mapList_eq, mapList_eq, collapseList_eq,
        collapseList_eq, List.map_map, List.map_map]
      exact congrArg _ (List.map_congr_left ih)
  | @object fields hkeys _ ih =>
      have hmap : (fields.map fun f => (key f.1, f.2.map key string)).map
          (fun f => (f.1, f.2.collapse)) =
          (fields.map fun f => (f.1, f.2.collapse)).map fun f => (key f.1, f.2.map key string) := by
        rw [List.map_map, List.map_map]
        refine List.map_congr_left fun f hf => ?_
        rw [Function.comp_apply, Function.comp_apply, ih f hf]
      rw [Json.map, Json.collapse, Json.collapse, Json.map, mapFields_eq, mapFields_eq,
        collapseFields_eq, collapseFields_eq, hmap]
      refine congrArg _ (KeyedLists.dictBy_map fun f hf f' hf' => ?_)
      obtain ⟨g, hg, rfl⟩ := List.mem_map.mp hf
      obtain ⟨g', hg', rfl⟩ := List.mem_map.mp hf'
      exact ⟨hkey g.1 g'.1 (hkeys g hg) (hkeys g' hg'), congrArg key⟩

end

/-! ## Filling the holes -/

/-- No character of the text ends a string, starts an escape or is a control character. -/
def Plain (cs : List Char) : Prop := ∀ c ∈ cs, c ≠ '"' ∧ c ≠ '\\' ∧ 0x20 ≤ c.toNat

/-- The text with its holes filled -/
def fillText (ρ : H → List Char) (text : List (Symbol H)) : List (Symbol G) :=
  text.flatMap fun
    | .char c => [.char c]
    | .hole h => (ρ h).map .char

/-- The content with its holes filled -/
def fill (ρ : H → List Char) (s : Content H) : Content G :=
  s.flatMap fun
    | .inl u => [.inl u]
    | .inr h => content (ρ h)

def Mode.map (φ : Content H → Content G) : Mode H → Mode G
  | .between => .between
  | .scalar cs => .scalar cs
  | .string s => .string (φ s)
  | .escape s => .escape (φ s)
  | .unicode s digits value => .unicode (φ s) digits value

section

variable {ρ : H → List Char} {text : List (Symbol H)} {mode : Mode H}

@[simp] theorem content_append (cs ds : List Char) :
    (content (cs ++ ds) : Content H) = content cs ++ content ds := by
  simp [content]

@[simp] theorem fill_append (s t : Content H) :
    (fill ρ (s ++ t) : Content G) = fill ρ s ++ fill ρ t := by
  simp [fill]

@[simp] theorem fill_unit (u : Nat) : (fill ρ [.inl u] : Content G) = [.inl u] := rfl

@[simp] theorem fill_hole (h : H) : (fill ρ [.inr h] : Content G) = content (ρ h) := by
  simp [fill]

/-- What has no holes stays. -/
theorem fill_units (us : List Nat) : (fill ρ (us.map .inl) : Content G) = us.map .inl := by
  induction us with
  | nil => rfl
  | cons u us ih => rw [List.map_cons, ← List.singleton_append, fill_append, ih]; rfl

@[simp] theorem fill_content (cs : List Char) : (fill ρ (content cs) : Content G) = content cs :=
  fill_units _

theorem startToken_map (c : Char) (φ : Content H → Content G) (hφ : φ [] = []) :
    (startToken c : List (Token G) × Mode G) =
      ((startToken c).1.map (Token.map φ), (startToken c).2.map φ) := by
  unfold startToken
  split
  · rfl
  · split
    · rfl
    · split
      · simp [Mode.map, hφ]
      · rfl

theorem stepChar_fill (c : Char) : (stepChar c (mode.map (fill ρ : Content H → Content G))) =
    (stepChar c mode).map fun r => (r.1.map (Token.map (fill ρ)), r.2.map (fill ρ)) := by
  have hstart := startToken_map c (fill ρ : Content H → Content G) rfl
  cases mode with
  | between => exact congrArg some hstart
  | scalar cs =>
      simp only [Mode.map, stepChar]
      split
      · rw [hstart]
        rfl
      · rfl
  | string s =>
      simp only [Mode.map, stepChar]
      split
      · rfl
      · split
        · rfl
        · split
          · rfl
          · simp
  | escape s =>
      simp only [Mode.map, stepChar]
      split
      · rfl
      · simp [Option.map_map, Function.comp_def]
  | unicode s digits value =>
      simp only [Mode.map, stepChar]
      cases hexDigit c with
      | none => rfl
      | some d =>
          simp only [Option.map_some]
          split
          · rfl
          · simp

/-- A plain text in a string is read as it is. -/
theorem lexFrom_plain {cs : List Char} (h : Plain cs) (s : Content H) (rest : List (Symbol H)) :
    lexFrom (.string s) (cs.map .char ++ rest) = lexFrom (.string (s ++ content cs)) rest := by
  induction cs generalizing s with
  | nil => simp [content]
  | cons c cs ih =>
      obtain ⟨⟨hquote, hescape, hcontrol⟩, hcs⟩ := List.forall_mem_cons.mp h
      have hstep : stepChar c (.string s) = some ([], .string (s ++ content [c])) := by
        rw [stepChar, if_neg hquote, if_neg hescape, if_neg (Nat.not_lt.mpr hcontrol)]
      rw [List.map_cons, List.cons_append, lexFrom, step, hstep]
      simp only [List.nil_append, Option.map_id']
      rw [ih hcs, List.append_assoc, ← content_append, List.singleton_append]

theorem fillText_cons (x : Symbol H) (text : List (Symbol H)) :
    (fillText ρ (x :: text) : List (Symbol G)) = fillText ρ [x] ++ fillText ρ text := by
  simp [fillText]

/-- Plain texts in the holes leave the tokens as they are, but for their strings. -/
theorem lexFrom_fill (hρ : ∀ h, .hole h ∈ text → Plain (ρ h)) {tokens : List (Token H)}
    (h : lexFrom mode text = some tokens) :
    lexFrom (mode.map (fill ρ)) (fillText ρ text) =
      some (tokens.map (Token.map (fill ρ : Content H → Content G))) := by
  induction text generalizing mode tokens with
  | nil =>
      cases mode with
      | between => cases h; rfl
      | scalar cs => cases h; rfl
      | string s => cases h
      | escape s => cases h
      | unicode s digits value => cases h
  | cons x text ih =>
      rw [lexFrom] at h
      cases hstep : step x mode with
      | none =>
          rw [hstep] at h
          cases h
      | some r =>
          obtain ⟨ended, next⟩ := r
          rw [hstep] at h
          obtain ⟨rest, hrest, rfl⟩ := Option.map_eq_some_iff.mp h
          have hfilled := ih (fun h hmem => hρ h (List.mem_cons_of_mem x hmem)) hrest
          rw [fillText_cons]
          cases x with
          | char c =>
              have hchar : (fillText ρ [.char c] : List (Symbol G)) = [.char c] := rfl
              have hstep' : stepChar c mode = some (ended, next) := hstep
              rw [hchar, List.singleton_append, lexFrom, step, stepChar_fill, hstep']
              simp only [Option.map_some]
              rw [hfilled, Option.map_some, List.map_append]
          | hole hole =>
              cases mode with
              | string s =>
                  cases hstep
                  have hhole : (fillText ρ [.hole hole] : List (Symbol G)) =
                      (ρ hole).map .char := by simp [fillText]
                  rw [hhole, Mode.map, lexFrom_plain (hρ hole List.mem_cons_self)]
                  rw [Mode.map, fill_append, fill_hole] at hfilled
                  exact hfilled
              | between => cases hstep
              | scalar cs => cases hstep
              | escape s => cases hstep
              | unicode s digits value => cases hstep

/-- A text whose holes are filled with plain texts is read as its value with the texts in the
holes. -/
theorem read_fill (hρ : ∀ h, .hole h ∈ text → Plain (ρ h)) {v : Json H} (h : read text = some v) :
    read (fillText ρ text) = some (v.map (fill ρ) (fill ρ : Content H → Content G)) := by
  obtain ⟨tokens, hlex, hread⟩ := Option.bind_eq_some_iff.mp h
  have hfilled := lexFrom_fill (G := G) hρ hlex
  rw [read, show (Mode.between : Mode G) = Mode.map (fill ρ) .between from rfl, hfilled,
    Option.bind_some, readTokens_map, hread, Option.map_some]

end

/-! ## What a string holds -/

/-- The string that is read at the moment -/
def Mode.held : Mode H → Content H
  | .between => []
  | .scalar _ => []
  | .string s => s
  | .escape s => s
  | .unicode s _ _ => s

/-- How many units a symbol may add to a string -/
def Symbol.weight : Symbol H → Nat
  | .char c => (unitsOf c).length
  | .hole _ => 1

theorem one_le_weight (x : Symbol H) : 1 ≤ x.weight := by
  cases x with
  | hole h => exact Nat.le_refl 1
  | char c =>
      rw [Symbol.weight, unitsOf]
      split
      · exact Nat.le_refl 1
      · exact Nat.le_succ 1

theorem stringTokens_startToken (c : Char) :
    stringTokens (startToken c : List (Token H) × Mode H).1 = [] ∧
      (startToken c : List (Token H) × Mode H).2.held = [] := by
  unfold startToken
  split
  · exact ⟨rfl, rfl⟩
  · split
    · exact ⟨rfl, rfl⟩
    · split
      · exact ⟨rfl, rfl⟩
      · exact ⟨rfl, rfl⟩

/-- A symbol goes on with the string, or ends it. -/
theorem step_held {x : Symbol H} {mode next : Mode H} {ended : List (Token H)}
    (h : step x mode = some (ended, next)) :
    (stringTokens ended = [] ∧ ∃ more, next.held = mode.held ++ more ∧ more.length ≤ x.weight ∧
      ∀ hole, x = .hole hole → .inr hole ∈ more) ∨
    (x = .char '"' ∧ stringTokens ended = [mode.held] ∧ next.held = []) := by
  have hunit : ∀ u : Nat, ([.inl u] : Content H).length ≤ x.weight := fun _ => one_le_weight x
  cases x with
  | hole hole =>
      cases mode with
      | string s =>
          cases h
          refine .inl ⟨rfl, [.inr hole], rfl, Nat.le_refl 1, fun hole' heq => ?_⟩
          cases heq
          exact List.mem_singleton_self _
      | between => cases h
      | scalar cs => cases h
      | escape s => cases h
      | unicode s digits value => cases h
  | char c =>
      have hchar : ∀ more, ∀ hole, (.char c : Symbol H) = .hole hole → .inr hole ∈ (more : Content H) :=
        fun _ _ heq => by cases heq
      have hstart := stringTokens_startToken (H := H) c
      rw [step] at h
      cases mode with
      | between =>
          rw [Option.some.inj h] at hstart
          exact .inl ⟨hstart.1, [], hstart.2, Nat.zero_le _, hchar _⟩
      | scalar cs =>
          rw [stepChar] at h
          split at h
          · cases h
            exact .inl ⟨hstart.1, [], hstart.2, Nat.zero_le _, hchar _⟩
          · cases h
            exact .inl ⟨rfl, [], rfl, Nat.zero_le _, hchar _⟩
      | string s =>
          rw [stepChar] at h
          split at h
          · next hquote =>
              cases h
              exact .inr ⟨by rw [hquote], rfl, rfl⟩
          · split at h
            · cases h
              exact .inl ⟨rfl, [], (List.append_nil s).symm, Nat.zero_le _, hchar _⟩
            · split at h
              · cases h
              · cases h
                refine .inl ⟨rfl, content [c], rfl, ?_, hchar _⟩
                simp [content, Symbol.weight]
      | escape s =>
          rw [stepChar] at h
          split at h
          · cases h
            exact .inl ⟨rfl, [], (List.append_nil s).symm, Nat.zero_le _, hchar _⟩
          · obtain ⟨u, -, heq⟩ := Option.map_eq_some_iff.mp h
            cases heq
            exact .inl ⟨rfl, [.inl u], rfl, hunit u, hchar _⟩
      | unicode s digits value =>
          rw [stepChar] at h
          obtain ⟨d, -, heq⟩ := Option.map_eq_some_iff.mp h
          split at heq
          · cases heq
            exact .inl ⟨rfl, [], (List.append_nil s).symm, Nat.zero_le _, hchar _⟩
          · cases heq
            exact .inl ⟨rfl, [.inl (value * 16 + d)], rfl, hunit _, hchar _⟩

theorem stringTokens_append (ts ts' : List (Token H)) :
    stringTokens (ts ++ ts') = stringTokens ts ++ stringTokens ts' := List.filterMap_append

theorem finish_held {mode : Mode H} {tokens : List (Token H)} (h : finish mode = some tokens) :
    mode.held = [] ∧ stringTokens tokens = [] := by
  cases mode with
  | between => cases h; exact ⟨rfl, rfl⟩
  | scalar cs => cases h; exact ⟨rfl, rfl⟩
  | string s => cases h
  | escape s => cases h
  | unicode s digits value => cases h

section

variable {mode : Mode H} {text : List (Symbol H)} {tokens : List (Token H)}

/-- The tokens after the first symbol -/
theorem lexFrom_cons {x : Symbol H} (h : lexFrom mode (x :: text) = some tokens) :
    ∃ ended next rest, step x mode = some (ended, next) ∧ lexFrom next text = some rest ∧
      tokens = ended ++ rest := by
  rw [lexFrom] at h
  cases hstep : step x mode with
  | none =>
      rw [hstep] at h
      cases h
  | some r =>
      rw [hstep] at h
      obtain ⟨rest, hrest, rfl⟩ := Option.map_eq_some_iff.mp h
      exact ⟨r.1, r.2, rest, rfl, hrest, rfl⟩

/-- A hole of the text is in one of the strings. -/
theorem hole_mem_tokens (h : lexFrom mode text = some tokens) {hole : H}
    (hmem : .inr hole ∈ mode.held ∨ .hole hole ∈ text) :
    ∃ s ∈ stringTokens tokens, .inr hole ∈ s := by
  induction text generalizing mode tokens with
  | nil =>
      rw [(finish_held h).1] at hmem
      simp at hmem
  | cons x text ih =>
      obtain ⟨ended, next, rest, hstep, hrest, rfl⟩ := lexFrom_cons h
      rw [stringTokens_append]
      rcases step_held hstep with ⟨-, more, hheld, -, hhole⟩ | ⟨rfl, hended, hheld⟩
      · have hnext : .inr hole ∈ next.held ∨ .hole hole ∈ text := by
          rw [hheld, List.mem_append]
          rcases hmem with hmem | hmem
          · exact .inl (.inl hmem)
          · rcases List.mem_cons.mp hmem with heq | hmem
            · exact .inl (.inr (hhole hole heq.symm))
            · exact .inr hmem
        obtain ⟨s, hs, hin⟩ := ih hrest hnext
        exact ⟨s, List.mem_append_right _ hs, hin⟩
      · rcases hmem with hmem | hmem
        · exact ⟨mode.held, List.mem_append_left _ (by simp [hended]), hmem⟩
        · rcases List.mem_cons.mp hmem with heq | hmem
          · cases heq
          · obtain ⟨s, hs, hin⟩ := ih hrest (.inr hmem)
            exact ⟨s, List.mem_append_right _ hs, hin⟩

theorem hole_mem_strings {v : Json H} (h : read text = some v) {hole : H}
    (hmem : .hole hole ∈ text) : ∃ s ∈ v.strings, .inr hole ∈ s := by
  obtain ⟨tokens, hlex, hread⟩ := Option.bind_eq_some_iff.mp h
  rw [strings_of_readTokens hread]
  exact hole_mem_tokens hlex (.inr hmem)

def weight (text : List (Symbol H)) : Nat := (text.map Symbol.weight).sum

/-- Before a brace that is no part of a string, a string is shorter than the text together with
what was read of the string before. -/
theorem length_lt_of_brace (h : lexFrom mode (text ++ [.char '\x7d']) = some tokens) :
    ∀ s ∈ stringTokens tokens, s.length < mode.held.length + weight text := by
  induction text generalizing mode tokens with
  | nil =>
      obtain ⟨ended, next, rest, hstep, hrest, rfl⟩ := lexFrom_cons h
      rcases step_held hstep with ⟨hended, -⟩ | ⟨heq, -⟩
      · intro s hs
        rw [stringTokens_append, hended, (finish_held hrest).2] at hs
        cases hs
      · cases heq
  | cons x text ih =>
      obtain ⟨ended, next, rest, hstep, hrest, rfl⟩ := lexFrom_cons h
      have hweight : weight (x :: text) = x.weight + weight text := by simp [weight]
      intro s hs
      rw [stringTokens_append, List.mem_append] at hs
      rw [hweight]
      rcases step_held hstep with ⟨hended, more, hheld, hmore, -⟩ | ⟨-, hended, hheld⟩
      · rw [hended] at hs
        have hlt := ih hrest s (hs.resolve_left (List.not_mem_nil))
        rw [hheld, List.length_append] at hlt
        omega
      · rcases hs with hs | hs
        · rw [hended, List.mem_singleton] at hs
          have hone := one_le_weight x
          rw [hs]
          omega
        · have hlt := ih hrest s hs
          rw [hheld, List.length_nil] at hlt
          omega

theorem weight_chars (cs : List Char) :
    weight (cs.map .char : List (Symbol H)) = (content cs : Content H).length := by
  induction cs with
  | nil => rfl
  | cons c cs ih =>
      have hcons : (content (c :: cs) : Content H) = content [c] ++ content cs := by
        rw [← content_append, List.singleton_append]
      rw [hcons, List.length_append, ← ih]
      simp [weight, Symbol.weight, content]

end

/-- A text that is not plain has a first character that is not. -/
theorem exists_of_not_plain {cs : List Char} (h : ¬ Plain cs) :
    ∃ pre c post, cs = pre ++ c :: post ∧ Plain pre ∧
      (c = '"' ∨ c = '\\' ∨ c.toNat < 0x20) := by
  induction cs with
  | nil => exact absurd (fun c hc => by cases hc) h
  | cons c cs ih =>
      by_cases hc : c ≠ '"' ∧ c ≠ '\\' ∧ 0x20 ≤ c.toNat
      · have hcs : ¬ Plain cs := fun hcs => h (List.forall_mem_cons.mpr ⟨hc, hcs⟩)
        obtain ⟨pre, d, post, rfl, hpre, hd⟩ := ih hcs
        exact ⟨c :: pre, d, post, rfl, List.forall_mem_cons.mpr ⟨hc, hpre⟩, hd⟩
      · refine ⟨[], c, cs, rfl, fun d hd => (by cases hd), ?_⟩
        by_contra hcon
        rw [not_or, not_or, Nat.not_lt] at hcon
        exact hc hcon

/-- An object with one member, the text as it is in its string -/
def spliced (cs : List Char) : List Char :=
  "\x7b\"\":\"".toList ++ cs ++ "\"\x7d".toList

theorem spliced_eq (cs : List Char) :
    spliced cs = "\x7b\"\":\"".toList ++ cs ++ "\"\x7d".toList := rfl

theorem lexFrom_opening (rest : List (Symbol H)) :
    lexFrom .between ("\x7b\"\":\"".toList.map .char ++ rest) =
      (lexFrom (.string []) rest).map ([.punct '\x7b', .string [], .punct ':'] ++ ·) := by
  simp [lexFrom, step, stepChar, startToken, isBlank, isPunct, Option.map_map, Function.comp_def]

/-- No string of it has the length of a text that is not plain. -/
theorem length_lt_of_not_plain {cs : List Char} (hcs : ¬ Plain cs) {v : Json H}
    (h : read ((spliced cs).map .char) = some v) :
    ∀ s ∈ v.strings, s.length < (content cs : Content H).length := by
  obtain ⟨tokens, hlex, hread⟩ := Option.bind_eq_some_iff.mp h
  rw [strings_of_readTokens hread]
  obtain ⟨pre, c, post, rfl, hpre, hc⟩ := exists_of_not_plain hcs
  have hsplit : ((spliced (pre ++ c :: post)).map .char : List (Symbol H)) =
      "\x7b\"\":\"".toList.map Symbol.char ++ (pre.map Symbol.char ++
        Symbol.char c :: ((post.map Symbol.char ++ [Symbol.char '"']) ++
          [Symbol.char '\x7d'])) := by
    simp [spliced_eq]
  rw [hsplit, lexFrom_opening] at hlex
  obtain ⟨tokens', hinner, rfl⟩ := Option.map_eq_some_iff.mp hlex
  rw [lexFrom_plain hpre, List.nil_append] at hinner
  obtain ⟨ended, next, rest, hstep, hrest, rfl⟩ := lexFrom_cons hinner
  have hlength : (content (pre ++ c :: post) : Content H).length =
      (content pre : Content H).length + (unitsOf c).length +
        (content post : Content H).length := by
    have hcons : (content (c :: post) : Content H) = content [c] ++ content post := by
      rw [← content_append, List.singleton_append]
    rw [content_append, hcons, List.length_append, List.length_append, Nat.add_assoc]
    simp [content]
  have hweight : weight (post.map .char ++ [.char '"'] : List (Symbol H)) =
      (content post : Content H).length + 1 := by
    rw [← weight_chars post]
    simp [weight, Symbol.weight, unitsOf]
  have hone : 1 ≤ (unitsOf c).length := one_le_weight (.char c : Symbol H)
  have hlater := length_lt_of_brace hrest
  rw [hweight] at hlater
  -- What is read up to this character, and what may still come
  have hbound : next.held.length ≤ (content pre : Content H).length ∧
      ∀ s ∈ stringTokens ended, s.length ≤ (content pre : Content H).length := by
    rw [step, stepChar] at hstep
    split at hstep
    · cases hstep
      refine ⟨Nat.zero_le _, fun s hs => ?_⟩
      obtain rfl : s = content pre := by simpa [stringTokens] using hs
      exact Nat.le_refl _
    · next hquote =>
        split at hstep
        · cases hstep
          exact ⟨Nat.le_refl _, fun s hs => by cases hs⟩
        · next hescape =>
            rw [if_pos ((hc.resolve_left hquote).resolve_left hescape)] at hstep
            cases hstep
  intro s hs
  have hmem : s = [] ∨ s ∈ stringTokens ended ∨ s ∈ stringTokens rest := by
    simpa [stringTokens] using hs
  rw [hlength]
  rcases hmem with rfl | hs | hs
  · rw [List.length_nil]
    omega
  · have := hbound.2 s hs
    omega
  · have := hlater s hs
    have := hbound.1
    omega

end JsonText
