-- SUMMARY: JSON texts with holes in their strings: their tokens, and the values that are read.
import CitraFlows.Lib.KeyedLists

/-!
# JSON texts with holes

A text is a list of characters and of holes, which may stand in strings only. It is cut into tokens,
and the tokens are read as a value. Strings are sequences of UTF-16 units, as JSON has them;
numbers and constants stay as they are written. A text without holes is an ordinary JSON text.

Not modelled: limits on the digits of a number and on the depth of a value.
-/

namespace JsonText

variable {H G : Type}

/-! ## Tokens -/

inductive Symbol (H : Type) where
  | char (c : Char)
  | hole (h : H)

/-- What is between the quotes of a string: UTF-16 units and holes -/
abbrev Content (H : Type) := List (Nat ⊕ H)

inductive Token (H : Type) where
  | punct (c : Char)
  | scalar (cs : List Char)
  | string (s : Content H)
  deriving DecidableEq

/-- The UTF-16 units of a character -/
def unitsOf (c : Char) : List Nat :=
  if c.toNat < 0x10000 then [c.toNat]
  else [0xD800 + (c.toNat - 0x10000) / 0x400, 0xDC00 + (c.toNat - 0x10000) % 0x400]

def content (cs : List Char) : Content H := (cs.flatMap unitsOf).map .inl

/-- What is read at the moment -/
inductive Mode (H : Type) where
  | between
  | scalar (cs : List Char)
  | string (s : Content H)
  | escape (s : Content H)
  | unicode (s : Content H) (digits value : Nat)

def isBlank (c : Char) : Bool := c = ' ' ∨ c = '\t' ∨ c = '\n' ∨ c = '\r'

def isPunct (c : Char) : Bool :=
  c = '\x7b' ∨ c = '\x7d' ∨ c = '[' ∨ c = ']' ∨ c = ',' ∨ c = ':'

/-- A character between two tokens -/
def startToken (c : Char) : List (Token H) × Mode H :=
  if isBlank c then ([], .between)
  else if isPunct c then ([.punct c], .between)
  else if c = '"' then ([], .string [])
  else ([], .scalar [c])

def escaped : Char → Option Nat
  | '"' => some 0x22
  | '\\' => some 0x5C
  | '/' => some 0x2F
  | 'b' => some 0x08
  | 'f' => some 0x0C
  | 'n' => some 0x0A
  | 'r' => some 0x0D
  | 't' => some 0x09
  | _ => none

def hexDigit (c : Char) : Option Nat :=
  if '0' ≤ c ∧ c ≤ '9' then some (c.toNat - 0x30)
  else if 'a' ≤ c ∧ c ≤ 'f' then some (c.toNat - 0x61 + 10)
  else if 'A' ≤ c ∧ c ≤ 'F' then some (c.toNat - 0x41 + 10)
  else none

/-- The tokens that a character ends, and what is read after it; `none` if it cannot stand there. -/
def stepChar (c : Char) : Mode H → Option (List (Token H) × Mode H)
  | .between => some (startToken c)
  | .scalar cs =>
      if isBlank c ∨ isPunct c ∨ c = '"' then
        some (.scalar cs :: (startToken c).1, (startToken c).2)
      else some ([], .scalar (cs ++ [c]))
  | .string s =>
      if c = '"' then some ([.string s], .between)
      else if c = '\\' then some ([], .escape s)
      else if c.toNat < 0x20 then none
      else some ([], .string (s ++ content [c]))
  | .escape s =>
      if c = 'u' then some ([], .unicode s 0 0)
      else (escaped c).map fun u => ([], .string (s ++ [.inl u]))
  | .unicode s digits value =>
      (hexDigit c).map fun d =>
        if digits < 3 then ([], .unicode s (digits + 1) (value * 16 + d))
        else ([], .string (s ++ [.inl (value * 16 + d)]))

def step : Symbol H → Mode H → Option (List (Token H) × Mode H)
  | .char c, mode => stepChar c mode
  | .hole h, .string s => some ([], .string (s ++ [.inr h]))
  | .hole _, _ => none

/-- The token that the end of the text ends -/
def finish : Mode H → Option (List (Token H))
  | .between => some []
  | .scalar cs => some [.scalar cs]
  | _ => none

/-- The tokens of a text -/
def lexFrom : Mode H → List (Symbol H) → Option (List (Token H))
  | mode, [] => finish mode
  | mode, x :: xs =>
      match step x mode with
      | none => none
      | some r => (lexFrom r.2 xs).map (r.1 ++ ·)

/-! ## Values -/

inductive Json (H : Type) where
  | scalar (cs : List Char)
  | string (s : Content H)
  | array (xs : List (Json H))
  | object (fields : List (Content H × Json H))

/-- Digits, at least one, and what follows them -/
def dropDigits : List Char → Option (List Char)
  | c :: cs => if c.isDigit then some (cs.dropWhile Char.isDigit) else none
  | [] => none

/-- The text without a sign in front -/
def dropSign (signs : List Char) : List Char → List Char
  | c :: cs => if c ∈ signs then cs else c :: cs
  | [] => []

def isExponent : List Char → Bool
  | [] => true
  | e :: cs => (e = 'e' || e = 'E') && dropDigits (dropSign ['+', '-'] cs) = some []

def isFraction : List Char → Bool
  | '.' :: cs => (dropDigits cs).any isExponent
  | cs => isExponent cs

def isUnsigned : List Char → Bool
  | '0' :: cs => isFraction cs
  | cs => (dropDigits cs).any isFraction

/-- The numbers and constants, as they are written -/
def isScalar (cs : List Char) : Bool :=
  ["null", "true", "false", "NaN", "Infinity", "-Infinity"].contains (String.ofList cs) ||
    isUnsigned (dropSign ['-'] cs)

/-- The first token is this sign. -/
def headIs (c : Char) : List (Token H) → Bool
  | .punct d :: _ => d = c
  | _ => false

mutual

/-- A value, and what follows it; `fuel` bounds the steps. -/
def readValue : Nat → List (Token H) → Option (Json H × List (Token H))
  | 0, _ => none
  | _ + 1, [] => none
  | _ + 1, .scalar cs :: rest => if isScalar cs then some (.scalar cs, rest) else none
  | _ + 1, .string s :: rest => some (.string s, rest)
  | fuel + 1, .punct c :: rest =>
      if c = '[' then
        if headIs ']' rest then some (.array [], rest.tail)
        else (readElements fuel rest).map fun r => (.array r.1, r.2)
      else if c = '\x7b' then
        if headIs '\x7d' rest then some (.object [], rest.tail)
        else (readMembers fuel rest).map fun r => (.object r.1, r.2)
      else none

/-- The elements of an array, and what follows its bracket -/
def readElements : Nat → List (Token H) → Option (List (Json H) × List (Token H))
  | 0, _ => none
  | fuel + 1, tokens =>
      match readValue fuel tokens with
      | none => none
      | some (v, rest) =>
          if headIs ',' rest then (readElements fuel rest.tail).map fun r => (v :: r.1, r.2)
          else if headIs ']' rest then some ([v], rest.tail)
          else none

/-- The members of an object, and what follows its brace -/
def readMembers : Nat → List (Token H) → Option (List (Content H × Json H) × List (Token H))
  | fuel + 1, .string k :: rest =>
      if headIs ':' rest then
        match readValue fuel rest.tail with
        | none => none
        | some (v, rest) =>
            if headIs ',' rest then
              (readMembers fuel rest.tail).map fun r => ((k, v) :: r.1, r.2)
            else if headIs '\x7d' rest then some ([(k, v)], rest.tail)
            else none
      else none
  | _, _ => none

end

/-- The value of all tokens -/
def readTokens (tokens : List (Token H)) : Option (Json H) :=
  match readValue (2 * tokens.length + 1) tokens with
  | some (v, []) => some v
  | _ => none

def read (text : List (Symbol H)) : Option (Json H) := (lexFrom .between text).bind readTokens

/-! ## The fuel -/

theorem length_tail_lt {c : Char} {tokens : List (Token H)} (h : headIs c tokens = true) :
    tokens.tail.length < tokens.length := by
  cases tokens with
  | nil => cases h
  | cons t tokens => exact Nat.lt_succ_self _

theorem length_rest_lt (fuel : Nat) :
    (∀ (tokens : List (Token H)) r, readValue fuel tokens = some r →
      r.2.length < tokens.length) ∧
    (∀ (tokens : List (Token H)) r, readElements fuel tokens = some r →
      r.2.length < tokens.length) ∧
    (∀ (tokens : List (Token H)) r, readMembers fuel tokens = some r →
      r.2.length < tokens.length) := by
  induction fuel with
  | zero =>
      exact ⟨fun _ _ h => (by cases h), fun _ _ h => (by cases h), fun _ _ h => (by cases h)⟩
  | succ fuel ih =>
      obtain ⟨hvalue, helements, hmembers⟩ := ih
      refine ⟨fun tokens r h => ?_, fun tokens r h => ?_, fun tokens r h => ?_⟩
      · cases tokens with
        | nil => cases h
        | cons t tail =>
            rw [List.length_cons]
            cases t with
            | scalar cs =>
                obtain ⟨-, heq⟩ := Option.ite_none_right_eq_some.mp h
                cases heq
                exact Nat.lt_succ_self _
            | string s =>
                cases h
                exact Nat.lt_succ_self _
            | punct c =>
                rw [readValue] at h
                split at h
                · split at h
                  · next hclose =>
                      cases h
                      exact Nat.lt_succ_of_lt (length_tail_lt hclose)
                  · obtain ⟨r', hread, rfl⟩ := Option.map_eq_some_iff.mp h
                    exact Nat.lt_succ_of_lt (helements _ _ hread)
                · split at h
                  · split at h
                    · next hclose =>
                        cases h
                        exact Nat.lt_succ_of_lt (length_tail_lt hclose)
                    · obtain ⟨r', hread, rfl⟩ := Option.map_eq_some_iff.mp h
                      exact Nat.lt_succ_of_lt (hmembers _ _ hread)
                  · cases h
      · rw [readElements] at h
        split at h
        · cases h
        · next v mid hread =>
            have hmid : mid.length < tokens.length := hvalue _ _ hread
            split at h
            · next hcomma =>
                obtain ⟨r', hrest, rfl⟩ := Option.map_eq_some_iff.mp h
                exact Nat.lt_trans (helements _ r' hrest) (Nat.lt_trans (length_tail_lt hcomma) hmid)
            · split at h
              · next hclose =>
                  cases h
                  exact Nat.lt_trans (length_tail_lt hclose) hmid
              · cases h
      · cases tokens with
        | nil => cases h
        | cons t tail =>
            rw [List.length_cons]
            cases t with
            | scalar cs => cases h
            | punct c => cases h
            | string k =>
                rw [readMembers] at h
                split at h
                · next hcolon =>
                    split at h
                    · cases h
                    · next v mid hread =>
                        have hmid : mid.length < tail.length + 1 :=
                          Nat.lt_succ_of_lt (Nat.lt_trans (hvalue _ _ hread) (length_tail_lt hcolon))
                        split at h
                        · next hcomma =>
                            obtain ⟨r', hrest, rfl⟩ := Option.map_eq_some_iff.mp h
                            exact Nat.lt_trans (hmembers _ r' hrest)
                              (Nat.lt_trans (length_tail_lt hcomma) hmid)
                        · split at h
                          · next hclose =>
                              cases h
                              exact Nat.lt_trans (length_tail_lt hclose) hmid
                          · cases h
                · cases h

/-- With enough fuel more of it makes no difference. -/
theorem readValue_fuel (fuel fuel' : Nat) :
    (∀ tokens : List (Token H), 2 * tokens.length < fuel → 2 * tokens.length < fuel' →
      readValue fuel tokens = readValue fuel' tokens) ∧
    (∀ tokens : List (Token H), 2 * tokens.length + 1 < fuel → 2 * tokens.length + 1 < fuel' →
      readElements fuel tokens = readElements fuel' tokens) ∧
    (∀ tokens : List (Token H), 2 * tokens.length + 1 < fuel → 2 * tokens.length + 1 < fuel' →
      readMembers fuel tokens = readMembers fuel' tokens) := by
  induction fuel generalizing fuel' with
  | zero =>
      exact ⟨fun _ h _ => absurd h (Nat.not_lt_zero _), fun _ h _ => absurd h (Nat.not_lt_zero _),
        fun _ h _ => absurd h (Nat.not_lt_zero _)⟩
  | succ fuel ih =>
      cases fuel' with
      | zero =>
          exact ⟨fun _ _ h => absurd h (Nat.not_lt_zero _),
            fun _ _ h => absurd h (Nat.not_lt_zero _), fun _ _ h => absurd h (Nat.not_lt_zero _)⟩
      | succ fuel' =>
          obtain ⟨hvalue, helements, hmembers⟩ := ih fuel'
          refine ⟨fun tokens h h' => ?_, fun tokens h h' => ?_, fun tokens h h' => ?_⟩
          · cases tokens with
            | nil => rfl
            | cons t tail =>
                rw [List.length_cons] at h h'
                cases t with
                | scalar cs => rfl
                | string s => rfl
                | punct c =>
                    rw [readValue, readValue, helements tail (by omega) (by omega),
                      hmembers tail (by omega) (by omega)]
          · rw [readElements, readElements, hvalue tokens (by omega) (by omega)]
            cases hread : readValue fuel' tokens with
            | none => rfl
            | some r =>
                have hlt := (length_rest_lt fuel').1 _ _ hread
                simp only
                split
                · next hcomma =>
                    have htail := length_tail_lt hcomma
                    rw [helements r.2.tail (by omega) (by omega)]
                · rfl
          · cases tokens with
            | nil => rfl
            | cons t tail =>
                rw [List.length_cons] at h h'
                cases t with
                | scalar cs => rfl
                | punct c => rfl
                | string k =>
                    rw [readMembers, readMembers]
                    split
                    · next hcolon =>
                        have htail := length_tail_lt hcolon
                        rw [hvalue tail.tail (by omega) (by omega)]
                        cases hread : readValue fuel' tail.tail with
                        | none => rfl
                        | some r =>
                            have hlt := (length_rest_lt fuel').1 _ _ hread
                            simp only
                            split
                            · next hcomma =>
                                have hrest := length_tail_lt hcomma
                                rw [hmembers r.2.tail (by omega) (by omega)]
                            · rfl
                    · rfl

/-- The tokens are read with all the fuel that they may need. -/
theorem readTokens_fuel {tokens : List (Token H)} {fuel : Nat} (h : 2 * tokens.length < fuel) :
    readTokens tokens =
      match readValue fuel tokens with
      | some (v, []) => some v
      | _ => none := by
  rw [readTokens, (readValue_fuel _ fuel).1 tokens (Nat.lt_succ_self _) h]

/-! ## Dicts -/

section

variable [DecidableEq H]

mutual

/-- The value with its objects as dicts: of members with one key the last one is left. -/
def Json.collapse : Json H → Json H
  | .scalar cs => .scalar cs
  | .string s => .string s
  | .array xs => .array (collapseList xs)
  | .object fields => .object (KeyedLists.dictBy Prod.fst (collapseFields fields))

def collapseList : List (Json H) → List (Json H)
  | [] => []
  | x :: xs => x.collapse :: collapseList xs

def collapseFields : List (Content H × Json H) → List (Content H × Json H)
  | [] => []
  | f :: fields => collapseField f :: collapseFields fields

def collapseField : Content H × Json H → Content H × Json H
  | (k, v) => (k, v.collapse)

end

end

theorem collapseList_eq [DecidableEq H] (xs : List (Json H)) :
    collapseList xs = xs.map Json.collapse := by
  induction xs with
  | nil => rfl
  | cons x xs ih => rw [collapseList, ih, List.map_cons]

theorem collapseFields_eq [DecidableEq H] (fields : List (Content H × Json H)) :
    collapseFields fields = fields.map fun f => (f.1, f.2.collapse) := by
  induction fields with
  | nil => rfl
  | cons f fields ih =>
      obtain ⟨k, v⟩ := f
      rw [collapseFields, collapseField, ih, List.map_cons]

/-! ## Changing the strings -/

mutual

/-- The value with other keys and strings -/
def Json.map (key string : Content H → Content G) : Json H → Json G
  | .scalar cs => .scalar cs
  | .string s => .string (string s)
  | .array xs => .array (mapList key string xs)
  | .object fields => .object (mapFields key string fields)

def mapList (key string : Content H → Content G) : List (Json H) → List (Json G)
  | [] => []
  | x :: xs => x.map key string :: mapList key string xs

def mapFields (key string : Content H → Content G) :
    List (Content H × Json H) → List (Content G × Json G)
  | [] => []
  | f :: fields => mapField key string f :: mapFields key string fields

def mapField (key string : Content H → Content G) : Content H × Json H → Content G × Json G
  | (k, v) => (key k, v.map key string)

end

section

variable {key string : Content H → Content G}

theorem mapList_eq (xs : List (Json H)) :
    mapList key string xs = xs.map (Json.map key string) := by
  induction xs with
  | nil => rfl
  | cons x xs ih => rw [mapList, ih, List.map_cons]

theorem mapFields_eq (fields : List (Content H × Json H)) :
    mapFields key string fields = fields.map fun f => (key f.1, f.2.map key string) := by
  induction fields with
  | nil => rfl
  | cons f fields ih =>
      obtain ⟨k, v⟩ := f
      rw [mapFields, mapField, ih, List.map_cons]

end

def Token.map (φ : Content H → Content G) : Token H → Token G
  | .punct c => .punct c
  | .scalar cs => .scalar cs
  | .string s => .string (φ s)

/-! ## Reading other strings -/

section

variable (φ : Content H → Content G)

@[simp] theorem headIs_map (c : Char) (tokens : List (Token H)) :
    headIs c (tokens.map (Token.map φ)) = headIs c tokens := by
  cases tokens with
  | nil => rfl
  | cons t tokens =>
      cases t with
      | punct d => rfl
      | scalar cs => rfl
      | string s => rfl

/-- How the tokens are read does not depend on their strings. -/
theorem readValue_map (fuel : Nat) :
    (∀ tokens, readValue fuel (tokens.map (Token.map φ)) =
      (readValue fuel tokens).map fun r => (r.1.map φ φ, r.2.map (Token.map φ))) ∧
    (∀ tokens, readElements fuel (tokens.map (Token.map φ)) =
      (readElements fuel tokens).map fun r => (mapList φ φ r.1, r.2.map (Token.map φ))) ∧
    (∀ tokens, readMembers fuel (tokens.map (Token.map φ)) =
      (readMembers fuel tokens).map fun r => (mapFields φ φ r.1, r.2.map (Token.map φ))) := by
  induction fuel with
  | zero => exact ⟨fun _ => rfl, fun _ => rfl, fun _ => rfl⟩
  | succ fuel ih =>
      obtain ⟨hvalue, helements, hmembers⟩ := ih
      refine ⟨fun tokens => ?_, fun tokens => ?_, fun tokens => ?_⟩
      · cases tokens with
        | nil => rfl
        | cons t rest =>
            cases t with
            | scalar cs =>
                simp only [List.map_cons, Token.map, readValue]
                split
                · rfl
                · rfl
            | string s => rfl
            | punct c =>
                simp only [List.map_cons, Token.map, readValue, headIs_map, helements, hmembers]
                split
                · split
                  · simp [Json.map, mapList]
                  · simp [Option.map_map, Function.comp_def, Json.map]
                · split
                  · split
                    · simp [Json.map, mapFields]
                    · simp [Option.map_map, Function.comp_def, Json.map]
                  · rfl
      · rw [readElements, readElements, hvalue]
        cases readValue fuel tokens with
        | none => rfl
        | some r =>
            simp only [Option.map_some, headIs_map, ← List.map_tail, helements]
            split
            · simp [Option.map_map, Function.comp_def, mapList]
            · split
              · rfl
              · rfl
      · cases tokens with
        | nil => rfl
        | cons t rest =>
            cases t with
            | scalar cs => rfl
            | punct c => rfl
            | string k =>
                simp only [List.map_cons, Token.map, readMembers, headIs_map, ← List.map_tail,
                  hvalue]
                split
                · cases readValue fuel rest.tail with
                  | none => rfl
                  | some r =>
                      simp only [Option.map_some, headIs_map, ← List.map_tail, hmembers]
                      split
                      · simp [Option.map_map, Function.comp_def, mapFields, mapField]
                      · split
                        · rfl
                        · rfl
                · rfl

theorem readTokens_map (tokens : List (Token H)) :
    readTokens (tokens.map (Token.map φ)) = (readTokens tokens).map (Json.map φ φ) := by
  rw [readTokens, readTokens, List.length_map, (readValue_map φ _).1]
  cases readValue (2 * tokens.length + 1) tokens with
  | none => rfl
  | some r =>
      obtain ⟨v, rest⟩ := r
      cases rest with
      | nil => rfl
      | cons t rest => rfl

end

end JsonText
