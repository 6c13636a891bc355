-- SUMMARY: The read-only guards of the agent's tools: what they make of a method, a statement and a tool's name.
import CitraFlows.Python

/-!
# The read-only guards

An agent may call tools that read. `_assert_tool_is_read_only` looks at the method of an
`http_request` and at the name of a tool it does not know; the statement of a `sql_query` is
looked at by `_validate_readonly_sql`, inside the tool.
-/

namespace CitraFlows

namespace Agent

open Python

/-- `DESTRUCTIVE_SQL_KW` -/
def destructiveSqlKw : List String :=
  ["DROP", "DELETE", "TRUNCATE", "ALTER", "UPDATE", "INSERT", "CREATE", "GRANT", "REVOKE", "EXEC",
    "EXECUTE", "MERGE"]

/-- What the interpreter brings to the guards: `str.upper` and `\w` of a character, by the Unicode
tables, and the order in which it goes through the set of keywords. -/
structure Interpreter where
  upper : Char → List Char
  isWord : Char → Bool
  keywords : List String
  upper_ascii : ∀ c : Char, c.toNat < 128 → upper c = [c.toUpper]
  isWord_ascii : ∀ c : Char, c.toNat < 128 → isWord c = (c.isAlphanum || c == '_')
  keywords_perm : keywords.Perm destructiveSqlKw

/-- The tables cut down to ASCII. -/
def Interpreter.ascii : Interpreter where
  upper c := [c.toUpper]
  isWord c := c.isAlphanum || c == '_'
  keywords := destructiveSqlKw
  upper_ascii _ _ := rfl
  isWord_ascii _ _ := rfl
  keywords_perm := List.Perm.refl _

/-! ## SQL statements -/

/-- What follows the first `*/`. -/
def afterBlock : List Char → Option (List Char)
  | [] => none
  | '*' :: '/' :: cs => some cs
  | _ :: cs => afterBlock cs

/-- `re.sub(r'/\*.*?\*/', ' ', text, flags=re.DOTALL)`; `fuel` bounds the characters still to be
read. -/
def stripBlockComments : Nat → List Char → List Char
  | 0, cs => cs
  | _ + 1, [] => []
  | fuel + 1, '/' :: '*' :: cs =>
      match afterBlock cs with
      | some rest => ' ' :: stripBlockComments fuel rest
      | none => '/' :: stripBlockComments fuel ('*' :: cs)
  | fuel + 1, c :: cs => c :: stripBlockComments fuel cs

/-- `re.sub(r'--[^\n]*', ' ', text)` -/
def stripLineComments : Nat → List Char → List Char
  | 0, cs => cs
  | _ + 1, [] => []
  | fuel + 1, '-' :: '-' :: cs => ' ' :: stripLineComments fuel (cs.dropWhile (· ≠ '\n'))
  | fuel + 1, c :: cs => c :: stripLineComments fuel cs

/-- The text without comments. -/
def noComments (cs : List Char) : List Char :=
  let blocks := stripBlockComments cs.length cs
  stripLineComments blocks.length blocks

/-- `text.split()[0]`, or the empty text -/
def firstWord (cs : List Char) : List Char :=
  (cs.dropWhile isspace).takeWhile fun c => !isspace c

/-- `re.search(rf'\b{kw}\b', text)` for a keyword of word characters, after a character that is
one or not. -/
def hasWord (isWord : Char → Bool) (kw : List Char) : Bool → List Char → Bool
  | _, [] => false
  | afterWord, c :: cs =>
      (!afterWord && kw.isPrefixOf (c :: cs) && !((c :: cs).drop kw.length).head?.any isWord) ||
        hasWord isWord kw (isWord c) cs

/-- `_validate_readonly_sql` -/
def validateReadonlySql (it : Interpreter) (sql : String) : Except PyError Unit :=
  let noComments := noComments (strip sql.toList)
  let upper := (strip noComments).flatMap it.upper
  if firstWord upper ≠ "SELECT".toList ∧ firstWord upper ≠ "WITH".toList then
    .error (.valueError "Only SELECT queries are allowed")
  else if ';' ∈ noComments then
    .error (.valueError "Semicolons are not allowed — only single SELECT statements")
  else
    match it.keywords.find? fun kw => hasWord it.isWord kw.toList false upper with
    | some kw => .error (.valueError ("Destructive SQL keyword '" ++ kw ++ "' is not allowed"))
    | none => .ok ()

example : (validateReadonlySql .ascii " select a -- drop\n from t").toBool = true := by
  decide +kernel

example : (validateReadonlySql .ascii "WITH x AS (/* */ DELETE FROM t) SELECT 1").toBool = false :=
  by decide +kernel

/-! ## Write attempts -/

structure WriteBlockedError where
  fnName : String
  reason : String
  /-- `fn_args or {}` -/
  fnArgs : Value

/-- `str(exc)` -/
def WriteBlockedError.message (e : WriteBlockedError) : String :=
  "Write attempt blocked for tool '" ++ e.fnName ++ "': " ++ e.reason

/-- `WriteBlockedError(fn_name, reason, fn_args)` -/
def writeBlockedError (fnName reason : String) (fnArgs : Value) : WriteBlockedError where
  fnName := fnName
  reason := reason
  fnArgs := if fnArgs.truthy then fnArgs else .dict []

/-- `sorted(_HTTP_READ_METHODS)` -/
def httpReadMethods : List String := ["GET", "HEAD", "OPTIONS"]

/-- `_READ_ONLY_BUILTIN_TOOLS` -/
def readOnlyBuiltinTools : List String :=
  ["web_search", "sql_query", "nosql_query", "bucket_read", "sftp_read"]

/-- `_WRITE_VERBS` -/
def writeVerbs : List String :=
  ["create", "insert", "update", "upsert", "delete", "remove", "drop", "truncate", "write", "save",
    "modify", "put", "post", "patch", "execute", "exec", "rpc", "provision", "deploy", "revoke",
    "grant", "assign", "approve", "reject", "cancel", "submit", "trigger", "run_action",
    "execute_action"]

/-- The letter that `re.IGNORECASE` takes the character for. -/
def ignoreCase (c : Char) : Char :=
  match c.toNat with
  | 0x130 | 0x131 => 'i'
  | 0x17f => 's'
  | 0x212a => 'k'
  | _ => c.toLower

/-- `[_\-\s]` -/
def isSeparator (c : Char) : Bool := c = '_' || c = '-' || isspace c

/-- A verb stands at the start of the text, and the end or a separator after it. -/
def startsWithVerb (cs : List Char) : Bool :=
  writeVerbs.any fun verb =>
    verb.toList.isPrefixOf (cs.map ignoreCase) && (cs.drop verb.length).head?.all isSeparator

/-- `_WRITE_VERB_RE.search(text)`, from a position where a verb may start or not. -/
def hasWriteVerb : Bool → List Char → Bool
  | _, [] => false
  | start, c :: cs => start && startsWithVerb (c :: cs) || hasWriteVerb (isSeparator c) cs

example : hasWriteVerb true "dept_Create_ticket".toList = true := by decide +kernel

example : hasWriteVerb true "dept_customer_updates".toList = false := by decide +kernel

/-- What `_assert_tool_is_read_only` raises. -/
inductive GuardError where
  | writeBlocked (err : WriteBlockedError)
  | error (exc : PyError)

/-- The guard of `http_request` -/
def assertReadMethod (it : Interpreter) (fnArgs : Value) : Except GuardError Unit :=
  match fnArgs with
  | .dict fields =>
      let method := (strip ((Value.field fields "method").getD (.str "GET")).text.toList).flatMap
        it.upper
      if httpReadMethods.all fun m => m.toList ≠ method then
        .error (.writeBlocked (writeBlockedError "http_request"
          ("HTTP method '" ++ String.ofList method ++ "' can mutate the target system; only " ++
            Value.repr (.list (httpReadMethods.map .str)) ++
            " are permitted on a read-only agent node.") fnArgs))
      else .ok ()
  | v => .error (.error (.attributeError v.typeName "get"))

/-- `_assert_tool_is_read_only` -/
def assertToolIsReadOnly (it : Interpreter) (fnName : String) (fnArgs : Value) :
    Except GuardError Unit :=
  if fnName = "http_request" then assertReadMethod it fnArgs
  else if fnName ∈ readOnlyBuiltinTools ∨ fnName = "code_execute" then .ok ()
  else if hasWriteVerb true fnName.toList then
    .error (.writeBlocked (writeBlockedError fnName
      "tool name matches a write-action pattern." fnArgs))
  else .ok ()

/-! ## What the guards say -/

/-- Which of the keywords is looked for first makes no difference. -/
theorem Interpreter.find_keyword (it : Interpreter) (upper : List Char) :
    (it.keywords.find? fun kw => hasWord it.isWord kw.toList false upper) = none ↔
      ∀ kw ∈ destructiveSqlKw, hasWord it.isWord kw.toList false upper = false := by
  simp only [List.find?_eq_none, it.keywords_perm.mem_iff, Bool.not_eq_true]

/-- A statement passes only if it starts as a query, is a single statement, and has none of the
keywords, whatever the order of the set. -/
theorem validateReadonlySql_ok {it : Interpreter} {sql : String} :
    validateReadonlySql it sql = .ok () ↔
      let text := noComments (strip sql.toList)
      let upper := (strip text).flatMap it.upper
      (firstWord upper = "SELECT".toList ∨ firstWord upper = "WITH".toList) ∧ ';' ∉ text ∧
        ∀ kw ∈ destructiveSqlKw, hasWord it.isWord kw.toList false upper = false := by
  simp only [validateReadonlySql]
  split
  next hfirst =>
    constructor
    · intro h
      cases h
    · rintro ⟨hfirst', -, -⟩
      exact absurd hfirst' (not_or.mpr hfirst)
  next hfirst =>
    have hfirst := (not_and_or.mp hfirst).imp not_not.mp not_not.mp
    split
    next hsemi =>
      constructor
      · intro h
        cases h
      · rintro ⟨-, hsemi', -⟩
        exact absurd hsemi hsemi'
    next hsemi =>
      rw [← it.find_keyword]
      split
      next kw hfind =>
        constructor
        · intro h
          cases h
        · rintro ⟨-, -, hnone⟩
          rw [hfind] at hnone
          cases hnone
      next hfind => exact ⟨fun _ => ⟨hfirst, hsemi, hfind⟩, fun _ => rfl⟩

/-- The guard names the tool it refuses. -/
theorem assertToolIsReadOnly_fnName {it : Interpreter} {fnName : String} {fnArgs : Value}
    {err : WriteBlockedError}
    (h : assertToolIsReadOnly it fnName fnArgs = .error (.writeBlocked err)) :
    err.fnName = fnName := by
  unfold assertToolIsReadOnly at h
  split at h
  next hhttp =>
    unfold assertReadMethod at h
    split at h
    next =>
      simp only at h
      split at h
      · cases h
        exact hhttp.symm
      · cases h
    next => cases h
  next =>
    split at h
    · cases h
    · split at h
      · cases h
        rfl
      · cases h

/-- The tools that guard themselves pass. -/
theorem assertToolIsReadOnly_builtin (it : Interpreter) {fnName : String} (fnArgs : Value)
    (h : fnName ∈ readOnlyBuiltinTools) : assertToolIsReadOnly it fnName fnArgs = .ok () := by
  have hne : fnName ≠ "http_request" := by
    rintro rfl
    exact absurd h (by decide)
  rw [assertToolIsReadOnly, if_neg hne, if_pos (.inl h)]

end Agent

end CitraFlows
