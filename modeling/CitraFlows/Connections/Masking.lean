-- SUMMARY: Masked connections: what a response shows of a connection, and what an update makes of the masks that come back.
import CitraFlows.Connections.Crypto
import CitraFlows.Workflows.Model

/-!
# Masked secrets

A response shows a mask in place of each stored secret and header value. A client sends the
connection back with some of them replaced, and the update takes a mask or a blank for what is
stored.
-/

namespace CitraFlows

/-! ## Masks -/

def secretMask : String := "••••••••"

/-- `"•" in val` -/
def hasGlyph (text : String) : Bool := '•' ∈ text.toList

/-- `not val.strip()` -/
def isBlank (text : String) : Bool := Python.strip text.toList = []

/-- `_looks_masked_or_blank` -/
def looksMaskedOrBlank : Value → Bool
  | .str text => isBlank text || hasGlyph text
  | v => !v.truthy

/-- The secret fields of which a response shows the first characters. -/
def peekFields : List String := ["connection_string", "url"]

/-- `val[:n] + mask if len(val) > n else mask` -/
def maskPeek (n : Int) : Value → Except PyError Value
  | .str text =>
      let stop := if 0 ≤ n then n else text.length + n
      .ok (.str (if n < text.length then String.ofList (text.toList.take stop.toNat) ++ secretMask
        else secretMask))
  | .list xs =>
      if n < xs.length then .error (.typeError "can only concatenate list (not \"str\") to list")
      else .ok (.str secretMask)
  | .dict d =>
      if n < d.length then .error (.typeError "unhashable type: 'slice'")
      else .ok (.str secretMask)
  | v => .error (.typeError ("object of type '" ++ v.typeName ++ "' has no len()"))

/-- One secret field of `_mask_connection`; `n` is `SECRET_MASK_LENGTH`. -/
def maskSecret (n : Int) (env : Entries) (field : String) : Except PyError Entries :=
  if (Value.getD env field).truthy then
    if field ∈ peekFields then (maskPeek n (Value.getD env field)).map fun v => env.put field v
    else .ok (env.put field (.str secretMask))
  else .ok env

/-- The header map of an environment, which is a dict. -/
def headersOf (env : Entries) : Entries :=
  match Value.getD env "headers" with
  | .dict headers => headers
  | _ => []

def maskHeaders (env : Entries) : Entries :=
  if (Value.getD env "headers").truthy then
    env.put "headers" (.dict ((headersOf env).map fun p => (p.1, .str secretMask)))
  else env

/-- `_mask_connection` for one environment. -/
def maskEnv (n : Int) (env : Entries) : Except PyError Entries :=
  ((peekFields ++ secretFields.filter (· ∉ peekFields)).foldlM (maskSecret n) env).map maskHeaders

/-! ## Merging -/

/-- One secret field of `_merge_env_preserving_secrets`. -/
def mergeSecret (plain merged : Entries) (field : String) : Entries :=
  if looksMaskedOrBlank (Value.getD merged field) then
    let prev := Value.getD plain field
    if prev.truthy then merged.put field prev else merged.pop field
  else merged

def mergeHeaders (plain merged : Entries) : Entries :=
  let hdrs := Value.getD merged "headers"
  let unchanged := !hdrs.truthy ||
    match hdrs with
    | .dict headers => headers.all fun p => looksMaskedOrBlank p.2
    | _ => false
  let prev := Value.getD plain "headers"
  if unchanged && prev.truthy then merged.put "headers" prev else merged

/-- `_merge_env_preserving_secrets` -/
def mergeEnvPreservingSecrets (f : Fernet) (incoming existing : Entries) :
    Except PyError Entries := do
  let plain ← if existing = [] then .ok [] else decryptEnvConfig f existing
  return mergeHeaders plain (secretFields.foldl (mergeSecret plain) incoming)

/-! ## Requests -/

/-- A Python value that may be `None`. -/
def Value.ofOption : Option String → Value
  | Option.none => .none
  | some text => .str text

/-- A `Dict[str, str]`. -/
abbrev Headers := AList (fun _ : String => String)

def Headers.entries (headers : Headers) : Entries :=
  AList.entries headers |>.map fun s => (s.1, .str s.2)

structure EnvironmentConfig where
  connectionString : Option String := none
  url : Option String := none
  headers : Headers := ∅
  database : Option String := none
  host : Option String := none
  port : Option String := none
  username : Option String := none
  password : Option String := none
  privateKey : Option String := none
  protocol : Option String := none
  bucket : Option String := none
  region : Option String := none
  accessKeyId : Option String := none
  secretAccessKey : Option String := none
  endpointUrl : Option String := none
  fromAddress : Option String := none
  smtpPort : Option String := none
  extra : Entries := []

namespace EnvironmentConfig

/-- `model_dump` -/
def modelDump (c : EnvironmentConfig) : Entries :=
  [("connection_string", .ofOption c.connectionString), ("url", .ofOption c.url),
    ("headers", .dict c.headers.entries), ("database", .ofOption c.database),
    ("host", .ofOption c.host), ("port", .ofOption c.port), ("username", .ofOption c.username),
    ("password", .ofOption c.password), ("private_key", .ofOption c.privateKey),
    ("protocol", .ofOption c.protocol), ("bucket", .ofOption c.bucket),
    ("region", .ofOption c.region), ("access_key_id", .ofOption c.accessKeyId),
    ("secret_access_key", .ofOption c.secretAccessKey), ("endpoint_url", .ofOption c.endpointUrl),
    ("from_address", .ofOption c.fromAddress), ("smtp_port", .ofOption c.smtpPort),
    ("extra", .dict c.extra)]

/-- `is_configured` -/
def isConfigured (c : EnvironmentConfig) : Bool :=
  [c.connectionString, c.url, c.host, c.bucket].any fun v => (Value.ofOption v).truthy

end EnvironmentConfig

structure CreateConnectionRequest where
  name : String
  type : String
  description : String := ""
  config : RunEnvironment → EnvironmentConfig

structure UpdateConnectionRequest where
  name : Option String := none
  description : Option String := none
  config : RunEnvironment → Option EnvironmentConfig

/-- A document of `WorkflowConnections`. -/
structure ConnectionDoc where
  connectionId : String
  orgId : String
  name : String
  type : String
  description : String
  config : RunEnvironment → Entries

/-- The answer to a request that fails: an `HTTPException`, or what the code raises. -/
inductive ApiError where
  | http (statusCode : Nat) (detail : String)
  | raised (e : PyError)

def raised {α : Type} : Except PyError α → Except ApiError α
  | .ok a => .ok a
  | .error e => .error (.raised e)

/-- Test first, then production. -/
def bothEnvironments {ε α : Type} (g : RunEnvironment → Except ε α) :
    Except ε (RunEnvironment → α) := do
  let test ← g .test
  let prod ← g .prod
  return fun
    | .test => test
    | .prod => prod

/-- `_mask_connection` -/
def maskConnection (n : Int) (doc : ConnectionDoc) : Except PyError ConnectionDoc :=
  (bothEnvironments fun env => maskEnv n (doc.config env)).map fun config => { doc with config }

namespace ConnectionApi

def matching (orgId connectionId : String) (doc : ConnectionDoc) : Bool :=
  doc.connectionId = connectionId && doc.orgId = orgId

/-- `update_one`: the first document that matches. -/
def updateOne (p : ConnectionDoc → Bool) (g : ConnectionDoc → ConnectionDoc) :
    List ConnectionDoc → List ConnectionDoc
  | [] => []
  | doc :: docs => if p doc then g doc :: docs else doc :: updateOne p g docs

variable (f : Fernet)

/-- `create_connection` under the drawn `connection_id`. -/
def createConnection (salt : RunEnvironment → String → f.Salt) (orgId connectionId : String)
    (body : CreateConnectionRequest) (docs : List ConnectionDoc) :
    Except ApiError (List ConnectionDoc) := do
  if !(body.config .test).isConfigured && !(body.config .prod).isConfigured then
    throw (.http 422 "Please configure at least one environment: Test or Production.")
  let config ← raised (bothEnvironments fun env =>
    encryptEnvConfig f (salt env) false (body.config env).modelDump)
  let _ ← raised (bothEnvironments fun env => assertEncryptedEnvelope (config env))
  return docs ++ [{ connectionId
                    orgId := String.ofList (Python.strip orgId.toList)
                    name := body.name, type := body.type, description := body.description
                    config }]

/-- `get_connection` -/
def getConnection (n : Int) (orgId connectionId : String) (docs : List ConnectionDoc) :
    Except ApiError ConnectionDoc :=
  match docs.find? (matching orgId connectionId) with
  | none => .error (.http 404 "Connection not found")
  | some doc => raised (maskConnection n doc)

/-- What an update stores for an environment. -/
def updateEnv (salt : String → f.Salt) (incoming existing : Entries) : Except PyError Entries := do
  let merged ← mergeEnvPreservingSecrets f incoming existing
  let updated ← encryptEnvConfig f salt false merged
  assertEncryptedEnvelope updated
  return updated

/-- `update_connection` -/
def updateConnection (salt : RunEnvironment → String → f.Salt) (orgId connectionId : String)
    (body : UpdateConnectionRequest) (docs : List ConnectionDoc) :
    Except ApiError (List ConnectionDoc) :=
  match docs.find? (matching orgId connectionId) with
  | none => .error (.http 404 "Connection not found")
  | some doc =>
      (raised (bothEnvironments fun env =>
        match body.config env with
        | none => .ok (doc.config env)
        | some incoming => updateEnv f (salt env) incoming.modelDump (doc.config env))).map
      fun config =>
        docs |> updateOne (matching orgId connectionId) fun doc =>
          { doc with
            name := body.name.getD doc.name
            description := body.description.getD doc.description
            config }

end ConnectionApi

/-! ## Edits -/

/-- New values for secret fields and for headers. What it leaves out is sent back as it was
shown. -/
structure Edit where
  secrets : String → Option String
  headers : String → Option String
  secrets_clean : ∀ {key text}, secrets key = some text → hasGlyph text = false
  headers_clean : ∀ {key text}, headers key = some text → hasGlyph text = false

def Edit.unchanged : Edit where
  secrets _ := none
  headers _ := none
  secrets_clean := by simp
  headers_clean := by simp

/-- A request body that sends the masked config back with the edit made. -/
structure Edit.Made (edit : Edit) (masked : Entries) (body : EnvironmentConfig) : Prop where
  secrets : ∀ key ∈ secretFields, Value.getD body.modelDump key =
    match edit.secrets key with
    | some text => .str text
    | none => Value.getD masked key
  headers : ∀ key, Value.field body.headers.entries key =
    match edit.headers key with
    | some text => some (.str text)
    | none => Value.field (headersOf masked) key

/-- The text of a secret field, empty if there is none. -/
def secretOf (d : Entries) (key : String) : Value := d.getOr key (.str "")

/-- What an edit is to leave of a config: `d` is what is stored, decrypted. -/
structure Edit.Kept (edit : Edit) (c : EnvironmentConfig) (d : Entries) : Prop where
  kept : ∀ key ∈ secretFields, edit.secrets key = none →
    secretOf d key = secretOf c.modelDump key
  replaced : ∀ key ∈ secretFields, ∀ text, edit.secrets key = some text →
    secretOf d key = .str text
  headerKept : ∀ key, edit.headers key = none →
    Value.field (headersOf d) key = Value.field c.headers.entries key
  headerReplaced : ∀ key text, edit.headers key = some text →
    Value.field (headersOf d) key = some (.str text)
  noMask : ∀ key ∈ secretFields, ∀ text, Value.field d key = some (.str text) →
    hasGlyph text = false
  noHeaderMask : ∀ key text, Value.field (headersOf d) key = some (.str text) →
    hasGlyph text = false

/-- The edits that the update carries out. -/
structure Edit.Safe (edit : Edit) (c : EnvironmentConfig) : Prop where
  kept : ∀ key ∈ secretFields, edit.secrets key = none → ∀ text,
    Value.field c.modelDump key = some (.str text) → hasGlyph text = false
  replaced : ∀ key ∈ secretFields, ∀ text, edit.secrets key = some text → isBlank text = true →
    secretOf c.modelDump key = .str text
  /-- No header value of the request is a new one. -/
  headersBlank : c.headers ≠ ∅ →
    (∀ key text, edit.headers key = some text → isBlank text = true) →
    (∀ key text, edit.headers key = some text → c.headers.lookup key = some text) ∧
    ∀ key text, c.headers.lookup key = some text → hasGlyph text = false
  /-- Some header value is a new one. -/
  headersAll : (∃ key text, edit.headers key = some text ∧ isBlank text = false) →
    ∀ key ∈ c.headers, (edit.headers key).isSome

/-! ## The masked form -/

theorem hasGlyph_secretMask : hasGlyph secretMask = true := by decide +kernel

theorem hasGlyph_append (a b : String) (h : hasGlyph b = true) : hasGlyph (a ++ b) = true := by
  simp only [hasGlyph, decide_eq_true_eq, String.toList_append, List.mem_append] at h ⊢
  exact .inr h

theorem looksMaskedOrBlank_mask : looksMaskedOrBlank (.str secretMask) = true := by
  rw [looksMaskedOrBlank, hasGlyph_secretMask, Bool.or_true]

theorem looksMaskedOrBlank_clean {text : String} (h : hasGlyph text = false) :
    looksMaskedOrBlank (.str text) = isBlank text := by
  rw [looksMaskedOrBlank, h, Bool.or_false]

/-- What is false as a truth value counts as blank. -/
theorem looksMaskedOrBlank_of_not_truthy {v : Value} (h : v.truthy = false) :
    looksMaskedOrBlank v = true := by
  cases v with
  | str text =>
      have hempty : text = "" := by simpa [Value.truthy] using h
      subst hempty
      decide +kernel
  | _ => simpa [looksMaskedOrBlank] using h

theorem maskPeek_spec (n : Int) {v : Value} (h : v = .none ∨ ∃ text, v = .str text)
    (htruthy : v.truthy = true) :
    ∃ text, maskPeek n v = .ok (.str text) ∧ hasGlyph text = true := by
  rcases h with rfl | ⟨text, rfl⟩
  · cases htruthy
  · refine ⟨_, rfl, ?_⟩
    split
    · exact hasGlyph_append _ _ hasGlyph_secretMask
    · exact hasGlyph_secretMask

/-- How a secret field is shown: masked, or as it is if it holds nothing. -/
def ShownSecret (key : String) (stored shown : Value) : Prop :=
  if stored.truthy then
    ∃ text, shown = .str text ∧ hasGlyph text = true ∧ (key ∉ peekFields → text = secretMask)
  else shown = stored

theorem ShownSecret.looks {key : String} {stored shown : Value}
    (h : ShownSecret key stored shown) : looksMaskedOrBlank shown = true := by
  unfold ShownSecret at h
  split at h
  next =>
    obtain ⟨text, rfl, hglyph, -⟩ := h
    rw [looksMaskedOrBlank, hglyph, Bool.or_true]
  next htruthy =>
    subst h
    exact looksMaskedOrBlank_of_not_truthy (Bool.eq_false_iff.mpr htruthy)

/-- What `maskSecret` leaves at a field. -/
def maskLeaf (n : Int) (key : String) (o : Option Value) : Except PyError (Option Value) :=
  o.elim (.ok none) fun v =>
    if v.truthy then
      if key ∈ peekFields then (maskPeek n v).map some else .ok (some (.str secretMask))
    else .ok (some v)

theorem maskLeaf_error {n : Int} {d : Entries} {key : String} {err : PyError}
    (herr : maskLeaf n key (Value.field d key) = .error err) :
    maskSecret n d key = .error err := by
  cases hfield : Value.field d key with
  | none => simp [maskLeaf, hfield] at herr
  | some v =>
      simp only [maskLeaf, hfield, Option.elim_some] at herr
      simp only [maskSecret, Value.getD, hfield, Option.getD_some]
      split at herr
      next htruthy =>
        rw [if_pos htruthy]
        split at herr
        next hpeek =>
          rw [if_pos hpeek]
          cases hmask : maskPeek n v <;> simp_all [Except.map]
        next => cases herr
      next => cases herr

theorem maskLeaf_ok {n : Int} {d : Entries} {key : String} {o : Option Value}
    (ho : maskLeaf n key (Value.field d key) = .ok o) :
    ∃ r, maskSecret n d key = .ok r ∧ Value.field r key = o ∧
      ∀ key', key' ≠ key → Value.field r key' = Value.field d key' := by
  cases hfield : Value.field d key with
  | none =>
      have hnone : o = none := by simpa [maskLeaf, hfield] using ho.symm
      exact ⟨d, by simp [maskSecret, Value.getD, hfield, Value.truthy], by rw [hfield, hnone],
        fun _ _ => rfl⟩
  | some v =>
      simp only [maskLeaf, hfield, Option.elim_some] at ho
      simp only [maskSecret, Value.getD, hfield, Option.getD_some]
      split at ho
      next htruthy =>
        rw [if_pos htruthy]
        split at ho
        next hpeek =>
          rw [if_pos hpeek]
          cases hmask : maskPeek n v with
          | error err => simp [hmask, Except.map] at ho
          | ok w =>
              have hw : o = some w := by simpa [hmask, Except.map] using ho.symm
              exact ⟨Entries.put key w d, rfl, by simp [hw],
                fun key' hkey => Entries.field_put_of_ne hkey⟩
        next hpeek =>
          rw [if_neg hpeek]
          exact ⟨Entries.put key (.str secretMask) d, rfl, by simpa using Except.ok.inj ho,
            fun key' hkey => Entries.field_put_of_ne hkey⟩
      next htruthy =>
        rw [if_neg htruthy]
        exact ⟨d, rfl, by rw [hfield]; exact Except.ok.inj ho, fun _ _ => rfl⟩

/-- A leaf is a text or nothing, and its mask carries the glyph. -/
theorem maskLeaf_shown (n : Int) {P : String → Prop} {e : Entries} (he : Leaves P e) {key : String}
    (hkey : key ∈ secretFields) :
    ∃ o, maskLeaf n key (Value.field e key) = .ok o ∧
      ShownSecret key (Value.getD e key) (o.getD .none) := by
  rw [Value.getD]
  cases hfield : Value.field e key with
  | none => exact ⟨none, rfl, rfl⟩
  | some v =>
      have hv : v = .none ∨ ∃ text, v = .str text :=
        (he.fields key hkey v hfield).imp_right fun h => h.imp fun _ => And.left
      cases htruthy : v.truthy with
      | false => exact ⟨some v, by simp [maskLeaf, htruthy], by simp [ShownSecret, htruthy]⟩
      | true =>
          by_cases hpeek : key ∈ peekFields
          · obtain ⟨text, hmask, hglyph⟩ := maskPeek_spec n hv htruthy
            refine ⟨some (.str text), by simp [maskLeaf, htruthy, hpeek, hmask, Except.map], ?_⟩
            simp [ShownSecret, htruthy, hpeek, hglyph]
          · refine ⟨some (.str secretMask), by simp [maskLeaf, htruthy, hpeek], ?_⟩
            simp [ShownSecret, htruthy, hasGlyph_secretMask]

theorem maskSecrets_ok (n : Int) {P : String → Prop} {e : Entries} (he : Leaves P e) :
    ∃ m, (peekFields ++ secretFields.filter (· ∉ peekFields)).foldlM (maskSecret n) e = .ok m ∧
      (∀ key ∈ secretFields, ShownSecret key (Value.getD e key) (Value.getD m key)) ∧
      Value.field m "headers" = Value.field e "headers" := by
  let fields := peekFields ++ secretFields.filter (· ∉ peekFields)
  have hfields : fields ⊆ secretFields := by decide
  have hall : secretFields ⊆ fields := by decide
  have hspec := @Entries.foldlM_spec _ (maskLeaf n) maskLeaf_error maskLeaf_ok fields (by decide) e
  rcases hspec with ⟨m, hm, hleaves⟩ | ⟨err, -, hfind⟩
  · refine ⟨m, hm, fun key hkey => ?_, ?_⟩
    · obtain ⟨o, ho, hshown⟩ := maskLeaf_shown n he hkey
      have hkept := hleaves key
      rw [if_pos (hall hkey), ho] at hkept
      have hvalue : Value.getD m key = o.getD .none := by
        rw [Value.getD, ← Except.ok.inj hkept]
      rw [hvalue]
      exact hshown
    · have hkept := hleaves "headers"
      rw [if_neg (by decide)] at hkept
      exact (Except.ok.inj hkept).symm
  · obtain ⟨key, hkey, herror⟩ := List.exists_of_findSome?_eq_some hfind
    obtain ⟨o, ho, -⟩ := maskLeaf_shown n he (hfields hkey)
    rw [ho] at herror
    cases herror

theorem Entries.field_map (g : String → Value → Value) (d : Entries) (key : String) :
    Value.field (d.map fun p => (p.1, g p.1 p.2)) key = (Value.field d key).map (g key) := by
  induction d with
  | nil => rfl
  | cons p d ih =>
      simp only [Value.field] at ih ⊢
      rw [List.map_cons, List.lookup_cons, List.lookup_cons, ih]
      split
      next heq => rw [← eq_of_beq heq, Option.map_some]
      next => rfl

/-- What a response shows of an environment. -/
theorem maskEnv_ok (n : Int) {P : String → Prop} {e : Entries} (he : Leaves P e) :
    ∃ m, maskEnv n e = .ok m ∧
      (∀ key ∈ secretFields, ShownSecret key (Value.getD e key) (Value.getD m key)) ∧
      ∀ key, Value.field (headersOf m) key =
        (Value.field (headersOf e) key).map fun _ => .str secretMask := by
  obtain ⟨m, hm, hsecrets, hheaders⟩ := maskSecrets_ok n he
  have hsame : Value.getD m "headers" = Value.getD e "headers" := by
    rw [Value.getD, Value.getD, hheaders]
  have hheadersOf : headersOf m = headersOf e := by rw [headersOf, headersOf, hsame]
  refine ⟨maskHeaders m, by rw [maskEnv, hm]; rfl, fun key hkey => ?_, fun key => ?_⟩
  · have hne : key ≠ "headers" := fun heq => absurd (heq ▸ hkey) (by decide)
    unfold maskHeaders
    split
    · rw [Entries.getD_put_of_ne hne]
      exact hsecrets key hkey
    · exact hsecrets key hkey
  · unfold maskHeaders
    split
    next =>
      rw [headersOf, Entries.getD_put_self, hheadersOf]
      exact Entries.field_map (fun _ _ => .str secretMask) _ key
    next htruthy =>
      -- nothing is shown where there is no header
      have hempty : headersOf m = [] := by
        unfold headersOf
        cases hv : Value.getD m "headers" with
        | dict headers =>
            rw [hv] at htruthy
            simpa [Value.truthy] using htruthy
        | _ => rfl
      rw [← hheadersOf, hempty]
      rfl

/-! ## Dumped configs -/

theorem Headers.field_entries (headers : Headers) (key : String) :
    Value.field headers.entries key = (headers.lookup key).map .str := by
  rw [Headers.entries, AList.lookup]
  induction AList.entries headers with
  | nil => rfl
  | cons s entries ih =>
      obtain ⟨k, text⟩ := s
      rw [Value.field] at ih ⊢
      rw [List.map_cons, List.lookup_cons]
      by_cases hkey : key = k
      · subst hkey
        simp
      · have hne : (key == k) = false := by simpa using hkey
        rw [hne, ih, List.dlookup_cons_ne _ _ hkey]

theorem Headers.mem_entries {headers : Headers} {p : String × Value} :
    p ∈ headers.entries ↔ ∃ text, headers.lookup p.1 = some text ∧ p.2 = .str text := by
  constructor
  · intro hp
    obtain ⟨s, hs, rfl⟩ := List.mem_map.mp hp
    exact ⟨s.2, AList.mem_lookup_iff.mpr hs, rfl⟩
  · rintro ⟨text, htext, hp⟩
    refine List.mem_map.mpr ⟨⟨p.1, text⟩, AList.mem_lookup_iff.mp htext, ?_⟩
    rw [← hp]

theorem Headers.entries_eq_nil {headers : Headers} : headers.entries = [] ↔ headers = ∅ := by
  rw [Headers.entries, List.map_eq_nil_iff]
  constructor
  · exact fun h => AList.ext h
  · rintro rfl
    rfl

namespace EnvironmentConfig

theorem field_modelDump_secret (c : EnvironmentConfig) {key : String} (h : key ∈ secretFields) :
    ∃ o, Value.field c.modelDump key = some (.ofOption o) := by
  simp only [secretFields, List.mem_cons, List.not_mem_nil, or_false] at h
  rcases h with rfl | rfl | rfl | rfl | rfl | rfl | rfl <;> exact ⟨_, rfl⟩

theorem field_modelDump_headers (c : EnvironmentConfig) :
    Value.field c.modelDump "headers" = some (.dict c.headers.entries) := rfl

theorem modelDump_leaves (c : EnvironmentConfig) : Leaves (fun _ => True) c.modelDump where
  fields key hkey v hv := by
    obtain ⟨o, ho⟩ := c.field_modelDump_secret hkey
    rw [ho] at hv
    cases hv
    cases o with
    | none => exact .inl rfl
    | some text => exact .inr ⟨text, rfl, trivial⟩
  headers v hv := by
    rw [c.field_modelDump_headers] at hv
    cases hv
    refine .inr ⟨_, rfl, fun p hp => ?_⟩
    obtain ⟨text, -, htext⟩ := Headers.mem_entries.mp hp
    exact ⟨text, htext, trivial⟩

end EnvironmentConfig

/-! ## The merge -/

/-- What the merge makes of a secret field. -/
def mergedSecret (plain : Entries) (key : String) (incoming : Option Value) : Option Value :=
  if looksMaskedOrBlank (incoming.getD .none) then
    if (Value.getD plain key).truthy then some (Value.getD plain key) else none
  else incoming

theorem field_mergeSecrets (plain d : Entries) {fields : List String} (hnodup : fields.Nodup)
    (key : String) : Value.field (fields.foldl (mergeSecret plain) d) key =
      if key ∈ fields then mergedSecret plain key (Value.field d key) else Value.field d key := by
  refine Entries.field_foldl ?_ ?_ hnodup d key
  · intro d key
    rw [mergedSecret, ← Value.getD]
    simp only [mergeSecret]
    by_cases hlooks : looksMaskedOrBlank (Value.getD d key) = true
    · rw [if_pos hlooks, if_pos hlooks]
      by_cases htruthy : (Value.getD plain key).truthy = true
      · rw [if_pos htruthy, if_pos htruthy, Entries.field_put_self]
      · rw [if_neg htruthy, if_neg htruthy]
        exact Entries.field_filter_none (· ≠ key) (by simp)
    · rw [if_neg hlooks, if_neg hlooks]
  · intro d key key' hne
    simp only [mergeSecret]
    split
    · split
      · exact Entries.field_put_of_ne hne
      · exact Entries.field_filter (· ≠ key) (by simpa using hne)
    · rfl

/-- The headers of the request count as unchanged. -/
def echoes (headers : Entries) : Bool := headers.all fun p => looksMaskedOrBlank p.2

/-- The headers are kept as a whole, if the request has only masks or nothing there. -/
theorem mergeHeaders_eq (plain : Entries) {merged headers : Entries}
    (hheaders : Value.field merged "headers" = some (.dict headers)) :
    mergeHeaders plain merged =
      if (echoes headers && (Value.getD plain "headers").truthy) = true then
        merged.put "headers" (Value.getD plain "headers")
      else merged := by
  have hunchanged : (!(Value.dict headers).truthy || echoes headers) = echoes headers := by
    cases headers <;> simp [Value.truthy, echoes]
  have hvalue : Value.getD merged "headers" = .dict headers := by
    rw [Value.getD, hheaders, Option.getD_some]
  rw [← hunchanged]
  simp only [mergeHeaders, hvalue]
  rfl

theorem mergeEnv_ok {f : Fernet} {incoming existing plain headers : Entries}
    (hplain : decryptEnvConfig f existing = .ok plain)
    (hheaders : Value.field incoming "headers" = some (.dict headers)) :
    ∃ m, mergeEnvPreservingSecrets f incoming existing = .ok m ∧
      (∀ key ∈ secretFields,
        Value.field m key = mergedSecret plain key (Value.field incoming key)) ∧
      Value.field m "headers" =
        if echoes headers ∧ (Value.getD plain "headers").truthy then
          some (Value.getD plain "headers")
        else some (.dict headers) := by
  let merged := secretFields.foldl (mergeSecret plain) incoming
  have hmerged : ∀ key, Value.field merged key =
      if key ∈ secretFields then mergedSecret plain key (Value.field incoming key)
      else Value.field incoming key := field_mergeSecrets plain incoming (by decide)
  have hkept : Value.field merged "headers" = some (.dict headers) := by
    rw [hmerged, if_neg (by decide), hheaders]
  have hcond := mergeHeaders_eq plain hkept
  refine ⟨mergeHeaders plain merged, ?_, fun key hkey => ?_, ?_⟩
  · unfold mergeEnvPreservingSecrets
    split
    next hempty =>
      subst hempty
      have hnil : ([] : Entries) = plain := Except.ok.inj hplain
      subst hnil
      rfl
    next => simp only [hplain, bind, Except.bind, pure, Except.pure, merged]
  · have hne : key ≠ "headers" := fun heq => absurd (heq ▸ hkey) (by decide)
    rw [hcond]
    split
    · rw [Entries.field_put_of_ne hne, hmerged, if_pos hkey]
    · rw [hmerged, if_pos hkey]
  · rw [hcond]
    simp only [Bool.and_eq_true]
    split
    · exact Entries.field_put_self
    · exact hkept

theorem mergedSecret_leaf {c body : EnvironmentConfig} {key : String} (h : key ∈ secretFields)
    {v : Value}
    (hv : mergedSecret c.modelDump key (Value.field body.modelDump key) = some v) :
    v = .none ∨ ∃ text, v = .str text := by
  have hleaf : ∀ c : EnvironmentConfig, Value.getD c.modelDump key = .none ∨
      ∃ text, Value.getD c.modelDump key = .str text := by
    intro c
    obtain ⟨o, ho⟩ := c.field_modelDump_secret h
    rw [Value.getD, ho]
    cases o with
    | none => exact .inl rfl
    | some text => exact .inr ⟨text, rfl⟩
  unfold mergedSecret at hv
  split at hv
  · split at hv
    · cases hv
      exact hleaf c
    · cases hv
  · have hbody := hleaf body
    rwa [Value.getD, hv] at hbody

/-- What an update stores decrypts to what was merged. -/
theorem updateEnv_ok {f : Fernet} (hf : f.Lawful) {salt : String → f.Salt}
    {c body : EnvironmentConfig} {e plain : Entries} (hplain : decryptEnvConfig f e = .ok plain)
    (hsame : ∀ key, Value.field plain key = Value.field c.modelDump key) :
    ∃ s d, ConnectionApi.updateEnv f salt body.modelDump e = .ok s ∧
      decryptEnvConfig f s = .ok d ∧
      (∀ key ∈ secretFields, Value.field d key =
        mergedSecret c.modelDump key (Value.field body.modelDump key)) ∧
      headersOf d =
        if echoes body.headers.entries ∧ c.headers ≠ ∅ then c.headers.entries
        else body.headers.entries := by
  obtain ⟨m, hm, hsecrets, hheaders⟩ := mergeEnv_ok hplain body.field_modelDump_headers
  have hgetD : ∀ key, Value.getD plain key = Value.getD c.modelDump key := fun key => by
    rw [Value.getD, Value.getD, hsame key]
  have hsecrets : ∀ key ∈ secretFields, Value.field m key =
      mergedSecret c.modelDump key (Value.field body.modelDump key) := fun key hkey => by
    rw [hsecrets key hkey, mergedSecret, mergedSecret, hgetD key]
  have htruthy : (Value.getD plain "headers").truthy = true ↔ c.headers ≠ ∅ := by
    rw [hgetD, Value.getD, c.field_modelDump_headers, Option.getD_some, Value.truthy,
      Bool.not_eq_true', List.isEmpty_eq_false_iff, ne_eq, ne_eq, Headers.entries_eq_nil]
  have hheaders : Value.field m "headers" = some (.dict
      (if echoes body.headers.entries ∧ c.headers ≠ ∅ then c.headers.entries
        else body.headers.entries)) := by
    have hprev : Value.getD plain "headers" = .dict c.headers.entries := by
      rw [hgetD, Value.getD, c.field_modelDump_headers, Option.getD_some]
    simp only [hheaders, htruthy]
    rw [hprev]
    split <;> rfl
  -- what is merged is encrypted and decrypted again
  have hleaves : Leaves (fun _ => True) m := by
    constructor
    · intro key hkey v hv
      rw [hsecrets key hkey] at hv
      exact (mergedSecret_leaf hkey hv).imp_right fun h => h.imp fun _ htext => ⟨htext, trivial⟩
    · intro v hv
      rw [hheaders] at hv
      cases hv
      refine .inr ⟨_, rfl, fun p hp => ?_⟩
      have htext : ∃ text, p.2 = .str text := by
        split at hp
        · exact (Headers.mem_entries.mp hp).imp fun _ => And.right
        · exact (Headers.mem_entries.mp hp).imp fun _ => And.right
      exact htext.imp fun _ h => ⟨h, trivial⟩
  obtain ⟨s, hs, hsealed⟩ := @encryptEnvConfig_ok f salt false _ _ hleaves
  obtain ⟨d, hd, hopened⟩ := decryptEnvConfig_ok (opened_encrypted hf hleaves hsealed)
  have hguard := assertEncryptedEnvelope_sealed (hleaves.sealed hf hsealed)
  refine ⟨s, d, ?_, hd, fun key hkey => (hopened key).trans (hsecrets key hkey), ?_⟩
  · simp only [ConnectionApi.updateEnv, hm, hs, hguard, bind, Except.bind, pure, Except.pure]
  · rw [headersOf, Value.getD, hopened, hheaders, Option.getD_some]

/-! ## The masks that come back -/

section

variable {f : Fernet} {salt : String → f.Salt} {n : Int} {edit : Edit}
  {c body : EnvironmentConfig} {e masked d : Entries} {key text : String}

/-- What is shown of the config that a request has stored. -/
structure Shown (c : EnvironmentConfig) (masked : Entries) : Prop where
  secrets : ∀ key ∈ secretFields,
    ShownSecret key (Value.getD c.modelDump key) (Value.getD masked key)
  headers : ∀ key, Value.field (headersOf masked) key =
    (c.headers.lookup key).map fun _ => .str secretMask

theorem sealLeaf_of_not_truthy {x : f.Salt} {v : Value} (h : v.truthy = false) :
    sealLeaf f x false v = v := by
  cases v with
  | str text =>
      have hempty : text = "" := by simpa [Value.truthy] using h
      rw [hempty]
      rfl
  | _ => rfl

theorem truthy_sealLeaf (hf : f.Lawful) (x : f.Salt) (o : Option String) :
    (sealLeaf f x false (.ofOption o)).truthy = (Value.ofOption o).truthy := by
  cases o with
  | none => rfl
  | some text =>
      by_cases hempty : text = ""
      · subst hempty
        rfl
      · have htoken : f.encrypt x text ≠ "" := fun heq => by
          have hencrypted := hf.isEncrypted_encrypt x text
          rw [heq] at hencrypted
          exact absurd hencrypted (by decide +kernel)
        simp [Value.ofOption, sealLeaf, hempty, Value.truthy, htoken]

theorem maskEnv_shown (hf : f.Lawful) (he : encryptEnvConfig f salt false c.modelDump = .ok e) :
    ∃ masked, maskEnv n e = .ok masked ∧ Shown c masked := by
  obtain ⟨e', he', hsealed⟩ := @encryptEnvConfig_ok f salt false _ _ c.modelDump_leaves
  cases he.symm.trans he'
  obtain ⟨masked, hmasked, hsecrets, hheaders⟩ := maskEnv_ok n (c.modelDump_leaves.sealed hf hsealed)
  refine ⟨masked, hmasked, fun key hkey => ?_, fun key => ?_⟩
  · have hshown := hsecrets key hkey
    obtain ⟨o, ho⟩ := c.field_modelDump_secret hkey
    have hstored : Value.getD e key = sealLeaf f (salt key) false (.ofOption o) := by
      rw [Value.getD, hsealed, ho, Option.map_some, Option.getD_some, sealEntry_of_mem hkey]
    rw [Value.getD, ho, Option.getD_some]
    rw [hstored] at hshown
    have htruthy := truthy_sealLeaf hf (salt key) o
    unfold ShownSecret at hshown ⊢
    rw [htruthy] at hshown
    split
    next h =>
      rw [if_pos h] at hshown
      exact hshown
    next h =>
      rw [if_neg h] at hshown
      rw [hshown, sealLeaf_of_not_truthy (Bool.eq_false_iff.mpr h)]
  have hstored : headersOf e = sealHeaders f salt false c.headers.entries := by
    rw [headersOf, Value.getD, hsealed, c.field_modelDump_headers]
    rfl
  rw [hheaders, hstored, sealHeaders,
    Entries.field_map (fun key v => sealLeaf f (salt ("headers." ++ key)) false v),
    Headers.field_entries, Option.map_map, Option.map_map]
  rfl

theorem secretOf_eq_str (h : text ≠ "") :
    secretOf d key = .str text ↔ Value.field d key = some (.str text) := by
  unfold secretOf Entries.getOr Value.getD
  cases Value.field d key with
  | none => simpa [Value.truthy] using h.symm
  | some v =>
      rw [Option.getD_some, Option.some_inj]
      split
      · rfl
      next htruthy =>
        constructor
        · intro heq
          exact absurd (Value.str.inj heq).symm h
        · rintro rfl
          exact absurd (by simpa [Value.truthy] using h) htruthy

/-- A mask and a blank give way to what is stored. -/
theorem secretOf_mergedSecret {incoming : Option Value}
    (hd : Value.field d key = mergedSecret c.modelDump key incoming)
    (h : looksMaskedOrBlank (incoming.getD .none) = true) :
    secretOf d key = secretOf c.modelDump key := by
  rw [mergedSecret, if_pos h] at hd
  simp only [secretOf, Entries.getOr]
  split at hd
  next htruthy => rw [Value.getD, hd, Option.getD_some, if_pos htruthy]
  next htruthy =>
    rw [if_neg htruthy, Value.getD, hd]
    rfl

theorem hasGlyph_empty : hasGlyph "" = false := by decide +kernel

theorem isBlank_empty : isBlank "" = true := by decide +kernel

/-- The headers of the request count as unchanged if the edit has no new value for one. -/
theorem Edit.Made.echoes_iff (h : edit.Made masked body) (hshown : Shown c masked) :
    echoes body.headers.entries = true ↔
      ∀ key text, edit.headers key = some text → isBlank text = true := by
  rw [echoes, List.all_eq_true]
  constructor
  · intro hall key text hedit
    have hfield := h.headers key
    rw [hedit, Headers.field_entries] at hfield
    obtain ⟨text', hlookup, htext⟩ := Option.map_eq_some_iff.mp hfield
    have hlooks := hall (key, .str text') (Headers.mem_entries.mpr ⟨text', hlookup, rfl⟩)
    rw [Value.str.inj htext, looksMaskedOrBlank_clean (edit.headers_clean hedit)] at hlooks
    exact hlooks
  · rintro hall ⟨key, v⟩ hp
    obtain ⟨text, hlookup, rfl⟩ : ∃ text, body.headers.lookup key = some text ∧ v = .str text :=
      Headers.mem_entries.mp hp
    have hfield := h.headers key
    rw [Headers.field_entries, hlookup, Option.map_some] at hfield
    cases hedit : edit.headers key with
    | some new =>
        rw [hedit] at hfield
        rw [Value.str.inj (Option.some.inj hfield),
          looksMaskedOrBlank_clean (edit.headers_clean hedit)]
        exact hall key new hedit
    | none =>
        rw [hedit, hshown.headers] at hfield
        obtain ⟨_, -, hmask⟩ := Option.map_eq_some_iff.mp hfield.symm
        rw [← hmask]
        exact looksMaskedOrBlank_mask

/-- A secret field of the request looks masked or blank if the edit has no new value for it. -/
theorem Edit.Made.looks (h : edit.Made masked body) (hshown : Shown c masked)
    (hkey : key ∈ secretFields)
    (hedit : ∀ text, edit.secrets key = some text → isBlank text = true) :
    looksMaskedOrBlank ((Value.field body.modelDump key).getD .none) = true := by
  have hvalue := h.secrets key hkey
  rw [Value.getD] at hvalue
  rw [hvalue]
  cases hnew : edit.secrets key with
  | none => exact (hshown.secrets key hkey).looks
  | some text =>
      simp only
      rw [looksMaskedOrBlank_clean (edit.secrets_clean hnew)]
      exact hedit text hnew

/-- A new value that is not blank is taken. -/
theorem Edit.Made.field_new (h : edit.Made masked body) (hkey : key ∈ secretFields)
    (hedit : edit.secrets key = some text) (hblank : isBlank text = false)
    (hd : Value.field d key =
      mergedSecret c.modelDump key (Value.field body.modelDump key)) :
    Value.field d key = some (.str text) := by
  have hvalue := h.secrets key hkey
  rw [hedit, Value.getD] at hvalue
  simp only at hvalue
  rw [hd, mergedSecret, hvalue, looksMaskedOrBlank_clean (edit.secrets_clean hedit), hblank,
    if_neg Bool.false_ne_true]
  cases hfield : Value.field body.modelDump key with
  | none =>
      rw [hfield] at hvalue
      cases hvalue
  | some v =>
      rw [hfield] at hvalue
      exact congrArg some hvalue

/-- What the update stores, decrypted. -/
structure Updated (c body : EnvironmentConfig) (d : Entries) : Prop where
  secrets : ∀ key ∈ secretFields, Value.field d key =
    mergedSecret c.modelDump key (Value.field body.modelDump key)
  headers : headersOf d =
    if echoes body.headers.entries ∧ c.headers ≠ ∅ then c.headers.entries
    else body.headers.entries

theorem Updated.safe (hd : Updated c body d) (h : edit.Made masked body)
    (hshown : Shown c masked) (hkept : edit.Kept c d) : edit.Safe c where
  kept key hkey hedit text hfield := by
    by_cases hempty : text = ""
    · rw [hempty, hasGlyph_empty]
    · have hsecret := hkept.kept key hkey hedit
      rw [(secretOf_eq_str hempty).mpr hfield, secretOf_eq_str hempty] at hsecret
      exact hkept.noMask key hkey text hsecret
  replaced key hkey text hedit hblank := by
    have hlooks := h.looks hshown hkey fun text' hedit' => by
      rw [hedit, Option.some_inj] at hedit'
      rwa [← hedit']
    rw [← secretOf_mergedSecret (hd.secrets key hkey) hlooks]
    exact hkept.replaced key hkey text hedit
  headersBlank hne hblank := by
    have hheaders := hd.headers
    rw [if_pos ⟨(h.echoes_iff hshown).mpr hblank, hne⟩] at hheaders
    constructor
    · intro key text hedit
      have hfield := hkept.headerReplaced key text hedit
      rw [hheaders, Headers.field_entries] at hfield
      obtain ⟨text', hlookup, htext⟩ := Option.map_eq_some_iff.mp hfield
      rwa [Value.str.inj htext] at hlookup
    · intro key text hlookup
      refine hkept.noHeaderMask key text ?_
      rw [hheaders, Headers.field_entries, hlookup, Option.map_some]
  headersAll := by
    rintro ⟨key', text', hedit', hblank'⟩ key hkey
    have hecho : ¬echoes body.headers.entries = true := fun hecho => by
      rw [(h.echoes_iff hshown).mp hecho key' text' hedit'] at hblank'
      cases hblank'
    have hheaders := hd.headers
    rw [if_neg fun hboth => hecho hboth.1] at hheaders
    cases hedit : edit.headers key with
    | some text => rfl
    | none =>
        -- the mask of a header that the edit leaves is stored
        obtain ⟨text, hlookup⟩ := Option.isSome_iff_exists.mp (AList.lookup_isSome.mpr hkey)
        have hmask : Value.field (headersOf d) key = some (.str secretMask) := by
          have hfield := h.headers key
          rw [hedit, hshown.headers, hlookup] at hfield
          rw [hheaders]
          exact hfield
        have hglyph := hkept.noHeaderMask key secretMask hmask
        rw [hasGlyph_secretMask] at hglyph
        cases hglyph

theorem Updated.kept (hd : Updated c body d) (h : edit.Made masked body)
    (hshown : Shown c masked) (hsafe : edit.Safe c) : edit.Kept c d := by
  have hblank : ∀ {key text}, edit.secrets key = some text → isBlank text = true →
      ∀ text', edit.secrets key = some text' → isBlank text' = true := by
    intro key text hedit htext text' hedit'
    rw [hedit, Option.some_inj] at hedit'
    rwa [← hedit']
  have hleft : ∀ {key}, edit.secrets key = none →
      ∀ text', edit.secrets key = some text' → isBlank text' = true := by
    intro key hedit text' hedit'
    rw [hedit] at hedit'
    cases hedit'
  -- the stored headers come back, or every one of them has a new value
  have hheaders : headersOf d = c.headers.entries ∧ c.headers ≠ ∅ ∧
      (∀ key text, edit.headers key = some text → isBlank text = true) ∨
      headersOf d = body.headers.entries ∧
      ∀ key, edit.headers key = none → c.headers.lookup key = none := by
    by_cases hecho : echoes body.headers.entries = true
    · by_cases hempty : c.headers = ∅
      · refine .inr ⟨?_, fun key _ => by rw [hempty, AList.lookup_empty]⟩
        rw [hd.headers, if_neg fun hboth => hboth.2 hempty]
      · refine .inl ⟨?_, hempty, (h.echoes_iff hshown).mp hecho⟩
        rw [hd.headers, if_pos ⟨hecho, hempty⟩]
    · refine .inr ⟨by rw [hd.headers, if_neg fun hboth => hecho hboth.1], fun key hedit => ?_⟩
      have hnew : ∃ key text, edit.headers key = some text ∧ isBlank text = false := by
        rw [h.echoes_iff hshown] at hecho
        push Not at hecho
        simpa using hecho
      rw [AList.lookup_eq_none]
      intro hkey
      have hsome := hsafe.headersAll hnew key hkey
      rw [hedit] at hsome
      cases hsome
  constructor
  · intro key hkey hedit
    exact secretOf_mergedSecret (hd.secrets key hkey) (h.looks hshown hkey (hleft hedit))
  · intro key hkey text hedit
    cases htext : isBlank text with
    | true =>
        rw [secretOf_mergedSecret (hd.secrets key hkey) (h.looks hshown hkey (hblank hedit htext))]
        exact hsafe.replaced key hkey text hedit htext
    | false =>
        have hne : text ≠ "" := by
          rintro rfl
          rw [isBlank_empty] at htext
          cases htext
        rw [secretOf_eq_str hne]
        exact h.field_new hkey hedit htext (hd.secrets key hkey)
  · intro key hedit
    rcases hheaders with ⟨hheaders, -, -⟩ | ⟨hheaders, hall⟩
    · rw [hheaders]
    · have hfield := h.headers key
      rw [hedit, hshown.headers, hall key hedit] at hfield
      rw [hheaders, hfield, Headers.field_entries, hall key hedit]
      rfl
  · intro key text hedit
    rcases hheaders with ⟨hheaders, hne, hblanks⟩ | ⟨hheaders, -⟩
    · rw [hheaders, Headers.field_entries, (hsafe.headersBlank hne hblanks).1 key text hedit]
      rfl
    · have hfield := h.headers key
      rw [hedit] at hfield
      rw [hheaders]
      exact hfield
  · intro key hkey text hfield
    cases hedit : edit.secrets key with
    | none =>
        by_cases hempty : text = ""
        · rw [hempty, hasGlyph_empty]
        · have hsecret := secretOf_mergedSecret (hd.secrets key hkey)
            (h.looks hshown hkey (hleft hedit))
          rw [(secretOf_eq_str hempty).mpr hfield, eq_comm, secretOf_eq_str hempty] at hsecret
          exact hsafe.kept key hkey hedit text hsecret
    | some new =>
        cases htext : isBlank new with
        | true =>
            by_cases hempty : text = ""
            · rw [hempty, hasGlyph_empty]
            · have hsecret := secretOf_mergedSecret (hd.secrets key hkey)
                (h.looks hshown hkey (hblank hedit htext))
              rw [(secretOf_eq_str hempty).mpr hfield,
                hsafe.replaced key hkey new hedit htext] at hsecret
              rw [Value.str.inj hsecret]
              exact edit.secrets_clean hedit
        | false =>
            have hnew := h.field_new hkey hedit htext (hd.secrets key hkey)
            rw [hfield, Option.some_inj] at hnew
            rw [Value.str.inj hnew]
            exact edit.secrets_clean hedit
  · intro key text hfield
    rcases hheaders with ⟨hheaders, hne, hblanks⟩ | ⟨hheaders, hall⟩
    · rw [hheaders, Headers.field_entries] at hfield
      obtain ⟨text', hlookup, htext⟩ := Option.map_eq_some_iff.mp hfield
      rw [← Value.str.inj htext]
      exact (hsafe.headersBlank hne hblanks).2 key text' hlookup
    · rw [hheaders, h.headers key] at hfield
      cases hedit : edit.headers key with
      | some new =>
          rw [hedit] at hfield
          rw [← Value.str.inj (Option.some.inj hfield)]
          exact edit.headers_clean hedit
      | none =>
          rw [hedit, hshown.headers, hall key hedit] at hfield
          cases hfield

end

/-! ## The endpoints -/

section

variable {ε α : Type} {g : RunEnvironment → Except ε α} {h : RunEnvironment → α}

theorem bothEnvironments_ok (hg : ∀ env, g env = .ok (h env)) : bothEnvironments g = .ok h := by
  simp only [bothEnvironments, hg, bind, Except.bind, pure, Except.pure]
  congr 1
  funext env
  cases env <;> rfl

theorem eq_ok_of_bothEnvironments (hg : bothEnvironments g = .ok h) (env : RunEnvironment) :
    g env = .ok (h env) := by
  cases htest : g .test with
  | error e => simp [bothEnvironments, htest, bind, Except.bind] at hg
  | ok test =>
      cases hprod : g .prod with
      | error e => simp [bothEnvironments, htest, hprod, bind, Except.bind] at hg
      | ok prod =>
          simp only [bothEnvironments, htest, hprod, bind, Except.bind, pure, Except.pure,
            Except.ok.injEq] at hg
          subst hg
          cases env
          · exact htest
          · exact hprod

end

theorem raised_eq_ok {α : Type} {x : Except PyError α} {a : α} :
    raised x = .ok a ↔ x = .ok a := by
  cases x <;> simp [raised]

namespace ConnectionApi

theorem find?_updateOne {p : ConnectionDoc → Bool} {g : ConnectionDoc → ConnectionDoc}
    (hg : ∀ doc, p doc = true → p (g doc) = true) (docs : List ConnectionDoc) :
    (updateOne p g docs).find? p = (docs.find? p).map g := by
  induction docs with
  | nil => rfl
  | cons doc docs ih =>
      rw [updateOne, List.find?_cons]
      cases hp : p doc with
      | true => simp [hg doc hp]
      | false => simp [hp, ih]

variable {f : Fernet} {salt salt' : RunEnvironment → String → f.Salt} {n : Int}
  {orgId connectionId : String} {request : CreateConnectionRequest}
  {docs docs₁ : List ConnectionDoc} {masked : ConnectionDoc}

/-- A request that configures an environment is stored. -/
theorem createConnection_ok (hf : f.Lawful)
    (hconfigured : (request.config .test).isConfigured || (request.config .prod).isConfigured) :
    ∃ docs₁, createConnection f salt orgId connectionId request docs = .ok docs₁ := by
  have hsealed : ∀ env, ∃ e,
      encryptEnvConfig f (salt env) false (request.config env).modelDump = .ok e ∧
        assertEncryptedEnvelope e = .ok () := by
    intro env
    have hleaves := (request.config env).modelDump_leaves
    obtain ⟨e, he, hentries⟩ := @encryptEnvConfig_ok f (salt env) false _ _ hleaves
    exact ⟨e, he, assertEncryptedEnvelope_sealed (hleaves.sealed hf hentries)⟩
  choose config hconfig using hsealed
  have hrequired : (!(request.config .test).isConfigured && !(request.config .prod).isConfigured) =
      false := by
    rw [← Bool.not_or, hconfigured]
    rfl
  have hencrypt := bothEnvironments_ok fun env => (hconfig env).1
  have hguard := bothEnvironments_ok fun env => (hconfig env).2
  simp only [createConnection, hrequired, hencrypt, hguard, raised, bind, Except.bind, pure,
    Except.pure]
  exact ⟨_, rfl⟩

/-- What has been created: the encrypted config of each environment. -/
theorem createConnection_config
    (hcreate : createConnection f salt orgId connectionId request docs = .ok docs₁) :
    ∃ doc, docs₁ = docs ++ [doc] ∧ doc.connectionId = connectionId ∧
      doc.orgId = String.ofList (Python.strip orgId.toList) ∧ ∀ env,
      encryptEnvConfig f (salt env) false (request.config env).modelDump = .ok (doc.config env) := by
  unfold createConnection at hcreate
  split at hcreate
  next => cases hcreate
  next =>
    cases hencrypt : bothEnvironments fun env =>
        encryptEnvConfig f (salt env) false (request.config env).modelDump with
    | error e => simp [hencrypt, raised, bind, Except.bind] at hcreate
    | ok config =>
        cases hguard : bothEnvironments fun env => assertEncryptedEnvelope (config env) with
        | error e => simp [hencrypt, hguard, raised, bind, Except.bind] at hcreate
        | ok _ =>
            simp only [hencrypt, hguard, raised, bind, Except.bind, pure, Except.pure,
              Except.ok.injEq] at hcreate
            exact ⟨_, hcreate.symm, rfl, rfl, eq_ok_of_bothEnvironments hencrypt⟩

/-- The organisation that created a connection reads it. -/
theorem getConnection_ok (hf : f.Lawful) (hnew : ∀ doc ∈ docs, doc.connectionId ≠ connectionId)
    (hcreate : createConnection f salt orgId connectionId request docs = .ok docs₁)
    (horg : Python.strip orgId.toList = orgId.toList) :
    ∃ masked, getConnection n orgId connectionId docs₁ = .ok masked := by
  obtain ⟨created, rfl, hid, hcreatedOrg, hconfig⟩ := createConnection_config hcreate
  have hold : docs.find? (matching orgId connectionId) = none := by
    refine List.find?_eq_none.mpr fun doc hdoc => ?_
    simp [matching, hnew doc hdoc]
  have hfind : (docs ++ [created]).find? (matching orgId connectionId) = some created := by
    rw [List.find?_append, hold]
    simp [matching, hid, hcreatedOrg, horg, String.ofList_toList]
  have hmask : ∀ env, ∃ m, maskEnv n (created.config env) = .ok m := fun env =>
    (maskEnv_shown hf (hconfig env)).imp fun _ => And.left
  choose config hmask using hmask
  refine ⟨{ created with config }, ?_⟩
  rw [getConnection, hfind]
  simp only [raised_eq_ok, maskConnection, bothEnvironments_ok hmask]
  rfl

/-- A created connection is shown masked, and what the masked form with edits makes of it. -/
theorem updateConnection_spec (hf : f.Lawful)
    (hnew : ∀ doc ∈ docs, doc.connectionId ≠ connectionId)
    (hcreate : createConnection f salt orgId connectionId request docs = .ok docs₁)
    (hget : getConnection n orgId connectionId docs₁ = .ok masked)
    (name description : Option String) (body : RunEnvironment → EnvironmentConfig) :
    (∀ env, Shown (request.config env) (masked.config env)) ∧
    ∃ (docs₂ : List ConnectionDoc) (doc : ConnectionDoc) (d : RunEnvironment → Entries),
      updateConnection f salt' orgId connectionId
        { name, description, config := fun env => some (body env) } docs₁ = .ok docs₂ ∧
      docs₂.find? (matching orgId connectionId) = some doc ∧
      ∀ env, decryptEnvConfig f (doc.config env) = .ok (d env) ∧
        Updated (request.config env) (body env) (d env) := by
  obtain ⟨created, rfl, -, -, hconfig⟩ := createConnection_config hcreate
  -- the document found is the one that was created
  have hfind : (docs ++ [created]).find? (matching orgId connectionId) = some created := by
    cases hfound : (docs ++ [created]).find? (matching orgId connectionId) with
    | none => simp [getConnection, hfound] at hget
    | some doc =>
        rcases List.mem_append.mp (List.mem_of_find?_eq_some hfound) with hold | hdoc
        · have hmatching := List.find?_some hfound
          simp only [matching, Bool.and_eq_true, decide_eq_true_eq] at hmatching
          exact absurd hmatching.1 (hnew doc hold)
        · rw [List.mem_singleton.mp hdoc]
  constructor
  · intro env
    rw [getConnection, hfind] at hget
    simp only [raised_eq_ok, maskConnection] at hget
    cases hboth : bothEnvironments fun env => maskEnv n (created.config env) with
    | error e => simp [hboth, Except.map] at hget
    | ok config =>
        simp only [hboth, Except.map, Except.ok.injEq] at hget
        obtain ⟨m, hm, hshown⟩ := maskEnv_shown (n := n) hf (hconfig env)
        have hmask := eq_ok_of_bothEnvironments hboth env
        rw [hm] at hmask
        rw [← hget]
        simp only
        rw [← Except.ok.inj hmask]
        exact hshown
  · have hupdated : ∀ env, ∃ s d,
        updateEnv f (salt' env) (body env).modelDump (created.config env) = .ok s ∧
        decryptEnvConfig f s = .ok d ∧ Updated (request.config env) (body env) d := by
      intro env
      have hleaves := (request.config env).modelDump_leaves
      obtain ⟨e, he, hentries⟩ := @encryptEnvConfig_ok f (salt env) false _ _ hleaves
      cases (hconfig env).symm.trans he
      obtain ⟨plain, hplain, hsame⟩ := decryptEnvConfig_ok (opened_encrypted hf hleaves hentries)
      obtain ⟨s, d, hs, hd, hsecrets, hheaders⟩ := updateEnv_ok hf hplain hsame
      exact ⟨s, d, hs, hd, hsecrets, hheaders⟩
    choose config d hconfig' hd hfields using hupdated
    let change (doc : ConnectionDoc) : ConnectionDoc := { doc with
      name := name.getD doc.name
      description := description.getD doc.description
      config }
    refine ⟨updateOne (matching orgId connectionId) change (docs ++ [created]), change created, d,
      ?_, ?_, fun env => ⟨hd env, hfields env⟩⟩
    · unfold updateConnection
      rw [hfind]
      simp only [bothEnvironments_ok hconfig', raised, Except.map]
      rfl
    · rw [find?_updateOne, hfind]
      · rfl
      · exact fun doc hdoc => hdoc

/-- An update that sends the masked form back keeps every secret exactly if each header that is
stored has a new value or none of the headers has one, and no new secret is blank. -/
theorem updateConnection_keeps_iff (f : Fernet) (hf : f.Lawful)
    (salt salt' : RunEnvironment → String → f.Salt) (n : Int) (orgId connectionId : String)
    (request : CreateConnectionRequest) (docs docs₁ : List ConnectionDoc)
    (hnew : ∀ doc ∈ docs, doc.connectionId ≠ connectionId)
    (hcreate : createConnection f salt orgId connectionId request docs = .ok docs₁)
    (masked : ConnectionDoc) (hget : getConnection n orgId connectionId docs₁ = .ok masked)
    (name description : Option String) (edit : RunEnvironment → Edit)
    (body : RunEnvironment → EnvironmentConfig)
    (hmade : ∀ env, (edit env).Made (masked.config env) (body env)) :
    ∃ (docs₂ : List ConnectionDoc) (doc : ConnectionDoc) (d : RunEnvironment → Entries),
      updateConnection f salt' orgId connectionId
        { name, description, config := fun env => some (body env) } docs₁ = .ok docs₂ ∧
      docs₂.find? (matching orgId connectionId) = some doc ∧
      (∀ env, decryptEnvConfig f (doc.config env) = .ok (d env)) ∧
      ((∀ env, (edit env).Kept (request.config env) (d env)) ↔
        ∀ env, (edit env).Safe (request.config env)) := by
  obtain ⟨hshown, docs₂, doc, d, hupdate, hfind, hd⟩ :=
    @updateConnection_spec f salt salt' n orgId connectionId request docs docs₁ masked hf hnew
      hcreate hget name description body
  refine ⟨docs₂, doc, d, hupdate, hfind, fun env => (hd env).1, fun hkept env => ?_,
    fun hsafe env => ?_⟩
  · exact (hd env).2.safe (hmade env) (hshown env) (hkept env)
  · exact (hd env).2.kept (hmade env) (hshown env) (hsafe env)

/-! ### A connection with two headers -/

def sampleHeaders (authorization key : String) : Headers where
  entries := [⟨"Authorization", authorization⟩, ⟨"X-Key", key⟩]
  nodupKeys := by simp [List.NodupKeys, List.keys]

def sampleRequest : CreateConnectionRequest where
  name := "files"
  type := "sftp"
  config
    | .test =>
        { host := some "files", username := some "ann", password := some "pw"
          headers := sampleHeaders "Bearer a" "k" }
    | .prod => {}

/-- A new password and a new second header, if there are any. -/
def sampleEdit (password key : Option String)
    (hpassword : ∀ text, password = some text → hasGlyph text = false)
    (hkey : ∀ text, key = some text → hasGlyph text = false) : RunEnvironment → Edit
  | .test =>
      { secrets := fun field => if field = "password" then password else none
        headers := fun field => if field = "X-Key" then key else none
        secrets_clean := fun h => hpassword _ (Option.ite_none_right_eq_some.mp h).2
        headers_clean := fun h => hkey _ (Option.ite_none_right_eq_some.mp h).2 }
  | .prod => .unchanged

/-- The masked form of the connection with the edit made. -/
def sampleBody (password key : Option String) : RunEnvironment → EnvironmentConfig
  | .test =>
      { host := some "files", username := some secretMask
        password := some (password.getD secretMask)
        headers := sampleHeaders secretMask (key.getD secretMask) }
  | .prod => {}

theorem sampleEdit_made {password key : Option String} {hpassword hkey} {env : RunEnvironment}
    {masked : Entries} (hshown : Shown (sampleRequest.config env) masked) :
    (sampleEdit password key hpassword hkey env).Made masked (sampleBody password key env) := by
  cases env with
  | test =>
      constructor
      · intro field hfield
        have hmask := hshown.secrets field hfield
        simp only [secretFields, List.mem_cons, List.not_mem_nil, or_false] at hfield
        rcases hfield with rfl | rfl | rfl | rfl | rfl | rfl | rfl
        · exact hmask.symm
        · exact hmask.symm
        · obtain ⟨text, htext, -, hfull⟩ := hmask
          rw [hfull (by decide)] at htext
          exact htext.symm
        · obtain ⟨text, htext, -, hfull⟩ := hmask
          rw [hfull (by decide)] at htext
          cases password with
          | none => exact htext.symm
          | some new => rfl
        · exact hmask.symm
        · exact hmask.symm
        · exact hmask.symm
      · intro field
        rw [hshown.headers]
        by_cases hauth : field = "Authorization"
        · subst hauth
          rfl
        · by_cases hsecond : field = "X-Key"
          · subst hsecond
            cases key <;> rfl
          · have hlookup : ∀ a k, (sampleHeaders a k).lookup field = none := fun a k => by
              rw [AList.lookup_eq_none, AList.mem_keys]
              simp [sampleHeaders, AList.keys, List.keys, hauth, hsecond]
            rw [Headers.field_entries]
            simp [sampleEdit, sampleBody, sampleRequest, hlookup, hsecond]
  | prod =>
      constructor
      · intro field hfield
        have hmask := hshown.secrets field hfield
        simp only [secretFields, List.mem_cons, List.not_mem_nil, or_false] at hfield
        rcases hfield with rfl | rfl | rfl | rfl | rfl | rfl | rfl <;> exact hmask.symm
      · intro field
        exact (hshown.headers field).symm

theorem sampleRequest_shown : ∃ docs₁ masked,
    createConnection sampleFernet (fun _ _ => ()) "acme" "c1" sampleRequest [] = .ok docs₁ ∧
    getConnection 8 "acme" "c1" docs₁ = .ok masked := by
  obtain ⟨docs₁, hcreate⟩ := @createConnection_ok sampleFernet (fun _ _ => ()) "acme" "c1"
    sampleRequest [] sampleFernet_lawful (by decide)
  obtain ⟨masked, hget⟩ := @getConnection_ok _ _ 8 _ _ _ _ _ sampleFernet_lawful (by simp) hcreate
    (by decide +kernel)
  exact ⟨docs₁, masked, hcreate, hget⟩

theorem passwordEdit_safe (env : RunEnvironment) :
    (sampleEdit (some "new") none (by decide +kernel) (by simp) env).Safe
      (sampleRequest.config env) := by
  have hsecrets : ∀ env, ∀ key ∈ secretFields, ∀ text,
      Value.field (sampleRequest.config env).modelDump key = some (.str text) →
      hasGlyph text = false := by
    intro env key hkey text hfield
    simp only [secretFields, List.mem_cons, List.not_mem_nil, or_false] at hkey
    cases env <;> rcases hkey with rfl | rfl | rfl | rfl | rfl | rfl | rfl <;> cases hfield <;>
      decide +kernel
  constructor
  · exact fun key hkey _ text => hsecrets env key hkey text
  · intro key _ text hedit hblank
    cases env with
    | test =>
        obtain ⟨-, hnew⟩ := Option.ite_none_right_eq_some.mp hedit
        cases hnew
        exact absurd hblank (by decide +kernel)
    | prod => cases hedit
  · intro _ _
    constructor
    · intro key text hedit
      cases env with
      | test => exact absurd (Option.ite_none_right_eq_some.mp hedit).2 (by simp)
      | prod => cases hedit
    · intro key text hlookup
      cases env with
      | test =>
          have hmem := AList.mem_lookup_iff.mp hlookup
          simp only [sampleRequest, sampleHeaders, List.mem_cons, List.not_mem_nil, or_false,
            Sigma.mk.injEq, heq_eq_eq] at hmem
          rcases hmem with ⟨-, rfl⟩ | ⟨-, rfl⟩ <;> decide +kernel
      | prod => cases hlookup
  · rintro ⟨key, text, hedit, -⟩
    cases env with
    | test => exact absurd (Option.ite_none_right_eq_some.mp hedit).2 (by simp)
    | prod => cases hedit

/-- A new password: the user name and the headers are kept. -/
theorem password_changed : ∃ docs₁ docs₂ doc, ∃ d : RunEnvironment → Entries,
    createConnection sampleFernet (fun _ _ => ()) "acme" "c1" sampleRequest [] = .ok docs₁ ∧
    updateConnection sampleFernet (fun _ _ => ()) "acme" "c1"
      { config := fun env => some (sampleBody (some "new") none env) } docs₁ = .ok docs₂ ∧
    docs₂.find? (matching "acme" "c1") = some doc ∧
    (∀ env, decryptEnvConfig sampleFernet (doc.config env) = .ok (d env)) ∧
    ∀ env, (sampleEdit (some "new") none (by decide +kernel) (by simp) env).Kept
      (sampleRequest.config env) (d env) := by
  obtain ⟨docs₁, masked, hcreate, hget⟩ := sampleRequest_shown
  have hspec := @updateConnection_spec _ _ (fun _ _ => ()) _ _ _ _ _ _ _ sampleFernet_lawful
    (by simp) hcreate hget none none (sampleBody (some "new") none)
  obtain ⟨docs₂, doc, d, hupdate, hfind, hd, hiff⟩ := updateConnection_keeps_iff sampleFernet
    sampleFernet_lawful _ (fun _ _ => ()) 8 "acme" "c1" sampleRequest [] docs₁ (by simp) hcreate
    masked hget none none (sampleEdit (some "new") none (by decide +kernel) (by simp))
    (sampleBody (some "new") none) fun env => sampleEdit_made (hspec.1 env)
  exact ⟨docs₁, docs₂, doc, d, hcreate, hupdate, hfind, hd, hiff.mpr passwordEdit_safe⟩

/-- A new second header: the first one is stored as the mask. -/
theorem header_mask_stored : ∃ docs₁ masked docs₂ doc, ∃ d : RunEnvironment → Entries,
    createConnection sampleFernet (fun _ _ => ()) "acme" "c1" sampleRequest [] = .ok docs₁ ∧
    getConnection 8 "acme" "c1" docs₁ = .ok masked ∧
    (∀ env, (sampleEdit none (some "new") (by simp) (by decide +kernel) env).Made
      (masked.config env) (sampleBody none (some "new") env)) ∧
    updateConnection sampleFernet (fun _ _ => ()) "acme" "c1"
      { config := fun env => some (sampleBody none (some "new") env) } docs₁ = .ok docs₂ ∧
    docs₂.find? (matching "acme" "c1") = some doc ∧
    (∀ env, decryptEnvConfig sampleFernet (doc.config env) = .ok (d env)) ∧
    Value.field (headersOf (d .test)) "Authorization" = some (.str secretMask) ∧
    ¬(sampleEdit none (some "new") (by simp) (by decide +kernel) .test).Kept
      (sampleRequest.config .test) (d .test) := by
  obtain ⟨docs₁, masked, hcreate, hget⟩ := sampleRequest_shown
  obtain ⟨hshown, docs₂, doc, d, hupdate, hfind, hd⟩ :=
    @updateConnection_spec _ _ (fun _ _ => ()) _ _ _ _ _ _ _ sampleFernet_lawful
      (by simp) hcreate hget none none (sampleBody none (some "new"))
  have hmask : Value.field (headersOf (d .test)) "Authorization" = some (.str secretMask) := by
    have hecho : ¬(echoes (sampleBody none (some "new") .test).headers.entries = true ∧
        (sampleRequest.config .test).headers ≠ ∅) := fun h =>
      absurd h.1 (by decide +kernel)
    rw [(hd .test).2.headers, if_neg hecho]
    rfl
  refine ⟨docs₁, masked, docs₂, doc, d, hcreate, hget, fun env => sampleEdit_made (hshown env),
    hupdate, hfind, fun env => (hd env).1, hmask, fun hkept => ?_⟩
  have hglyph := hkept.noHeaderMask "Authorization" secretMask hmask
  rw [hasGlyph_secretMask] at hglyph
  cases hglyph

end ConnectionApi

end CitraFlows
