-- SUMMARY: Encryption of connection configs: the walks that encrypt, decrypt and guard the secret leaves, and their round trip.
import CitraFlows.Assistant.Json
import CitraFlows.Lib.ElementWise

/-!
# Connection credentials

The secret fields and the header values of an environment config are stored as Fernet tokens.
Three walks visit these leaves: one encrypts them, one decrypts them, and a guard refuses a
config in which one of them would be stored in clear.
-/

namespace CitraFlows

/-! ## Base64 -/

namespace Python

/-- The value of a character of the base64 alphabet; `-` and `_` stand for `+` and `/`. -/
def base64Value (c : Char) : Option Nat :=
  if 'A' ≤ c ∧ c ≤ 'Z' then some (c.toNat - 65)
  else if 'a' ≤ c ∧ c ≤ 'z' then some (c.toNat - 71)
  else if '0' ≤ c ∧ c ≤ '9' then some (c.toNat + 4)
  else if c = '+' ∨ c = '-' then some 62
  else if c = '/' ∨ c = '_' then some 63
  else none

/-- The scan of `binascii.a2b_base64` after the bytes `out`: `quad` characters of a group of four
have been read, and `left` holds the bits that are left of them. What is not in the alphabet is
passed over, and `none` stands for `binascii.Error`. -/
def a2bBase64 : List Char → (quad left pads : Nat) → List Nat → Option (List Nat)
  | [], quad, _, _, out => if quad = 0 then some out else none
  | c :: cs, quad, left, pads, out =>
      if c = '=' then
        if quad < 2 then a2bBase64 cs quad left pads out
        else if 4 ≤ quad + (pads + 1) then some out
        else a2bBase64 cs quad left (pads + 1) out
      else
        match base64Value c with
        | none => a2bBase64 cs quad left pads out
        | some v =>
            match quad with
            | 0 => a2bBase64 cs 1 v 0 out
            | 1 => a2bBase64 cs 2 (v % 16) 0 (out ++ [left * 4 + v / 16])
            | 2 => a2bBase64 cs 3 (v % 4) 0 (out ++ [left * 16 + v / 4])
            | _ => a2bBase64 cs 0 0 0 (out ++ [left * 64 + v])

/-- `base64.urlsafe_b64decode` -/
def urlsafeB64decode (text : String) : Option (List Nat) := a2bBase64 text.toList 0 0 0 []

example : urlsafeB64decode "gAAA-w==" = some [0x80, 0, 0, 0xfb] := by decide +kernel

end Python

/-! ## Tokens -/

/-- `cryptography.fernet.Fernet` under one key. A token depends on the time and on a random
vector; `none` is `InvalidToken`. -/
structure Fernet where
  Salt : Type
  encrypt : Salt → String → String
  decrypt : String → Option String

def fernetPrefix : String := "gAAAAA"

/-- `is_encrypted` of a text -/
def isEncrypted (text : String) : Bool :=
  fernetPrefix.toList.isPrefixOf text.toList &&
    match Python.urlsafeB64decode text with
    | none => false
    | some raw => 73 ≤ raw.length && raw.head? = some 0x80

/-- What is known of Fernet. -/
structure Fernet.Lawful (f : Fernet) : Prop where
  decrypt_encrypt : ∀ salt text, f.decrypt (f.encrypt salt text) = some text
  isEncrypted_encrypt : ∀ salt text, isEncrypted (f.encrypt salt text) = true

/-- A text without the shape of a token is none. This is not so of every such text: Fernet passes
over characters that are not base64, and reads a token with one of them before it. -/
def Fernet.Rejects (f : Fernet) (text : String) : Prop :=
  isEncrypted text = false → f.decrypt text = none

/-! ## The walks -/

/-- The scalar fields that carry credential material. -/
def secretFields : List String :=
  ["connection_string", "url", "username", "password", "private_key", "access_key_id",
    "secret_access_key"]

section

variable (f : Fernet)

/-- `encrypt_value` -/
def encryptValue (salt : f.Salt) (v : Value) : Except PyError Value :=
  if v.truthy then
    match v with
    | .str text => .ok (.str (f.encrypt salt text))
    | v => .error (.attributeError v.typeName "encode")
  else .ok (.str "")

/-- One secret field of `encrypt_env_config`. -/
def encryptField (salt : String → f.Salt) (skipEncrypted : Bool) (result : Entries)
    (field : String) : Entries :=
  match Value.getD result field with
  | .str text =>
      if text = "" || skipEncrypted && isEncrypted text then result
      else result.put field (.str (f.encrypt (salt field) text))
  | _ => result

/-- One value of the header map. -/
def encryptHeader (salt : String → f.Salt) (skipEncrypted : Bool) (p : String × Value) :
    Except PyError (String × Value) :=
  match p.2 with
  | .str text =>
      if skipEncrypted && isEncrypted text then .ok p
      else (encryptValue f (salt ("headers." ++ p.1)) p.2).map (p.1, ·)
  | v => (encryptValue f (salt ("headers." ++ p.1)) v).map (p.1, ·)

/-- `encrypt_env_config`; `salt` draws for each leaf. -/
def encryptEnvConfig (salt : String → f.Salt) (skipEncrypted : Bool) (config : Entries) :
    Except PyError Entries :=
  let result := secretFields.foldl (encryptField f salt skipEncrypted) config
  let headers := Value.getD result "headers"
  if headers.truthy then
    match headers with
    | .dict entries =>
        (entries.mapM (encryptHeader f salt skipEncrypted)).map fun es =>
          result.put "headers" (.dict es)
    | v => .error (.attributeError v.typeName "items")
  else .ok result

/-- What `decrypt_env_config` makes of the value of a secret field. -/
def decryptLeaf (mismatch : String) : Value → Except PyError Value
  | .str text =>
      if text = "" then .ok (.str text)
      else
        match f.decrypt text with
        | some plain => .ok (.str plain)
        | none => if isEncrypted text then .error (.valueError mismatch) else .ok (.str text)
  | v => .ok v

def fieldMismatch (field : String) : String :=
  "connection credential decryption failed for field '" ++ field ++ "': encryption key " ++
    "mismatch — the workflow runtime's CONNECTION_ENCRYPTION_KEY does not match the key used " ++
    "to encrypt this connection. Align the key across services or re-create the connection."

def headerMismatch (key : String) : String :=
  "connection header credential decryption failed for '" ++ key ++ "': encryption key " ++
    "mismatch (see CONNECTION_ENCRYPTION_KEY). Align the key or re-create the connection."

/-- One secret field of `decrypt_env_config`. -/
def decryptField (result : Entries) (field : String) : Except PyError Entries :=
  if (Value.field result field).isSome then
    (decryptLeaf f (fieldMismatch field) (Value.getD result field)).map (result.put field)
  else .ok result

def decryptHeaders (entries : Entries) : Except PyError Entries :=
  entries.mapM fun p => (decryptLeaf f (headerMismatch p.1) p.2).map (p.1, ·)

/-- `decrypt_env_config` -/
def decryptEnvConfig (config : Entries) : Except PyError Entries := do
  let result ← secretFields.foldlM (decryptField f) config
  let headers := Value.getD result "headers"
  if headers.truthy then
    match headers with
    | .dict entries =>
        (decryptHeaders f entries).map fun out => result.put "headers" (.dict out)
    | v => .error (.attributeError v.typeName "items")
  else return result

end

/-- A text that is not empty and no token. -/
def cleartext : Value → Bool
  | .str text => text ≠ "" && !isEncrypted text
  | _ => false

/-- `assert_encrypted_envelope` -/
def assertEncryptedEnvelope (config : Entries) : Except PyError Unit := do
  let headers ←
    match config.getOr "headers" (.dict []) with
    | .dict entries => .ok entries
    | v => .error (.attributeError v.typeName "items")
  let offenders := (secretFields.filter fun field => cleartext (Value.getD config field)) ++
    (headers.filter fun p => cleartext p.2).map fun p => "headers." ++ p.1
  if offenders = [] then .ok ()
  else
    .error (.valueError ("refusing to store connection with cleartext secret field(s): " ++
      ", ".intercalate offenders))

/-! ## Leaf by leaf -/

namespace Entries

/-- Two dicts with the same entries, or the same exception. -/
def SameOutcome : Except PyError Entries → Except PyError Entries → Prop
  | .ok a, .ok b => ∀ key, Value.field a key = Value.field b key
  | .error e, .error e' => e = e'
  | _, _ => False

theorem put_field {d : Entries} {key : String} {v : Value} (h : Value.field d key = some v) :
    d.put key v = d := by
  induction d with
  | nil => cases h
  | cons p d ih =>
      obtain ⟨k, w⟩ := p
      simp only [Value.field, List.lookup_cons] at h
      simp only [put]
      split
      next heq =>
        subst heq
        simp at h
        rw [h]
      next hne =>
        have hkey : (key == k) = false := by simpa using Ne.symm hne
        rw [hkey] at h
        rw [ih h]

/-- Steps that each change the entry under one key. -/
theorem field_foldl {step : Entries → String → Entries}
    {leaf : String → Option Value → Option Value}
    (hself : ∀ d key, Value.field (step d key) key = leaf key (Value.field d key))
    (hother : ∀ d {key key'}, key' ≠ key → Value.field (step d key) key' = Value.field d key')
    {fields : List String} (hnodup : fields.Nodup) (d : Entries) (key : String) :
    Value.field (fields.foldl step d) key =
      if key ∈ fields then leaf key (Value.field d key) else Value.field d key := by
  induction fields generalizing d with
  | nil => simp
  | cons field fields ih =>
      rw [List.nodup_cons] at hnodup
      rw [List.foldl_cons, ih hnodup.2]
      by_cases hkey : key = field
      · subst hkey
        simp [hnodup.1, hself]
      · simp [hkey, hother d hkey]

end Entries

def errorOf {α : Type} : Except PyError α → Option PyError
  | .error e => some e
  | .ok _ => none

theorem findSome?_congr {α β : Type} {g g' : α → Option β} {xs : List α}
    (h : ∀ x ∈ xs, g x = g' x) : xs.findSome? g = xs.findSome? g' := by
  induction xs with
  | nil => rfl
  | cons x xs ih =>
      rw [List.findSome?_cons, List.findSome?_cons, h x List.mem_cons_self,
        ih fun y hy => h y (List.mem_cons_of_mem x hy)]

/-- Steps that each change the entry under one key, up to the first that fails. -/
theorem Entries.foldlM_spec {step : Entries → String → Except PyError Entries}
    {leaf : String → Option Value → Except PyError (Option Value)}
    (hfail : ∀ {d key e}, leaf key (Value.field d key) = .error e → step d key = .error e)
    (hstep : ∀ {d key o}, leaf key (Value.field d key) = .ok o → ∃ r, step d key = .ok r ∧
      Value.field r key = o ∧ ∀ key', key' ≠ key → Value.field r key' = Value.field d key')
    {fields : List String} (hnodup : fields.Nodup) (d : Entries) :
    (∃ r, fields.foldlM step d = .ok r ∧ ∀ key,
      (if key ∈ fields then leaf key (Value.field d key) else .ok (Value.field d key)) =
        .ok (Value.field r key)) ∨
    ∃ e, fields.foldlM step d = .error e ∧
      fields.findSome? (fun key => errorOf (leaf key (Value.field d key))) = some e := by
  induction fields generalizing d with
  | nil => exact .inl ⟨d, rfl, fun _ => by simp⟩
  | cons field fields ih =>
      rw [List.nodup_cons] at hnodup
      rw [List.foldlM_cons]
      -- what the first field holds, and what the other fields see of it
      cases hfirst : leaf field (Value.field d field) with
      | error e =>
          refine .inr ⟨e, ?_, by simp [errorOf, hfirst]⟩
          rw [hfail hfirst]
          rfl
      | ok o =>
          obtain ⟨r, hr, hself, hother⟩ := hstep hfirst
          have hrest : ∀ key ∈ fields,
              leaf key (Value.field r key) = leaf key (Value.field d key) := by
            intro key hmem
            have hne : key ≠ field := fun heq => hnodup.1 (heq ▸ hmem)
            rw [hother key hne]
          rw [hr]
          rcases ih hnodup.2 r with ⟨r', hr', hleaves⟩ | ⟨e, he, hfind⟩
          · refine .inl ⟨r', hr', fun key => ?_⟩
            have hkey := hleaves key
            by_cases hmem : key ∈ fields
            · simpa [hmem, hrest key hmem] using hkey
            · rw [if_neg hmem] at hkey
              by_cases heq : key = field
              · subst heq
                simpa [hfirst, hself] using hkey
              · simpa [hmem, heq, hother key heq] using hkey
          · refine .inr ⟨e, he, ?_⟩
            rw [List.findSome?_cons, hfirst]
            refine Eq.trans ?_ hfind
            exact findSome?_congr fun key hmem => by rw [hrest key hmem]

section

variable (f : Fernet)

/-- What a secret field holds after `encrypt_env_config`. -/
def sealLeaf (salt : f.Salt) (skipEncrypted : Bool) : Value → Value
  | .str text =>
      if text = "" || skipEncrypted && isEncrypted text then .str text
      else .str (f.encrypt salt text)
  | v => v

/-- What `decrypt_env_config` finds under a key. -/
def openedField (d : Entries) (key : String) : Except PyError (Option Value) :=
  match Value.field d key with
  | none => .ok none
  | some v => (decryptLeaf f (fieldMismatch key) v).map some

def openedHeaders (d : Entries) : Except PyError (Option Value) :=
  match Value.field d "headers" with
  | none => .ok none
  | some v =>
      if v.truthy then
        match v with
        | .dict entries => (decryptHeaders f entries).map fun out => some (.dict out)
        | v => .error (.attributeError v.typeName "items")
      else .ok (some v)

def opened (d : Entries) (key : String) : Except PyError (Option Value) :=
  if key ∈ secretFields then openedField f d key
  else if key = "headers" then openedHeaders f d
  else .ok (Value.field d key)

end

variable {f : Fernet} {salt : String → f.Salt} {skip : Bool} {d : Entries} {key : String}

theorem field_encryptField_self {field : String} :
    Value.field (encryptField f salt skip d field) field =
      (Value.field d field).map (sealLeaf f (salt field) skip) := by
  unfold encryptField
  cases hfield : Value.field d field with
  | none => simp [Value.getD, hfield]
  | some v =>
      cases v with
      | str text =>
          simp only [Value.getD, hfield, Option.getD_some, Option.map_some, sealLeaf]
          split
          · exact hfield
          · simp
      | _ => simp [Value.getD, hfield, sealLeaf]

theorem field_encryptField_of_ne {field : String} (hkey : key ≠ field) :
    Value.field (encryptField f salt skip d field) key = Value.field d key := by
  unfold encryptField
  split
  · split
    · rfl
    · exact Entries.field_put_of_ne hkey
  · rfl

theorem field_encryptFields {fields : List String} (hnodup : fields.Nodup) :
    Value.field (fields.foldl (encryptField f salt skip) d) key =
      if key ∈ fields then (Value.field d key).map (sealLeaf f (salt key) skip)
      else Value.field d key :=
  @Entries.field_foldl _ (fun key => Option.map (sealLeaf f (salt key) skip))
    (fun _ _ => field_encryptField_self) (fun _ _ _ => field_encryptField_of_ne) _ hnodup d key

/-- Fields are decrypted one by one, up to the first one that cannot be. -/
theorem decryptFields_spec {fields : List String} (hnodup : fields.Nodup) :
    (∃ r, fields.foldlM (decryptField f) d = .ok r ∧ ∀ key,
      (if key ∈ fields then openedField f d key else .ok (Value.field d key)) =
        .ok (Value.field r key)) ∨
    ∃ e, fields.foldlM (decryptField f) d = .error e ∧
      fields.findSome? (fun key => errorOf (openedField f d key)) = some e := by
  let leaf (key : String) : Option Value → Except PyError (Option Value)
    | none => .ok none
    | some v => (decryptLeaf f (fieldMismatch key) v).map some
  refine @Entries.foldlM_spec _ leaf ?_ ?_ fields hnodup d
  · intro d key e hleaf
    cases hfield : Value.field d key with
    | none => simp [leaf, hfield] at hleaf
    | some v =>
        cases hv : decryptLeaf f (fieldMismatch key) v with
        | ok w => simp [leaf, hfield, hv, Except.map] at hleaf
        | error e' =>
            have he : e' = e := by simpa [leaf, hfield, hv, Except.map] using hleaf
            simp [decryptField, hfield, Value.getD, hv, he, Except.map]
  · intro d key o hleaf
    cases hfield : Value.field d key with
    | none =>
        have : o = none := by simpa [leaf, hfield] using hleaf.symm
        exact ⟨d, by simp [decryptField, hfield], by rw [hfield, this], fun _ _ => rfl⟩
    | some v =>
        cases hv : decryptLeaf f (fieldMismatch key) v with
        | error e => simp [leaf, hfield, hv, Except.map] at hleaf
        | ok w =>
            have : o = some w := by simpa [leaf, hfield, hv, Except.map] using hleaf.symm
            refine ⟨Entries.put key w d, ?_, by simp [this],
              fun key hkey => Entries.field_put_of_ne hkey⟩
            simp [decryptField, hfield, Value.getD, hv, Except.map]

/-- What is left to decrypt after the secret fields. -/
theorem decryptEnvConfig_headers {f : Fernet} {d r : Entries}
    (hr : secretFields.foldlM (decryptField f) d = .ok r)
    (hheaders : Value.field r "headers" = Value.field d "headers") :
    (∃ out, decryptEnvConfig f d = .ok out ∧
      openedHeaders f d = .ok (Value.field out "headers") ∧
      ∀ key, key ≠ "headers" → Value.field out key = Value.field r key) ∨
    ∃ e, decryptEnvConfig f d = .error e ∧ openedHeaders f d = .error e := by
  simp only [decryptEnvConfig, hr, bind, Except.bind]
  cases hvalue : Value.field d "headers" with
  | none =>
      rw [hvalue] at hheaders
      refine .inl ⟨r, by simp [Value.getD, hheaders, Value.truthy, pure, Except.pure], ?_,
        fun _ _ => rfl⟩
      rw [openedHeaders, hvalue, hheaders]
  | some v =>
      rw [hvalue] at hheaders
      simp only [Value.getD, hheaders, Option.getD_some]
      by_cases htruthy : v.truthy = true
      · rw [if_pos htruthy]
        cases v with
        | dict entries =>
            simp only
            cases hmap : decryptHeaders f entries with
            | error e =>
                exact .inr ⟨e, rfl, by simp [openedHeaders, hvalue, htruthy, hmap, Except.map]⟩
            | ok out =>
                refine .inl ⟨r.put "headers" (.dict out), rfl, ?_,
                  fun key hkey => Entries.field_put_of_ne hkey⟩
                simp [openedHeaders, hvalue, htruthy, hmap, Except.map]
        | _ => exact .inr ⟨_, rfl, by simp [openedHeaders, hvalue, htruthy]⟩
      · rw [if_neg htruthy]
        refine .inl ⟨r, rfl, ?_, fun _ _ => rfl⟩
        simp [openedHeaders, hvalue, htruthy, hheaders]

/-- `decrypt_env_config` fails at the first leaf that cannot be decrypted. -/
theorem decryptEnvConfig_spec (f : Fernet) (d : Entries) :
    (∃ r, decryptEnvConfig f d = .ok r ∧ ∀ key, opened f d key = .ok (Value.field r key)) ∨
    ∃ e, decryptEnvConfig f d = .error e ∧
      (secretFields ++ ["headers"]).findSome? (fun key => errorOf (opened f d key)) = some e := by
  have hfields : ∀ key ∈ secretFields, opened f d key = openedField f d key :=
    fun key hkey => by rw [opened, if_pos hkey]
  have hnot : "headers" ∉ secretFields := by decide
  have hopened : opened f d "headers" = openedHeaders f d := by simp [opened, hnot]
  rcases @decryptFields_spec f d secretFields (by decide) with
    ⟨r, hr, hleaves⟩ | ⟨e, he, herror⟩
  · have hheaders : Value.field r "headers" = Value.field d "headers" := by
      simpa [hnot] using (hleaves "headers").symm
    rcases decryptEnvConfig_headers hr hheaders with ⟨out, hout, hself, hrest⟩ | ⟨e, he, herror⟩
    · refine .inl ⟨out, hout, fun key => ?_⟩
      by_cases hkey : key = "headers"
      · rw [hkey, hopened, hself]
      · rw [hrest key hkey]
        simpa [opened, hkey] using hleaves key
    · have hnone : secretFields.findSome? (fun key => errorOf (opened f d key)) = none := by
        refine List.findSome?_eq_none_iff.mpr fun key hkey => ?_
        have hleaf := hleaves key
        rw [if_pos hkey] at hleaf
        rw [hfields key hkey, hleaf, errorOf]
      refine .inr ⟨e, he, ?_⟩
      rw [List.findSome?_append, hnone]
      simp [hopened, herror, errorOf]
  · refine .inr ⟨e, by simp [decryptEnvConfig, he, bind, Except.bind], ?_⟩
    have hfind : secretFields.findSome? (fun key => errorOf (opened f d key)) =
        secretFields.findSome? fun key => errorOf (openedField f d key) :=
      findSome?_congr fun key hkey => by rw [hfields key hkey]
    rw [List.findSome?_append, hfind, herror, Option.some_or]

/-- What every leaf decrypts to is what the config decrypts to. -/
theorem decryptEnvConfig_ok {c : Entries}
    (h : ∀ key, opened f d key = .ok (Value.field c key)) :
    ∃ r, decryptEnvConfig f d = .ok r ∧ ∀ key, Value.field r key = Value.field c key := by
  rcases decryptEnvConfig_spec f d with ⟨r, hr, hleaves⟩ | ⟨e, he, hfind⟩
  · refine ⟨r, hr, fun key => ?_⟩
    have hkey := (hleaves key).symm.trans (h key)
    simpa using hkey
  · have hnone : (secretFields ++ ["headers"]).findSome?
        (fun key => errorOf (opened f d key)) = none :=
      List.findSome?_eq_none_iff.mpr fun key _ => by rw [h key, errorOf]
    rw [hnone] at hfind
    cases hfind

theorem decryptEnvConfig_congr {d' : Entries} (h : ∀ key, opened f d key = opened f d' key) :
    Entries.SameOutcome (decryptEnvConfig f d) (decryptEnvConfig f d') := by
  rcases decryptEnvConfig_spec f d with ⟨r, hr, hleaves⟩ | ⟨e, he, hfind⟩
  · obtain ⟨r', hr', hsame⟩ :=
      decryptEnvConfig_ok fun key => (h key).symm.trans (hleaves key)
    rw [hr, hr']
    exact fun key => (hsame key).symm
  · rcases decryptEnvConfig_spec f d' with ⟨r', hr', hleaves'⟩ | ⟨e', he', hfind'⟩
    · have hnone : (secretFields ++ ["headers"]).findSome?
          (fun key => errorOf (opened f d key)) = none :=
        List.findSome?_eq_none_iff.mpr fun key _ => by rw [h key, hleaves' key, errorOf]
      rw [hnone] at hfind
      cases hfind
    · rw [he, he']
      simp only [h] at hfind
      exact Option.some.inj (hfind.symm.trans hfind')

/-! ## The round trip -/

/-- The secret fields are absent, `None` or a text with `P`, and the header values texts with `P`. -/
structure Leaves (P : String → Prop) (c : Entries) : Prop where
  fields : ∀ key ∈ secretFields, ∀ v, Value.field c key = some v →
    v = .none ∨ ∃ text, v = .str text ∧ P text
  headers : ∀ v, Value.field c "headers" = some v →
    v = .none ∨ ∃ entries, v = .dict entries ∧ ∀ p ∈ entries, ∃ text, p.2 = .str text ∧ P text

/-- Empty, or a token. -/
def Sealed (text : String) : Prop := text = "" ∨ isEncrypted text = true

def sealHeaders (f : Fernet) (salt : String → f.Salt) (skip : Bool) (entries : Entries) : Entries :=
  entries.map fun p => (p.1, sealLeaf f (salt ("headers." ++ p.1)) skip p.2)

/-- What a key holds after `encrypt_env_config`. -/
def sealEntry (f : Fernet) (salt : String → f.Salt) (skip : Bool) (key : String) (v : Value) :
    Value :=
  if key ∈ secretFields then sealLeaf f (salt key) skip v
  else
    match v with
    | .dict entries => if key = "headers" then .dict (sealHeaders f salt skip entries) else v
    | v => v

theorem mapM_encryptHeader {entries : Entries} (h : ∀ p ∈ entries, ∃ text, p.2 = .str text) :
    entries.mapM (encryptHeader f salt skip) = .ok (sealHeaders f salt skip entries) := by
  rw [ElementWise.mapM_eq_ok, sealHeaders, List.forall₂_map_right_iff, List.forall₂_same]
  rintro ⟨key, v⟩ hp
  obtain ⟨text, rfl⟩ : ∃ text, v = .str text := h (key, v) hp
  simp only [encryptHeader, sealLeaf, encryptValue, Value.truthy]
  by_cases hskip : (skip && isEncrypted text) = true
  · rw [if_pos hskip, if_pos (by simp [hskip])]
  · rw [if_neg hskip]
    by_cases hempty : text = "" <;> simp [hskip, hempty, Except.map]

theorem encryptEnvConfig_ok {P : String → Prop} {c : Entries} (hc : Leaves P c) :
    ∃ e, encryptEnvConfig f salt skip c = .ok e ∧
      ∀ key, Value.field e key = (Value.field c key).map (sealEntry f salt skip key) := by
  have hnot : "headers" ∉ secretFields := by decide
  let result := secretFields.foldl (encryptField f salt skip) c
  have hfields : ∀ key, Value.field result key =
      if key ∈ secretFields then (Value.field c key).map (sealLeaf f (salt key) skip)
      else Value.field c key := fun key => field_encryptFields (by decide)
  have hheaders : Value.field result "headers" = Value.field c "headers" := by
    rw [hfields, if_neg hnot]
  -- the header map is what is left to look at
  have hall : ∀ e : Entries, (∀ key, key ≠ "headers" → Value.field e key = Value.field result key) →
      Value.field e "headers" = (Value.field c "headers").map (sealEntry f salt skip "headers") →
      ∀ key, Value.field e key = (Value.field c key).map (sealEntry f salt skip key) := by
    intro e hother hself key
    by_cases hkey : key = "headers"
    · subst hkey
      exact hself
    · rw [hother key hkey, hfields key]
      cases hv : Value.field c key with
      | none => simp
      | some v =>
          by_cases hmem : key ∈ secretFields
          · simp [hmem, sealEntry]
          · cases v <;> simp [hmem, sealEntry, hkey]
  have hkeep : (Value.getD result "headers").truthy = false →
      encryptEnvConfig f salt skip c = .ok result := fun h => by
    simp only [encryptEnvConfig]
    rw [if_neg (by rw [h]; exact Bool.false_ne_true)]
  cases hvalue : Value.field c "headers" with
  | none =>
      refine ⟨result, hkeep (by simp [Value.getD, hheaders, hvalue, Value.truthy]),
        hall result (fun _ _ => rfl) (by simp [hheaders, hvalue])⟩
  | some v =>
      rcases hc.headers v hvalue with rfl | ⟨entries, rfl, htexts⟩
      · exact ⟨result, hkeep (by simp [Value.getD, hheaders, hvalue, Value.truthy]),
          hall result (fun _ _ => rfl) (by simp [hheaders, hvalue, sealEntry, hnot])⟩
      · cases entries with
        | nil =>
            exact ⟨result, hkeep (by simp [Value.getD, hheaders, hvalue, Value.truthy]),
              hall result (fun _ _ => rfl)
                (by simp [hheaders, hvalue, sealEntry, hnot, sealHeaders])⟩
        | cons p entries =>
            have hmap : (p :: entries).mapM (encryptHeader f salt skip) =
                .ok (sealHeaders f salt skip (p :: entries)) :=
              mapM_encryptHeader fun q hq => (htexts q hq).imp fun _ => And.left
            refine ⟨result.put "headers" (.dict (sealHeaders f salt skip (p :: entries))), ?_,
              hall _ (fun key hkey => Entries.field_put_of_ne hkey)
                (by simp [hvalue, sealEntry, hnot])⟩
            simp only [encryptEnvConfig]
            rw [if_pos (by simp [Value.getD, result, hheaders, hvalue, Value.truthy])]
            simp [Value.getD, result, hheaders, hvalue, hmap, Except.map]

theorem decryptLeaf_token (hf : f.Lawful) (mismatch : String) (x : f.Salt) (text : String) :
    decryptLeaf f mismatch (.str (f.encrypt x text)) = .ok (.str text) := by
  have hne : f.encrypt x text ≠ "" := by
    intro hempty
    have htoken := hf.isEncrypted_encrypt x text
    rw [hempty] at htoken
    exact absurd htoken (by decide +kernel)
  simp [decryptLeaf, hne, hf.decrypt_encrypt]

/-- What is not token-shaped is legacy plaintext. -/
theorem decryptLeaf_legacy (mismatch : String) {text : String} (hrejects : f.Rejects text)
    (h : isEncrypted text = false) : decryptLeaf f mismatch (.str text) = .ok (.str text) := by
  simp [decryptLeaf, hrejects h, h]

theorem decryptLeaf_seal (hf : f.Lawful) (mismatch : String) (x : f.Salt) (v : Value) :
    decryptLeaf f mismatch (sealLeaf f x false v) = .ok v := by
  cases v with
  | str text =>
      by_cases hempty : text = ""
      · simp [sealLeaf, decryptLeaf, hempty]
      · simpa [sealLeaf, hempty] using decryptLeaf_token hf mismatch x text
  | _ => rfl

theorem decryptLeaf_seal_skip (hf : f.Lawful) (mismatch : String) (x : f.Salt) {v : Value}
    (hrejects : ∀ text, v = .str text → f.Rejects text) :
    decryptLeaf f mismatch (sealLeaf f x true v) = decryptLeaf f mismatch v := by
  cases v with
  | str text =>
      by_cases hempty : text = ""
      · simp [sealLeaf, hempty]
      · cases htoken : isEncrypted text with
        | true => simp [sealLeaf, htoken]
        | false =>
            rw [decryptLeaf_legacy mismatch (hrejects text rfl) htoken]
            simpa [sealLeaf, htoken, hempty] using decryptLeaf_token hf mismatch x text
  | _ => rfl

theorem decryptHeaders_seal (hf : f.Lawful) (entries : Entries) :
    decryptHeaders f (sealHeaders f salt false entries) = .ok entries := by
  induction entries with
  | nil => rfl
  | cons p entries ih =>
      simp only [decryptHeaders, sealHeaders] at ih ⊢
      rw [List.map_cons, List.mapM_cons, ih, decryptLeaf_seal hf]
      rfl

theorem decryptHeaders_seal_skip (hf : f.Lawful) {entries : Entries}
    (hrejects : ∀ p ∈ entries, ∃ text, p.2 = .str text ∧ f.Rejects text) :
    decryptHeaders f (sealHeaders f salt true entries) = decryptHeaders f entries := by
  induction entries with
  | nil => rfl
  | cons p entries ih =>
      obtain ⟨⟨text, hp, htext⟩, hentries⟩ := List.forall_mem_cons.mp hrejects
      have hleaf : ∀ text, p.2 = .str text → f.Rejects text := by
        intro text' heq
        rw [hp] at heq
        cases heq
        exact htext
      have hrest := ih hentries
      simp only [decryptHeaders, sealHeaders] at hrest ⊢
      rw [List.map_cons, List.mapM_cons, List.mapM_cons, hrest, decryptLeaf_seal_skip hf _ _ hleaf]

section

variable {P : String → Prop} {c e : Entries}

/-- An entry other than the header map is a leaf, or it is left as it is. -/
theorem sealEntry_of_mem (hkey : key ∈ secretFields) (v : Value) :
    sealEntry f salt skip key v = sealLeaf f (salt key) skip v := by
  unfold sealEntry
  rw [if_pos hkey]

theorem sealEntry_of_ne (hkey : key ∉ secretFields) (hne : key ≠ "headers") (v : Value) :
    sealEntry f salt skip key v = v := by
  cases v <;> simp [sealEntry, hkey, hne]

theorem opened_encrypted (hf : f.Lawful) (hc : Leaves P c)
    (he : ∀ key, Value.field e key = (Value.field c key).map (sealEntry f salt false key))
    (key : String) : opened f e key = .ok (Value.field c key) := by
  have hkey := he key
  by_cases hmem : key ∈ secretFields
  · rw [opened, if_pos hmem, openedField, hkey]
    cases Value.field c key with
    | none => rfl
    | some v => simp [sealEntry_of_mem hmem, decryptLeaf_seal hf, Except.map]
  · rw [opened, if_neg hmem]
    by_cases hne : key = "headers"
    · subst hne
      rw [if_pos rfl, openedHeaders, hkey]
      cases hv : Value.field c "headers" with
      | none => rfl
      | some v =>
          rcases hc.headers v hv with rfl | ⟨entries, rfl, -⟩
          · simp [sealEntry, hmem, Value.truthy]
          · cases entries with
            | nil => simp [sealEntry, hmem, sealHeaders, Value.truthy]
            | cons p entries =>
                have hempty : (sealHeaders f salt false (p :: entries)).isEmpty = false := rfl
                have hopen : decryptHeaders f (sealHeaders f salt false (p :: entries)) =
                    .ok (p :: entries) := decryptHeaders_seal hf _
                simp [sealEntry, hmem, Value.truthy, hopen, hempty, Except.map]
    · rw [if_neg hne, hkey]
      cases Value.field c key with
      | none => rfl
      | some v => simp [sealEntry_of_ne hmem hne]

theorem opened_encrypted_skip (hf : f.Lawful) (hc : Leaves f.Rejects c)
    (he : ∀ key, Value.field e key = (Value.field c key).map (sealEntry f salt true key))
    (key : String) : opened f e key = opened f c key := by
  have hkey := he key
  by_cases hmem : key ∈ secretFields
  · simp only [opened, if_pos hmem, openedField, hkey]
    cases hv : Value.field c key with
    | none => rfl
    | some v =>
        have hleaf : ∀ text, v = .str text → f.Rejects text := by
          rintro text rfl
          rcases hc.fields key hmem _ hv with hnone | ⟨text', heq, htext⟩
          · cases hnone
          · cases heq
            exact htext
        simp [sealEntry_of_mem hmem, decryptLeaf_seal_skip hf _ _ hleaf]
  · simp only [opened, if_neg hmem]
    by_cases hne : key = "headers"
    · subst hne
      simp only [if_true, openedHeaders, hkey]
      cases hv : Value.field c "headers" with
      | none => rfl
      | some v =>
          rcases hc.headers v hv with rfl | ⟨entries, rfl, hrejects⟩
          · simp [sealEntry, hmem, Value.truthy]
          · have hempty : (sealHeaders f salt true entries).isEmpty = entries.isEmpty := by
              cases entries <;> rfl
            have hopen : decryptHeaders f (sealHeaders f salt true entries) =
                decryptHeaders f entries := decryptHeaders_seal_skip hf hrejects
            cases entries with
            | nil => simp [sealEntry, hmem, Value.truthy, sealHeaders]
            | cons p entries => simp [sealEntry, hmem, Value.truthy, hopen, hempty]
    · simp only [if_neg hne, hkey]
      cases Value.field c key with
      | none => rfl
      | some v => simp [sealEntry_of_ne hmem hne]

end

/-! ## Sealed configs -/

theorem sealLeaf_sealed (hf : f.Lawful) (x : f.Salt) (text : String) :
    ∃ t, sealLeaf f x skip (.str text) = .str t ∧ Sealed t := by
  by_cases hkeep : (text = "" || skip && isEncrypted text) = true
  · refine ⟨text, by rw [sealLeaf, if_pos hkeep], ?_⟩
    rcases Bool.or_eq_true_iff.mp hkeep with hempty | htoken
    · exact .inl (of_decide_eq_true hempty)
    · exact .inr (Bool.and_eq_true_iff.mp htoken).2
  · exact ⟨f.encrypt x text, by rw [sealLeaf, if_neg hkeep], .inr (hf.isEncrypted_encrypt _ _)⟩

theorem sealLeaf_of_sealed (x : f.Salt) {text : String} (h : Sealed text) :
    sealLeaf f x true (.str text) = .str text := by
  rcases h with rfl | htoken
  · rfl
  · simp [sealLeaf, htoken]

section

variable {P : String → Prop} {c e : Entries}

/-- What `encrypt_env_config` writes is empty or a token. -/
theorem Leaves.sealed (hf : f.Lawful) (hc : Leaves P c)
    (he : ∀ key, Value.field e key = (Value.field c key).map (sealEntry f salt skip key)) :
    Leaves Sealed e := by
  constructor
  · intro key hkey v hv
    rw [he key] at hv
    obtain ⟨w, hw, rfl⟩ := Option.map_eq_some_iff.mp hv
    rw [sealEntry_of_mem hkey]
    rcases hc.fields key hkey w hw with rfl | ⟨text, rfl, -⟩
    · exact .inl rfl
    · exact .inr (sealLeaf_sealed hf _ text)
  · intro v hv
    rw [he "headers"] at hv
    obtain ⟨w, hw, rfl⟩ := Option.map_eq_some_iff.mp hv
    rcases hc.headers w hw with rfl | ⟨entries, rfl, htexts⟩
    · exact .inl rfl
    · refine .inr ⟨sealHeaders f salt skip entries, rfl, fun p hp => ?_⟩
      obtain ⟨q, hq, rfl⟩ := List.mem_map.mp hp
      obtain ⟨text, htext, -⟩ := htexts q hq
      simp only [htext]
      exact sealLeaf_sealed hf _ text

theorem encryptField_sealed (he : Leaves Sealed e) {field : String} (hfield : field ∈ secretFields) :
    encryptField f salt true e field = e := by
  unfold encryptField
  split
  next text htext =>
    have hvalue : Value.field e field = some (.str text) := by
      cases hv : Value.field e field with
      | none => simp [Value.getD, hv] at htext
      | some v => simpa [Value.getD, hv] using htext
    rcases he.fields field hfield _ hvalue with hnone | ⟨t, ht, hempty | htoken⟩
    · cases hnone
    · simp [Value.str.inj ht, hempty]
    · simp [Value.str.inj ht, htoken]
  next => rfl

theorem sealHeaders_sealed {entries : Entries}
    (h : ∀ p ∈ entries, ∃ text, p.2 = .str text ∧ Sealed text) :
    sealHeaders f salt true entries = entries := by
  refine (List.map_congr_left fun p hp => ?_).trans (List.map_id entries)
  obtain ⟨key, v⟩ := p
  obtain ⟨text, rfl, htext⟩ : ∃ text, v = .str text ∧ Sealed text := h _ hp
  rw [sealLeaf_of_sealed _ htext, id]

/-- Nothing is left to encrypt. -/
theorem encryptEnvConfig_sealed (he : Leaves Sealed e) : encryptEnvConfig f salt true e = .ok e := by
  have hfields : ∀ fields : List String, fields ⊆ secretFields →
      fields.foldl (encryptField f salt true) e = e := by
    intro fields hsub
    induction fields with
    | nil => rfl
    | cons field fields ih =>
        rw [List.foldl_cons, encryptField_sealed he (hsub List.mem_cons_self)]
        exact ih fun x hx => hsub (List.mem_cons_of_mem field hx)
  simp only [encryptEnvConfig, hfields secretFields (List.Subset.refl _)]
  split
  next htruthy =>
    cases hv : Value.field e "headers" with
    | none => simp [Value.getD, hv, Value.truthy] at htruthy
    | some v =>
        rcases he.headers v hv with rfl | ⟨entries, rfl, hsealed⟩
        · simp [Value.getD, hv, Value.truthy] at htruthy
        · have hmap : entries.mapM (encryptHeader f salt true) = .ok entries := by
            rw [mapM_encryptHeader fun p hp => (hsealed p hp).imp fun _ => And.left,
              sealHeaders_sealed hsealed]
          simp [Value.getD, hv, hmap, Except.map, Entries.put_field hv]
  next => rfl

theorem cleartext_sealed {text : String} (h : Sealed text) : cleartext (.str text) = false := by
  rcases h with rfl | htoken
  · rfl
  · simp [cleartext, htoken]

theorem assertEncryptedEnvelope_sealed (he : Leaves Sealed e) :
    assertEncryptedEnvelope e = .ok () := by
  have hfields : (secretFields.filter fun field => cleartext (Value.getD e field)) = [] := by
    refine List.filter_eq_nil_iff.mpr fun field hfield => ?_
    cases hv : Value.field e field with
    | none => simp [Value.getD, hv, cleartext]
    | some v =>
        rcases he.fields field hfield v hv with rfl | ⟨text, rfl, hsealed⟩
        · simp [Value.getD, hv, cleartext]
        · simp [Value.getD, hv, cleartext_sealed hsealed]
  obtain ⟨entries, hget, hsealed⟩ : ∃ entries, e.getOr "headers" (.dict []) = .dict entries ∧
      ∀ p ∈ entries, ∃ text, p.2 = .str text ∧ Sealed text := by
    cases hv : Value.field e "headers" with
    | none => exact ⟨[], by simp [Entries.getOr, Value.getD, hv, Value.truthy], by simp⟩
    | some v =>
        rcases he.headers v hv with rfl | ⟨entries, rfl, hsealed⟩
        · exact ⟨[], by simp [Entries.getOr, Value.getD, hv, Value.truthy], by simp⟩
        · refine ⟨entries, ?_, hsealed⟩
          cases entries <;> simp [Entries.getOr, Value.getD, hv, Value.truthy]
  have hheaders : (entries.filter fun p => cleartext p.2) = [] := by
    refine List.filter_eq_nil_iff.mpr fun p hp => ?_
    obtain ⟨text, htext, ht⟩ := hsealed p hp
    simp [htext, cleartext_sealed ht]
  simp [assertEncryptedEnvelope, hget, hfields, hheaders, bind, Except.bind]

end

/-- Encryption round trip: a config is decrypted to what it was, the guard accepts it, encrypting
it again changes nothing, and a config with legacy leaves, which Fernet rejects, decrypts to the
same before and after they are encrypted. -/
theorem encryption_roundtrip (f : Fernet) (hf : f.Lawful) (salt : String → f.Salt) (c : Entries)
    (hc : Leaves (fun _ => True) c) :
    (∃ e, encryptEnvConfig f salt false c = .ok e ∧
      (∃ d, decryptEnvConfig f e = .ok d ∧ ∀ key, Value.field d key = Value.field c key) ∧
      assertEncryptedEnvelope e = .ok () ∧
      ∀ salt', encryptEnvConfig f salt' true e = .ok e) ∧
    (Leaves f.Rejects c → ∃ s, encryptEnvConfig f salt true c = .ok s ∧
      Entries.SameOutcome (decryptEnvConfig f s) (decryptEnvConfig f c)) := by
  obtain ⟨e, he, hsealed⟩ := @encryptEnvConfig_ok f salt false _ _ hc
  obtain ⟨s, hs, hskipped⟩ := @encryptEnvConfig_ok f salt true _ _ hc
  have hleaves := hc.sealed hf hsealed
  exact ⟨⟨e, he, decryptEnvConfig_ok (opened_encrypted hf hc hsealed),
      assertEncryptedEnvelope_sealed hleaves, fun _ => encryptEnvConfig_sealed hleaves⟩,
    fun hrejects => ⟨s, hs, decryptEnvConfig_congr (opened_encrypted_skip hf hrejects hskipped)⟩⟩

/-! ### A cipher of that kind -/

/-- A character as groups of four. -/
def sampleCode (c : Char) : List Char :=
  (List.replicate c.toNat ['B', 'B', 'B', 'B']).flatten ++ ['C', 'A', 'A', 'A']

/-- The version byte and the rest of the 73 bytes that every token has. -/
def sampleHead : List Char :=
  ['g', 'A', 'A', 'A', 'A', 'A', 'B', 'A'] ++ (List.replicate 23 ['A', 'A', 'A', 'A']).flatten

def sampleToken (text : String) : String :=
  String.ofList (sampleHead ++ text.toList.flatMap sampleCode)

def sampleRead : Nat → List Char → List Char
  | n, 'B' :: 'B' :: 'B' :: 'B' :: cs => sampleRead (n + 1) cs
  | n, 'C' :: 'A' :: 'A' :: 'A' :: cs => Char.ofNat n :: sampleRead 0 cs
  | _, _ => []

def sampleFernet : Fernet where
  Salt := Unit
  encrypt _ text := sampleToken text
  decrypt token :=
    let text := String.ofList (sampleRead 0 (token.toList.drop 100))
    if sampleToken text = token then some text else none

theorem sampleRead_code (n m : Nat) (cs : List Char) :
    sampleRead n ((List.replicate m ['B', 'B', 'B', 'B']).flatten ++ cs) = sampleRead (n + m) cs := by
  induction m generalizing n with
  | zero => rfl
  | succ m ih =>
      have hstep := ih (n + 1)
      rw [Nat.add_right_comm] at hstep
      exact hstep

theorem sampleRead_flatMap (cs : List Char) : sampleRead 0 (cs.flatMap sampleCode) = cs := by
  induction cs with
  | nil => rfl
  | cons c cs ih =>
      rw [List.flatMap_cons, sampleCode, List.append_assoc, sampleRead_code, Nat.zero_add]
      change Char.ofNat c.toNat :: sampleRead 0 (cs.flatMap sampleCode) = c :: cs
      rw [ih, Char.ofNat_toNat]

/-- A group that decodes to these bytes, any number of times. -/
theorem a2bBase64_groups {group : List Char} {bytes : List Nat}
    (h : ∀ cs out, Python.a2bBase64 (group ++ cs) 0 0 0 out =
      Python.a2bBase64 cs 0 0 0 (out ++ bytes)) (m : Nat) (cs : List Char) (out : List Nat) :
    Python.a2bBase64 ((List.replicate m group).flatten ++ cs) 0 0 0 out =
      Python.a2bBase64 cs 0 0 0 (out ++ (List.replicate m bytes).flatten) := by
  induction m generalizing out with
  | zero => simp
  | succ m ih =>
      rw [List.replicate_succ, List.flatten_cons, List.append_assoc, h, ih,
        List.replicate_succ, List.flatten_cons, List.append_assoc]

theorem a2bBase64_flatMap (cs : List Char) (out : List Nat) :
    ∃ bytes, Python.a2bBase64 (cs.flatMap sampleCode) 0 0 0 out = some (out ++ bytes) := by
  induction cs generalizing out with
  | nil => exact ⟨[], by simp [Python.a2bBase64]⟩
  | cons c cs ih =>
      have hgroup : ∀ cs out, Python.a2bBase64 (['B', 'B', 'B', 'B'] ++ cs) 0 0 0 out =
          Python.a2bBase64 cs 0 0 0 (out ++ [4, 16, 65]) := fun cs out => by
        simp [Python.a2bBase64, Python.base64Value]
      let bytes := (List.replicate c.toNat [4, 16, 65]).flatten ++ [8, 0, 0]
      obtain ⟨rest, hrest⟩ := ih (out ++ bytes)
      refine ⟨bytes ++ rest, ?_⟩
      rw [List.flatMap_cons, sampleCode, List.append_assoc, a2bBase64_groups hgroup]
      simpa [bytes, Python.a2bBase64, Python.base64Value] using hrest

def sampleBytes : List Nat := [0x80, 0, 0, 0, 0, 64] ++ (List.replicate 23 [0, 0, 0]).flatten

theorem a2bBase64_head (cs : List Char) :
    Python.a2bBase64 (sampleHead ++ cs) 0 0 0 [] = Python.a2bBase64 cs 0 0 0 sampleBytes := by
  have hgroup : ∀ cs out, Python.a2bBase64 (['A', 'A', 'A', 'A'] ++ cs) 0 0 0 out =
      Python.a2bBase64 cs 0 0 0 (out ++ [0, 0, 0]) := fun cs out => by
    simp [Python.a2bBase64, Python.base64Value]
  rw [sampleBytes, ← a2bBase64_groups hgroup, sampleHead, List.append_assoc]
  generalize (List.replicate 23 ['A', 'A', 'A', 'A']).flatten ++ cs = rest
  simp [Python.a2bBase64, Python.base64Value]

theorem sampleFernet_lawful : sampleFernet.Lawful where
  decrypt_encrypt _ text := by
    have hdrop : (sampleToken text).toList.drop 100 = text.toList.flatMap sampleCode := by
      rw [sampleToken, String.toList_ofList]
      exact List.drop_left' rfl
    simp [sampleFernet, hdrop, sampleRead_flatMap]
  isEncrypted_encrypt _ text := by
    obtain ⟨bytes, hbytes⟩ := a2bBase64_flatMap text.toList sampleBytes
    have hraw : Python.urlsafeB64decode (sampleToken text) = some (sampleBytes ++ bytes) := by
      rw [Python.urlsafeB64decode, sampleToken, String.toList_ofList, a2bBase64_head, hbytes]
    have hlength : 73 ≤ (sampleBytes ++ bytes).length := by
      rw [List.length_append]
      exact Nat.le_trans (by decide) (Nat.le_add_right _ _)
    have hprefix : fernetPrefix.toList.isPrefixOf (sampleToken text).toList = true := by
      rw [sampleToken, String.toList_ofList]
      rfl
    have hversion : (sampleBytes ++ bytes).head? = some 0x80 := rfl
    simp only [isEncrypted, sampleFernet, hprefix, hraw, hlength, hversion, decide_true,
      Bool.and_self]

theorem sampleFernet_rejects (text : String) : sampleFernet.Rejects text := by
  intro hshape
  have hne : sampleToken (String.ofList (sampleRead 0 (text.toList.drop 100))) ≠ text := by
    intro heq
    have htoken := sampleFernet_lawful.isEncrypted_encrypt ()
      (String.ofList (sampleRead 0 (text.toList.drop 100)))
    rw [show sampleFernet.encrypt () _ = text from heq, hshape] at htoken
    cases htoken
  simp [sampleFernet, hne]

def sampleConfig : Entries :=
  [("connection_string", .str "postgres://db"), ("password", .str ""), ("host", .str "db"),
    ("headers", .dict [("Authorization", .str "Bearer x"), ("X-Empty", .str "")])]

theorem sampleConfig_leaves {P : String → Prop} (h : ∀ text, P text) : Leaves P sampleConfig := by
  constructor
  · intro key hkey v hv
    simp only [secretFields, List.mem_cons, List.not_mem_nil, or_false] at hkey
    rcases hkey with rfl | rfl | rfl | rfl | rfl | rfl | rfl <;> cases hv
    · exact .inr ⟨_, rfl, h _⟩
    · exact .inr ⟨_, rfl, h _⟩
  · intro v hv
    cases hv
    refine .inr ⟨_, rfl, fun p hp => ?_⟩
    simp only [List.mem_cons, List.not_mem_nil, or_false] at hp
    rcases hp with rfl | rfl
    · exact ⟨_, rfl, h _⟩
    · exact ⟨_, rfl, h _⟩

theorem encryption_roundtrip_sample :
    (∃ e, encryptEnvConfig sampleFernet (fun _ => ()) false sampleConfig = .ok e ∧
      (∃ d, decryptEnvConfig sampleFernet e = .ok d ∧
        ∀ key, Value.field d key = Value.field sampleConfig key) ∧
      assertEncryptedEnvelope e = .ok () ∧
      ∀ salt', encryptEnvConfig sampleFernet salt' true e = .ok e) ∧
    ∃ s, encryptEnvConfig sampleFernet (fun _ => ()) true sampleConfig = .ok s ∧
      Entries.SameOutcome (decryptEnvConfig sampleFernet s)
        (decryptEnvConfig sampleFernet sampleConfig) :=
  (encryption_roundtrip sampleFernet sampleFernet_lawful (fun _ => ()) sampleConfig
    (sampleConfig_leaves fun _ => trivial)).imp_right
      fun h => h (sampleConfig_leaves sampleFernet_rejects)

end CitraFlows
