-- SUMMARY: The webhook endpoint and the rotation of its token: a replaced token is found for its grace period, with the secret of the new one.
import CitraFlows.Workflows.Model

/-!
# Webhooks

A webhook call names a workflow by its token and is signed with the secret of the workflow. A
rotation draws a new token and a new secret; the old token stays in the document, the old secret
does not. Times are in milliseconds.
-/

namespace CitraFlows.Webhook

/-! ## Documents -/

/-- A document of `Workflows` with the time of its last rotation. -/
structure Document extends StoredWorkflow where
  tokenRotatedAt : Option Int := none

/-- The document has the token, now or from before the last rotation. -/
def Document.Carries (doc : Document) (token : String) : Prop :=
  doc.webhookToken = some token ∨ doc.previousWebhookToken = some token

/-- Only deployed and active workflows answer. -/
def Document.live (doc : Document) : Bool := doc.deployed && doc.isActive

/-! ## Rotation -/

/-- A call of `rotate_webhook_token`, with what it draws. -/
structure Rotation where
  workflowId : String
  /-- `_check_workflow_action` -/
  allowed : Bool
  newToken : String
  newSecret : String
  now : Int

/-- `update_one`: the first document that matches. -/
def updateOne (matching : Document → Bool) (f : Document → Document) :
    List Document → List Document
  | [] => []
  | doc :: docs =>
      if matching doc then f doc :: docs else doc :: updateOne matching f docs

/-- The `$set` of a rotation. -/
def Rotation.write (r : Rotation) (read doc : Document) : Document where
  toStoredWorkflow := WorkflowRequest.write read.toStoredWorkflow doc.toStoredWorkflow
    (.rotateWebhookToken r.newToken r.newSecret)
  tokenRotatedAt := some r.now

def rotateWebhookToken (docs : List Document) (r : Rotation) : List Document :=
  match docs.find? (·.workflowId = r.workflowId) with
  | none => docs
  | some doc =>
      if r.allowed && doc.webhookToken.any (· ≠ "") then
        updateOne (·.workflowId = r.workflowId) (r.write doc) docs
      else docs

/-! ## The endpoint -/

structure Config where
  /-- `hmac.new(secret, payload, sha256).hexdigest()` -/
  hexdigest : String → List UInt8 → String
  hexdigest_ne : ∀ secret payload, hexdigest secret payload ≠ ""
  rateLimit : Nat
  /-- Seconds, as the next two. -/
  rateLimitWindow : Nat
  gracePeriod : Nat
  replayWindow : Nat

structure HttpError where
  status : Nat
  detail : String

structure Call where
  token : String
  signature : String
  timestamp : String
  body : List UInt8
  now : Int

section
variable (cfg : Config)

/-- `_check_rate_limit`; `bucket` holds the times of the calls with the token. -/
def checkRateLimit (bucket : List Int) (now : Int) : Bool :=
  (bucket.filter fun t => now - t < 1000 * cfg.rateLimitWindow).length < cfg.rateLimit

/-- The document of the token: that of the current token, or that of a token replaced within the
grace period. -/
def findDocument (docs : List Document) (token : String) (now : Int) : Option Document :=
  match docs.find? (fun doc => doc.webhookToken = some token && doc.live) with
  | some doc => some doc
  | none =>
      match docs.find? (fun doc => doc.previousWebhookToken = some token && doc.live) with
      | some doc =>
          if doc.tokenRotatedAt.any (fun rotatedAt => now - rotatedAt > 1000 * cfg.gracePeriod) then
            none
          else some doc
      | none => none

/-- `f"{ts_header}.".encode() + raw_body` -/
def Call.payload (call : Call) : List UInt8 :=
  (call.timestamp ++ ".").toUTF8.data.toList ++ call.body

/-- The timestamp is a number, not further from the clock than the replay window. -/
def Call.checkTimestamp (call : Call) : Except HttpError Unit :=
  match Python.int call.timestamp.toList with
  | none => .error ⟨401, "Invalid or missing X-Webhook-Timestamp"⟩
  | some ts =>
      if (call.now - 1000 * ts).natAbs > 1000 * cfg.replayWindow then
        .error ⟨401, "Webhook timestamp expired"⟩
      else .ok ()

/-- The signature is checked with the secret that the document has now. -/
def Call.checkSignature (call : Call) (doc : Document) : Except HttpError Unit :=
  let webhookSecret := doc.webhookSecret.getD ""
  if webhookSecret = "" then
    .error ⟨401, "This webhook has no signing secret — re-deploy the workflow to provision one. " ++
      "Unsigned calls are rejected."⟩
  else if call.signature = "" then .error ⟨401, "Missing X-Webhook-Signature header"⟩
  else do
    call.checkTimestamp cfg
    if cfg.hexdigest webhookSecret call.payload = call.signature then .ok ()
    else .error ⟨401, "Invalid webhook signature"⟩

/-- `webhook_trigger`, up to the workflow whose run it starts. -/
def webhookTrigger (docs : List Document) (bucket : List Int) (call : Call) :
    Except HttpError Document :=
  if !checkRateLimit cfg bucket call.now then .error ⟨429, "Webhook rate limit exceeded"⟩
  else
    match findDocument cfg docs call.token call.now with
    | none => .error ⟨404, "Webhook not found or workflow not deployed"⟩
    | some doc => do
        call.checkSignature cfg doc
        return doc

end

/-! ## What was issued -/

/-- A token and a secret issued together. -/
structure Issue where
  token : String
  secret : String
  issuedAt : Int

/-- What was issued for a workflow, the newest first, after some more rotations. -/
def issues (workflowId : String) : List Issue → List Rotation → List Issue
  | history, [] => history
  | history, r :: rs =>
      issues workflowId
        (if r.workflowId = workflowId && r.allowed then
          ⟨r.newToken, r.newSecret, r.now⟩ :: history
        else history) rs

/-- The token is the current one, or the latest rotation has replaced it at most the grace period
ago. -/
def Entitled (cfg : Config) (history : List Issue) (token : String) (now : Int) : Prop :=
  match history with
  | [] => False
  | [current] => token = current.token
  | current :: replaced :: _ =>
      token = current.token ∨
        token = replaced.token ∧ now - current.issuedAt ≤ 1000 * cfg.gracePeriod

/-- The call is signed with the secret, within the replay window. -/
def Call.SignedWith (cfg : Config) (call : Call) (secret : String) : Prop :=
  call.signature = cfg.hexdigest secret call.payload ∧ (call.checkTimestamp cfg).isOk = true

/-- The documents agree with what was issued for the workflow: it is live, it carries the newest
token and secret and the token before, and nobody else carries any of its tokens. -/
structure Tracks (docs : List Document) (workflowId : String) (current : Issue)
    (older : List Issue) (used : List String) : Prop where
  ids : (docs.map (·.workflowId)).Nodup
  document : ∃ doc ∈ docs, doc.workflowId = workflowId ∧ doc.live = true ∧
    doc.webhookToken = some current.token ∧ doc.webhookSecret = some current.secret ∧
    doc.previousWebhookToken = older.head?.map Issue.token ∧
    (older ≠ [] → doc.tokenRotatedAt = some current.issuedAt)
  others : ∀ doc ∈ docs, doc.workflowId ≠ workflowId → ∀ x ∈ current :: older,
    ¬ doc.Carries x.token
  distinct : ((current :: older).map Issue.token).Nodup
  nonempty : current.token ≠ "" ∧ current.secret ≠ ""
  used : (∀ doc ∈ docs, ∀ token, doc.Carries token → token ∈ used) ∧
    ∀ x ∈ current :: older, x.token ∈ used

/-- `secrets.token_urlsafe(32)` draws texts that were not drawn before. -/
structure Drawn (used : List String) (rs : List Rotation) : Prop where
  fresh : ∀ r ∈ rs, r.newToken ∉ used
  distinct : (rs.map Rotation.newToken).Nodup
  nonempty : ∀ r ∈ rs, r.newToken ≠ "" ∧ r.newSecret ≠ ""

/-! ## Rotations -/

section
variable {docs : List Document} {workflowId : String} {current : Issue} {older : List Issue}
  {used : List String}

/-- Where the ids are unique, the first document that matches is the only one. -/
theorem updateOne_eq_map {id : String} {f : Document → Document}
    (hids : (docs.map (·.workflowId)).Nodup) :
    updateOne (·.workflowId = id) f docs =
      docs.map fun doc => if doc.workflowId = id then f doc else doc := by
  induction docs with
  | nil => rfl
  | cons doc docs ih =>
      obtain ⟨hnot, hids⟩ := List.nodup_cons.mp hids
      by_cases hid : doc.workflowId = id
      · have hsame : docs.map (fun d => if d.workflowId = id then f d else d) = docs := by
          refine (List.map_congr_left fun d hd => ?_).trans (List.map_id docs)
          have hne : d.workflowId ≠ id := fun heq =>
            hnot (List.mem_map.mpr ⟨d, hd, heq.trans hid.symm⟩)
          simp [hne]
        simp [updateOne, hid, hsame]
      · simp [updateOne, hid, ih hids]

theorem eq_of_id (hids : (docs.map (·.workflowId)).Nodup) {doc doc' : Document} (h : doc ∈ docs)
    (h' : doc' ∈ docs) (hid : doc.workflowId = doc'.workflowId) : doc = doc' :=
  List.inj_on_of_nodup_map hids h h' hid

/-- A rotation is refused, or it writes the document of its workflow. -/
theorem rotate_cases (hids : (docs.map (·.workflowId)).Nodup) (r : Rotation) :
    (rotateWebhookToken docs r = docs ∧
      ∀ doc ∈ docs, doc.workflowId = r.workflowId → doc.webhookToken.any (· ≠ "") = true →
        r.allowed = false) ∨
    ∃ read ∈ docs, read.workflowId = r.workflowId ∧ r.allowed = true ∧
      rotateWebhookToken docs r =
        docs.map fun doc => if doc.workflowId = r.workflowId then r.write read doc else doc := by
  unfold rotateWebhookToken
  split
  next hnone =>
    refine Or.inl ⟨rfl, fun doc hdoc hid => ?_⟩
    simpa [hid] using List.find?_eq_none.mp hnone doc hdoc
  next read hfind =>
    have hread := List.mem_of_find?_eq_some hfind
    have hid : read.workflowId = r.workflowId := by simpa using List.find?_some hfind
    split
    next hgo =>
      simp only [Bool.and_eq_true] at hgo
      exact Or.inr ⟨read, hread, hid, hgo.1, updateOne_eq_map hids⟩
    next hno =>
      refine Or.inl ⟨rfl, fun doc hdoc hdid htoken => ?_⟩
      obtain rfl := eq_of_id hids hdoc hread (hdid.trans hid.symm)
      rw [htoken, Bool.and_true] at hno
      exact Bool.eq_false_iff.mpr hno

/-- The texts that were drawn may be more. -/
theorem Tracks.drawn (h : Tracks docs workflowId current older used) (token : String) :
    Tracks docs workflowId current older (token :: used) :=
  { h with
    used := ⟨fun doc hdoc t ht => List.mem_cons_of_mem _ (h.used.1 doc hdoc t ht),
      fun x hx => List.mem_cons_of_mem _ (h.used.2 x hx)⟩ }

/-- The ids and the tokens in use after the write of a rotation. -/
theorem Tracks.written (h : Tracks docs workflowId current older used) {r : Rotation}
    {read : Document} (hread : read ∈ docs) :
    (((docs.map fun doc => if doc.workflowId = r.workflowId then r.write read doc else doc)).map
        (·.workflowId)).Nodup ∧
      ∀ doc ∈ docs.map (fun doc => if doc.workflowId = r.workflowId then r.write read doc else doc),
        ∀ token, doc.Carries token → token ∈ r.newToken :: used := by
  refine ⟨?_, fun doc' hdoc' token hcarries => ?_⟩
  · have hsame : ((docs.map fun doc =>
        if doc.workflowId = r.workflowId then r.write read doc else doc)).map (·.workflowId) =
          docs.map (·.workflowId) := by
      rw [List.map_map]
      refine List.map_congr_left fun doc _ => ?_
      simp only [Function.comp_apply]
      split <;> rfl
    rw [hsame]
    exact h.ids
  · obtain ⟨doc, hdoc, rfl⟩ := List.mem_map.mp hdoc'
    split at hcarries
    · rcases hcarries with heq | heq
      · cases heq
        exact List.mem_cons_self
      · exact List.mem_cons_of_mem _ (h.used.1 read hread token (Or.inl heq))
    · exact List.mem_cons_of_mem _ (h.used.1 doc hdoc token hcarries)

/-- A rotation of another workflow, or one that is refused. -/
theorem Tracks.rotate_other (h : Tracks docs workflowId current older used) {r : Rotation}
    (hfresh : r.newToken ∉ used) (hother : ¬ (r.workflowId = workflowId ∧ r.allowed = true)) :
    Tracks (rotateWebhookToken docs r) workflowId current older (r.newToken :: used) := by
  rcases rotate_cases h.ids r with ⟨heq, -⟩ | ⟨read, hread, hid, hallowed, heq⟩
  · rw [heq]
    exact h.drawn r.newToken
  · have hne : r.workflowId ≠ workflowId := fun hw => hother ⟨hw, hallowed⟩
    obtain ⟨hids, hused⟩ := h.written (r := r) hread
    rw [heq]
    refine ⟨hids, ?_, ?_, h.distinct, h.nonempty, hused,
      fun x hx => List.mem_cons_of_mem _ (h.used.2 x hx)⟩
    · obtain ⟨doc, hdoc, hdid, hrest⟩ := h.document
      refine ⟨doc, List.mem_map.mpr ⟨doc, hdoc, ?_⟩, hdid, hrest⟩
      rw [if_neg fun heq => hne (heq.symm.trans hdid)]
    · intro doc' hdoc' hdid x hx
      obtain ⟨doc, hdoc, rfl⟩ := List.mem_map.mp hdoc'
      by_cases hmatch : doc.workflowId = r.workflowId
      · rw [if_pos hmatch]
        -- it carries the new token and the one it has replaced
        rintro (hcarries | hcarries)
        · have htoken : r.newToken = x.token := Option.some.inj hcarries
          exact hfresh (htoken ▸ h.used.2 x hx)
        · exact h.others read hread (fun heq => hne (hid.symm.trans heq)) x hx (Or.inl hcarries)
      · rw [if_neg hmatch] at hdid ⊢
        exact h.others doc hdoc hdid x hx

/-- A rotation of the workflow itself. -/
theorem Tracks.rotate_self (h : Tracks docs workflowId current older used) {r : Rotation}
    (hfresh : r.newToken ∉ used) (hnonempty : r.newToken ≠ "" ∧ r.newSecret ≠ "")
    (hid : r.workflowId = workflowId) (hallowed : r.allowed = true) :
    Tracks (rotateWebhookToken docs r) workflowId ⟨r.newToken, r.newSecret, r.now⟩
      (current :: older) (r.newToken :: used) := by
  subst hid
  obtain ⟨doc, hdoc, hdid, hlive, htoken, hsecret, -, -⟩ := h.document
  rcases rotate_cases h.ids r with ⟨-, hrefused⟩ | ⟨read, hread, hrid, -, heq⟩
  · have hno := hrefused doc hdoc hdid (by simp [htoken, h.nonempty.1])
    simp [hallowed] at hno
  · obtain rfl := eq_of_id h.ids hread hdoc (hrid.trans hdid.symm)
    obtain ⟨hids, hused⟩ := h.written (r := r) hread
    rw [heq]
    refine ⟨hids, ?_, ?_, ?_, hnonempty, hused, ?_⟩
    · refine ⟨r.write read read, List.mem_map.mpr ⟨read, hread, by simp [hrid]⟩, hrid, hlive, rfl, rfl,
        htoken, fun _ => rfl⟩
    · intro doc' hdoc' hdid' x hx
      obtain ⟨d, hd, rfl⟩ := List.mem_map.mp hdoc'
      by_cases hmatch : d.workflowId = r.workflowId
      · rw [if_pos hmatch] at hdid'
        exact absurd hmatch hdid'
      · rw [if_neg hmatch]
        rcases List.mem_cons.mp hx with rfl | hx
        · exact fun hcarries => hfresh (h.used.1 d hd _ hcarries)
        · exact h.others d hd hmatch x hx
    · refine List.nodup_cons.mpr ⟨fun hmem => ?_, h.distinct⟩
      obtain ⟨x, hx, hxt⟩ := List.mem_map.mp hmem
      have hused' := h.used.2 x hx
      rw [hxt] at hused'
      exact hfresh hused'
    · intro x hx
      rcases List.mem_cons.mp hx with rfl | hx
      · exact List.mem_cons_self
      · exact List.mem_cons_of_mem _ (h.used.2 x hx)

/-- After any rotations the documents agree with what was issued. -/
theorem Tracks.rotations {rs : List Rotation} (h : Tracks docs workflowId current older used)
    (hdrawn : Drawn used rs) :
    ∃ current' older' used', issues workflowId (current :: older) rs = current' :: older' ∧
      Tracks (rs.foldl rotateWebhookToken docs) workflowId current' older' used' := by
  induction rs generalizing docs current older used with
  | nil => exact ⟨current, older, used, rfl, h⟩
  | cons r rs ih =>
      obtain ⟨hnot, hdistinct⟩ := List.nodup_cons.mp hdrawn.distinct
      have hfresh := hdrawn.fresh r List.mem_cons_self
      have hrest : Drawn (r.newToken :: used) rs :=
        { fresh := fun r' hr' hmem => by
            rcases List.mem_cons.mp hmem with heq | hmem
            · exact hnot (List.mem_map.mpr ⟨r', hr', heq⟩)
            · exact hdrawn.fresh r' (List.mem_cons_of_mem _ hr') hmem
          distinct := hdistinct
          nonempty := fun r' hr' => hdrawn.nonempty r' (List.mem_cons_of_mem _ hr') }
      by_cases hself : r.workflowId = workflowId ∧ r.allowed = true
      · have hnext := h.rotate_self hfresh (hdrawn.nonempty r List.mem_cons_self) hself.1 hself.2
        simpa [issues, hself.1, hself.2] using ih hnext hrest
      · have hnext := h.rotate_other hfresh hself
        have hkeep : (decide (r.workflowId = workflowId) && r.allowed) = false := by
          simpa using hself
        simpa [issues, hkeep] using ih hnext hrest

/-! ## Calls -/

/-- A member that satisfies the predicate is found if no other one does. -/
theorem find?_unique {α : Type} {p : α → Bool} {xs : List α} {x : α} (hx : x ∈ xs) (hp : p x = true)
    (hone : ∀ y ∈ xs, p y = true → y = x) : xs.find? p = some x := by
  obtain ⟨y, hfind⟩ := Option.isSome_iff_exists.mp (List.find?_isSome.mpr ⟨x, hx, hp⟩)
  rw [hfind, hone y (List.mem_of_find?_eq_some hfind) (List.find?_some hfind)]

/-- Only the workflow itself carries a token that was issued for it. -/
theorem Tracks.eq_of_carries (h : Tracks docs workflowId current older used) {doc doc' : Document}
    (hdoc : doc ∈ docs) (hid : doc.workflowId = workflowId) (hdoc' : doc' ∈ docs) {x : Issue}
    (hx : x ∈ current :: older) (hcarries : doc'.Carries x.token) : doc' = doc := by
  refine eq_of_id h.ids hdoc' hdoc (Decidable.byContradiction fun hne => ?_)
  exact h.others doc' hdoc' (fun heq => hne (heq.trans hid.symm)) x hx hcarries

section
variable {cfg : Config} {now : Int} {x : Issue}

/-- The current token finds the document of the workflow. -/
theorem Tracks.find_current (h : Tracks docs workflowId current older used) :
    ∃ doc, findDocument cfg docs current.token now = some doc ∧
      doc.webhookSecret = some current.secret := by
  obtain ⟨doc, hdoc, hid, hlive, htoken, hsecret, -, -⟩ := h.document
  have hfind : docs.find? (fun d => d.webhookToken = some current.token && d.live) = some doc :=
    find?_unique hdoc (by simp [htoken, hlive]) fun d hd hp => by
      simp only [Bool.and_eq_true, decide_eq_true_eq] at hp
      exact h.eq_of_carries hdoc hid hd List.mem_cons_self (Or.inl hp.1)
  exact ⟨doc, by simp [findDocument, hfind], hsecret⟩

/-- An older token is no document's current one. -/
theorem Tracks.find_older_current (h : Tracks docs workflowId current older used) (hx : x ∈ older) :
    docs.find? (fun d => d.webhookToken = some x.token && d.live) = none := by
  obtain ⟨doc, hdoc, hid, -, htoken, -, -, -⟩ := h.document
  refine List.find?_eq_none.mpr fun d hd hp => ?_
  simp only [Bool.and_eq_true, decide_eq_true_eq] at hp
  obtain rfl := h.eq_of_carries hdoc hid hd (List.mem_cons_of_mem _ hx) (Or.inl hp.1)
  have heq : current.token = x.token := Option.some.inj (htoken.symm.trans hp.1)
  exact (List.nodup_cons.mp h.distinct).1 (List.mem_map.mpr ⟨x, hx, heq.symm⟩)

/-- The replaced token finds the document of the workflow within the grace period. -/
theorem Tracks.find_replaced (h : Tracks docs workflowId current (x :: older) used) :
    ∃ doc, doc.webhookSecret = some current.secret ∧
      findDocument cfg docs x.token now =
        if now - current.issuedAt ≤ 1000 * cfg.gracePeriod then some doc else none := by
  have hnone := h.find_older_current (x := x) List.mem_cons_self
  obtain ⟨doc, hdoc, hid, hlive, -, hsecret, hprevious, hrotated⟩ := h.document
  have hfind : docs.find? (fun d => d.previousWebhookToken = some x.token && d.live) = some doc :=
    find?_unique hdoc (by simp [hprevious, hlive]) fun d hd hp => by
      simp only [Bool.and_eq_true, decide_eq_true_eq] at hp
      exact h.eq_of_carries hdoc hid hd (List.mem_cons_of_mem _ List.mem_cons_self) (Or.inr hp.1)
  refine ⟨doc, hsecret, ?_⟩
  have hat := hrotated (by simp)
  by_cases hgrace : now - current.issuedAt ≤ 1000 * cfg.gracePeriod
  · simp [findDocument, hnone, hfind, hat, hgrace]
  · simp [findDocument, hnone, hfind, hat, Int.not_le.mp hgrace, hgrace]

/-- Tokens from before the replaced one find nothing. -/
theorem Tracks.find_forgotten {replaced : Issue}
    (h : Tracks docs workflowId current (replaced :: older) used) (hx : x ∈ older) :
    findDocument cfg docs x.token now = none := by
  have hnone := h.find_older_current (x := x) (List.mem_cons_of_mem _ hx)
  obtain ⟨doc, hdoc, hid, -, -, -, hprevious, -⟩ := h.document
  have hfind : docs.find? (fun d => d.previousWebhookToken = some x.token && d.live) = none := by
    refine List.find?_eq_none.mpr fun d hd hp => ?_
    simp only [Bool.and_eq_true, decide_eq_true_eq] at hp
    obtain rfl := h.eq_of_carries hdoc hid hd
      (List.mem_cons_of_mem _ (List.mem_cons_of_mem _ hx)) (Or.inr hp.1)
    have heq : replaced.token = x.token := Option.some.inj (hprevious.symm.trans hp.1)
    have hdistinct := (List.nodup_cons.mp (List.nodup_cons.mp h.distinct).2).1
    exact hdistinct (List.mem_map.mpr ⟨x, hx, heq.symm⟩)
  simp [findDocument, hnone, hfind]

/-- A token that was issued finds the document of the workflow as long as its bearer is
entitled. -/
theorem Tracks.find_issued (h : Tracks docs workflowId current older used)
    (hx : x ∈ current :: older) :
    (Entitled cfg (current :: older) x.token now → ∃ doc, findDocument cfg docs x.token now = some doc ∧
      doc.webhookSecret = some current.secret) ∧
    (¬ Entitled cfg (current :: older) x.token now → findDocument cfg docs x.token now = none) := by
  rcases List.mem_cons.mp hx with rfl | hx
  · refine ⟨fun _ => h.find_current, fun hnot => absurd ?_ hnot⟩
    cases older <;> simp [Entitled]
  · cases older with
    | nil => cases hx
    | cons replaced older =>
        have hne : x.token ≠ current.token := fun heq =>
          (List.nodup_cons.mp h.distinct).1 (List.mem_map.mpr ⟨x, hx, heq⟩)
        rcases List.mem_cons.mp hx with rfl | hx
        · obtain ⟨doc, hsecret, hfind⟩ : ∃ doc, doc.webhookSecret = some current.secret ∧
              findDocument cfg docs x.token now =
                if now - current.issuedAt ≤ 1000 * cfg.gracePeriod then some doc else none :=
            h.find_replaced
          by_cases hgrace : now - current.issuedAt ≤ 1000 * cfg.gracePeriod
          · rw [if_pos hgrace] at hfind
            exact ⟨fun _ => ⟨doc, hfind, hsecret⟩, fun hnot => absurd (Or.inr ⟨rfl, hgrace⟩) hnot⟩
          · rw [if_neg hgrace] at hfind
            refine ⟨fun hentitled => ?_, fun _ => hfind⟩
            rcases hentitled with heq | ⟨-, hle⟩
            · exact absurd heq hne
            · exact absurd hle hgrace
        · refine ⟨fun hentitled => ?_, fun _ => h.find_forgotten hx⟩
          have hreplaced : x.token ≠ replaced.token := fun heq =>
            (List.nodup_cons.mp (List.nodup_cons.mp h.distinct).2).1 (List.mem_map.mpr ⟨x, hx, heq⟩)
          rcases hentitled with heq | ⟨heq, -⟩
          · exact absurd heq hne
          · exact absurd heq hreplaced

/-- A signed call that has found a document is accepted if the secret of the document signs
alike. -/
theorem webhookTrigger_isOk {bucket : List Int} {call : Call} {secret webhookSecret : String}
    {doc : Document} (hsigned : call.SignedWith cfg secret)
    (hfind : findDocument cfg docs call.token call.now = some doc)
    (hsecret : doc.webhookSecret = some webhookSecret) (hne : webhookSecret ≠ "") :
    (webhookTrigger cfg docs bucket call).isOk = true ↔
      checkRateLimit cfg bucket call.now = true ∧
        cfg.hexdigest webhookSecret call.payload = cfg.hexdigest secret call.payload := by
  obtain ⟨hsignature, hok⟩ := hsigned
  have htimestamp : call.checkTimestamp cfg = .ok () := by
    cases hts : call.checkTimestamp cfg with
    | ok u => rfl
    | error e =>
        rw [hts] at hok
        cases hok
  have hsig : call.signature ≠ "" := hsignature ▸ cfg.hexdigest_ne _ _
  cases hrate : checkRateLimit cfg bucket call.now with
  | false => simp [webhookTrigger, hrate, Except.isOk, Except.toBool]
  | true =>
      have hcheck : call.checkSignature cfg doc =
          if cfg.hexdigest webhookSecret call.payload = call.signature then .ok ()
          else .error ⟨401, "Invalid webhook signature"⟩ := by
        simp [Call.checkSignature, hsecret, hne, hsig, htimestamp, Bind.bind, Except.bind]
      rw [hsignature] at hcheck
      by_cases hsame : cfg.hexdigest webhookSecret call.payload = cfg.hexdigest secret call.payload
      · rw [if_pos hsame] at hcheck
        simp [webhookTrigger, hrate, hfind, hcheck, hsame, Bind.bind, Except.bind, Except.isOk,
          Except.toBool, Pure.pure, Except.pure]
      · rw [if_neg hsame] at hcheck
        simp [webhookTrigger, hrate, hfind, hcheck, hsame, Bind.bind, Except.bind, Except.isOk,
          Except.toBool]

/-- A call signed with what was issued is accepted exactly for the current token and, within the
grace period, for the replaced one, if and only if the rate limit lets an entitled caller pass and
the current secret signs like the replaced one. -/
theorem rotation_honours_iff (h : Tracks docs workflowId current older used) {rs : List Rotation}
    (hdrawn : Drawn used rs) (hx : x ∈ issues workflowId (current :: older) rs)
    {bucket : List Int} {call : Call} (htoken : call.token = x.token)
    (hsigned : call.SignedWith cfg x.secret) :
    ((webhookTrigger cfg (rs.foldl rotateWebhookToken docs) bucket call).isOk = true ↔
      Entitled cfg (issues workflowId (current :: older) rs) call.token call.now) ↔
    (Entitled cfg (issues workflowId (current :: older) rs) call.token call.now →
      checkRateLimit cfg bucket call.now = true ∧
        ∃ y ∈ (issues workflowId (current :: older) rs).head?, call.token = y.token ∨
          cfg.hexdigest y.secret call.payload = cfg.hexdigest x.secret call.payload) := by
  obtain ⟨newest, rest, used', hissues, htracks⟩ := h.rotations hdrawn
  rw [hissues] at hx ⊢
  obtain ⟨hfound, hlost⟩ : (Entitled cfg (newest :: rest) x.token call.now →
        ∃ doc, findDocument cfg (rs.foldl rotateWebhookToken docs) x.token call.now = some doc ∧
          doc.webhookSecret = some newest.secret) ∧
      (¬ Entitled cfg (newest :: rest) x.token call.now →
        findDocument cfg (rs.foldl rotateWebhookToken docs) x.token call.now = none) :=
    htracks.find_issued hx
  rw [← htoken] at hfound hlost
  by_cases hentitled : Entitled cfg (newest :: rest) call.token call.now
  · obtain ⟨doc, hfind, hsecret⟩ := hfound hentitled
    rw [webhookTrigger_isOk hsigned hfind hsecret htracks.nonempty.2]
    simp only [hentitled, iff_true, true_implies, List.head?_cons, Option.mem_def,
      Option.some.injEq, exists_eq_left']
    refine and_congr_right fun _ => ⟨Or.inr, fun hsame => hsame.elim (fun heq => ?_) id⟩
    -- the token of the newest pair comes with its secret
    have hpair : x = newest :=
      List.inj_on_of_nodup_map htracks.distinct hx List.mem_cons_self (htoken.symm.trans heq)
    rw [hpair]
  · have hnone := hlost hentitled
    have hrejected : (webhookTrigger cfg (rs.foldl rotateWebhookToken docs) bucket call).isOk = false := by
      unfold webhookTrigger
      split
      · rfl
      · rw [hnone]
        rfl
    simp [hentitled, hrejected]

end

end

/-! ### One rotation -/

/-- The digests of the two secrets for the body of the example. -/
def exampleConfig : Config where
  hexdigest := fun secret _ =>
    if secret = "s0" then "618bfa6c4b9f3331238adf52b836bc085877d007691eb2b51a5f0e51ae60fcbd"
    else "3090f954c37938e70824aaf9a208b3d0826ce15ec4a840385d62ca283b91f73a"
  hexdigest_ne := fun secret _ => by
    split <;> decide
  rateLimit := 60
  rateLimitWindow := 60
  gracePeriod := 300
  replayWindow := 300

def deployedDocument : Document where
  workflowId := "w"
  status := .written .deployed
  webhookToken := some "t0"
  webhookSecret := some "s0"

def firstIssue : Issue := ⟨"t0", "s0", 0⟩

/-- The workflow is rotated at 1700000000 seconds. -/
def exampleRotation : Rotation := ⟨"w", true, "t1", "s1", 1700000000000⟩

/-- A call one second later, with the signature of the secret. -/
def exampleCall (token signature : String) : Call :=
  ⟨token, signature, "1700000000", "\x7b\x7d".toUTF8.data.toList, 1700000001000⟩

theorem deployedDocument_tracks : Tracks [deployedDocument] "w" firstIssue [] ["t0"] where
  ids := by simp
  document := ⟨deployedDocument, by simp, rfl, rfl, rfl, rfl, rfl, by simp⟩
  others := by simp [deployedDocument]
  distinct := by simp
  nonempty := by decide
  used := by simp [Document.Carries, deployedDocument, firstIssue]

theorem exampleRotation_drawn : Drawn ["t0"] [exampleRotation] where
  fresh := by simp [exampleRotation]
  distinct := by simp
  nonempty := by simp [exampleRotation]

theorem rotation_honours_current :
    (webhookTrigger exampleConfig (rotateWebhookToken [deployedDocument] exampleRotation) []
      (exampleCall "t1" "3090f954c37938e70824aaf9a208b3d0826ce15ec4a840385d62ca283b91f73a")).isOk =
        true ↔
      Entitled exampleConfig [⟨"t1", "s1", 1700000000000⟩, firstIssue] "t1" 1700000001000 :=
  (rotation_honours_iff (x := ⟨"t1", "s1", 1700000000000⟩) deployedDocument_tracks
    exampleRotation_drawn (by simp [issues, exampleRotation]) rfl ⟨rfl, by decide +kernel⟩).mpr
    fun _ => ⟨by decide +kernel, _, rfl, Or.inl rfl⟩

/-- A caller that still uses the pair from before the rotation is refused one second after it. -/
theorem rotation_breaks_callers :
    ¬ ∀ (cfg : Config) (docs : List Document) (workflowId : String) (current : Issue)
      (older : List Issue) (used : List String) (rs : List Rotation) (x : Issue)
      (bucket : List Int) (call : Call),
      Tracks docs workflowId current older used → Drawn used rs →
      x ∈ issues workflowId (current :: older) rs → call.token = x.token →
      call.SignedWith cfg x.secret → checkRateLimit cfg bucket call.now = true →
      ((webhookTrigger cfg (rs.foldl rotateWebhookToken docs) bucket call).isOk = true ↔
        Entitled cfg (issues workflowId (current :: older) rs) call.token call.now) := by
  intro h
  have hrefused := h exampleConfig [deployedDocument] "w" firstIssue [] ["t0"] [exampleRotation]
    firstIssue []
    (exampleCall "t0" "618bfa6c4b9f3331238adf52b836bc085877d007691eb2b51a5f0e51ae60fcbd")
    deployedDocument_tracks exampleRotation_drawn (by simp [issues, exampleRotation]) rfl
    ⟨rfl, by decide +kernel⟩ (by decide +kernel)
  have hok := hrefused.mpr (Or.inr ⟨rfl, by decide +kernel⟩)
  revert hok
  decide +kernel

end CitraFlows.Webhook
