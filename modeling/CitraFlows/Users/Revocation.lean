-- SUMMARY: Once the revocation of an impersonation token was answered, requests with the token are refused, up to the age of a cached answer and the last moments of the token.
import CitraFlows.Users.Impersonation

/-!
# Revoking an impersonation token

A revocation that was answered has put the `jti` of the token on the blocklist. What still lets the
token pass is an answer of the blocklist from before, which every instance may remember for half a
minute, and the purge of the row, which may come when the audit row says that the token ends: the
token itself was signed a little later than this was written down.
-/

namespace CitraFlows

open Processes RedisKeys

namespace Impersonation

variable {casing : Casing} {d i : Nat} {s s' : Store} {p p' : Request}

/-! ## What a command does -/

/-- What one command of request `i` does to the store and to the request. -/
inductive RequestStep (casing : Casing) (i : Nat) (s : Store) (p : Request) :
    Store → Request → Prop
  | refuses {status : Nat} {error : String} : RequestStep casing i s p s (p.refuse status error)
  | reads (hstage : p.stage = .findRevoked) :
      RequestStep casing i s p s (p.become (.cacheAnswer (s.listed p.token.jti) s.now))
  | denies {readAt : Nat} (hstage : p.stage = .cacheAnswer true readAt) :
      RequestStep casing i s p (s.setCache p.process p.token.jti true)
        (p.refuse 401 "Token has been revoked")
  | admits {readAt : Nat} (hstage : p.stage = .cacheAnswer false readAt) :
      RequestStep casing i s p (s.setCache p.process p.token.jti false) (p.proceed casing s.now)
  | draws {target : CitraAIUser} {impersonationId jti : String} (hjti : jti ≠ "")
      (hnew : jti ∉ s.jtis.map Prod.fst) :
      RequestStep casing i s p { s with jtis := (jti, i) :: s.jtis }
        (p.become (.signToken target impersonationId jti s.now))
  | signs {target : CitraAIUser} {impersonationId jti : String} {issuedAt : Nat}
      (hstage : p.stage = .signToken target impersonationId jti issuedAt) :
      RequestStep casing i s p s
        (p.become (.createAudit (p.auditFor target impersonationId jti issuedAt)
          (p.tokenFor s.now target impersonationId jti)))
  | audits {audit : ImpersonationAudit} {token : Token} {status : Nat} {error : String}
      (hstage : p.stage = .createAudit audit token)
      (hnew : s.audited audit.impersonationId = false) :
      RequestStep casing i s p { s with audits := audit :: s.audits } (p.refuse status error)
  | mints {audit : ImpersonationAudit} {token : Token} (hstage : p.stage = .createAudit audit token)
      (hnew : s.audited audit.impersonationId = false) :
      RequestStep casing i s p
        { s with audits := audit :: s.audits, issued := token :: s.issued }
        (p.become (.minted token))
  | flags {id : String} {stage : Stage} (hstage : p.stage = .flagAudit id)
      (hnext : (∃ status error, stage = .refused status error) ∨ stage = .readAudit id ∨
        ∃ a ∈ s.audits, stage = .revoked a false ∨ stage = .blocklist a) :
      RequestStep casing i s p (s.flag id) (p.become stage)
  | blocks {audit : ImpersonationAudit} {status : Nat} {error : String}
      (hstage : p.stage = .blocklist audit) :
      RequestStep casing i s p (s.block audit.jti (audit.expiresAt / 1000)) (p.refuse status error)
  | revokes {audit : ImpersonationAudit} (hstage : p.stage = .blocklist audit) :
      RequestStep casing i s p
        ((s.block audit.jti (audit.expiresAt / 1000)).setCache p.process audit.jti true)
        (p.become (.revoked audit true))

theorem next_cases {input : Input} (h : next casing i input s p = some (s', p')) :
    RequestStep casing i s p s' p' := by
  obtain ⟨w, impersonationId, jti⟩ := input
  unfold next at h
  cases hstage : p.stage with
  | findRevoked =>
      simp only [hstage] at h
      cases hw : w.ok <;> simp only [hw, if_true, if_false, Bool.false_eq_true] at h <;> cases h
      · exact .refuses
      · exact .reads hstage
  | cacheAnswer found readAt =>
      simp only [hstage] at h
      cases found <;> cases h
      · exact .admits hstage
      · exact .denies hstage
  | findTarget userId =>
      simp only [hstage] at h
      split at h
      next => cases h; exact .refuses
      next => cases h; exact .refuses
      next target _ =>
        split at h
        next => cases h; exact .refuses
        next =>
          split at h
          next => cases h
          next hnew =>
            cases h
            exact .draws (fun hjti => hnew (Or.inl hjti)) fun hmem => hnew (Or.inr hmem)
  | signToken target impersonationId jti issuedAt =>
      simp only [hstage] at h
      cases h
      exact .signs hstage
  | createAudit audit token =>
      simp only [hstage] at h
      split at h
      next => cases h; exact .refuses
      next hnew =>
        rw [Bool.not_eq_true] at hnew
        cases w with
        | done => cases h; exact .mints hstage hnew
        | failed ran =>
            cases ran <;> cases h
            · exact .refuses
            · exact .audits hstage hnew
  | flagAudit id =>
      simp only [hstage] at h
      have hfound : ∀ {a}, s.unrevoked id = some a → a ∈ s.audits := List.mem_of_find?_eq_some
      cases w with
      | done =>
          simp only [Write.ok, Write.ran, if_true] at h
          split at h
          next =>
            cases h
            exact .flags hstage (.inr (.inl rfl))
          next audit ha =>
            split at h <;> cases h
            · exact .flags hstage (.inr (.inr ⟨audit, hfound ha, .inl rfl⟩))
            · exact .flags hstage (.inr (.inr ⟨audit, hfound ha, .inr rfl⟩))
      | failed ran =>
          cases ran <;> cases h
          · exact .refuses
          · exact .flags hstage (.inl ⟨_, _, rfl⟩)
  | readAudit id =>
      simp only [hstage] at h
      split at h
      next => cases h; exact .refuses
      next =>
        split at h <;> cases h <;> exact .refuses
  | blocklist audit =>
      simp only [hstage] at h
      cases w with
      | done => cases h; exact .revokes hstage
      | failed ran =>
          cases ran <;> cases h
          · exact .refuses
          · exact .blocks hstage
  | passed | minted _ | refused _ _ => simp [hstage] at h
  | revoked _ _ => simp [hstage] at h

/-! ## Audit rows and the blocklist -/

/-- What is never changed in an audit row. -/
def SameRow (a b : ImpersonationAudit) : Prop :=
  b.impersonationId = a.impersonationId ∧ b.jti = a.jti ∧ b.expiresAt = a.expiresAt

/-- When Mongo may purge the row of the blocklist. -/
def ImpersonationAudit.purgeable (a : ImpersonationAudit) : Nat := a.expiresAt / 1000 * 1000

/-- The token is on the blocklist, unless its row may have been purged. -/
def Blocked (s : Store) (a : ImpersonationAudit) : Prop :=
  ⟨a.jti, a.purgeable⟩ ∈ s.revokedTokens ∨ a.purgeable ≤ s.now

/-- The token goes with the audit row, and does not outlive it by more than `d`. -/
structure Covers (d : Nat) (a : ImpersonationAudit) (t : Token) : Prop where
  id : t.impersonationId = some a.impersonationId
  jti : t.jti = a.jti
  outlives : t.exp * 1000 ≤ a.expiresAt + d

/-- What a process remembers of a token that is not revoked is forgotten by the given time. -/
def Store.ForgottenBy (s : Store) (time : Nat) (jti : String) : Prop :=
  ∀ process cell, s.caches process jti = some cell → cell.value = false →
    ∃ t, cell.expiresAt = some t ∧ t ≤ time

/-- What holds of the store in every run. -/
structure Store.Sound (d : Nat) (s : Store) : Prop where
  jtis : (s.jtis.map Prod.fst).Nodup
  ids : (s.audits.map (·.impersonationId)).Nodup
  auditJtis : (s.audits.map (·.jti)).Nodup
  drawn : ∀ a ∈ s.audits, a.jti ∈ s.jtis.map Prod.fst
  audit : ∀ a ∈ s.audits, a.jti ≠ "" ∧ impersonationTtlSeconds * 1000 ≤ a.expiresAt
  row : ∀ r ∈ s.revokedTokens, ∃ a ∈ s.audits, r = ⟨a.jti, a.purgeable⟩
  issued : ∀ t ∈ s.issued, t.impersonationId.isSome = true → ∃ a ∈ s.audits, Covers d a t
  forgotten : ∀ jti, s.ForgottenBy (s.now + negTtlMs) jti

/-- What holds of a request in every run. -/
def Request.Sound (d : Nat) (s : Store) (i : Nat) (p : Request) : Prop :=
  match p.stage with
  | .cacheAnswer _ readAt => readAt ≤ s.now
  | .signToken _ _ jti issuedAt =>
      jti ≠ "" ∧ (jti, i) ∈ s.jtis ∧ jti ∉ s.audits.map (·.jti) ∧ issuedAt ≤ s.now
  | .createAudit a t =>
      a.jti ≠ "" ∧ (a.jti, i) ∈ s.jtis ∧ a.jti ∉ s.audits.map (·.jti) ∧
        impersonationTtlSeconds * 1000 ≤ a.expiresAt ∧ Covers d a t
  | .blocklist a => ∃ b ∈ s.audits, SameRow a b
  | .revoked a true => (∃ b ∈ s.audits, SameRow a b) ∧ Blocked s a
  | _ => True

/-! ## Each change of the store -/

@[simp] theorem setCache_now {process : Nat} {jti : String} {b : Bool} :
    (s.setCache process jti b).now = s.now := rfl

/-- An answer of the blocklist is remembered from the moment it arrives. -/
theorem Store.ForgottenBy.setCache {time process : Nat} {jti jti' : String} {b : Bool}
    (h : s.ForgottenBy time jti) (hb : b = false → jti' = jti → s.now + negTtlMs ≤ time) :
    (s.setCache process jti' b).ForgottenBy time jti := by
  intro process' cell hcell hvalue
  simp only [Store.setCache] at hcell
  by_cases hp : process' = process
  · subst hp
    rw [Function.update_self] at hcell
    by_cases hj : jti = jti'
    · subst hj
      rw [Function.update_self] at hcell
      cases hcell
      have hfalse : b = false := hvalue
      refine ⟨_, rfl, ?_⟩
      simpa [hfalse] using hb hfalse rfl
    · rw [Function.update_of_ne hj] at hcell
      exact h _ _ hcell hvalue
  · rw [Function.update_of_ne hp] at hcell
    exact h _ _ hcell hvalue

theorem Store.ForgottenBy.mono {time time' : Nat} {jti : String} (h : s.ForgottenBy time jti)
    (hle : time ≤ time') (hcaches : s'.caches = s.caches) : s'.ForgottenBy time' jti := by
  intro process cell hcell hvalue
  rw [hcaches] at hcell
  obtain ⟨t, ht, hle'⟩ := h process cell hcell hvalue
  exact ⟨t, ht, Nat.le_trans hle' hle⟩

/-- Every audit row is still there after a flag. -/
theorem flag_map {α : Type} {f : ImpersonationAudit → α} {id : String}
    (hf : ∀ a time, f { a with revokedAt := time } = f a) :
    (s.flag id).audits.map f = s.audits.map f := by
  simp only [Store.flag, List.map_map]
  refine List.map_congr_left fun a _ => ?_
  simp only [Function.comp_apply]
  split
  · exact hf a _
  · rfl

theorem mem_flag (id : String) {a : ImpersonationAudit} (h : a ∈ s.audits) :
    ∃ b ∈ (s.flag id).audits, SameRow a b := by
  refine ⟨_, List.mem_map_of_mem h, ?_⟩
  split <;> exact ⟨rfl, rfl, rfl⟩

theorem of_mem_flag {id : String} {b : ImpersonationAudit} (h : b ∈ (s.flag id).audits) :
    ∃ a ∈ s.audits, SameRow a b := by
  obtain ⟨a, ha, rfl⟩ := List.mem_map.mp h
  refine ⟨a, ha, ?_⟩
  split <;> exact ⟨rfl, rfl, rfl⟩

theorem SameRow.trans {a b c : ImpersonationAudit} (h : SameRow a b) (h' : SameRow b c) :
    SameRow a c :=
  ⟨h'.1.trans h.1, h'.2.1.trans h.2.1, h'.2.2.trans h.2.2⟩

theorem SameRow.covers {a b : ImpersonationAudit} {t : Token} (h : SameRow a b)
    (ht : Covers d a t) : Covers d b t where
  id := by rw [ht.id, h.1]
  jti := by rw [ht.jti, h.2.1]
  outlives := by rw [h.2.2]; exact ht.outlives

theorem SameRow.purgeable {a b : ImpersonationAudit} (h : SameRow a b) :
    b.purgeable = a.purgeable := by
  simp [ImpersonationAudit.purgeable, h.2.2]

/-- The purge time that a revocation asks for. -/
theorem purgeTime_eq {a : ImpersonationAudit} (h : impersonationTtlSeconds * 1000 ≤ a.expiresAt)
    (now : Nat) : purgeTime now (a.expiresAt / 1000) = a.purgeable := by
  have hpos : a.expiresAt / 1000 ≠ 0 := by
    simp only [impersonationTtlSeconds] at h
    omega
  simp [purgeTime, ImpersonationAudit.purgeable, hpos]

/-! ## What every change keeps -/

/-- The store grows: time passes, audit rows stay, rows of the blocklist stay until they may be
purged, and only the author adds audit rows, for ids that it has drawn. -/
structure Grows (author : Nat) (s s' : Store) : Prop where
  now : s.now ≤ s'.now
  jtis : s.jtis ⊆ s'.jtis
  audits : ∀ a ∈ s.audits, ∃ b ∈ s'.audits, SameRow a b
  rows : ∀ r ∈ s.revokedTokens, r ∈ s'.revokedTokens ∨ r.expiresAt ≤ s'.now
  added : ∀ jti ∈ s'.audits.map (·.jti), jti ∈ s.audits.map (·.jti) ∨ (jti, author) ∈ s.jtis

theorem SameRow.refl (a : ImpersonationAudit) : SameRow a a := ⟨rfl, rfl, rfl⟩

/-- A change that leaves the audit rows alone. -/
theorem Grows.of_audits {author : Nat} (hnow : s.now ≤ s'.now) (hjtis : s.jtis ⊆ s'.jtis)
    (haudits : s'.audits = s.audits)
    (hrows : ∀ r ∈ s.revokedTokens, r ∈ s'.revokedTokens ∨ r.expiresAt ≤ s'.now) :
    Grows author s s' where
  now := hnow
  jtis := hjtis
  audits a ha := ⟨a, haudits ▸ ha, .refl a⟩
  rows := hrows
  added _ hjti := .inl (haudits ▸ hjti)

theorem Grows.refl {author : Nat} (s : Store) : Grows author s s :=
  .of_audits (Nat.le_refl _) (List.Subset.refl _) rfl fun _ hr => .inl hr

theorem Grows.sameRow {author : Nat} {a : ImpersonationAudit} (h : Grows author s s')
    (ha : ∃ b ∈ s.audits, SameRow a b) : ∃ b ∈ s'.audits, SameRow a b := by
  obtain ⟨b, hb, hab⟩ := ha
  obtain ⟨c, hc, hbc⟩ := h.audits b hb
  exact ⟨c, hc, hab.trans hbc⟩

theorem Grows.blocked {author : Nat} {a : ImpersonationAudit} (h : Grows author s s')
    (ha : Blocked s a) : Blocked s' a := by
  rcases ha with hrow | hpast
  · exact h.rows _ hrow
  · exact .inr (Nat.le_trans hpast h.now)

/-- An id was drawn by one request only. -/
theorem Store.Sound.owner (h : s.Sound d) {jti : String} {j : Nat} (hi : (jti, i) ∈ s.jtis)
    (hj : (jti, j) ∈ s.jtis) : i = j := by
  have heq := List.inj_on_of_nodup_map h.jtis hi hj rfl
  exact (Prod.mk.inj heq).2

/-- What holds of a request, other requests keep. -/
theorem Request.Sound.grows {author : Nat} (hs : s.Sound d) (h : Request.Sound d s i p)
    (hgrows : Grows author s s') (hne : i ≠ author) : Request.Sound d s' i p := by
  have hfree : ∀ {jti : String}, (jti, i) ∈ s.jtis → jti ∉ s.audits.map (·.jti) →
      jti ∉ s'.audits.map (·.jti) := by
    intro jti hown hnot hmem
    rcases hgrows.added jti hmem with hold | hdrawn
    · exact hnot hold
    · exact hne (hs.owner hown hdrawn)
  unfold Request.Sound at h ⊢
  split
  next found readAt hstage =>
    rw [hstage] at h
    exact Nat.le_trans h hgrows.now
  next target id jti issuedAt hstage =>
    rw [hstage] at h
    obtain ⟨hjti, hown, hnot, hle⟩ := h
    exact ⟨hjti, hgrows.jtis hown, hfree hown hnot, Nat.le_trans hle hgrows.now⟩
  next a token hstage =>
    rw [hstage] at h
    obtain ⟨hjti, hown, hnot, hrest⟩ := h
    exact ⟨hjti, hgrows.jtis hown, hfree hown hnot, hrest⟩
  next a hstage =>
    rw [hstage] at h
    exact hgrows.sameRow h
  next a hstage =>
    rw [hstage] at h
    exact ⟨hgrows.sameRow h.1, hgrows.blocked h.2⟩
  next => trivial

theorem Grows.setCache {author process : Nat} {jti : String} {b : Bool} (h : Grows author s s') :
    Grows author s (s'.setCache process jti b) :=
  ⟨h.now, h.jtis, h.audits, h.rows, h.added⟩

/-- Rows of the blocklist stay when one is added. -/
theorem block_grows (author : Nat) {jti : String} {exp : Nat} :
    Grows author s (s.block jti exp) := by
  unfold Store.block
  split
  · exact .refl s
  · exact .of_audits (Nat.le_refl _) (List.Subset.refl _) rfl
      fun r hr => .inl (List.mem_cons_of_mem _ hr)

theorem RequestStep.grows (hs : Request.Sound d s i p) (h : RequestStep casing i s p s' p') :
    Grows i s s' := by
  have hcons : ∀ {a : ImpersonationAudit} {token : Token}, p.stage = .createAudit a token →
      (a.jti, i) ∈ s.jtis := by
    intro a token hstage
    rw [Request.Sound, hstage] at hs
    exact hs.2.1
  have hadd : ∀ {a : ImpersonationAudit} {token : Token} {issued : List Token},
      p.stage = .createAudit a token →
      Grows i s { s with audits := a :: s.audits, issued } := by
    intro a token issued hstage
    refine ⟨Nat.le_refl _, List.Subset.refl _, ?_, fun _ hr => .inl hr, ?_⟩
    · exact fun b hb => ⟨b, List.mem_cons_of_mem _ hb, .refl b⟩
    · intro jti hjti
      rcases List.mem_cons.mp hjti with rfl | hold
      · exact .inr (hcons hstage)
      · exact .inl hold
  cases h with
  | refuses | reads _ | signs _ => exact .refl s
  | denies _ | admits _ =>
      exact .of_audits (Nat.le_refl _) (List.Subset.refl _) rfl fun _ hr => .inl hr
  | draws _ _ =>
      exact .of_audits (Nat.le_refl _) (List.subset_cons_self _ _) rfl fun _ hr => .inl hr
  | audits hstage _ => exact hadd hstage
  | mints hstage _ => exact hadd hstage
  | flags _ _ =>
      refine ⟨Nat.le_refl _, List.Subset.refl _, fun a ha => mem_flag _ ha, fun _ hr => .inl hr, ?_⟩
      intro jti hjti
      rw [flag_map fun _ _ => rfl] at hjti
      exact .inl hjti
  | blocks _ => exact block_grows i
  | revokes _ => exact (block_grows i).setCache

/-! ## One step -/

namespace Store.Sound

/-- What is remembered from now on is forgotten in time. -/
theorem setCache (h : s.Sound d) {process : Nat} {jti : String} {b : Bool} :
    (s.setCache process jti b).Sound d where
  jtis := h.jtis
  ids := h.ids
  auditJtis := h.auditJtis
  drawn := h.drawn
  audit := h.audit
  row := h.row
  issued := h.issued
  forgotten jti' := (h.forgotten jti').setCache fun _ _ => Nat.le_refl _

theorem block (h : s.Sound d) {a : ImpersonationAudit} (ha : ∃ b ∈ s.audits, SameRow a b) :
    (s.block a.jti (a.expiresAt / 1000)).Sound d := by
  obtain ⟨b, hb, hab⟩ := ha
  unfold Store.block
  split
  · exact h
  · refine { h with row := ?_ }
    intro r hr
    rcases List.mem_cons.mp hr with rfl | hold
    · refine ⟨b, hb, ?_⟩
      rw [hab.2.1, hab.purgeable, purgeTime_eq (hab.2.2 ▸ (h.audit b hb).2)]
    · exact h.row r hold

theorem flag (h : s.Sound d) {id : String} : (s.flag id).Sound d where
  jtis := h.jtis
  ids := by
    rw [flag_map fun _ _ => rfl]
    exact h.ids
  auditJtis := by
    rw [flag_map fun _ _ => rfl]
    exact h.auditJtis
  drawn a ha := by
    obtain ⟨b, hb, hba⟩ := of_mem_flag ha
    rw [hba.2.1]
    exact h.drawn b hb
  audit a ha := by
    obtain ⟨b, hb, hba⟩ := of_mem_flag ha
    rw [hba.2.1, hba.2.2]
    exact h.audit b hb
  row r hr := by
    obtain ⟨a, ha, rfl⟩ := h.row r hr
    obtain ⟨b, hb, hab⟩ := mem_flag id ha
    exact ⟨b, hb, by rw [hab.2.1, hab.purgeable]⟩
  issued t ht hid := by
    obtain ⟨a, ha, hcov⟩ := h.issued t ht hid
    obtain ⟨b, hb, hab⟩ := mem_flag id ha
    exact ⟨b, hb, hab.covers hcov⟩
  forgotten := h.forgotten

/-- A new audit row: its id is not there yet, and its `jti` was drawn by the request. -/
theorem audits (h : s.Sound d) {a : ImpersonationAudit} (hnew : s.audited a.impersonationId = false)
    (hjti : a.jti ≠ "") (hdrawn : a.jti ∈ s.jtis.map Prod.fst)
    (hfree : a.jti ∉ s.audits.map (·.jti))
    (hexp : impersonationTtlSeconds * 1000 ≤ a.expiresAt) :
    ({ s with audits := a :: s.audits } : Store).Sound d where
  jtis := h.jtis
  ids := by
    refine List.nodup_cons.mpr ⟨?_, h.ids⟩
    intro hmem
    obtain ⟨b, hb, hid⟩ := List.mem_map.mp hmem
    simp only [Store.audited, List.any_eq_false, decide_eq_true_eq] at hnew
    exact hnew b hb hid
  auditJtis := List.nodup_cons.mpr ⟨hfree, h.auditJtis⟩
  drawn b hb := by
    rcases List.mem_cons.mp hb with rfl | hold
    · exact hdrawn
    · exact h.drawn b hold
  audit b hb := by
    rcases List.mem_cons.mp hb with rfl | hold
    · exact ⟨hjti, hexp⟩
    · exact h.audit b hold
  row r hr := by
    obtain ⟨b, hb, hrow⟩ := h.row r hr
    exact ⟨b, List.mem_cons_of_mem _ hb, hrow⟩
  issued t ht hid := by
    obtain ⟨b, hb, hcov⟩ := h.issued t ht hid
    exact ⟨b, List.mem_cons_of_mem _ hb, hcov⟩
  forgotten := h.forgotten

/-- A token that is handed out has its audit row, or is none for somebody else. -/
theorem issue (h : s.Sound d) {t : Token}
    (ht : t.impersonationId.isSome = true → ∃ a ∈ s.audits, Covers d a t) :
    ({ s with issued := t :: s.issued } : Store).Sound d where
  jtis := h.jtis
  ids := h.ids
  auditJtis := h.auditJtis
  drawn := h.drawn
  audit := h.audit
  row := h.row
  issued u hu hid := by
    rcases List.mem_cons.mp hu with rfl | hold
    · exact ht hid
    · exact h.issued u hold hid
  forgotten := h.forgotten

theorem draw (h : s.Sound d) {jti : String} (hnew : jti ∉ s.jtis.map Prod.fst) :
    ({ s with jtis := (jti, i) :: s.jtis } : Store).Sound d where
  jtis := List.nodup_cons.mpr ⟨hnew, h.jtis⟩
  ids := h.ids
  auditJtis := h.auditJtis
  drawn a ha := List.mem_cons_of_mem _ (h.drawn a ha)
  audit := h.audit
  row := h.row
  issued := h.issued
  forgotten := h.forgotten

end Store.Sound

/-- A stage that promises nothing. -/
def Stage.quiet : Stage → Bool
  | .cacheAnswer .. | .signToken .. | .createAudit .. | .blocklist _ => false
  | .revoked _ tokenRevoked => !tokenRevoked
  | _ => true

theorem Request.Sound.of_quiet (h : p.stage.quiet = true) : Request.Sound d s i p := by
  unfold Request.Sound
  split <;> first | trivial | (rename_i hstage; rw [hstage] at h; cases h)

theorem handle_quiet : (p.handle casing).quiet = true := by
  unfold Request.handle
  split
  · rfl
  · split
    · dsimp only
      split <;> rfl
    · rfl
  · split
    · split <;> rfl
    · rfl

theorem Blocked.setCache {a : ImpersonationAudit} {process : Nat} {jti : String} {b : Bool}
    (h : Blocked s a) : Blocked (s.setCache process jti b) a := h

/-- After the upsert the token is on the blocklist, with the time of the audit row. -/
theorem Store.Sound.blocks (h : s.Sound d) {a : ImpersonationAudit}
    (ha : ∃ b ∈ s.audits, SameRow a b) : Blocked (s.block a.jti (a.expiresAt / 1000)) a := by
  obtain ⟨b, hb, hab⟩ := ha
  unfold Store.block
  split
  next hlisted =>
    -- a row that is there already was made from the same audit row
    obtain ⟨r, hr, hjti⟩ := List.any_eq_true.mp hlisted
    obtain ⟨b', hb', rfl⟩ := h.row r hr
    have hsame : b' = b :=
      List.inj_on_of_nodup_map h.auditJtis hb' hb
        ((of_decide_eq_true hjti).trans hab.2.1.symm)
    refine .inl ?_
    rw [← hab.2.1, ← hab.purgeable, ← hsame]
    exact hr
  next =>
    refine .inl ?_
    rw [purgeTime_eq (hab.2.2 ▸ (h.audit b hb).2)]
    exact List.mem_cons_self

/-- The token is signed a little later than its audit row says, and ends as much later. -/
theorem covers_signed {target : CitraAIUser} {impersonationId jti : String} {issuedAt now : Nat}
    (hle : now ≤ issuedAt + d) :
    Covers d (p.auditFor target impersonationId jti issuedAt)
      (p.tokenFor now target impersonationId jti) where
  id := rfl
  jti := rfl
  outlives := by
    simp only [Request.tokenFor, Request.auditFor]
    omega

theorem RequestStep.sound (hs : s.Sound d) (hp : Request.Sound d s i p)
    (hprompt : p.stage.prompt d s.now = true) (h : RequestStep casing i s p s' p') :
    s'.Sound d ∧ Request.Sound d s' i p' := by
  cases h with
  | refuses => exact ⟨hs, .of_quiet rfl⟩
  | reads hstage => exact ⟨hs, Nat.le_refl _⟩
  | denies hstage => exact ⟨hs.setCache, .of_quiet rfl⟩
  | admits hstage => exact ⟨hs.setCache, .of_quiet handle_quiet⟩
  | @draws target impersonationId jti hjti hnew =>
      refine ⟨hs.draw hnew, hjti, List.mem_cons_self, ?_, Nat.le_refl _⟩
      -- an audit row has an id that was drawn before
      intro hmem
      obtain ⟨a, ha, rfl⟩ := List.mem_map.mp hmem
      exact hnew (hs.drawn a ha)
  | @signs target impersonationId jti issuedAt hstage =>
      rw [Request.Sound, hstage] at hp
      obtain ⟨hjti, hown, hfree, -⟩ := hp
      rw [hstage] at hprompt
      have hle : s.now ≤ issuedAt + d := of_decide_eq_true hprompt
      refine ⟨hs, hjti, hown, hfree, ?_, covers_signed hle⟩
      exact Nat.le_add_left _ _
  | audits hstage hnew =>
      rw [Request.Sound, hstage] at hp
      obtain ⟨hjti, hown, hfree, hexp, -⟩ := hp
      exact ⟨hs.audits hnew hjti (List.mem_map_of_mem hown) hfree hexp, .of_quiet rfl⟩
  | @mints audit token hstage hnew =>
      rw [Request.Sound, hstage] at hp
      obtain ⟨hjti, hown, hfree, hexp, hcov⟩ := hp
      have haudits := hs.audits hnew hjti (List.mem_map_of_mem hown) hfree hexp
      refine ⟨haudits.issue fun _ => ?_, .of_quiet rfl⟩
      exact ⟨audit, List.mem_cons_self, hcov⟩
  | @flags id stage hstage hnext =>
      refine ⟨hs.flag, ?_⟩
      rcases hnext with ⟨status, error, rfl⟩ | rfl | ⟨a, ha, rfl | rfl⟩
      · exact .of_quiet rfl
      · exact .of_quiet rfl
      · exact .of_quiet rfl
      · exact mem_flag id ha
  | blocks hstage =>
      rw [Request.Sound, hstage] at hp
      exact ⟨hs.block hp, .of_quiet rfl⟩
  | revokes hstage =>
      rw [Request.Sound, hstage] at hp
      exact ⟨(hs.block hp).setCache, (block_grows i).setCache.sameRow hp, (hs.blocks hp).setCache⟩

/-! ## Whole runs -/

theorem Store.Sound.same (h : s.Sound d) {now : Nat} (hnow : s.now ≤ now)
    {rows : List RevokedToken} (hrows : rows ⊆ s.revokedTokens)
    {caches : Nat → String → Key Bool}
    (hcaches : ∀ process jti cell, caches process jti = some cell → s.caches process jti = some cell)
    (users : List CitraAIUser) :
    ({ s with now, revokedTokens := rows, caches, users } : Store).Sound d where
  jtis := h.jtis
  ids := h.ids
  auditJtis := h.auditJtis
  drawn := h.drawn
  audit := h.audit
  row r hr := h.row r (hrows hr)
  issued := h.issued
  forgotten jti process cell hcell hvalue := by
    obtain ⟨t, ht, hle⟩ := h.forgotten jti process cell (hcaches _ _ _ hcell) hvalue
    exact ⟨t, ht, Nat.le_trans hle (Nat.add_le_add_right hnow _)⟩

theorem restart_caches {process process' : Nat} {jti : String} {cell : Cell Bool}
    (h : Function.update s.caches process (fun _ => none) process' jti = some cell) :
    s.caches process' jti = some cell := by
  by_cases hp : process' = process
  · subst hp
    rw [Function.update_self] at h
    cases h
  · rwa [Function.update_of_ne hp] at h

theorem Outside.sound {e : Outside} (hs : s.Sound d) (h : e.apply s = some s') :
    s'.Sound d ∧ ∀ author, Grows author s s' := by
  have hsub := List.Subset.refl s.jtis
  cases e with
  | tick n =>
      cases h
      exact ⟨hs.same (Nat.le_add_right _ _) (List.Subset.refl _) (fun _ _ _ h => h) s.users,
        fun _ => .of_audits (Nat.le_add_right _ _) hsub rfl fun _ hr => .inl hr⟩
  | signIn token =>
      simp only [Outside.apply] at h
      split at h
      next hnone =>
        cases h
        refine ⟨hs.issue fun hsome => ?_, fun _ =>
          .of_audits (Nat.le_refl _) hsub rfl fun _ hr => .inl hr⟩
        rw [Option.isNone_iff_eq_none.mp hnone] at hsome
        cases hsome
      next => cases h
  | purge jti =>
      cases h
      refine ⟨hs.same (Nat.le_refl _) (List.filter_subset_self _) (fun _ _ _ h => h) s.users,
        fun _ => .of_audits (Nat.le_refl _) hsub rfl fun r hr => ?_⟩
      by_cases hpurged : r.jti = jti ∧ r.expiresAt ≤ s.now
      · exact .inr hpurged.2
      · exact .inl (List.mem_filter.mpr ⟨hr, decide_eq_true hpurged⟩)
  | restart process =>
      cases h
      exact ⟨hs.same (Nat.le_refl _) (List.Subset.refl _) (fun _ _ _ => restart_caches) s.users,
        fun _ => .of_audits (Nat.le_refl _) hsub rfl fun _ hr => .inl hr⟩
  | setUsers users =>
      cases h
      exact ⟨hs.same (Nat.le_refl _) (List.Subset.refl _) (fun _ _ _ h => h) users,
        fun _ => .of_audits (Nat.le_refl _) hsub rfl fun _ hr => .inl hr⟩

/-- How a request begins: refused, let pass by what its process remembers or for want of a `jti`, or
with a query. -/
inductive Receives (casing : Casing) (x : Start) (s : Store) : Request → Prop
  | refuses {status : Nat} {error : String} :
      Receives casing x s ⟨x.process, x.token, x.call, s.now, none, .refused status error⟩
  | admits {p : Request} (hp : p = ⟨x.process, x.token, x.call, s.now, none, .findRevoked⟩)
      (hjti : x.token.jti = "" ∨
        (s.caches x.process x.token.jti).get s.now = some false) :
      Receives casing x s (p.proceed casing s.now)
  | queries : Receives casing x s ⟨x.process, x.token, x.call, s.now, none, .findRevoked⟩

theorem receive_cases {x : Start} (h : receive casing x s = some p) :
    x.token ∈ s.issued ∧ Receives casing x s p := by
  simp only [receive] at h
  split at h
  next hissued =>
    refine ⟨hissued, ?_⟩
    cases h
    split
    · exact .refuses
    split
    next hjti => exact .admits rfl (.inl hjti)
    next =>
      split
      next => exact .refuses
      next hfalse => exact .admits rfl (.inr hfalse)
      next => exact .queries
  next => cases h

theorem Receives.sound {x : Start} (h : Receives casing x s p) : Request.Sound d s i p := by
  cases h with
  | refuses => exact .of_quiet rfl
  | admits _ _ => exact .of_quiet handle_quiet
  | queries => exact .of_quiet rfl

theorem sound_invariant :
    (system casing).Invariant (Prompt d) (fun _ s => s.Sound d) (Request.Sound d) where
  spawn hc _ hs := by
    obtain ⟨q, hq, heq⟩ := Option.map_eq_some_iff.mp hs
    cases heq
    exact ⟨hc.1, (receive_cases hq).2.sound, hc.2⟩
  step hc hok hp hs := by
    have hstep := next_cases hs
    have hsound := hc.2 _ _ hp
    obtain ⟨hs', hp'⟩ := hstep.sound hc.1 hsound (hok _ hp)
    exact ⟨hs', hp', fun j m hne hj => (hc.2 j m hj).grows hc.1 (hstep.grows hsound) hne⟩
  env hc _ hs := by
    obtain ⟨hs', hgrows⟩ := Outside.sound hc.1 hs
    exact ⟨hs', fun j m hj => (hc.2 j m hj).grows hc.1 (hgrows (j + 1)) (Nat.ne_of_lt j.lt_succ_self)⟩

/-! ## After a revocation -/

/-- The token of `a` was on the blocklist at a time: since then it is there or may be purged, and no
process remembers for long that it is not revoked. -/
structure Store.Since (d time : Nat) (a : ImpersonationAudit) (s : Store) : Prop where
  now : time ≤ s.now
  audit : ∃ b ∈ s.audits, SameRow a b
  blocked : Blocked s a
  forgotten : s.ForgottenBy (time + d + negTtlMs) a.jti ∨ a.purgeable ≤ s.now

/-- A request with the token of `a`, where those from the `n`-th on have begun since the time. -/
structure Request.Since (d time n : Nat) (a : ImpersonationAudit) (s : Store) (i : Nat)
    (p : Request) : Prop where
  answer : p.token.jti = a.jti → ∀ readAt, p.stage = .cacheAnswer false readAt →
    a.purgeable ≤ s.now ∨ i < n ∧ readAt ≤ time
  admitted : p.token.jti = a.jti → n ≤ i → ∀ t, p.admittedAt = some t →
    p.receivedAt < time + d + negTtlMs ∨ a.purgeable ≤ t

variable {time n : Nat} {a : ImpersonationAudit}

theorem Request.Since.mono (h : Request.Since d time n a s i p) (hnow : s.now ≤ s'.now) :
    Request.Since d time n a s' i p where
  answer hjti readAt hstage :=
    (h.answer hjti readAt hstage).imp_left fun hpast => Nat.le_trans hpast hnow
  admitted := h.admitted

/-- A request that was not let pass just now and waits for no answer. -/
theorem Request.Since.become (h : Request.Since d time n a s i p) {stage : Stage}
    (hstage : ∀ readAt, stage ≠ .cacheAnswer false readAt) :
    Request.Since d time n a s i (p.become stage) where
  answer _ readAt heq := absurd heq (hstage readAt)
  admitted := h.admitted

theorem Store.Since.grows {author : Nat} (h : s.Since d time a) (hgrows : Grows author s s')
    (hcaches : ∀ k jti e, s'.caches k jti = some e → s.caches k jti = some e) :
    s'.Since d time a where
  now := Nat.le_trans h.now hgrows.now
  audit := hgrows.sameRow h.audit
  blocked := hgrows.blocked h.blocked
  forgotten := h.forgotten.imp (fun hcache k e he => hcache k e (hcaches k a.jti e he))
    fun hpast => Nat.le_trans hpast hgrows.now

theorem Store.Since.setCache {process : Nat} {jti : String} {b : Bool} (h : s.Since d time a)
    (hb : b = false → jti = a.jti →
      a.purgeable ≤ s.now ∨ s.now + negTtlMs ≤ time + d + negTtlMs) :
    (s.setCache process jti b).Since d time a where
  now := h.now
  audit := h.audit
  blocked := h.blocked.setCache
  forgotten := by
    by_cases hpast : a.purgeable ≤ s.now
    · exact .inr hpast
    · have hforgotten := h.forgotten.resolve_right hpast
      exact .inl (hforgotten.setCache fun hfalse hjti => (hb hfalse hjti).resolve_left hpast)

theorem block_caches {jti : String} {exp : Nat} : (s.block jti exp).caches = s.caches := by
  unfold Store.block
  split <;> rfl

theorem not_listed (hblocked : Blocked s a) (h : s.listed a.jti = false) : a.purgeable ≤ s.now := by
  refine hblocked.resolve_left fun hrow => ?_
  have hno := List.any_eq_false.mp h _ hrow
  simp at hno

theorem handle_ne_answer {readAt : Nat} : p.handle casing ≠ .cacheAnswer false readAt := by
  intro h
  have hquiet : (p.handle casing).quiet = true := handle_quiet
  rw [h] at hquiet
  cases hquiet

theorem RequestStep.since (hs : s.Since d time a) (hp : Request.Since d time n a s i p)
    (hsound : Request.Sound d s i p) (hprompt : p.stage.prompt d s.now = true)
    (h : RequestStep casing i s p s' p') :
    s'.Since d time a ∧ Request.Since d time n a s' i p' := by
  have hgrows := h.grows hsound
  have hsame : ∀ k jti (e : Cell Bool), s.caches k jti = some e → s.caches k jti = some e :=
    fun _ _ _ h => h
  cases h with
  | refuses => exact ⟨hs, hp.become fun _ => nofun⟩
  | reads hstage =>
      refine ⟨hs, ?_, hp.admitted⟩
      intro hjti readAt heq
      obtain ⟨hfree, -⟩ := Stage.cacheAnswer.inj heq
      have hjti' : p.token.jti = a.jti := hjti
      rw [hjti'] at hfree
      exact .inl (not_listed hs.blocked hfree)
  | denies hstage =>
      exact ⟨hs.setCache fun h => Bool.noConfusion h, (hp.mono hgrows.now).become fun _ => nofun⟩
  | @admits readAt hstage =>
      have hlate : p.token.jti = a.jti → a.purgeable ≤ s.now ∨ i < n ∧ s.now ≤ time + d := by
        intro hjti
        refine (hp.answer hjti readAt hstage).imp_right fun hbefore => ⟨hbefore.1, ?_⟩
        rw [hstage] at hprompt
        have hle : s.now ≤ readAt + d := of_decide_eq_true hprompt
        omega
      refine ⟨hs.setCache fun _ hjti => (hlate hjti).imp_right fun h => by omega, ?_, ?_⟩
      · exact fun _ _ heq => absurd heq handle_ne_answer
      · intro hjti hn t ht
        cases ht
        exact (hlate hjti).elim .inr fun hbefore => absurd hbefore.1 (by omega)
  | draws _ _ =>
      exact ⟨hs.grows hgrows hsame, (hp.mono hgrows.now).become fun _ => nofun⟩
  | signs _ => exact ⟨hs, hp.become fun _ => nofun⟩
  | audits _ _ =>
      exact ⟨hs.grows hgrows hsame, (hp.mono hgrows.now).become fun _ => nofun⟩
  | mints _ _ =>
      exact ⟨hs.grows hgrows hsame, (hp.mono hgrows.now).become fun _ => nofun⟩
  | flags _ hnext =>
      refine ⟨hs.grows hgrows hsame, (hp.mono hgrows.now).become fun readAt heq => ?_⟩
      subst heq
      rcases hnext with ⟨_, _, h⟩ | h | ⟨_, _, h | h⟩ <;> cases h
  | blocks _ =>
      refine ⟨hs.grows hgrows ?_, (hp.mono hgrows.now).become fun _ => nofun⟩
      rw [block_caches]
      exact hsame
  | @revokes audit _ =>
      have hblock : (s.block audit.jti (audit.expiresAt / 1000)).Since d time a := by
        refine hs.grows (block_grows i) ?_
        rw [block_caches]
        exact hsame
      exact ⟨hblock.setCache fun h => Bool.noConfusion h,
        (hp.mono hgrows.now).become fun _ => nofun⟩

theorem Outside.since {e : Outside} (hs : s.Since d time a) (hgrows : Grows i s s')
    (h : e.apply s = some s') : s'.Since d time a := by
  refine hs.grows hgrows fun _ _ _ hcell => ?_
  cases e with
  | tick _ | purge _ | setUsers _ =>
      cases h
      exact hcell
  | signIn token =>
      simp only [Outside.apply] at h
      split at h <;> cases h
      exact hcell
  | restart process =>
      cases h
      exact restart_caches hcell

/-- A request that begins later is let pass only by what is still remembered. -/
theorem Receives.since {x : Start} (hs : s.Since d time a) (hjti : a.jti ≠ "")
    (h : Receives casing x s p) : Request.Since d time n a s i p := by
  cases h with
  | refuses => exact ⟨fun _ _ => nofun, fun _ _ _ => nofun⟩
  | @admits q hq hcache =>
      subst hq
      refine ⟨fun _ _ heq => absurd heq handle_ne_answer, ?_⟩
      intro hsame _ t ht
      cases ht
      have htoken : x.token.jti = a.jti := hsame
      rcases hcache with hnone | hget
      · exact absurd (htoken ▸ hnone) hjti
      · obtain ⟨cell, hlive, hvalue⟩ := Option.map_eq_some_iff.mp hget
        obtain ⟨hcell, hlater⟩ := Key.live_eq_some.mp hlive
        refine hs.forgotten.imp_left fun hforgotten => ?_
        rw [htoken] at hcell
        obtain ⟨t, ht, hle⟩ := hforgotten _ _ hcell hvalue
        exact Nat.lt_of_lt_of_le (hlater t ht) hle
  | queries => exact ⟨fun _ _ => nofun, fun _ _ _ => nofun⟩

theorem since_invariant (hjti : a.jti ≠ "") :
    (system casing).Invariant (Prompt d) (fun _ s => s.Sound d ∧ s.Since d time a)
      fun s i p => Request.Sound d s i p ∧ Request.Since d time n a s i p where
  spawn hc _ hs := by
    obtain ⟨q, hq, heq⟩ := Option.map_eq_some_iff.mp hs
    cases heq
    have hreceives := (receive_cases hq).2
    exact ⟨hc.1, ⟨hreceives.sound, hreceives.since hc.1.2 hjti⟩, hc.2⟩
  step hc hok hp hs := by
    have hstep := next_cases hs
    obtain ⟨hsound, hsince⟩ := hc.2 _ _ hp
    have hgrows := hstep.grows hsound
    obtain ⟨hs', hp'⟩ := hstep.sound hc.1.1 hsound (hok _ hp)
    obtain ⟨hs'', hp''⟩ := hstep.since hc.1.2 hsince hsound (hok _ hp)
    refine ⟨⟨hs', hs''⟩, ⟨hp', hp''⟩, fun j m hne hj => ?_⟩
    exact ⟨(hc.2 j m hj).1.grows hc.1.1 hgrows hne, (hc.2 j m hj).2.mono hgrows.now⟩
  env hc _ hs := by
    obtain ⟨hs', hgrows⟩ := Outside.sound hc.1.1 hs
    refine ⟨⟨hs', Outside.since hc.1.2 (hgrows 0) hs⟩, fun j m hj => ?_⟩
    exact ⟨(hc.2 j m hj).1.grows hc.1.1 (hgrows (j + 1)) (Nat.ne_of_lt j.lt_succ_self),
      (hc.2 j m hj).2.mono (hgrows 0).now⟩

theorem deployed_sound (now : Nat) (users : List CitraAIUser) :
    System.Inv (fun _ s => s.Sound d) (Request.Sound d) (deployed now users) := by
  refine .of_start rfl ?_
  constructor <;> simp [deployed, Store.ForgottenBy]

/-- Every impersonation token that was handed out has its audit row. -/
theorem impersonation_audited {now : Nat} {users : List CitraAIUser} {c : Run}
    (h : (system casing).Reaches (Prompt d) (deployed now users) c) {t : Token}
    (ht : t ∈ c.shared.issued) (hid : t.impersonationId.isSome = true) :
    ∃ a ∈ c.shared.audits, Covers d a t :=
  (h.inv sound_invariant (deployed_sound now users)).1.issued t ht hid

/-! ## The promise -/

/-- A request keeps its token, and tokens stay handed out. -/
theorem RequestStep.token (h : RequestStep casing i s p s' p') :
    p'.token = p.token ∧ s.issued ⊆ s'.issued := by
  have hsame := List.Subset.refl s.issued
  have hblock : ∀ jti exp, (s.block jti exp).issued = s.issued := by
    intro jti exp
    unfold Store.block
    split <;> rfl
  cases h with
  | refuses | reads _ | denies _ | admits _ | draws _ _ | signs _ | audits _ _ | flags _ _ =>
      exact ⟨rfl, hsame⟩
  | mints _ _ => exact ⟨rfl, List.subset_cons_self _ _⟩
  | blocks _ => exact ⟨rfl, by rw [hblock]; exact hsame⟩
  | revokes _ => exact ⟨rfl, by rw [Store.setCache, hblock]; exact hsame⟩

theorem Outside.issued {e : Outside} (h : e.apply s = some s') : s.issued ⊆ s'.issued := by
  cases e with
  | signIn token =>
      simp only [Outside.apply] at h
      split at h <;> cases h
      exact List.subset_cons_self _ _
  | tick _ | purge _ | restart _ | setUsers _ =>
      cases h
      exact List.Subset.refl _

theorem token_invariant :
    (system casing).Invariant (Prompt d) (fun _ _ => True) fun s _ p => p.token ∈ s.issued where
  spawn hc _ hs := by
    obtain ⟨q, hq, heq⟩ := Option.map_eq_some_iff.mp hs
    cases heq
    obtain ⟨hissued, hreceives⟩ := receive_cases hq
    refine ⟨trivial, ?_, hc.2⟩
    cases hreceives with
    | refuses | queries => exact hissued
    | admits hp _ => exact hp ▸ hissued
  step hc _ hp hs := by
    obtain ⟨htoken, hissued⟩ := (next_cases hs).token
    exact ⟨trivial, htoken ▸ hissued (hc.2 _ _ hp), fun j m _ hj => hissued (hc.2 j m hj)⟩
  env hc _ hs := ⟨trivial, fun j m hj => Outside.issued hs (hc.2 j m hj)⟩

/-- Where the revocation of an impersonation token was answered, the invariant of the time after it
begins. -/
theorem revoked_since {c : Run} {p : Request}
    (h : System.Inv (fun _ s => s.Sound d) (Request.Sound d) c) (hp : c.proc i = some p)
    (hrevoked : p.stage = .revoked a true) :
    System.Inv (fun _ s => s.Sound d ∧ s.Since d c.shared.now a)
      (fun s i p => Request.Sound d s i p ∧ Request.Since d c.shared.now c.procs.length a s i p)
      c := by
  have hsound := h.2 i p hp
  rw [Request.Sound, hrevoked] at hsound
  obtain ⟨haudit, hblocked⟩ := hsound
  refine ⟨⟨h.1, Nat.le_refl _, haudit, hblocked, .inl ?_⟩, ?_⟩
  · exact (h.1.forgotten a.jti).mono (by omega) rfl
  · intro j q hj
    have hq := h.2 j q hj
    have hlt := Configuration.lt_of_proc hj
    refine ⟨hq, fun _ readAt hstage => .inr ⟨hlt, ?_⟩, fun _ hle => absurd hlt (by omega)⟩
    rw [Request.Sound, hstage] at hq
    exact hq

/-- Once the revocation of an impersonation token was answered with success, a request with the
token is let pass only if it has come in before what an instance remembered was forgotten, or if
the token was about to end anyway. -/
theorem revoked_token_refused {now : Nat} {users : List CitraAIUser} {c₁ c₂ : Run}
    (h₁ : (system casing).Reaches (Prompt d) (deployed now users) c₁)
    (h₂ : (system casing).Reaches (Prompt d) c₁ c₂) {i j : Nat} {p q : Request}
    (hp : c₁.proc i = some p) (hrevoked : p.stage = .revoked a true)
    (hj : c₁.procs.length ≤ j) (hq : c₂.proc j = some q)
    (htoken : q.token.impersonationId = some a.impersonationId) {t : Nat}
    (hadmitted : q.admittedAt = some t) :
    q.receivedAt < c₁.shared.now + d + negTtlMs ∨ q.token.exp * 1000 < t + d + 1000 := by
  have hsound := h₁.inv sound_invariant (deployed_sound now users)
  obtain ⟨b, hb, hab⟩ : ∃ b ∈ c₁.shared.audits, SameRow a b := by
    have hrow := hsound.2 i p hp
    rw [Request.Sound, hrevoked] at hrow
    exact hrow.1
  have hjti : a.jti ≠ "" := hab.2.1 ▸ (hsound.1.audit b hb).1
  obtain ⟨⟨hs₂, hsince⟩, hprocs⟩ := h₂.inv (since_invariant hjti) (revoked_since hsound hp hrevoked)
  -- the audit row of the token is the one that was revoked
  have hissued : q.token ∈ c₂.shared.issued :=
    (System.Reaches.inv token_invariant (.of_start rfl trivial) (h₁.trans h₂)).2 j q hq
  obtain ⟨e, he, hcov⟩ := hs₂.issued q.token hissued (by simp [htoken])
  obtain ⟨b, hb, hab⟩ := hsince.audit
  have hid : e.impersonationId = b.impersonationId := by
    rw [hcov.id, Option.some.injEq] at htoken
    exact htoken.trans hab.1.symm
  obtain rfl : e = b := List.inj_on_of_nodup_map hs₂.ids he hb hid
  refine ((hprocs j q hq).2.admitted (hcov.jti.trans hab.2.1) hj t hadmitted).imp_right fun hlate => ?_
  have houtlives := hcov.outlives
  rw [hab.2.2] at houtlives
  simp only [ImpersonationAudit.purgeable] at hlate
  omega

/-! ## An answer from before -/

def adminToken : Token where
  jti := "login"
  email := "root@citra"
  roles := ["super_admin"]
  exp := 1000000

def target : CitraAIUser where
  id := "6650"
  email := "ann@acme"
  roles := ["user"]

/-- The token that the first request hands out. -/
def impersonationToken : Token where
  jti := "jti"
  email := "ann@acme"
  roles := ["user"]
  exp := 172805
  act := some "root@citra"
  impersonationId := some "imp"

/-- The audit row of this token, flagged by the revocation. -/
def impersonationRow : ImpersonationAudit where
  impersonationId := "imp"
  jti := "jti"
  adminEmail := "root@citra"
  targetEmail := "ann@acme"
  targetRoles := ["user"]
  issuedAt := 5000
  expiresAt := 172805000

def steps (i k : Nat) : List Turn :=
  List.replicate k (.step i { write := .done, impersonationId := "imp", jti := "jti" })

def requests (x : Start) : List Turn := [.spawn x]

/-- An admin mints a token, it is used at another instance, and then it is revoked. -/
def mintAndRevoke : List Turn :=
  .env (.signIn adminToken) :: .spawn ⟨0, adminToken, .mint "Ann@acme"⟩ :: (steps 0 5 ++
    requests ⟨1, impersonationToken, .other⟩ ++ steps 1 2 ++
    requests ⟨0, adminToken, .revoke "imp"⟩ ++ steps 2 2)

/-- It is used again there after a while. -/
def useAfter (wait : Nat) : List Turn :=
  [.env (.tick wait), .spawn ⟨1, impersonationToken, .other⟩]

/-- The answer that the other instance remembers from before lets the token pass. -/
theorem useAfter_remembered : ∃ c₁ c₂ : Run,
    (system .ascii).Reaches (Prompt 0) (deployed 5000 [target]) c₁ ∧
    (system .ascii).Reaches (Prompt 0) c₁ c₂ ∧
    (c₁.proc 2).map Request.stage = some (.revoked impersonationRow true) ∧
    ∃ q, c₂.proc 3 = some q ∧ q.admittedAt = some 15000 ∧
      (q.receivedAt < c₁.shared.now + 0 + negTtlMs ∨ q.token.exp * 1000 < 15000 + 0 + 1000) := by
  obtain ⟨c₁, h₁, hc₁⟩ := System.exists_reaches_of_play (system .ascii) (Prompt 0) mintAndRevoke
    (deployed 5000 [target]) (fun c =>
      c.procs.length = 3 && (c.proc 2).map Request.stage = some (.revoked impersonationRow true) &&
      ((system .ascii).play (Prompt 0) (useAfter 10000) c).any fun c' =>
        (c'.proc 3).any fun q =>
          q.token = impersonationToken && q.admittedAt = some 15000) (by decide +kernel)
  simp only [Bool.and_eq_true, decide_eq_true_eq] at hc₁
  obtain ⟨⟨hlength, hrevoked⟩, hplay⟩ := hc₁
  obtain ⟨c₂, hplay, hc₂⟩ := (Option.any_eq_true _ _).mp hplay
  obtain ⟨q, hq, htoken⟩ := (Option.any_eq_true _ _).mp hc₂
  simp only [Bool.and_eq_true, decide_eq_true_eq] at htoken
  obtain ⟨p, hp, hstage⟩ := Option.map_eq_some_iff.mp hrevoked
  have h₂ := System.reaches_of_play hplay
  refine ⟨c₁, c₂, h₁, h₂, hrevoked, q, hq, htoken.2, ?_⟩
  exact revoked_token_refused h₁ h₂ hp hstage (by omega) hq (by rw [htoken.1]; rfl) htoken.2

/-- Half a minute later it asks the blocklist. -/
example : (((system .ascii).play (Prompt 0) (mintAndRevoke ++ useAfter 30000 ++ steps 3 2)
    (deployed 5000 [target])).bind fun c => (c.proc 3).map Request.stage) =
      some (.refused 401 "Token has been revoked") := by
  decide +kernel

end Impersonation

end CitraFlows
