-- SUMMARY: A lookup that hits has the right bytes as long as no object changes under a lookup and no store stops between its two renames.
import CitraFlows.Sandbox.FileCache

/-!
# Hits of the file cache

A lookup compares metadata that it read earlier with an ETag that it observed later and a file
that may be replaced in between. `FileCache.Steady` names the steps that keep the three together:
no object changes while a lookup of its key is under way, and no lookup is lost or fails between
moving the body into place and moving its metadata.
-/

namespace CitraFlows

open Processes

namespace FileCache

/-! ## Steady runs -/

/-- A lookup that has read metadata or observed an ETag and is not over. -/
def Stage.underWay : Stage → Bool
  | .readMeta | .head none | .writeFallback _ | .done _ => false
  | _ => true

/-- Between the rename of the body and the rename of the metadata. -/
def Stage.storing : Stage → Bool
  | .writeMeta .. | .replaceMeta .. => true
  | _ => false

/-- A lookup of the key that is under way. -/
def Process.underWay (key : String) : Process → Bool
  | .lookup p => p.key = key && p.stage.underWay
  | .eviction _ => false

def Process.storing : Process → Bool
  | .lookup p => p.stage.storing
  | .eviction _ => false

/-- An object is put or deleted only while no lookup of its key is under way, and a store that has
moved the body goes on to move the metadata. -/
def Steady (c : Run) : Move Start Io Upload → Prop
  | .spawn _ => True
  | .step i io => ∀ p ∈ c.proc i, p.storing = true → io = .done
  | .crash i => ∀ p ∈ c.proc i, p.storing = false
  | .env u => c.count (Process.underWay u.key) = 0

instance (c : Run) (m : Move Start Io Upload) : Decidable (Steady c m) :=
  match m with
  | .spawn _ => .isTrue trivial
  | .step i _ => inferInstanceAs (Decidable (∀ p ∈ c.proc i, _))
  | .crash i => inferInstanceAs (Decidable (∀ p ∈ c.proc i, _))
  | .env _ => inferInstanceAs (Decidable (_ = _))

/-! ## What is known of an entry -/

section
variable (body : String → Bytes)

/-- Metadata with an ETag has the size of its version; if the version is the object's, a cached
file of that size holds its bytes. -/
def Agrees (e : Entry) (cached : Option Meta) : Prop :=
  ∀ m tag, cached = some m → m.etag = some tag →
    m.size = (body tag).length ∧
      (e.object = some tag → ∀ b, e.bin = some b → b.length = m.size → b = body tag)

/-- The same for the version of the metadata in place, whether it is the object's or not. -/
def Paired (e : Entry) : Prop :=
  ∀ m tag, e.metaFile.join = some m → m.etag = some tag →
    m.size = (body tag).length ∧ ∀ b, e.bin = some b → b.length = m.size → b = body tag

/-- Metadata of the object as it is. -/
def Recent (e : Entry) (o : Option Meta) : Prop :=
  ∀ m tag, o = some m → m.etag = some tag → e.object = some tag ∧ m.size = (body tag).length

/-- A part of the object's body from its beginning. -/
def PartOfBody (e : Entry) (b : Bytes) : Prop :=
  ∃ tag, e.object = some tag ∧ b <+: body tag

/-- The observed ETag is the object's. -/
def Observed (e : Entry) (etag : Option String) : Prop :=
  ∀ tag, etag = some tag → e.object = some tag

/-- What a lookup relies on at each stage. -/
def Follows (e : Entry) : Stage → Prop
  | .readMeta | .writeFallback _ => True
  | .head cached => Agrees body e cached
  | .compare cached etag => Agrees body e cached ∧ Observed e etag
  | .get etag => Observed e etag
  | .writeBin etag content =>
      Observed e etag ∧ ∃ tag, e.object = some tag ∧ content = body tag
  | .replaceBin etag content =>
      Observed e etag ∧ (∃ tag, e.object = some tag ∧ content = body tag) ∧
        ∀ b, e.binTmp = some b → PartOfBody body e b
  | .writeMeta etag size =>
      Observed e etag ∧ (∃ tag, e.object = some tag ∧ size = (body tag).length) ∧
        ∀ b, e.bin = some b → PartOfBody body e b
  | .replaceMeta _ _ =>
      (∀ b, e.bin = some b → PartOfBody body e b) ∧
        (∀ o, e.metaTmp = some o → Recent body e o) ∧
        (e.metaTmp = none → Recent body e e.metaFile.join)
  | .done (.hit tag content) => content = body tag
  | .done _ => True

/-- How an entry changes while its object stays: files are removed, or replaced by parts of the
object's body and by recent metadata. -/
structure Evolves (e e' : Entry) : Prop where
  object : e'.object = e.object
  bin : e'.bin = e.bin ∨ ∀ b, e'.bin = some b → PartOfBody body e b
  binTmp : e'.binTmp = e.binTmp ∨ ∀ b, e'.binTmp = some b → PartOfBody body e b
  metaFile : e'.metaFile = e.metaFile ∨ Recent body e e'.metaFile.join
  metaTmp : e'.metaTmp = e.metaTmp ∨ (∃ o, e'.metaTmp = some o ∧ Recent body e o) ∨
    (e'.metaTmp = none ∧ Recent body e e'.metaFile.join)

end

section
variable {body : String → Bytes} {e e' : Entry}

theorem Evolves.refl : Evolves body e e :=
  ⟨rfl, .inl rfl, .inl rfl, .inl rfl, .inl rfl⟩

theorem PartOfBody.eq {b : Bytes} {tag : String} (h : PartOfBody body e b)
    (htag : e.object = some tag) (hlength : b.length = (body tag).length) : b = body tag := by
  obtain ⟨tag', htag', hpre⟩ := h
  obtain rfl : tag' = tag := Option.some.inj (htag'.symm.trans htag)
  exact hpre.eq_of_length hlength

theorem Evolves.recent (h : Evolves body e e') {o : Option Meta} (ho : Recent body e o) :
    Recent body e' o := by
  intro m tag hm htag
  rw [h.object]
  exact ho m tag hm htag

theorem Evolves.partOfBody (h : Evolves body e e') {b : Bytes} (hb : PartOfBody body e b) :
    PartOfBody body e' b := by
  obtain ⟨tag, htag, hpre⟩ := hb
  exact ⟨tag, h.object.trans htag, hpre⟩

theorem Evolves.observed (h : Evolves body e e') {etag : Option String}
    (hetag : Observed e etag) : Observed e' etag :=
  fun tag htag => h.object.trans (hetag tag htag)

/-- A file that was part of the body stays so. -/
theorem Evolves.bin_part (h : Evolves body e e')
    (hbin : ∀ b, e.bin = some b → PartOfBody body e b) :
    ∀ b, e'.bin = some b → PartOfBody body e' b := by
  intro b hb
  rcases h.bin with hsame | hnew
  · exact h.partOfBody (hbin b (hsame ▸ hb))
  · exact h.partOfBody (hnew b hb)

theorem Evolves.agrees (h : Evolves body e e') {cached : Option Meta}
    (hc : Agrees body e cached) : Agrees body e' cached := by
  intro m tag hm htag
  obtain ⟨hsize, hbytes⟩ := hc m tag hm htag
  refine ⟨hsize, fun hobject b hb hlength => ?_⟩
  rw [h.object] at hobject
  rcases h.bin with hsame | hnew
  · exact hbytes hobject b (hsame ▸ hb) hlength
  · exact (hnew b hb).eq hobject (hlength.trans hsize)

/-- What a lookup relies on stays true while other processes work on the entry. -/
theorem Evolves.follows (h : Evolves body e e') {stage : Stage} (hf : Follows body e stage) :
    Follows body e' stage := by
  cases stage with
  | readMeta => exact trivial
  | head cached => exact h.agrees hf
  | compare cached etag => exact ⟨h.agrees hf.1, h.observed hf.2⟩
  | get etag => exact h.observed hf
  | writeBin etag content =>
      obtain ⟨hetag, tag, htag, hcontent⟩ := hf
      exact ⟨h.observed hetag, tag, h.object.trans htag, hcontent⟩
  | replaceBin etag content =>
      obtain ⟨hetag, ⟨tag, htag, hcontent⟩, htmp⟩ := hf
      refine ⟨h.observed hetag, ⟨tag, h.object.trans htag, hcontent⟩, fun b hb => ?_⟩
      rcases h.binTmp with hsame | hnew
      · exact h.partOfBody (htmp b (hsame ▸ hb))
      · exact h.partOfBody (hnew b hb)
  | writeMeta etag size =>
      obtain ⟨hetag, ⟨tag, htag, hsize⟩, hbin⟩ := hf
      exact ⟨h.observed hetag, ⟨tag, h.object.trans htag, hsize⟩, h.bin_part hbin⟩
  | replaceMeta etag size =>
      obtain ⟨hbin, htmp, hnone⟩ := hf
      refine ⟨h.bin_part hbin, fun o ho => ?_, fun ho => ?_⟩
      · rcases h.metaTmp with hsame | ⟨o', ho', hrecent⟩ | ⟨hgone, -⟩
        · exact h.recent (htmp o (hsame ▸ ho))
        · cases ho.symm.trans ho'
          exact h.recent hrecent
        · simp [hgone] at ho
      · rcases h.metaTmp with hsame | ⟨o', ho', -⟩ | ⟨-, hrecent⟩
        · rcases h.metaFile with hfile | hfile
          · rw [hfile]
            exact h.recent (hnone (hsame ▸ ho))
          · exact h.recent hfile
        · simp [ho] at ho'
        · exact h.recent hrecent
  | writeFallback content => exact trivial
  | done result => cases result <;> exact hf

/-! ## Steps of a lookup -/

/-- A hit has the bytes of the version that was observed. -/
theorem hit_bytes {cached : Option Meta} {etag : Option String} {tag : String} {content : Bytes}
    (hc : Agrees body e cached) (hetag : Observed e etag)
    (h : hit e cached etag = some (tag, content)) : content = body tag := by
  unfold hit at h
  split at h
  next m tag' content' hbin =>
    split at h
    next hmatch =>
      cases h
      obtain ⟨-, hbytes⟩ := hc m tag rfl hmatch.2.1
      exact hbytes (hetag tag rfl) content hbin hmatch.2.2
    next => cases h
  next => cases h

/-- Recent metadata goes with a file that holds a part of the object's body. -/
theorem Recent.paired {e : Entry} (hrecent : Recent body e e.metaFile.join)
    (hbin : ∀ b, e.bin = some b → PartOfBody body e b) : Paired body e := by
  intro m tag hm htag
  obtain ⟨hobject, hsize⟩ := hrecent m tag hm htag
  exact ⟨hsize, fun b hb hlength => (hbin b hb).eq hobject (hlength.trans hsize)⟩

theorem Paired.agrees (h : Paired body e) {e' : Entry} (hbin : e'.bin = e.bin) :
    Agrees body e' e.metaFile.join := by
  intro m tag hm htag
  obtain ⟨hsize, hbytes⟩ := h m tag hm htag
  exact ⟨hsize, fun _ b hb => hbytes b (hbin ▸ hb)⟩

/-- What a step of a lookup does: the entry evolves, the lookup has what it relies on, and the file
and the metadata are paired again when a store ends. -/
structure Advances (body : String → Bytes) (e e' : Entry) (p p' : Lookup) : Prop where
  key : p'.key = p.key
  evolves : Evolves body e e'
  follows : Follows body e' p'.stage
  agrees : Agrees body e' e'.metaFile.join
  paired : p'.stage.storing = true ∨ (Paired body e ∨ p.stage.storing = true → Paired body e')

/-- A step that leaves the cached file and the metadata in place, outside a store. -/
theorem Advances.of_same {p : Lookup} {stage : Stage} (hag : Agrees body e e.metaFile.join)
    (hevolves : Evolves body e e') (hbin : e'.bin = e.bin) (hmeta : e'.metaFile = e.metaFile)
    (hp : p.stage.storing = false) (hf : Follows body e' stage) :
    Advances body e e' p (p.become stage) where
  key := rfl
  evolves := hevolves
  follows := hf
  agrees := by
    rw [hmeta]
    exact hevolves.agrees hag
  paired := by
    refine Or.inr fun h => ?_
    have hpaired := h.resolve_right (by simp [hp])
    intro m tag hm htag
    rw [hmeta] at hm
    rw [hbin]
    exact hpaired m tag hm htag

theorem Lookup.next_sound {io : Io} {p p' : Lookup} (h : p.next body io e = some (e', p'))
    (hf : Follows body e p.stage) (hag : Agrees body e e.metaFile.join)
    (hok : p.stage.storing = true → io = .done) : Advances body e e' p p' := by
  unfold next at h
  split at h
  next hstage =>
    cases h
    refine .of_same hag .refl rfl rfl (by rw [hstage]; rfl) ?_
    split
    · exact hag
    · intro m tag hm
      cases hm
  next cached hstage =>
    rw [hstage] at hf
    cases h
    refine .of_same hag .refl rfl rfl (by rw [hstage]; rfl) ⟨hf, fun tag htag => ?_⟩
    split at htag
    · exact htag
    · cases htag
  next cached etag hstage =>
    rw [hstage] at hf
    split at h
    next tag content hhit =>
      cases h
      exact .of_same hag .refl rfl rfl (by rw [hstage]; rfl) (hit_bytes hf.1 hf.2 hhit)
    next =>
      cases h
      exact .of_same hag .refl rfl rfl (by rw [hstage]; rfl) hf.2
  next etag hstage =>
    rw [hstage] at hf
    split at h
    next tag htag =>
      cases h
      refine .of_same hag .refl rfl rfl (by rw [hstage]; rfl) ?_
      split
      · exact ⟨hf, tag, htag, rfl⟩
      · exact trivial
    next =>
      cases h
      exact .of_same hag .refl rfl rfl (by rw [hstage]; rfl) trivial
  next etag content hstage =>
    rw [hstage] at hf
    obtain ⟨hetag, tag, htag, rfl⟩ := hf
    split at h
    next =>
      cases h
      have hpart : ∀ b, some (body tag) = some b → PartOfBody body e b := by
        rintro b ⟨⟩
        exact ⟨tag, htag, List.prefix_rfl⟩
      exact .of_same hag ⟨rfl, .inl rfl, .inr hpart, .inl rfl, .inl rfl⟩ rfl rfl
        (by rw [hstage]; rfl) ⟨hetag, ⟨tag, htag, rfl⟩, hpart⟩
    next written =>
      cases h
      refine .of_same hag ⟨rfl, .inl rfl, .inr ?_, .inl rfl, .inl rfl⟩ rfl rfl
        (by rw [hstage]; rfl) trivial
      rintro b ⟨⟩
      exact ⟨tag, htag, List.take_prefix _ _⟩
  next etag content hstage =>
    rw [hstage] at hf
    obtain ⟨hetag, ⟨tag, htag, rfl⟩, htmp⟩ := hf
    split at h
    next moved hmoved =>
      cases h
      have hpart : ∀ b, some moved = some b → PartOfBody body e b := by
        rintro b ⟨⟩
        exact htmp moved hmoved
      have hevolves : Evolves body e { e with bin := some moved, binTmp := none } :=
        ⟨rfl, .inr hpart, .inr (fun b hb => by cases hb), .inl rfl, .inl rfl⟩
      exact ⟨rfl, hevolves, ⟨hetag, ⟨tag, htag, rfl⟩, hpart⟩, hevolves.agrees hag, .inl rfl⟩
    next =>
      cases h
      exact .of_same hag .refl rfl rfl (by rw [hstage]; rfl) trivial
  next etag size hstage =>
    rw [hstage] at hf
    cases hok (by rw [hstage]; rfl)
    cases h
    obtain ⟨hetag, ⟨tag, htag, rfl⟩, hbin⟩ := hf
    have hrecent : Recent body e (some ⟨etag, (body tag).length⟩) := by
      rintro m tag' ⟨⟩ hm
      have hobject := hetag tag' hm
      cases htag.symm.trans hobject
      exact ⟨htag, rfl⟩
    have hevolves : Evolves body e
        { e with metaTmp := some (some ⟨etag, (body tag).length⟩) } :=
      ⟨rfl, .inl rfl, .inl rfl, .inl rfl, .inr (.inl ⟨_, rfl, hrecent⟩)⟩
    refine ⟨rfl, hevolves, ⟨hbin, ?_, fun ho => by cases ho⟩, hevolves.agrees hag, .inl rfl⟩
    rintro o ⟨⟩
    exact hrecent
  next etag size hstage =>
    rw [hstage] at hf
    cases hok (by rw [hstage]; rfl)
    obtain ⟨hbin, htmp, hnone⟩ := hf
    split at h
    next moved _ hmoved =>
      cases h
      have hrecent : Recent body e (some moved : Option (Option Meta)).join := htmp moved hmoved
      have hevolves : Evolves body e { e with metaFile := some moved, metaTmp := none } :=
        ⟨rfl, .inl rfl, .inl rfl, .inr hrecent, .inr (.inr ⟨rfl, hrecent⟩)⟩
      have hpaired : Paired body { e with metaFile := some moved, metaTmp := none } :=
        Recent.paired (hevolves.recent hrecent) (hevolves.bin_part hbin)
      exact ⟨rfl, hevolves, trivial, hpaired.agrees rfl, .inr fun _ => hpaired⟩
    next hnot =>
      cases h
      -- another process has moved the file, so the metadata in place is as recent
      have hgone : e.metaTmp = none := by
        cases htmp' : e.metaTmp with
        | none => rfl
        | some o => exact (hnot o rfl htmp').elim
      exact ⟨rfl, .refl, trivial, hag, .inr fun _ => Recent.paired (hnone hgone) hbin⟩
  next content hstage =>
    cases h
    refine .of_same hag .refl rfl rfl (by rw [hstage]; rfl) ?_
    split <;> exact trivial
  next => cases h

/-- A removal leaves the rest of the entry, and the metadata in place still agrees. -/
theorem Eviction.next_sound {io : Io} {ks : List String} {k : String} {metaNext : Bool}
    (hag : Agrees body e e.metaFile.join) :
    Evolves body e (Eviction.next io e ks k metaNext).1 ∧
      Agrees body (Eviction.next io e ks k metaNext).1
        (Eviction.next io e ks k metaNext).1.metaFile.join ∧
      (Paired body e → Paired body (Eviction.next io e ks k metaNext).1) := by
  unfold Eviction.next
  split
  · split
    · have hnone : ∀ e' : Entry, Recent body e' (none : Option (Option Meta)).join := by
        intro e' m tag hm
        cases hm
      exact ⟨⟨rfl, .inl rfl, .inl rfl, .inr (hnone e), .inl rfl⟩,
        (fun m tag hm => by cases hm), fun _ m tag hm => by cases hm⟩
    · exact ⟨.refl, hag, id⟩
  · split
    · have hevolves : Evolves body e { e with bin := none } :=
        ⟨rfl, .inr (fun b hb => by cases hb), .inl rfl, .inl rfl, .inl rfl⟩
      refine ⟨hevolves, hevolves.agrees hag, fun hpaired m tag hm htag => ?_⟩
      exact ⟨(hpaired m tag hm htag).1, fun b hb => by cases hb⟩
    · exact ⟨.refl, hag, id⟩

end

/-! ## Runs -/

/-- The invariant of a steady run: every lookup has what it relies on, and the cached file of a key
is paired with its metadata unless a store stands between the two. -/
structure Run.Sound (body : String → String → Bytes) (c : Run) : Prop where
  follows : ∀ i p, c.proc i = some (.lookup p) → Follows (body p.key) (c.shared p.key) p.stage
  agrees : ∀ key, Agrees (body key) (c.shared key) (c.shared key).metaFile.join
  paired : ∀ key, Paired (body key) (c.shared key) ∨
    ∃ i p, c.proc i = some (.lookup p) ∧ p.key = key ∧ p.stage.storing = true

namespace Run

variable {body : String → String → Bytes}

theorem Sound.start : Run.start.Sound body where
  follows i p hi := by simp [Run.start, Configuration.proc] at hi
  agrees key m tag hm := by cases hm
  paired key := .inl fun m tag hm => by cases hm

/-- What the other lookups rely on when one entry evolves. -/
theorem Sound.follows_update {c : Run} (h : c.Sound body) {key : String} {e' : Entry}
    (hevolves : Evolves (body key) (c.shared key) e') {j : Nat} {q : Lookup}
    (hj : c.proc j = some (.lookup q)) :
    Follows (body q.key) (Function.update c.shared key e' q.key) q.stage := by
  by_cases hkey : q.key = key
  · subst hkey
    simpa using hevolves.follows (h.follows j q hj)
  · simpa [hkey] using h.follows j q hj

/-- A lookup takes a step. -/
theorem Sound.lookup {c : Run} (h : c.Sound body) {i : Nat} {io : Io} {p p' : Lookup} {e' : Entry}
    (hi : c.proc i = some (.lookup p)) (hok : p.stage.storing = true → io = .done)
    (hnext : p.next (body p.key) io (c.shared p.key) = some (e', p')) :
    Run.Sound body ⟨Function.update c.shared p.key e', c.procs.set i (some (.lookup p'))⟩ := by
  have hadv := Lookup.next_sound hnext (h.follows i p hi) (h.agrees p.key) hok
  refine ⟨fun j q hj => ?_, fun key => ?_, fun key => ?_⟩
  · rcases Configuration.proc_set (g := c.shared) hj with ⟨-, hnew⟩ | ⟨-, hold⟩
    · cases hnew
      simpa [hadv.key] using hadv.follows
    · exact h.follows_update hadv.evolves hold
  · by_cases hkey : key = p.key
    · subst hkey
      simpa using hadv.agrees
    · simpa [hkey] using h.agrees key
  · by_cases hkey : key = p.key
    · subst hkey
      rcases hadv.paired with hstoring | hpairs
      · exact .inr ⟨i, p', Configuration.proc_set_self hi, hadv.key, hstoring⟩
      · rcases h.paired p.key with hpaired | ⟨j, q, hj, hqkey, hq⟩
        · exact .inl (by simpa using hpairs (.inl hpaired))
        · by_cases hji : j = i
          · subst hji
            cases hj.symm.trans hi
            exact .inl (by simpa using hpairs (.inr hq))
          · exact .inr ⟨j, q, (Configuration.proc_set_ne hji).trans hj, hqkey, hq⟩
    · rcases h.paired key with hpaired | ⟨j, q, hj, hqkey, hq⟩
      · exact .inl (by simpa [hkey] using hpaired)
      · have hji : j ≠ i := by
          rintro rfl
          cases hj.symm.trans hi
          exact hkey hqkey.symm
        exact .inr ⟨j, q, (Configuration.proc_set_ne hji).trans hj, hqkey, hq⟩

/-- An eviction takes a step. -/
theorem Sound.eviction {c : Run} (h : c.Sound body) {i : Nat} {io : Io} {p : Eviction}
    {k : String} {ks : List String} (hi : c.proc i = some (.eviction p)) :
    Run.Sound body ⟨Function.update c.shared k (Eviction.next io (c.shared k) ks k p.metaNext).1,
      c.procs.set i (some (.eviction (Eviction.next io (c.shared k) ks k p.metaNext).2))⟩ := by
  obtain ⟨hevolves, hag, hpairs⟩ :=
    Eviction.next_sound (h.agrees k)
  refine ⟨fun j q hj => ?_, fun key => ?_, fun key => ?_⟩
  · rcases Configuration.proc_set (g := c.shared) hj with ⟨-, hnew⟩ | ⟨-, hold⟩
    · cases hnew
    · exact h.follows_update hevolves hold
  · by_cases hkey : key = k
    · subst hkey
      simpa using hag
    · simpa [hkey] using h.agrees key
  · rcases h.paired key with hpaired | ⟨j, q, hj, hqkey, hq⟩
    · by_cases hkey : key = k
      · subst hkey
        exact .inl (by simpa using hpairs hpaired)
      · exact .inl (by simpa [hkey] using hpaired)
    · have hji : j ≠ i := by
        rintro rfl
        cases hj.symm.trans hi
      exact .inr ⟨j, q, (Configuration.proc_set_ne hji).trans hj, hqkey, hq⟩

/-- An object changes while no lookup of its key is under way. -/
theorem Sound.upload {c : Run} (h : c.Sound body) {u : Upload}
    (hnone : c.count (Process.underWay u.key) = 0) :
    Run.Sound body
      ⟨Function.update c.shared u.key { c.shared u.key with object := u.etag }, c.procs⟩ := by
  have hidle : ∀ i p, c.proc i = some (.lookup p) → p.key = u.key → p.stage.underWay = false := by
    intro i p hi hkey
    simpa [Process.underWay, hkey] using Configuration.count_eq_zero.mp hnone i _ hi
  have hpairs : Paired (body u.key) (c.shared u.key) := by
    refine (h.paired u.key).resolve_right ?_
    rintro ⟨i, p, hi, hkey, hstoring⟩
    have := hidle i p hi hkey
    cases hstage : p.stage <;> simp [hstage, Stage.storing, Stage.underWay] at hstoring this
  refine ⟨fun i p hi => ?_, fun key => ?_, fun key => ?_⟩
  · have hi : c.proc i = some (.lookup p) := hi
    by_cases hkey : p.key = u.key
    · -- a lookup that is not under way relies on nothing, or has its hit
      have hnot := hidle i p hi hkey
      have hold := h.follows i p hi
      cases hstage : p.stage with
      | readMeta => exact trivial
      | writeFallback content => exact trivial
      | head cached =>
          cases cached with
          | none => exact fun m tag hm => by cases hm
          | some m => simp [hstage, Stage.underWay] at hnot
      | done result =>
          rw [hstage] at hold
          cases result <;> exact hold
      | _ => simp [hstage, Stage.underWay] at hnot
    · simpa [hkey] using h.follows i p hi
  · by_cases hkey : key = u.key
    · subst hkey
      have hagrees : Agrees (body u.key) { c.shared u.key with object := u.etag }
          (c.shared u.key).metaFile.join := hpairs.agrees rfl
      simpa using hagrees
    · simpa [hkey] using h.agrees key
  · by_cases hkey : key = u.key
    · subst hkey
      exact .inl (by simpa [Paired] using hpairs)
    · rcases h.paired key with hpaired | hstoring
      · exact .inl (by simpa [hkey] using hpaired)
      · exact .inr hstoring

theorem Sound.steps {c c' : Run} (h : c.Sound body) (hstep : (system body).Steps Steady c c') :
    c'.Sound body := by
  rcases hstep.cases with ⟨x, s', q, -, hs, rfl⟩ | ⟨i, io, q, s', q', hok, hi, hs, rfl⟩ |
    ⟨i, hok, rfl⟩ | ⟨u, s', hok, hs, rfl⟩
  · -- a process that starts relies on nothing
    have hshared : s' = c.shared := by cases x <;> cases hs <;> rfl
    subst hshared
    refine ⟨fun j p hj => ?_, h.agrees, fun key => ?_⟩
    · rcases Configuration.proc_append (g := c.shared) hj with ⟨-, hnew⟩ | hj
      · cases x with
        | lookup key =>
            cases hs
            cases hnew
            exact trivial
        | eviction keys =>
            cases hs
            cases hnew
      · exact h.follows j p hj
    · rcases h.paired key with hpaired | ⟨j, p, hj, hp⟩
      · exact .inl hpaired
      · exact .inr ⟨j, p, Configuration.proc_append_left hj, hp⟩
  · cases q with
    | lookup p =>
        obtain ⟨⟨e', p'⟩, hnext, hr⟩ := Option.map_eq_some_iff.mp hs
        cases hr
        exact h.lookup hi (hok _ hi) hnext
    | eviction p =>
        simp only [system, step] at hs
        split at hs
        next k ks _ =>
          cases hs
          exact h.eviction hi
        next => cases hs
  · refine ⟨fun j p hj => ?_, h.agrees, fun key => ?_⟩
    · rcases Configuration.proc_set (g := c.shared) hj with ⟨-, hnew⟩ | ⟨-, hold⟩
      · cases hnew
      · exact h.follows j p hold
    · rcases h.paired key with hpaired | ⟨j, p, hj, hkey, hp⟩
      · exact .inl hpaired
      · have hji : j ≠ i := by
          rintro rfl
          have := hok _ hj
          simp [Process.storing, hp] at this
        exact .inr ⟨j, p, (Configuration.proc_set_ne hji).trans hj, hkey, hp⟩
  · cases hs
    exact h.upload hok

end Run

/-- In every steady run a lookup that hits has the bytes of the version it has observed. -/
theorem Steady.hitsRight {body : String → String → Bytes} {c : Run}
    (h : (system body).Reaches Steady Run.start c) : c.HitsRight body := by
  have hsound : c.Sound body :=
    System.Reaches.keeps (fun _ _ hd hstep => hd.steps hstep) Run.Sound.start h
  intro i p tag content hi hstage
  have hf := hsound.follows i p hi
  rw [hstage] at hf
  exact hf

/-- Two versions of one size. -/
def twoVersions (_ etag : String) : Bytes := if etag = "a" then [1] else [2]

def uploads (etag : String) : Move Start Io Upload := .env ⟨"k", some etag⟩

def looksUp : Move Start Io Upload := .spawn (.lookup "k")

/-- The next commands of process `i`, none of which fails. -/
def commands (i k : Nat) : List (Move Start Io Upload) := List.replicate k (.step i .done)

/-- One lookup fetches the object, the next one hits. -/
theorem twoVersions_hit : ∃ c : Run, c.HitsRight twoVersions ∧
    c.proc 1 = some (.lookup ⟨"k", .done (.hit "a" [1])⟩) := by
  obtain ⟨c, hreach, hc⟩ := System.exists_reaches_of_play (system twoVersions) Steady
    ([uploads "a", looksUp, looksUp] ++ commands 0 8 ++ commands 1 3) Run.start
    (fun c => c.proc 1 = some (.lookup ⟨"k", .done (.hit "a" [1])⟩)) (by decide +kernel)
  exact ⟨c, Steady.hitsRight hreach, by simpa using hc⟩

/-- A lookup has read the metadata of one version and observed its ETag; before it looks at the
file, another lookup moves the next version of the same size into place. -/
theorem not_hitsRight : ¬ ∀ (body : String → String → Bytes) (c : Run),
    (system body).Reaches (fun _ _ => True) Run.start c → c.HitsRight body := by
  intro hall
  obtain ⟨c, hreach, hc⟩ := System.exists_reaches_of_play (system twoVersions) (fun _ _ => True)
    ([uploads "a", looksUp, looksUp, looksUp] ++ commands 0 8 ++ commands 1 2 ++ [uploads "b"] ++
      commands 2 6 ++ commands 1 1) Run.start
    (fun c => c.proc 1 = some (.lookup ⟨"k", .done (.hit "a" [2])⟩)) (by decide +kernel)
  have hright := hall twoVersions c hreach 1 ⟨"k", .done (.hit "a" [2])⟩ "a" [2]
    (by simpa using hc) rfl
  exact absurd hright (by decide)

end FileCache

end CitraFlows
