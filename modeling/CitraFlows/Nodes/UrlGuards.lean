-- SUMMARY: The two guards in front of requests to user-supplied URLs, and the addresses they let through.
import CitraFlows.Python
import CitraFlows.Lib.ElementWise
import CitraFlows.Lib.IpRegistry

/-!
# URL guards

`assert_url_is_public` and `_validate_external_url` both parse a URL, look up the
addresses of its host and refuse the classes of addresses they know. The first must
admit public addresses only, and the second nothing the first refuses.
-/

namespace CitraFlows.UrlGuards

open AddressBlocks IpAddress IpRegistry

/-! ## The address check -/

/-- `_ip_is_disallowed` -/
def ipIsDisallowed (ip : Ip) : Bool :=
  ip.isPrivate || ip.isLoopback || ip.isLinkLocal || ip.isReserved || ip.isMulticast ||
    ip.isUnspecified

/-- The classes `_validate_external_url` refuses -/
def isInternal (ip : Ip) : Bool :=
  ip.isPrivate || ip.isLoopback || ip.isLinkLocal || ip.isReserved

/-- Shared address space and the 6a44 relay -/
def gap4 : List (NonemptyInterval ℕ) := [net4 100 64 0 0 10, net4 192 88 99 2 32]

/-- The former site-local space -/
def siteLocal : List (NonemptyInterval ℕ) := [net6 [0xfec0] 10]

/-- The second documentation prefix -/
def documentation : List (NonemptyInterval ℕ) := [net6 [0x3fff] 20]

/-- The addresses that are not global and that no property of `ipaddress` covers -/
def inGap : Ip → Bool
  | .v4 a => contains gap4 a.toNat
  | .v6 a => contains (siteLocal ++ documentation) a.toNat

theorem isGlobal4_of_not_private {a : BitVec 32} (hprivate : isPrivate4 a = false)
    (hmulticast : contains V4.multicast a.toNat = false) :
    isGlobal4 a = !contains gap4 a.toNat := by
  cases hgap : contains gap4 a.toNat with
  | true =>
    have blocked : contains V4.notReachable a.toNat = true :=
      contains_of_within (by decide) hgap
    have closed : contains V4.reachable a.toNat = false :=
      not_contains_of_apart (by decide) hgap
    simp [isGlobal4, blocked, closed]
  | false =>
    simp only [isPrivate4, Bool.and_eq_false_iff, Bool.not_eq_false'] at hprivate
    cases hprivate with
    | inl outside =>
      have free : contains V4.notReachable a.toNat = false := by
        rw [← Bool.not_eq_true]
        intro hin
        have either : contains (IpAddress.V4.privateNetworks ++ gap4) a.toNat = true :=
          contains_of_within (by decide) hin
        simp [outside, hgap] at either
      simp [isGlobal4, hmulticast, free]
    | inr excepted =>
      have opened : contains V4.reachable a.toNat = true :=
        contains_of_within (by decide) excepted
      simp [isGlobal4, hmulticast, opened]

/-- An IPv4-mapped address lies in the reserved space. -/
theorem ipv4Mapped_eq_none {a : BitVec 128}
    (hreserved : contains IpAddress.V6.reservedNetworks a.toNat = false) :
    ipv4Mapped a = none := by
  rw [ipv4Mapped, if_neg]
  intro hmapped
  have hprefix : a.toNat / 2 ^ 32 = 0xffff := by
    rw [← Nat.shiftRight_eq_div_pow, ← BitVec.toNat_ushiftRight, hmapped]
    rfl
  have hin : contains [net6 [0, 0, 0, 0, 0, 0xffff] 96] a.toNat = true :=
    contains_iff.mpr ⟨_, List.mem_singleton_self _, mem_ofPrefix.mpr hprefix⟩
  have : contains IpAddress.V6.reservedNetworks a.toNat = true :=
    contains_of_within (by decide) hin
  simp [hreserved] at this

/-- What the properties leave of the IPv6 space -/
structure Unflagged (a : BitVec 128) : Prop where
  reserved : contains IpAddress.V6.reservedNetworks a.toNat = false
  multicast : contains [IpAddress.V6.multicastNetwork] a.toNat = false
  privates : contains IpAddress.V6.privateNetworks a.toNat = false ∨
    contains IpAddress.V6.privateExceptions a.toNat = true

namespace Unflagged

variable {a : BitVec 128}

/-- A table inside the reserved and private space, apart from the exceptions, holds no
address that is left. -/
theorem not_contains (h : Unflagged a) {t : List (NonemptyInterval ℕ)}
    (hin : within t (IpAddress.V6.reservedNetworks ++ IpAddress.V6.privateNetworks) = true)
    (hapart : apart t IpAddress.V6.privateExceptions = true) : contains t a.toNat = false := by
  rw [← Bool.not_eq_true]
  intro ht
  have flagged := contains_of_within hin ht
  simp only [contains_append, h.reserved, Bool.false_or] at flagged
  cases h.privates with
  | inl outside => simp [outside] at flagged
  | inr excepted => simp [not_contains_of_apart hapart ht] at excepted

theorem unicast (h : Unflagged a) (hsite : contains siteLocal a.toNat = false) :
    contains IpRegistry.V6.unicast a.toNat = true := by
  have parts : contains (IpAddress.V6.reservedNetworks ++ [IpAddress.V6.multicastNetwork] ++
      siteLocal ++ IpAddress.V6.privateNetworks ++ IpRegistry.V6.unicast) a.toNat = true :=
    contains_of_within (by decide) (IpRegistry.V6.contains_space a)
  simp only [contains_append, h.reserved, h.multicast, hsite, Bool.false_or,
    Bool.or_eq_true] at parts
  cases parts with
  | inl flagged =>
    cases h.privates with
    | inl outside => simp [outside] at flagged
    | inr excepted => exact contains_of_within (by decide) excepted
  | inr routable => exact routable

theorem embedded_eq_nil (h : Unflagged a) : embedded a = [] :=
  IpRegistry.embedded_eq_nil (h.not_contains (by decide) (by decide))

theorem isGlobal6_eq (h : Unflagged a) :
    isGlobal6 a = !contains (siteLocal ++ documentation) a.toNat := by
  rw [contains_append]
  cases hsite : contains siteLocal a.toNat with
  | true =>
    have elsewhere : contains IpRegistry.V6.unicast a.toNat = false :=
      not_contains_of_apart (by decide) hsite
    simp [isGlobal6, elsewhere]
  | false =>
    have routable := h.unicast hsite
    cases hdoc : contains documentation a.toNat with
    | true =>
      have blocked : contains IpRegistry.V6.notReachable a.toNat = true :=
        contains_of_within (by decide) hdoc
      have closed : contains IpRegistry.V6.reachable a.toNat = false :=
        not_contains_of_apart (by decide) hdoc
      simp [isGlobal6, blocked, closed]
    | false =>
      have reach : contains IpRegistry.V6.notReachable a.toNat = false ∨
          contains IpRegistry.V6.reachable a.toNat = true := by
        cases h.privates with
        | inr excepted => exact Or.inr (contains_of_within (by decide) excepted)
        | inl outside =>
          refine Or.inl (Bool.eq_false_iff.mpr fun hin => ?_)
          have known : contains (IpAddress.V6.reservedNetworks ++
              IpAddress.V6.privateNetworks ++ documentation) a.toNat = true :=
            contains_of_within (by decide) hin
          simp [h.reserved, outside, hdoc] at known
      cases reach with
      | inl free => simp [isGlobal6, routable, free, h.embedded_eq_nil]
      | inr opened => simp [isGlobal6, routable, opened, h.embedded_eq_nil]

end Unflagged

/-- The check leaves exactly the global addresses and those of the gap. -/
theorem isGlobal_of_allowed {ip : Ip} (h : ipIsDisallowed ip = false) :
    isGlobal ip = !inGap ip := by
  simp only [ipIsDisallowed, Bool.or_eq_false_iff] at h
  obtain ⟨⟨⟨⟨⟨hprivate, -⟩, -⟩, hreserved⟩, hmulticast⟩, -⟩ := h
  cases ip with
  | v4 a => exact isGlobal4_of_not_private hprivate hmulticast
  | v6 a =>
    refine Unflagged.isGlobal6_eq ⟨hreserved, hmulticast, ?_⟩
    simpa only [Ip.isPrivate, ipv4Mapped_eq_none hreserved, Bool.and_eq_false_iff,
      Bool.not_eq_false'] using hprivate

/-- The unspecified address is private in both families. -/
theorem isPrivate_of_isUnspecified {ip : Ip} (h : ip.isUnspecified = true) :
    ip.isPrivate = true := by
  cases ip with
  | v4 a =>
    simp only [Ip.isUnspecified, decide_eq_true_eq] at h
    subst h
    decide
  | v6 a =>
    simp only [Ip.isUnspecified, decide_eq_true_eq] at h
    subst h
    decide

/-- The two checks differ on multicast addresses only. -/
theorem ipIsDisallowed_eq (ip : Ip) : ipIsDisallowed ip = (isInternal ip || ip.isMulticast) := by
  cases h : ip.isUnspecified with
  | false => simp [ipIsDisallowed, isInternal, h]
  | true => simp [ipIsDisallowed, isInternal, isPrivate_of_isUnspecified h]

/-! ## The guards -/

/-- What the guards read of the result of `urlparse` -/
structure ParsedUrl where
  scheme : String
  hostname : Option String
  deriving DecidableEq

/-- How `socket.getaddrinfo` fails: no such name, or any other exception with its text -/
inductive LookupError where
  | gaierror
  | other (text : String)

/-- The platform under the guards. Looking up the text of an address gives that address
back. -/
structure Platform where
  urlparse : String → Except String ParsedUrl
  lower : String → String
  getaddrinfo : String → Except LookupError (List String)
  getaddrinfo_literal : ∀ {host ip addrs}, ipAddress host = some ip →
    getaddrinfo host = .ok addrs → addrs ≠ [] ∧ ∀ s ∈ addrs, ipAddress s = some ip

/-- `_BLOCKED_HOSTNAMES` of `assert_url_is_public` -/
def blockedHostnames : List String :=
  ["localhost", "metadata", "metadata.google.internal", "metadata.google.com"]

/-- `_BLOCKED_HOSTS` of `_validate_external_url` -/
def blockedHosts : List String :=
  ["localhost", "metadata.google.internal", "metadata.google.com"]

namespace Platform

variable (p : Platform)

/-- The exception of a lookup, as `gaierror` is rewritten -/
def lookup (unresolved : String) (host : String) : Except String (List String) :=
  match p.getaddrinfo host with
  | .ok addrs => .ok addrs
  | .error .gaierror => .error unresolved
  | .error (.other text) => .error text

/-- `(parsed.hostname or "").strip().lower()` -/
def hostOf (parsed : ParsedUrl) : String :=
  p.lower (String.ofList (Python.strip (parsed.hostname.getD "").toList))

/-- `assert_url_is_public` -/
def assertUrlIsPublic (url : String) : Except String Unit := do
  let parsed ← p.urlparse url
  let scheme := p.lower parsed.scheme
  let shown := if scheme = "" then "(none)" else scheme
  let hostname := p.hostOf parsed
  if scheme ∉ ["http", "https"] then
    throw s!"URL scheme '{shown}' is not allowed — only http and https are permitted."
  else if hostname = "" then throw "URL has no host."
  else if hostname ∈ blockedHostnames then
    throw "Requests to internal / metadata hosts are not allowed."
  else
    match ipAddress hostname with
    | some literal =>
        if ipIsDisallowed literal then
          throw "Requests to internal / private addresses are not allowed."
        else pure ()
    | none =>
        let addrs ← p.lookup s!"Could not resolve hostname '{hostname}'." hostname
        addrs.forM fun sockaddr =>
          match ipAddress sockaddr with
          | none => pure ()
          | some ip =>
              if ipIsDisallowed ip then
                throw ("Requests to internal / private addresses are not allowed " ++
                  s!"(host '{hostname}' resolves to a non-public address).")
              else pure ()

/-- `_validate_external_url` -/
def validateExternalUrl (url : String) : Except String Unit := do
  let parsed ← p.urlparse url
  let hostname := parsed.hostname.getD ""
  if hostname = "" then throw "A valid URL with a hostname is required"
  else if hostname ∈ blockedHosts then
    throw "Requests to internal/private addresses are not allowed"
  else
    let addrs ← p.lookup s!"Could not resolve hostname: {hostname}" hostname
    addrs.forM fun sockaddr =>
      match ipAddress sockaddr with
      | none => throw s!"'{sockaddr}' does not appear to be an IPv4 or IPv6 address"
      | some ip =>
          if isInternal ip then throw "Requests to internal/private addresses are not allowed"
          else pure ()

/-! ## What the guards admit -/

/-- The addresses a host denotes or resolves to -/
def addresses (host : String) : List Ip :=
  match ipAddress host with
  | some ip => [ip]
  | none =>
      match p.getaddrinfo host with
      | .ok addrs => addrs.filterMap ipAddress
      | .error _ => []

/-- The host is an address, or a name that resolves. -/
def Known (host : String) : Prop :=
  (ipAddress host).isSome = true ∨ ∃ addrs, p.getaddrinfo host = .ok addrs

/-- The checks of `assert_url_is_public` on a host -/
structure HostAllowed (host : String) : Prop where
  nonempty : host ≠ ""
  unblocked : host ∉ blockedHostnames
  known : p.Known host
  allowed : ∀ ip ∈ p.addresses host, ipIsDisallowed ip = false

/-- The checks of `_validate_external_url` on a host -/
structure HostValid (host : String) : Prop where
  nonempty : host ≠ ""
  unblocked : host ∉ blockedHosts
  valid : ∃ addrs, p.getaddrinfo host = .ok addrs ∧
    ∀ s ∈ addrs, ∃ ip, ipAddress s = some ip ∧ isInternal ip = false

variable {p} {url host : String} {parsed : ParsedUrl}

theorem lookup_eq_ok {unresolved : String} {addrs : List String} :
    p.lookup unresolved host = .ok addrs ↔ p.getaddrinfo host = .ok addrs := by
  unfold lookup
  split
  · rename_i h
    rw [h]
    simp
  · rename_i h
    simp [h]
  · rename_i h
    simp [h]

theorem hostAllowed_literal {ip : Ip} (hip : ipAddress host = some ip) :
    p.HostAllowed host ↔
      host ≠ "" ∧ host ∉ blockedHostnames ∧ ipIsDisallowed ip = false := by
  constructor
  · intro h
    exact ⟨h.nonempty, h.unblocked, h.allowed ip (by simp [addresses, hip])⟩
  · rintro ⟨nonempty, unblocked, hallowed⟩
    exact ⟨nonempty, unblocked, Or.inl (by simp [hip]), by simpa [addresses, hip] using hallowed⟩

theorem hostAllowed_name (hip : ipAddress host = none) :
    p.HostAllowed host ↔ host ≠ "" ∧ host ∉ blockedHostnames ∧
      ∃ addrs, p.getaddrinfo host = .ok addrs ∧
        ∀ s ∈ addrs, ∀ ip, ipAddress s = some ip → ipIsDisallowed ip = false := by
  constructor
  · intro h
    cases h.known with
    | inl literal => simp [hip] at literal
    | inr resolved =>
      obtain ⟨addrs, haddrs⟩ := resolved
      refine ⟨h.nonempty, h.unblocked, addrs, haddrs, fun s hs ip hsip => h.allowed ip ?_⟩
      simp only [addresses, hip, haddrs, List.mem_filterMap]
      exact ⟨s, hs, hsip⟩
  · rintro ⟨nonempty, unblocked, addrs, haddrs, hallowed⟩
    refine ⟨nonempty, unblocked, Or.inr ⟨addrs, haddrs⟩, fun ip hmem => ?_⟩
    simp only [addresses, hip, haddrs, List.mem_filterMap] at hmem
    obtain ⟨s, hs, hsip⟩ := hmem
    exact hallowed s hs ip hsip

theorem assertUrlIsPublic_eq_ok (hurl : p.urlparse url = .ok parsed) :
    p.assertUrlIsPublic url = .ok () ↔
      p.lower parsed.scheme ∈ ["http", "https"] ∧ p.HostAllowed (p.hostOf parsed) := by
  simp only [assertUrlIsPublic, hurl, bind_eq_ok, Except.ok.injEq, exists_eq_left', refuse_eq_ok,
    Decidable.not_not]
  cases hip : ipAddress (p.hostOf parsed) with
  | some ip =>
    rw [hostAllowed_literal hip]
    simp [pure, Except.pure]
  | none =>
    rw [hostAllowed_name hip]
    simp only [bind_eq_ok, lookup_eq_ok, ElementWise.forM_eq_ok]
    refine and_congr_right' (and_congr_right' (and_congr_right' ?_))
    refine exists_congr fun addrs => and_congr_right' (forall₂_congr fun s _ => ?_)
    cases ipAddress s with
    | none => simp [pure, Except.pure]
    | some ip => simp [pure, Except.pure]

theorem validateExternalUrl_eq_ok (hurl : p.urlparse url = .ok parsed) :
    p.validateExternalUrl url = .ok () ↔ p.HostValid (parsed.hostname.getD "") := by
  have each : ∀ s : String,
      (match ipAddress s with
        | none => throw s!"'{s}' does not appear to be an IPv4 or IPv6 address"
        | some ip =>
            if isInternal ip then throw "Requests to internal/private addresses are not allowed"
            else pure ()) = (Except.ok () : Except String Unit) ↔
        ∃ ip, ipAddress s = some ip ∧ isInternal ip = false := by
    intro s
    cases ipAddress s with
    | none => simp [throw, throwThe, MonadExceptOf.throw]
    | some ip => simp [pure, Except.pure]
  simp only [validateExternalUrl, hurl, bind_eq_ok, Except.ok.injEq, exists_eq_left', refuse_eq_ok,
    lookup_eq_ok, ElementWise.forM_eq_ok, each]
  exact ⟨fun ⟨nonempty, unblocked, valid⟩ => ⟨nonempty, unblocked, valid⟩,
    fun h => ⟨h.nonempty, h.unblocked, h.valid⟩⟩

/-- A URL that does not parse passes no guard. -/
theorem exists_parsed_of_assert (h : p.assertUrlIsPublic url = .ok ()) :
    ∃ parsed, p.urlparse url = .ok parsed :=
  (ok_of_bind h).imp fun _ h => h.1

theorem exists_parsed_of_validate (h : p.validateExternalUrl url = .ok ()) :
    ∃ parsed, p.urlparse url = .ok parsed :=
  (ok_of_bind h).imp fun _ h => h.1

/-- Every address of a validated host passed the checks of its guard. -/
theorem HostValid.known_and_external (h : p.HostValid host) :
    p.Known host ∧ ∀ ip ∈ p.addresses host, isInternal ip = false := by
  obtain ⟨addrs, haddrs, hvalid⟩ := h.valid
  refine ⟨Or.inr ⟨addrs, haddrs⟩, fun ip hmem => ?_⟩
  cases hip : ipAddress host with
  | some literal =>
    simp only [addresses, hip, List.mem_singleton] at hmem
    obtain ⟨nonempty, answers⟩ := p.getaddrinfo_literal hip haddrs
    obtain ⟨s, hs⟩ := List.exists_mem_of_ne_nil _ nonempty
    obtain ⟨found, hfound, hexternal⟩ := hvalid s hs
    rw [answers s hs] at hfound
    cases hfound
    rw [hmem, hexternal]
  | none =>
    simp only [addresses, hip, haddrs, List.mem_filterMap] at hmem
    obtain ⟨s, hs, hsip⟩ := hmem
    obtain ⟨found, hfound, hexternal⟩ := hvalid s hs
    rw [hsip] at hfound
    cases hfound
    exact hexternal

/-- On one spelling of the host the first guard asks for two things more. -/
theorem HostValid.allowed_iff (h : p.HostValid host) :
    p.HostAllowed host ↔
      host ≠ "metadata" ∧ ∀ ip ∈ p.addresses host, ip.isMulticast = false := by
  obtain ⟨hknown, hexternal⟩ := h.known_and_external
  constructor
  · intro hallowed
    refine ⟨fun heq => hallowed.unblocked (by simp [heq, blockedHostnames]), fun ip hip => ?_⟩
    have := hallowed.allowed ip hip
    rw [ipIsDisallowed_eq, Bool.or_eq_false_iff] at this
    exact this.2
  · rintro ⟨hmetadata, hunicast⟩
    refine ⟨h.nonempty, fun hblocked => ?_, hknown, fun ip hip => ?_⟩
    · have := h.unblocked
      simp_all [blockedHostnames, blockedHosts]
    · rw [ipIsDisallowed_eq, hexternal ip hip, hunicast ip hip]
      rfl

/-! ## The law of the guards -/

variable (p) (url)

/-- A URL the first guard accepts is a web URL, and every address its host denotes or
resolves to is global. -/
def OnlyPublic : Prop :=
  p.assertUrlIsPublic url = .ok () → ∃ parsed, p.urlparse url = .ok parsed ∧
    p.lower parsed.scheme ∈ ["http", "https"] ∧
    ∀ ip ∈ p.addresses (p.hostOf parsed), isGlobal ip = true

/-- The first guard accepts what the second one accepts. -/
def GuardsAgree : Prop :=
  p.validateExternalUrl url = .ok () → p.assertUrlIsPublic url = .ok ()

/-- No address of an allowed host lies in the gap. -/
def GapFree (parsed : ParsedUrl) : Prop :=
  p.lower parsed.scheme ∈ ["http", "https"] → p.HostAllowed (p.hostOf parsed) →
    ∀ ip ∈ p.addresses (p.hostOf parsed), inGap ip = false

/-- What the second guard leaves unchecked on a host that passes it -/
def Unchecked (parsed : ParsedUrl) : Prop :=
  p.HostValid (parsed.hostname.getD "") → p.lower parsed.scheme ∈ ["http", "https"] ∧
    if p.hostOf parsed = parsed.hostname.getD "" then
      p.hostOf parsed ≠ "metadata" ∧
        ∀ ip ∈ p.addresses (p.hostOf parsed), ip.isMulticast = false
    else p.HostAllowed (p.hostOf parsed)

variable {p} {url}

theorem onlyPublic_iff (hurl : p.urlparse url = .ok parsed) :
    p.OnlyPublic url ↔ p.GapFree parsed := by
  have global : p.HostAllowed (p.hostOf parsed) → ∀ ip ∈ p.addresses (p.hostOf parsed),
      (isGlobal ip = true ↔ inGap ip = false) := by
    intro h ip hip
    simp [isGlobal_of_allowed (h.allowed ip hip)]
  rw [OnlyPublic, assertUrlIsPublic_eq_ok hurl]
  simp only [hurl, Except.ok.injEq, exists_eq_left']
  constructor
  · intro h hweb hallowed ip hip
    exact (global hallowed ip hip).mp ((h ⟨hweb, hallowed⟩).2 ip hip)
  · rintro h ⟨hweb, hallowed⟩
    exact ⟨hweb, fun ip hip => (global hallowed ip hip).mpr (h hweb hallowed ip hip)⟩

theorem guardsAgree_iff (hurl : p.urlparse url = .ok parsed) :
    p.GuardsAgree url ↔ p.Unchecked parsed := by
  rw [GuardsAgree, assertUrlIsPublic_eq_ok hurl, validateExternalUrl_eq_ok hurl, Unchecked]
  refine imp_congr_right fun hvalid => and_congr_right' ?_
  by_cases hsame : p.hostOf parsed = parsed.hostname.getD ""
  · rw [if_pos hsame]
    rw [← hsame] at hvalid
    exact hvalid.allowed_iff
  · rw [if_neg hsame]

/-- Both guards keep the law at a URL exactly when its host has no address in the gap
and the second guard's blind spots are not met. -/
theorem admitOnlyPublic_iff (p : Platform) (url : String) :
    p.OnlyPublic url ∧ p.GuardsAgree url ↔
      ∀ parsed, p.urlparse url = .ok parsed → p.GapFree parsed ∧ p.Unchecked parsed := by
  constructor
  · rintro ⟨hpublic, hagree⟩ parsed hurl
    exact ⟨(onlyPublic_iff hurl).mp hpublic, (guardsAgree_iff hurl).mp hagree⟩
  · intro h
    constructor
    · intro hassert
      obtain ⟨parsed, hurl⟩ := exists_parsed_of_assert hassert
      exact (onlyPublic_iff hurl).mpr (h parsed hurl).1 hassert
    · intro hvalidate
      obtain ⟨parsed, hurl⟩ := exists_parsed_of_validate hvalidate
      exact (guardsAgree_iff hurl).mpr (h parsed hurl).2 hvalidate

/-- A platform without names, on which two URLs are looked at -/
def literals : Platform where
  urlparse url :=
    if url = "http://100.64.0.1/" then .ok ⟨"http", some "100.64.0.1"⟩
    else if url = "ftp://8.8.8.8/" then .ok ⟨"ftp", some "8.8.8.8"⟩
    else .ok ⟨"", none⟩
  lower s := String.ofList (Python.lower s.toList)
  getaddrinfo host :=
    match ipAddress host with
    | some _ => .ok [host]
    | none => .error .gaierror
  getaddrinfo_literal := by
    intro host ip addrs hip haddrs
    rw [hip] at haddrs
    cases haddrs
    simp [hip]

/-- The first guard admits an address of the shared space, and the second one a URL
whose scheme the first one refuses. -/
theorem shared_space_admitted :
    ¬literals.OnlyPublic "http://100.64.0.1/" ∧ ¬literals.GuardsAgree "ftp://8.8.8.8/" := by
  constructor
  · intro h
    obtain ⟨parsed, hparsed, -, hglobal⟩ := h (by decide)
    cases hparsed
    exact absurd (hglobal (.v4 1681915905) (by decide)) (by decide)
  · intro h
    exact absurd (h (by decide)) (by decide)

end Platform

end CitraFlows.UrlGuards
