import LightTrack.Lib.WebUrl

/-! # Where an alert may be sent

`crates/api/src/alerts/vet.rs`: a destination is vetted by the host and the port that the server's
own splitter finds in it, and then fetched by a client that reads the same text for itself.

* `refuseIp_embedded` : an address that is refused is refused in its IPv6 spellings,
* `hostOf_plain`, `defaultPort_plain` : what the splitter finds where the client reads the
  authority as it stands,
* `check_vetted` : there, what was vetted is what is fetched.
-/

namespace LightTrack.Alerts

open WebUrl

/-! ## Addresses -/

structure Ipv4Addr where
  a : UInt8
  b : UInt8
  c : UInt8
  d : UInt8
  deriving DecidableEq

structure Ipv6Addr where
  s0 : UInt16
  s1 : UInt16
  s2 : UInt16
  s3 : UInt16
  s4 : UInt16
  s5 : UInt16
  s6 : UInt16
  s7 : UInt16
  deriving DecidableEq

inductive IpAddr where
  | v4 (a : Ipv4Addr)
  | v6 (a : Ipv6Addr)
  deriving DecidableEq

namespace Ipv4Addr

def isLoopback (ip : Ipv4Addr) : Bool := ip.a == 127

def isPrivate (ip : Ipv4Addr) : Bool :=
  ip.a == 10 || ip.a == 172 && 16 ≤ ip.b && ip.b ≤ 31 || ip.a == 192 && ip.b == 168

def isLinkLocal (ip : Ipv4Addr) : Bool := ip.a == 169 && ip.b == 254

def isBroadcast (ip : Ipv4Addr) : Bool := ip == ⟨255, 255, 255, 255⟩

def isMulticast (ip : Ipv4Addr) : Bool := 224 ≤ ip.a && ip.a ≤ 239

def isUnspecified (ip : Ipv4Addr) : Bool := ip == ⟨0, 0, 0, 0⟩

end Ipv4Addr

/-- Two octets as a segment. -/
def segment (hi lo : UInt8) : UInt16 := hi.toUInt16 * 256 + lo.toUInt16

namespace Ipv6Addr

def isLoopback (ip : Ipv6Addr) : Bool := ip == ⟨0, 0, 0, 0, 0, 0, 0, 1⟩

def isUnspecified (ip : Ipv6Addr) : Bool := ip == ⟨0, 0, 0, 0, 0, 0, 0, 0⟩

def isMulticast (ip : Ipv6Addr) : Bool := ip.s0 &&& 0xff00 == 0xff00

/-- The low 32 bits as an IPv4 address. -/
def low (ip : Ipv6Addr) : Ipv4Addr :=
  ⟨(ip.s6 / 256).toUInt8, ip.s6.toUInt8, (ip.s7 / 256).toUInt8, ip.s7.toUInt8⟩

/-- `to_ipv4_mapped`. -/
def toIpv4Mapped (ip : Ipv6Addr) : Option Ipv4Addr :=
  if ip.s0 = 0 ∧ ip.s1 = 0 ∧ ip.s2 = 0 ∧ ip.s3 = 0 ∧ ip.s4 = 0 ∧ ip.s5 = 0xffff then some ip.low
  else none

end Ipv6Addr

def IpAddr.isLoopback : IpAddr → Bool
  | .v4 a => a.isLoopback
  | .v6 a => a.isLoopback

/-- `nat64_embedded`. -/
def nat64Embedded (v6 : Ipv6Addr) : Option Ipv4Addr :=
  let wellKnown := v6.s0 == 0x0064 && v6.s1 == 0xff9b &&
    (v6.s2 == 0 && v6.s3 == 0 && v6.s4 == 0 && v6.s5 == 0)
  let localUse := v6.s0 == 0x0064 && v6.s1 == 0xff9b && v6.s2 == 0x0001
  if wellKnown || localUse then some v6.low else none

/-- `refuse_ip` on an IPv4 address. -/
def refuseV4 (v4 : Ipv4Addr) : Option String :=
  if v4.isLoopback then some "loopback"
  else if v4.isPrivate then some "private"
  else if v4.isLinkLocal then some "link-local / cloud metadata"
  else if v4.isBroadcast || v4.isMulticast || v4.isUnspecified then some "not a unicast host"
  else if v4.a == 100 && (64 ≤ v4.b && v4.b < 128) then some "shared address space (CGNAT)"
  else if v4.a == 0 then some "this-network (0.0.0.0/8)"
  else if v4.a == 192 && v4.b == 0 && v4.c == 0 then
    some "IETF protocol assignment (192.0.0.0/24)"
  else if v4.a == 198 && (18 ≤ v4.b && v4.b < 20) then some "benchmarking range (198.18.0.0/15)"
  else none

/-- `refuse_ip`. -/
def refuseIp : IpAddr → Option String
  | .v4 v4 => refuseV4 v4
  | .v6 v6 =>
    if v6.isLoopback then some "loopback"
    else if v6.isUnspecified || v6.isMulticast then some "not a unicast host"
    else if v6.s0 &&& 0xffc0 == 0xfe80 then some "link-local"
    else if v6.s0 &&& 0xfe00 == 0xfc00 then some "unique-local"
    else
      match v6.toIpv4Mapped with
      | some v4 => refuseV4 v4
      | none =>
        match nat64Embedded v6 with
        | some v4 => refuseV4 v4
        | none => none

/-! ## Addresses as text -/

/-- `char::to_digit`. -/
def digitOf (radix : ℕ) (c : Char) : Option ℕ :=
  let d :=
    if c.isDigit then some (c.toNat - '0'.toNat)
    else if 'a' ≤ c ∧ c ≤ 'f' then some (c.toNat - 'a'.toNat + 10)
    else if 'A' ≤ c ∧ c ≤ 'F' then some (c.toNat - 'A'.toNat + 10)
    else none
  d.filter (· < radix)

/-- `read_number`: a number below `limit` of at most `maxDigits` digits. -/
def readNumber (radix maxDigits limit : ℕ) (allowZeroPrefix : Bool) (s : List Char) :
    Option (ℕ × List Char) :=
  let ds := s.takeWhile fun c => (digitOf radix c).isSome
  let n := ds.foldl (fun n c => radix * n + (digitOf radix c).getD 0) 0
  if ds = [] ∨ maxDigits < ds.length ∨ limit ≤ n ∨
      (allowZeroPrefix = false ∧ ds.head? = some '0' ∧ 1 < ds.length) then none
  else some (n, s.drop ds.length)

/-- `read_given_char`. -/
def readGivenChar (c : Char) : List Char → Option (List Char)
  | [] => none
  | d :: s => if d = c then some s else none

/-- `read_ipv4_addr`. -/
def readIpv4Addr (s : List Char) : Option (Ipv4Addr × List Char) := do
  let (a, s) ← readNumber 10 3 256 false s
  let s ← readGivenChar '.' s
  let (b, s) ← readNumber 10 3 256 false s
  let s ← readGivenChar '.' s
  let (c, s) ← readNumber 10 3 256 false s
  let s ← readGivenChar '.' s
  let (d, s) ← readNumber 10 3 256 false s
  return (⟨.ofNat a, .ofNat b, .ofNat c, .ofNat d⟩, s)

/-- `read_groups` with room for `n` more groups: the groups, and whether an IPv4 address ends
them. -/
def readGroups : ℕ → Bool → List Char → List UInt16 × Bool × List Char
  | 0, _, s => ([], false, s)
  | n + 1, first, s =>
    match (if first then some s else readGivenChar ':' s) with
    | none => ([], false, s)
    | some s₁ =>
      match (if 0 < n then readIpv4Addr s₁ else none) with
      | some (v4, s₂) => ([segment v4.a v4.b, segment v4.c v4.d], true, s₂)
      | none =>
        match readNumber 16 4 65536 true s₁ with
        | none => ([], false, s)
        | some (g, s₂) =>
          let (gs, v4, s₃) := readGroups n false s₂
          (.ofNat g :: gs, v4, s₃)

/-- The address of eight groups. -/
def ofGroups (gs : List UInt16) : Ipv6Addr :=
  ⟨gs.getD 0 0, gs.getD 1 0, gs.getD 2 0, gs.getD 3 0, gs.getD 4 0, gs.getD 5 0, gs.getD 6 0,
    gs.getD 7 0⟩

/-- `read_ipv6_addr`. -/
def readIpv6Addr (s : List Char) : Option (Ipv6Addr × List Char) :=
  let (head, headIpv4, s₁) := readGroups 8 true s
  if head.length = 8 then some (ofGroups head, s₁)
  else if headIpv4 then none
  else do
    let s₂ ← readGivenChar ':' s₁
    let s₃ ← readGivenChar ':' s₂
    let (tail, _, s₄) := readGroups (8 - (head.length + 1)) true s₃
    let zeros := List.replicate (8 - head.length - tail.length) 0
    return (ofGroups (head ++ zeros ++ tail), s₄)

/-- `str::parse::<IpAddr>`. -/
def parseIpAddr (s : List Char) : Option IpAddr :=
  match readIpv4Addr s with
  | some (v4, rest) => if rest = [] then some (.v4 v4) else none
  | none =>
    match readIpv6Addr s with
    | some (v6, rest) => if rest = [] then some (.v6 v6) else none
    | none => none

/-- `is_loopback_host`. -/
def isLoopbackHost (host : List Char) : Bool :=
  host.map Char.toLower == ['l', 'o', 'c', 'a', 'l', 'h', 'o', 's', 't'] ||
    match parseIpAddr host with
    | some ip => ip.isLoopback
    | none => false

/-! ## The splitter -/

/-- The text behind `https://` or `http://`. -/
def stripScheme (url : List Char) : Option (List Char) :=
  if Scheme.https.text.isPrefixOf url then some (url.drop 8)
  else if Scheme.http.text.isPrefixOf url then some (url.drop 7)
  else none

/-- `split(['/', '?', '#'])`: what stands before the first of them. -/
def firstPart (s : List Char) : List Char :=
  s.takeWhile fun c => !(c == '/' || c == '?' || c == '#')

/-- What stands in brackets at the start. -/
def bracketed : List Char → Option (List Char)
  | '[' :: r => if ']' ∈ r then some (r.takeWhile (· != ']')) else none
  | _ => none

/-- `host_of`. -/
def hostOf (url : List Char) : Option (List Char) :=
  (stripScheme url).bind fun rest =>
    let authority := afterLast '@' (firstPart rest)
    match bracketed authority with
    | some host => some host
    | none =>
      let host := authority.takeWhile (· != ':')
      if host = [] then none else some host

/-- `str::parse::<u16>`: one `+` is allowed before the digits. -/
def parseU16 (s : List Char) : Option ℕ :=
  let ds := if s.head? = some '+' then s.tail else s
  if ds ≠ [] ∧ ds.all Char.isDigit ∧ Decimal.value ds ≤ 65535 then some (Decimal.value ds)
  else none

/-- `default_port`. -/
def defaultPort (url : List Char) : ℕ :=
  match (stripScheme url).map firstPart with
  | none => 443
  | some hostPart =>
    let after := afterLast ']' hostPart
    match (if ':' ∈ after then parseU16 (afterLast ':' after) else none) with
    | some p => p
    | none => if Scheme.http.text.isPrefixOf url then 80 else 443

/-! ## The check -/

/-- `ENV_DEV_DESTINATIONS`. -/
def ENV_DEV_DESTINATIONS : String := "LIGHTTRACK_ALERT_ALLOW_LOOPBACK"

/-- The resolver of the machine, and how an address is written out. -/
structure Net where
  lookupHost : List Char → ℕ → Except String (List IpAddr)
  display : IpAddr → String

/-- `check_scheme`. -/
def checkScheme (url : String) (dev : Bool) : Except String Unit :=
  if Scheme.https.text.isPrefixOf url.toList then .ok ()
  else if Scheme.http.text.isPrefixOf url.toList then
    if dev && isLoopbackHost ((hostOf url.toList).getD []) then .ok ()
    else .error (s!"alert destination '{url}' must be https:// — a plaintext webhook puts the " ++
      "alert body (projects, models, spend) on the wire in the clear. Set " ++
      s!"{ENV_DEV_DESTINATIONS}=1 to allow http://localhost in development.")
  else .error s!"alert destination '{url}' must be an http(s) URL"

/-- `check`. -/
def check (net : Net) (url : String) (dev : Bool) : Except String Unit := do
  checkScheme url dev
  match hostOf url.toList with
  | none => throw s!"alert destination '{url}' has no host"
  | some host =>
    if dev && isLoopbackHost host then return ()
    match net.lookupHost host (defaultPort url.toList) with
    | .error e => throw s!"alert destination '{url}' does not resolve: {e}"
    | .ok addrs =>
      match addrs.findSome? fun ip => (refuseIp ip).map fun why => (ip, why) with
      | some (ip, why) =>
        throw (s!"alert destination '{url}' resolves to {net.display ip} ({why}). Alerts are " ++
          "only delivered to public addresses — a private or link-local destination would turn " ++
          "alert delivery into a probe of the network this server happens to sit in.")
      | none =>
        if addrs.isEmpty then throw s!"alert destination '{url}' resolves to no address"
        else return ()

/-! ## Addresses in IPv6 spelling -/

/-- The IPv6 addresses that carry an IPv4 address in their low 32 bits: IPv4-mapped, under
`64:ff9b::/96`, under `64:ff9b:1::/48`. -/
inductive Embeds (v4 : Ipv4Addr) : Ipv6Addr → Prop
  | mapped : Embeds v4 ⟨0, 0, 0, 0, 0, 0xffff, segment v4.a v4.b, segment v4.c v4.d⟩
  | wellKnown : Embeds v4 ⟨0x0064, 0xff9b, 0, 0, 0, 0, segment v4.a v4.b, segment v4.c v4.d⟩
  | localUse (x y z : UInt16) :
      Embeds v4 ⟨0x0064, 0xff9b, 0x0001, x, y, z, segment v4.a v4.b, segment v4.c v4.d⟩

theorem segment_hi (hi lo : UInt8) : (segment hi lo / 256).toUInt8 = hi := by
  rw [← UInt8.toNat_inj]
  have hhi := hi.toNat_lt
  have hlo := lo.toNat_lt
  simp [segment]
  omega

theorem segment_lo (hi lo : UInt8) : (segment hi lo).toUInt8 = lo := by
  rw [← UInt8.toNat_inj]
  have hhi := hi.toNat_lt
  have hlo := lo.toNat_lt
  simp [segment]

theorem Embeds.low_eq {v4 : Ipv4Addr} {v6 : Ipv6Addr} (h : Embeds v4 v6) : v6.low = v4 := by
  cases h <;> simp only [Ipv6Addr.low, segment_hi, segment_lo]

/-- An address is refused in every IPv6 spelling as it is. -/
theorem refuseIp_embedded {v4 : Ipv4Addr} {v6 : Ipv6Addr} (h : Embeds v4 v6) :
    refuseIp (.v6 v6) = refuseIp (.v4 v4) := by
  have hlow := h.low_eq
  have hmulticast : (100 : UInt16) &&& 65280 ≠ 65280 := by decide
  have hlinkLocal : (100 : UInt16) &&& 65472 ≠ 65152 := by decide
  have huniqueLocal : (100 : UInt16) &&& 65024 ≠ 64512 := by decide
  cases h with
  | mapped => simp [refuseIp, Ipv6Addr.isLoopback, Ipv6Addr.isUnspecified, Ipv6Addr.isMulticast,
      Ipv6Addr.toIpv4Mapped, hlow]
  | wellKnown => simp [refuseIp, Ipv6Addr.isLoopback, Ipv6Addr.isUnspecified,
      Ipv6Addr.isMulticast, Ipv6Addr.toIpv4Mapped, nat64Embedded, hlow, hmulticast, hlinkLocal,
      huniqueLocal]
  | localUse x y z => simp [refuseIp, Ipv6Addr.isLoopback, Ipv6Addr.isUnspecified,
      Ipv6Addr.isMulticast, Ipv6Addr.toIpv4Mapped, nat64Embedded, hlow, hmulticast, hlinkLocal,
      huniqueLocal]

/-! ## What the splitter finds -/

theorem stripScheme_eq_some {url rest : List Char} (h : stripScheme url = some rest) :
    ∃ scheme : Scheme, url = scheme.text ++ rest := by
  unfold stripScheme at h
  split_ifs at h with hs hs'
  · obtain ⟨t, rfl⟩ := List.isPrefixOf_iff_prefix.1 hs
    exact ⟨.https, congrArg (Scheme.https.text ++ ·) (Option.some.inj h)⟩
  · obtain ⟨t, rfl⟩ := List.isPrefixOf_iff_prefix.1 hs'
    exact ⟨.http, congrArg (Scheme.http.text ++ ·) (Option.some.inj h)⟩

/-- The scheme's own port where no port is written. -/
theorem isPrefixOf_http (scheme : Scheme) (rest : List Char) :
    (if Scheme.http.text.isPrefixOf (scheme.text ++ rest) then 80 else 443) =
      scheme.defaultPort := by
  cases scheme <;> rfl

/-- The destination is written so that the client reads its authority as it stands: the authority
has no backslash, no tab or newline behind the user information, and where it ends the text it does
not end with a control or a space. -/
def PlainAuthority (url : List Char) : Prop :=
  ∀ rest ∈ stripScheme url, '\\' ∉ firstPart rest ∧
    (∀ c ∈ afterLast '@' (firstPart rest), isTabOrNewline c = false) ∧
    (firstPart rest = rest → ∀ c ∈ rest.getLast?, isC0OrSpace c = false)

/-- A plain authority, and what follows it. -/
theorem PlainAuthority.plain {url rest : List Char} (h : PlainAuthority url)
    (hrest : stripScheme url = some rest) :
    ∃ tail, rest = firstPart rest ++ tail ∧ Plain (firstPart rest) tail := by
  obtain ⟨hback, htab, hlast⟩ := h rest hrest
  have hsplit := List.takeWhile_append_dropWhile
    (p := fun c => !(c == '/' || c == '?' || c == '#')) (l := rest)
  refine ⟨_, hsplit.symm, ?_, ?_, htab, ?_⟩
  · intro c hc
    have hstop := List.head?_dropWhile_not
      (fun c => !(c == '/' || c == '?' || c == '#')) rest
    rw [Option.mem_def.1 hc] at hstop
    simp only [Bool.not_eq_false', Bool.or_eq_true, beq_iff_eq] at hstop
    rcases hstop with (rfl | rfl) | rfl <;> rfl
  · intro c hc
    have hpass := List.mem_takeWhile_imp hc
    have hne : c ≠ '\\' := fun h => hback (h ▸ hc)
    simp only [Bool.not_eq_true', Bool.or_eq_false_iff] at hpass
    simp only [endsAuthority, isSlash, Bool.or_eq_false_iff, beq_eq_false_iff_ne]
    simp only [beq_eq_false_iff_ne] at hpass
    exact ⟨⟨⟨hpass.1.1, hne⟩, hpass.1.2⟩, hpass.2⟩
  · intro hnil
    rw [hnil, List.append_nil] at hsplit
    have hall : firstPart rest = rest := hsplit
    rw [hall]
    exact hlast hall

theorem takeWhile_append_cons {c : Char} {u v : List Char} (h : c ∉ u) :
    (u ++ c :: v).takeWhile (· != c) = u := by
  have hpass : ∀ d ∈ u, (d != c) = true := by
    intro d hd
    rw [bne_iff_ne]
    rintro rfl
    exact h hd
  rw [List.takeWhile_append_of_pos hpass,
    List.takeWhile_cons_of_neg (p := fun d => d != c) (by simp), List.append_nil]

theorem takeWhile_of_not_mem {c : Char} {u : List Char} (h : c ∉ u) :
    u.takeWhile (· != c) = u := by
  rw [List.takeWhile_eq_self_iff]
  intro d hd
  rw [bne_iff_ne]
  rintro rfl
  exact h hd

theorem bracketed_eq_none {s : List Char} (h : s.head? ≠ some '[') : bracketed s = none := by
  unfold bracketed
  split
  case h_1 r => exact absurd rfl h
  case h_2 => rfl

section Split

variable {parser : HostParser IpAddr} {url rest host' : List Char} {port' : Option (List Char)}
  {host : Host IpAddr} {port : ℕ}

/-- The splitter looks up the text that the client reads as its host. -/
theorem hostOf_plain (hrest : stripScheme url = some rest)
    (hsplit : splitPort false (afterLast '@' (firstPart rest)) = (host', port'))
    (hne : host' ≠ []) (hread : parser.read host' = some host) :
    ∃ text, hostOf url = some text ∧ parser.Reads text host := by
  unfold hostOf
  rw [hrest, Option.bind_some]
  simp only
  generalize afterLast '@' (firstPart rest) = authority at hsplit
  rcases HostParser.read_cases hread with ⟨inner, rfl, hinner, hreads⟩ | ⟨hopen, -, hreads⟩
  · -- in brackets the host ends at the first closing one
    have hauthority : ∃ more, authority = '[' :: (inner ++ ']' :: more) := by
      rcases splitPort_spec hsplit with ⟨-, rfl⟩ | ⟨p, -, rfl⟩
      · exact ⟨[], rfl⟩
      · exact ⟨':' :: p, by simp⟩
    obtain ⟨more, rfl⟩ := hauthority
    have hbracketed : bracketed ('[' :: (inner ++ ']' :: more)) = some inner := by
      unfold bracketed
      simp only
      rw [if_pos (by simp), takeWhile_append_cons hinner]
    rw [hbracketed]
    exact ⟨inner, rfl, hreads⟩
  · -- elsewhere it ends at the first colon
    have hcolon := splitPort_colon hsplit hopen
    have hauthority : authority.takeWhile (· != ':') = host' := by
      rcases splitPort_spec hsplit with ⟨-, rfl⟩ | ⟨p, -, rfl⟩
      · exact takeWhile_of_not_mem hcolon
      · exact takeWhile_append_cons hcolon
    have hhead : authority.head? ≠ some '[' := by
      intro hhead
      -- a host that starts with a bracket holds one
      obtain ⟨r, rfl⟩ := List.head?_eq_some_iff.1 hhead
      rw [List.takeWhile_cons_of_pos (by decide)] at hauthority
      exact hopen (hauthority ▸ List.mem_cons_self)
    rw [bracketed_eq_none hhead, hauthority]
    simp only
    rw [if_neg hne]
    exact ⟨host', rfl, hreads⟩

/-- Digits are a port for both. -/
theorem parseU16_digits {ds : List Char} (hds : ∀ c ∈ ds, c.isDigit = true) (hne : ds ≠ [])
    (hmax : Decimal.value ds ≤ 65535) : parseU16 ds = some (Decimal.value ds) := by
  have hhead : ds.head? ≠ some '+' := by
    intro h
    have := hds '+' (List.mem_of_head? h)
    simp at this
  unfold parseU16
  rw [if_neg hhead]
  simp only
  rw [if_pos ⟨hne, List.all_eq_true.2 hds, hmax⟩]

/-- A text with an `@` is no port. -/
theorem parseU16_of_at {s : List Char} (h : '@' ∈ s) : parseU16 s = none := by
  have hmem : '@' ∈ (if s.head? = some '+' then s.tail else s) := by
    split_ifs with hplus
    · cases s with
      | nil => simp at h
      | cons c s =>
        rw [List.head?_cons, Option.some.injEq] at hplus
        subst hplus
        rcases List.mem_cons.1 h with h | h
        · exact absurd h (by decide)
        · exact h
    · exact h
  unfold parseU16
  simp only
  generalize (if s.head? = some '+' then s.tail else s) = ds at hmem
  rw [if_neg]
  rintro ⟨-, hall, -⟩
  have := List.all_eq_true.1 hall '@' hmem
  simp at this

/-- Behind user information without a port stands none. -/
theorem parseU16_user {pre h : List Char} (hpre : pre = [] ∨ ∃ u, pre = u ++ ['@'])
    (hclose : ']' ∉ h) (hcolon : ':' ∉ h) :
    (if ':' ∈ afterLast ']' (pre ++ h) then parseU16 (afterLast ':' (afterLast ']' (pre ++ h)))
      else none) = none := by
  rw [afterLast_append_of_not_mem pre hclose]
  split_ifs with hmem
  · rw [afterLast_append_of_not_mem _ hcolon]
    rcases hpre with rfl | ⟨u, rfl⟩
    · exact absurd hmem hcolon
    · rw [afterLast_append_of_not_mem u (by simp), afterLast_append_of_not_mem _ (by simp)]
      exact parseU16_of_at (by simp)
  · rfl

/-- The splitter finds the port that the client reads. -/
theorem defaultPort_plain {scheme : Scheme} (hurl : url = scheme.text ++ rest)
    (hrest : stripScheme url = some rest)
    (hsplit : splitPort false (afterLast '@' (firstPart rest)) = (host', port'))
    (hread : parser.read host' = some host)
    (hport : readPort scheme.defaultPort port' = some port) : defaultPort url = port := by
  have hpre : ∃ pre, (pre = [] ∨ ∃ u, pre = u ++ ['@']) ∧
      firstPart rest = pre ++ afterLast '@' (firstPart rest) := by
    by_cases hat : '@' ∈ firstPart rest
    · obtain ⟨u, hu⟩ := eq_append_afterLast hat
      refine ⟨u ++ ['@'], Or.inr ⟨u, rfl⟩, ?_⟩
      rw [List.append_assoc, List.singleton_append, ← hu]
    · exact ⟨[], Or.inl rfl, by rw [afterLast_of_not_mem hat]; rfl⟩
  obtain ⟨pre, hpre, hfirst⟩ := hpre
  generalize afterLast '@' (firstPart rest) = authority at hsplit hfirst
  have hdefault := isPrefixOf_http scheme rest
  unfold defaultPort
  rw [hrest, Option.map_some, hfirst, hurl]
  simp only
  rcases splitPort_spec hsplit with ⟨rfl, rfl⟩ | ⟨p, rfl, rfl⟩
  · -- no port is written
    have hnone : (if ':' ∈ afterLast ']' (pre ++ authority) then
        parseU16 (afterLast ':' (afterLast ']' (pre ++ authority))) else none) = none := by
      rcases HostParser.read_cases hread with ⟨inner, rfl, -, -⟩ | ⟨hopen, hclose, -⟩
      · have hafter : afterLast ']' (pre ++ '[' :: (inner ++ [']'])) = [] := by
          rw [← List.cons_append, ← List.append_assoc]
          exact afterLast_append List.not_mem_nil
        rw [hafter]
        rfl
      · exact parseU16_user hpre hclose (splitPort_colon hsplit hopen)
    rw [hnone, hdefault]
    exact Option.some.inj hport
  · obtain ⟨hds, hvalue⟩ := readPort_some hport
    have hnot : ∀ {c : Char}, c.isDigit = false → c ∉ p := by
      intro c hc hmem
      rw [hds c hmem] at hc
      exact Bool.noConfusion hc
    have hafter : ∃ x, afterLast ']' (pre ++ (host' ++ ':' :: p)) = x ++ ':' :: p := by
      refine ⟨afterLast ']' (pre ++ host'), ?_⟩
      rw [← List.append_assoc]
      refine afterLast_append_of_not_mem _ ?_
      rw [List.mem_cons, not_or]
      exact ⟨by decide, hnot (by decide)⟩
    obtain ⟨x, hafter⟩ := hafter
    rw [hafter, if_pos (by simp), afterLast_append (hnot (by decide))]
    rcases hvalue with ⟨rfl, rfl⟩ | ⟨hne, hmax, rfl⟩
    · exact hdefault
    · rw [parseU16_digits hds hne hmax]

end Split

/-! ## What was vetted is what is fetched -/

/-- The first address that is refused. -/
theorem findSome_refuseIp {addrs : List IpAddr} :
    (addrs.findSome? fun ip => (refuseIp ip).map fun why => (ip, why)) = none ↔
      ∀ ip ∈ addrs, refuseIp ip = none := by
  simp only [List.findSome?_eq_none_iff, Option.map_eq_none_iff]

/-- What is accepted was looked up, and none of its addresses is refused. -/
theorem check_ok {net : Net} {url : String} {dev : Bool} (h : check net url dev = .ok ()) :
    ∃ text, hostOf url.toList = some text ∧ (dev = true ∧ isLoopbackHost text = true ∨
      ∃ addrs, net.lookupHost text (defaultPort url.toList) = .ok addrs ∧ addrs ≠ [] ∧
        ∀ ip ∈ addrs, refuseIp ip = none) := by
  unfold check at h
  cases hscheme : checkScheme url dev with
  | error e =>
    rw [hscheme] at h
    exact nomatch h
  | ok _ =>
    rw [hscheme] at h
    cases hhost : hostOf url.toList with
    | none =>
      rw [hhost] at h
      exact nomatch h
    | some text =>
      refine ⟨text, rfl, ?_⟩
      rw [hhost] at h
      -- in development a loopback host is let through before it is looked up
      by_cases hdev : (dev && isLoopbackHost text) = true
      · left
        rwa [Bool.and_eq_true] at hdev
      · right
        change (if (dev && isLoopbackHost text) = true then _ else _) = _ at h
        rw [if_neg hdev] at h
        cases hlookup : net.lookupHost text (defaultPort url.toList) with
        | error e =>
          rw [hlookup] at h
          exact nomatch h
        | ok addrs =>
          rw [hlookup] at h
          simp only at h
          cases hfind : addrs.findSome? fun ip => (refuseIp ip).map fun why => (ip, why) with
          | some x =>
            rw [hfind] at h
            exact nomatch h
          | none =>
            rw [hfind] at h
            refine ⟨addrs, rfl, ?_, findSome_refuseIp.1 hfind⟩
            rintro rfl
            exact nomatch h

/-- The client derives no host and port but those that were vetted, and no address that is
refused, the exemption of development aside. -/
def Vetted (net : Net) (parser : HostParser IpAddr) (dev : Bool) (url : String) : Prop :=
  check net url dev = .ok () → ∀ host port, parse parser url.toList = some (host, port) →
    defaultPort url.toList = port ∧ ∃ text, hostOf url.toList = some text ∧
      parser.Reads text host ∧
      ∀ ip, host = .ip ip → refuseIp ip = none ∨ dev = true ∧ isLoopbackHost text = true

/-- A text that the client reads as an address resolves to that address, if it resolves. -/
def LiteralsResolve (net : Net) (parser : HostParser IpAddr) : Prop :=
  ∀ text port addrs ip, parser.Reads text (.ip ip) → net.lookupHost text port = .ok addrs →
    ∀ a ∈ addrs, a = ip

/-- With a plain authority, what is vetted is what is fetched; and an address that is refused is
refused in every IPv6 spelling. -/
theorem check_vetted (parser : HostParser IpAddr) (net : Net) (hnet : LiteralsResolve net parser)
    (dev : Bool) (url : String) :
    (PlainAuthority url.toList → Vetted net parser dev url) ∧
      ∀ v4 v6 why, Embeds v4 v6 → refuseIp (.v4 v4) = some why → refuseIp (.v6 v6) = some why := by
  refine ⟨?_, fun v4 v6 why hembeds hwhy => (refuseIp_embedded hembeds).trans hwhy⟩
  intro hplain hcheck host port hparse
  obtain ⟨text, hhost, hvetted⟩ := check_ok hcheck
  have hstrip : ∃ rest, stripScheme url.toList = some rest := by
    cases hrest : stripScheme url.toList with
    | none =>
      rw [hostOf, hrest] at hhost
      exact nomatch hhost
    | some rest => exact ⟨rest, rfl⟩
  obtain ⟨rest, hrest⟩ := hstrip
  obtain ⟨scheme, hurl⟩ := stripScheme_eq_some hrest
  obtain ⟨tail, htail, hauthority⟩ := hplain.plain hrest
  have hne : afterLast '@' (firstPart rest) ≠ [] := by
    intro hnil
    rw [hostOf, hrest, Option.bind_some, hnil] at hhost
    exact nomatch hhost
  -- the client reads what stands behind the user information
  have hclient : parseHostPort parser scheme (afterLast '@' (firstPart rest)) =
      some (host, port) := by
    rw [← parse_plain parser hauthority hne scheme, List.append_assoc, ← htail, ← hurl]
    exact hparse
  unfold parseHostPort at hclient
  simp only at hclient
  split_ifs at hclient with hempty
  obtain ⟨host', hread, hclient⟩ := Option.bind_eq_some_iff.1 hclient
  obtain ⟨port', hport, heq⟩ := Option.map_eq_some_iff.1 hclient
  obtain ⟨rfl, rfl⟩ := Prod.mk.inj heq
  have hsplit : splitPort false (afterLast '@' (firstPart rest)) =
    ((splitPort false (afterLast '@' (firstPart rest))).1,
      (splitPort false (afterLast '@' (firstPart rest))).2) := rfl
  obtain ⟨text', htext', hreads⟩ := hostOf_plain hrest hsplit hempty hread
  rw [hhost, Option.some.injEq] at htext'
  subst htext'
  refine ⟨defaultPort_plain hurl hrest hsplit hread hport, text, hhost, hreads, ?_⟩
  rintro ip rfl
  rcases hvetted with hdev | ⟨addrs, hlookup, hsome, hnone⟩
  · exact Or.inr hdev
  · left
    obtain ⟨a, ha⟩ := List.exists_mem_of_ne_nil addrs hsome
    rw [← hnet text _ addrs ip hreads hlookup a ha]
    exact hnone a ha

/-! ## Where the readings part -/

/-- A client's hosts as far as ASCII goes: literal addresses, and names in lower case. -/
def asciiDomain (t : List Char) : Option (Host IpAddr) :=
  if '[' ∈ t ∨ ']' ∈ t then none
  else
    match readIpv4Addr t with
    | some (v4, []) => some (.ip (.v4 v4))
    | _ => some (.domain (String.ofList (t.map Char.toLower)))

def asciiIpv6 (t : List Char) : Option IpAddr :=
  if ']' ∈ t then none
  else
    match parseIpAddr t with
    | some (.v6 v6) => some (.v6 v6)
    | _ => none

theorem asciiDomain_bracket {t : List Char} {h : Host IpAddr} (ht : asciiDomain t = some h) :
    '[' ∉ t ∧ ']' ∉ t := by
  unfold asciiDomain at ht
  split_ifs at ht with hbracket
  exact not_or.1 hbracket

theorem asciiIpv6_bracket {t : List Char} {a : IpAddr} (ht : asciiIpv6 t = some a) : ']' ∉ t := by
  unfold asciiIpv6 at ht
  split_ifs at ht with hbracket
  exact hbracket

def asciiHosts : HostParser IpAddr where
  domain := asciiDomain
  ipv6 := asciiIpv6
  domain_bracket := asciiDomain_bracket
  ipv6_bracket := asciiIpv6_bracket

/-- A network in which every name is public. -/
def publicNet : Net where
  lookupHost text _ :=
    match parseIpAddr text with
    | some ip => .ok [ip]
    | none => .ok [.v4 ⟨93, 184, 216, 34⟩]
  display _ := ""

theorem publicNet_literals : LiteralsResolve publicNet asciiHosts := by
  have hlookup : ∀ {text port addrs ip}, parseIpAddr text = some ip →
      publicNet.lookupHost text port = .ok addrs → ∀ a ∈ addrs, a = ip := by
    intro text port addrs ip hparse hlookup a ha
    simp only [publicNet, hparse] at hlookup
    obtain rfl := Except.ok.inj hlookup
    exact List.mem_singleton.1 ha
  intro text port addrs ip hreads
  refine hlookup ?_
  rcases hreads with hdomain | hipv6
  · change asciiDomain text = _ at hdomain
    unfold asciiDomain at hdomain
    split_ifs at hdomain
    split at hdomain
    case h_1 v4 hv4 =>
      unfold parseIpAddr
      rw [hv4]
      simpa using hdomain
    case h_2 => simp at hdomain
  · change (asciiIpv6 text).map Host.ip = _ at hipv6
    unfold asciiIpv6 at hipv6
    split_ifs at hipv6
    · exact nomatch hipv6
    · split at hipv6
      case h_1 v6 hv6 =>
        rw [hv6]
        simpa using hipv6
      case h_2 => exact nomatch hipv6

/-- A host name, or an address in numbers. -/
def IsHostText (h : List Char) : Prop := h ≠ [] ∧ ∀ c ∈ h, c.isAlphanum = true ∨ c = '.' ∨ c = '-'

theorem IsHostText.not_mem {h : List Char} (hh : IsHostText h) {c : Char}
    (hc : (c.isAlphanum || c == '.' || c == '-') = false) : c ∉ h := by
  intro hmem
  rcases hh.2 c hmem with hword | rfl | rfl
  · rw [hword] at hc
    exact Bool.noConfusion hc
  · exact absurd hc (by decide)
  · exact absurd hc (by decide)

/-- Two hosts around a backslash and an `@`: the splitter vets the second, the client connects to
the first. -/
theorem hosts_at_backslash (parser : HostParser IpAddr) {h₁ h₂ t : List Char}
    (h₁text : IsHostText h₁) (h₂text : IsHostText h₂) :
    hostOf (Scheme.https.text ++ (h₁ ++ '\\' :: '@' :: (h₂ ++ '/' :: t))) = some h₂ ∧
      parse parser (Scheme.https.text ++ (h₁ ++ '\\' :: '@' :: (h₂ ++ '/' :: t))) =
        parseHostPort parser .https h₁ := by
  have hat : afterLast '@' h₁ = h₁ := afterLast_of_not_mem (h₁text.not_mem (by decide))
  constructor
  · have hfirst : firstPart (h₁ ++ '\\' :: '@' :: (h₂ ++ '/' :: t)) =
        (h₁ ++ ['\\']) ++ '@' :: h₂ := by
      have hshape : h₁ ++ '\\' :: '@' :: (h₂ ++ '/' :: t) =
          ((h₁ ++ ['\\']) ++ '@' :: h₂) ++ '/' :: t := by simp
      have hpass : ∀ c ∈ (h₁ ++ ['\\']) ++ '@' :: h₂,
          (!(c == '/' || c == '?' || c == '#')) = true := by
        intro c hc
        by_contra hstop
        simp only [Bool.not_eq_true, Bool.not_eq_false', Bool.or_eq_true, beq_iff_eq] at hstop
        have hnot : c ∉ h₁ ∧ c ∉ h₂ := by
          rcases hstop with (rfl | rfl) | rfl <;>
            exact ⟨h₁text.not_mem (by decide), h₂text.not_mem (by decide)⟩
        simp only [List.mem_append, List.mem_cons, List.not_mem_nil, or_false, hnot.1, hnot.2,
          false_or] at hc
        rcases hstop with (rfl | rfl) | rfl <;> simp at hc
      unfold firstPart
      rw [hshape, List.takeWhile_append_of_pos hpass,
        List.takeWhile_cons_of_neg (p := fun c => !(c == '/' || c == '?' || c == '#')) (by decide),
        List.append_nil]
    have hstrip : stripScheme (Scheme.https.text ++ (h₁ ++ '\\' :: '@' :: (h₂ ++ '/' :: t))) =
        some (h₁ ++ '\\' :: '@' :: (h₂ ++ '/' :: t)) := rfl
    unfold hostOf
    rw [hstrip, Option.bind_some, hfirst, afterLast_append (h₂text.not_mem (by decide))]
    simp only
    have hhead : h₂.head? ≠ some '[' :=
      fun hhead => h₂text.not_mem (by decide) (List.mem_of_head? hhead)
    rw [bracketed_eq_none hhead,
      takeWhile_of_not_mem (h₂text.not_mem (by decide))]
    simp only
    rw [if_neg h₂text.1]
  · have hplain : Plain h₁ ('\\' :: '@' :: (h₂ ++ '/' :: t)) := by
      refine ⟨?_, ?_, ?_, fun hnil => nomatch hnil⟩
      · intro c hc
        rw [List.head?_cons, Option.mem_some_iff] at hc
        exact hc ▸ rfl
      · intro c hc
        refine Bool.eq_false_iff.2 fun hend => ?_
        rcases endsAuthority_cases hend with rfl | rfl | rfl | rfl <;>
          exact h₁text.not_mem (by decide) hc
      · intro c hc
        rw [hat] at hc
        refine Bool.eq_false_iff.2 fun htab => ?_
        simp only [isTabOrNewline, Bool.or_eq_true, beq_iff_eq] at htab
        rcases htab with (rfl | rfl) | rfl <;> exact h₁text.not_mem (by decide) hc
    have hparse := parse_plain parser hplain (by rw [hat]; exact h₁text.1) .https
    rw [hat, List.append_assoc] at hparse
    exact hparse

theorem sample_plain : PlainAuthority "https://user@Example.com:8443/hook".toList := by
  intro rest hrest
  have hstrip : stripScheme "https://user@Example.com:8443/hook".toList =
      some "user@Example.com:8443/hook".toList := by decide +kernel
  rw [hstrip, Option.mem_def, Option.some.injEq] at hrest
  subst hrest
  have htabs : ((afterLast '@' (firstPart "user@Example.com:8443/hook".toList)).all
      fun c => !isTabOrNewline c) = true := by decide +kernel
  refine ⟨by decide +kernel, ?_, fun hall => absurd hall (by decide +kernel)⟩
  intro c hc
  simpa using List.all_eq_true.1 htabs c hc

/-- A destination is fetched where it was vetted. -/
theorem check_vetted_sample :
    Vetted publicNet asciiHosts false "https://user@Example.com:8443/hook" :=
  (check_vetted asciiHosts publicNet publicNet_literals false
    "https://user@Example.com:8443/hook").1 sample_plain

/-- A backslash before an `@`: the splitter vets the name behind it, the client connects to the
loopback address before it. -/
theorem backslash_not_vetted : LiteralsResolve publicNet asciiHosts ∧
    ¬ Vetted publicNet asciiHosts false "https://127.0.0.1\\@example.com/" := by
  refine ⟨publicNet_literals, fun h => ?_⟩
  have hcheck : check publicNet "https://127.0.0.1\\@example.com/" false = .ok () := by
    decide +kernel
  have hparse : parse asciiHosts "https://127.0.0.1\\@example.com/".toList =
      some (.ip (.v4 ⟨127, 0, 0, 1⟩), 443) := by
    decide +kernel
  obtain ⟨-, text, -, -, hip⟩ := h hcheck _ _ hparse
  rcases hip _ rfl with hip | ⟨hdev, -⟩
  · exact absurd hip (by decide)
  · exact Bool.noConfusion hdev

-- a tab in the port: the splitter gives the port up, the client goes on behind the tab
example : defaultPort "https://example.com:80\t80/".toList = 443 ∧
    parse asciiHosts "https://example.com:80\t80/".toList =
      some (.domain "example.com", 8080) := by
  decide +kernel

end LightTrack.Alerts
