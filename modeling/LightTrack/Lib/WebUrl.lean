import LightTrack.Lib.Decimal
import Mathlib.Data.List.DropRight
import Mathlib.Tactic.Common

/-! # Web addresses as clients read them

What the URL standard makes of a text that names an `http` or `https` address: the host and the
port that a client connects to. The readings of a host itself (percent encoding, domain mapping,
numbers as IPv4 addresses, IPv6 addresses) are those of a `HostParser`.

* `parse` : host and port of a text,
* `splitPort_spec` : where the port is split off,
* `afterLast_append` : what stands behind the last occurrence of a symbol,
* `parse_plain` : an authority without backslashes whose host and port hold no tab or newline is
  read as it stands.
-/

namespace WebUrl

/-! ## Behind the last occurrence -/

/-- What stands behind the last `c`, and everything where there is none. -/
def afterLast (c : Char) (s : List Char) : List Char := s.rtakeWhile (· != c)

theorem not_mem_afterLast (c : Char) (s : List Char) : c ∉ afterLast c s := by
  intro hc
  have := List.mem_rtakeWhile_imp hc
  simp at this

theorem afterLast_of_not_mem {c : Char} {s : List Char} (h : c ∉ s) : afterLast c s = s := by
  refine List.rtakeWhile_eq_self_iff.2 ?_
  intro d hd
  rw [bne_iff_ne]
  rintro rfl
  exact h hd

/-- A symbol divides a text at its last occurrence. -/
theorem eq_append_afterLast {c : Char} {s : List Char} (h : c ∈ s) :
    ∃ u, s = u ++ c :: afterLast c s := by
  have hsplit : s.rdropWhile (· != c) ++ afterLast c s = s := List.rdropWhile_append_rtakeWhile
  have hne : s.rdropWhile (· != c) ≠ [] := by
    intro hnil
    have := List.rdropWhile_eq_nil_iff.1 hnil c h
    simp at this
  have hlast := List.rdropWhile_last_not (p := (· != c)) (l := s) hne
  simp only [bne_iff_ne, ne_eq, not_not] at hlast
  refine ⟨(s.rdropWhile (· != c)).dropLast, ?_⟩
  have hconcat := List.dropLast_append_getLast hne
  rw [hlast] at hconcat
  rw [← List.singleton_append, ← List.append_assoc, hconcat, hsplit]

theorem afterLast_append {c : Char} {u v : List Char} (h : c ∉ v) :
    afterLast c (u ++ c :: v) = v := by
  have hmem : c ∈ u ++ c :: v := List.mem_append_right _ List.mem_cons_self
  obtain ⟨u', hu'⟩ := eq_append_afterLast hmem
  have hnot := not_mem_afterLast c (u ++ c :: v)
  generalize afterLast c (u ++ c :: v) = v' at hu' hnot
  rcases List.append_eq_append_iff.1 hu' with ⟨t, -, ht⟩ | ⟨t, -, ht⟩
  · cases t with
    | nil => exact (List.cons.inj ht).2.symm
    | cons d t =>
      obtain ⟨-, rfl⟩ := List.cons.inj ht
      exact absurd (List.mem_append_right _ List.mem_cons_self) h
  · cases t with
    | nil => exact (List.cons.inj ht).2
    | cons d t =>
      obtain ⟨-, rfl⟩ := List.cons.inj ht
      exact absurd (List.mem_append_right _ List.mem_cons_self) hnot

/-- Text without the symbol stands behind its last occurrence as well. -/
theorem afterLast_append_of_not_mem {c : Char} (u : List Char) {v : List Char} (h : c ∉ v) :
    afterLast c (u ++ v) = afterLast c u ++ v := by
  by_cases hu : c ∈ u
  · obtain ⟨t, ht⟩ := eq_append_afterLast hu
    have hnot := not_mem_afterLast c u
    generalize afterLast c u = w at ht hnot
    rw [ht, List.append_assoc, List.cons_append]
    exact afterLast_append fun hmem => (List.mem_append.1 hmem).elim hnot h
  · rw [afterLast_of_not_mem hu]
    exact afterLast_of_not_mem fun hmem => (List.mem_append.1 hmem).elim hu h

/-! ## The standard's reading -/

/-- A C0 control or a space. -/
def isC0OrSpace (c : Char) : Bool := c.toNat ≤ 0x20

/-- An ASCII tab or newline. -/
def isTabOrNewline (c : Char) : Bool := c == '\t' || c == '\n' || c == '\r'

/-- Controls and spaces go at the ends, tabs and newlines everywhere. -/
def clean (s : List Char) : List Char :=
  ((s.dropWhile isC0OrSpace).rdropWhile isC0OrSpace).filter fun c => !isTabOrNewline c

inductive Scheme where
  | http
  | https
  deriving DecidableEq

def Scheme.defaultPort : Scheme → ℕ
  | http => 80
  | https => 443

/-- The scheme in any case, and what stands behind its colon. -/
def readScheme (s : List Char) : Option (Scheme × List Char) :=
  if (s.take 6).map Char.toLower = ['h', 't', 't', 'p', 's', ':'] then some (.https, s.drop 6)
  else if (s.take 5).map Char.toLower = ['h', 't', 't', 'p', ':'] then some (.http, s.drop 5)
  else none

/-- A backslash acts as a slash. -/
def isSlash (c : Char) : Bool := c == '/' || c == '\\'

/-- Where an authority ends. -/
def endsAuthority (c : Char) : Bool := isSlash c || c == '?' || c == '#'

/-- The authority: every slash before it is skipped. -/
def authority (s : List Char) : List Char :=
  (s.dropWhile isSlash).takeWhile fun c => !endsAuthority c

/-- Divides at the first colon outside brackets. -/
def splitPort : Bool → List Char → List Char × Option (List Char)
  | _, [] => ([], none)
  | inside, c :: s =>
    if c = ':' ∧ inside = false then ([], some s)
    else
      let (host, port) := splitPort (if c = '[' then true else if c = ']' then false else inside) s
      (c :: host, port)

/-- A port: digits up to the end, or nothing for the scheme's own. -/
def readPort (default : ℕ) : Option (List Char) → Option ℕ
  | none => some default
  | some ds =>
    if ds = [] then some default
    else if ds.all Char.isDigit ∧ Decimal.value ds ≤ 65535 then some (Decimal.value ds)
    else none

/-- A host as a client has it. -/
inductive Host (Addr : Type*) where
  | domain (name : String)
  | ip (a : Addr)
  deriving DecidableEq

/-- How a client reads a host, out of brackets and in them. Brackets are forbidden in domains and
are no part of an IPv6 address. -/
structure HostParser (Addr : Type*) where
  domain : List Char → Option (Host Addr)
  ipv6 : List Char → Option Addr
  domain_bracket : ∀ {t h}, domain t = some h → '[' ∉ t ∧ ']' ∉ t
  ipv6_bracket : ∀ {t a}, ipv6 t = some a → ']' ∉ t

section Parse

variable {Addr : Type*} (parser : HostParser Addr)

/-- A host, in brackets or not. -/
def HostParser.read : List Char → Option (Host Addr)
  | '[' :: t => if t.getLast? = some ']' then (parser.ipv6 t.dropLast).map .ip else none
  | t => parser.domain t

/-- The text is read as the host, once it is out of its brackets. -/
def HostParser.Reads (t : List Char) (host : Host Addr) : Prop :=
  parser.domain t = some host ∨ (parser.ipv6 t).map .ip = some host

/-- What stands behind the user information. -/
def parseHostPort (scheme : Scheme) (s : List Char) : Option (Host Addr × ℕ) :=
  let split := splitPort false s
  if split.1 = [] then none
  else
    (parser.read split.1).bind fun host =>
      (readPort scheme.defaultPort split.2).map fun port => (host, port)

/-- The host and the port that a client connects to. -/
def parse (s : List Char) : Option (Host Addr × ℕ) :=
  (readScheme (clean s)).bind fun (scheme, rest) =>
    parseHostPort parser scheme (afterLast '@' (authority rest))

end Parse

/-- A host that is read has brackets around it, or none. -/
theorem HostParser.read_cases {Addr : Type*} {parser : HostParser Addr} {t : List Char}
    {host : Host Addr} (h : parser.read t = some host) :
    (∃ inner, t = '[' :: (inner ++ [']']) ∧ ']' ∉ inner ∧ parser.Reads inner host) ∨
      '[' ∉ t ∧ ']' ∉ t ∧ parser.Reads t host := by
  unfold HostParser.read at h
  split at h
  case h_1 t =>
    split_ifs at h with hlast
    obtain ⟨a, ha, rfl⟩ := Option.map_eq_some_iff.1 h
    left
    refine ⟨t.dropLast, ?_, parser.ipv6_bracket ha, Or.inr (by rw [ha]; rfl)⟩
    rw [List.dropLast_append_getLast? _ hlast]
  case h_2 t _ =>
    obtain ⟨hopen, hclose⟩ := parser.domain_bracket h
    exact Or.inr ⟨hopen, hclose, Or.inl h⟩

/-- A port that is read is the scheme's own, or digits. -/
theorem readPort_some {default port : ℕ} {ds : List Char}
    (h : readPort default (some ds) = some port) :
    (∀ c ∈ ds, c.isDigit = true) ∧ (ds = [] ∧ port = default ∨
      ds ≠ [] ∧ Decimal.value ds ≤ 65535 ∧ port = Decimal.value ds) := by
  unfold readPort at h
  simp only at h
  by_cases hnil : ds = []
  · rw [if_pos hnil] at h
    subst hnil
    exact ⟨by simp, Or.inl ⟨rfl, (Option.some.inj h).symm⟩⟩
  · rw [if_neg hnil] at h
    split_ifs at h with hds
    exact ⟨List.all_eq_true.1 hds.1, Or.inr ⟨hnil, hds.2, (Option.some.inj h).symm⟩⟩

/-! ## Where the port is split off -/

theorem splitPort_spec {inside : Bool} {s host : List Char} {port : Option (List Char)}
    (h : splitPort inside s = (host, port)) :
    port = none ∧ s = host ∨ ∃ p, port = some p ∧ s = host ++ ':' :: p := by
  induction s generalizing inside host with
  | nil =>
    obtain ⟨rfl, rfl⟩ := Prod.mk.inj h
    exact Or.inl ⟨rfl, rfl⟩
  | cons c s ih =>
    unfold splitPort at h
    by_cases hc : c = ':' ∧ inside = false
    · rw [if_pos hc] at h
      obtain ⟨rfl, rfl⟩ := Prod.mk.inj h
      exact Or.inr ⟨s, rfl, by rw [hc.1]; rfl⟩
    · rw [if_neg hc] at h
      obtain ⟨rfl, rfl⟩ := Prod.mk.inj h
      rcases ih (Prod.mk.eta.symm) with ⟨hnone, hs⟩ | ⟨p, hp, hs⟩
      · exact Or.inl ⟨hnone, congrArg (c :: ·) hs⟩
      · exact Or.inr ⟨p, hp, congrArg (c :: ·) hs⟩

/-- Without brackets the host ends at the first colon. -/
theorem splitPort_colon {s host : List Char} {port : Option (List Char)}
    (h : splitPort false s = (host, port)) (hbracket : '[' ∉ host) : ':' ∉ host := by
  induction s generalizing host port with
  | nil =>
    obtain ⟨rfl, -⟩ := Prod.mk.inj h
    exact List.not_mem_nil
  | cons c s ih =>
    unfold splitPort at h
    by_cases hc : c = ':' ∧ false = false
    · rw [if_pos hc] at h
      obtain ⟨rfl, -⟩ := Prod.mk.inj h
      exact List.not_mem_nil
    · rw [if_neg hc] at h
      obtain ⟨rfl, rfl⟩ := Prod.mk.inj h
      have hopen : c ≠ '[' := fun h => hbracket (h ▸ List.mem_cons_self)
      have hinside : (if c = '[' then true else if c = ']' then false else false) = false := by
        rw [if_neg hopen, ite_self]
      rw [hinside] at hbracket ⊢
      rw [List.mem_cons, not_or]
      have hsplit : splitPort false s = ((splitPort false s).1, (splitPort false s).2) := rfl
      refine ⟨fun h => hc ⟨h.symm, rfl⟩, ih hsplit fun h => ?_⟩
      exact hbracket (List.mem_cons_of_mem _ h)

/-! ## Authorities that are read as they stand -/

def Scheme.text : Scheme → List Char
  | http => ['h', 't', 't', 'p', ':', '/', '/']
  | https => ['h', 't', 't', 'p', 's', ':', '/', '/']

/-- Behind an authority the text is over, or a path, a query or a fragment follows. -/
def Ends (tail : List Char) : Prop := ∀ c ∈ tail.head?, endsAuthority c = true

theorem endsAuthority_cases {c : Char} (h : endsAuthority c = true) :
    c = '/' ∨ c = '\\' ∨ c = '?' ∨ c = '#' := by
  simpa [endsAuthority, isSlash, or_assoc] using h

/-- The authority `a` before `tail` is read as it stands. -/
structure Plain (a tail : List Char) : Prop where
  ends : Ends tail
  inside : ∀ c ∈ a, endsAuthority c = false
  hostPort : ∀ c ∈ afterLast '@' a, isTabOrNewline c = false
  last : tail = [] → ∀ c ∈ a.getLast?, isC0OrSpace c = false

theorem rdropWhile_append_cons {p : Char → Bool} {u t : List Char} {c : Char} (hc : p c = false) :
    (u ++ c :: t).rdropWhile p = u ++ c :: t.rdropWhile p := by
  unfold List.rdropWhile
  rw [List.reverse_append, List.reverse_cons, List.append_assoc, List.dropWhile_append]
  by_cases hempty : (t.reverse.dropWhile p).isEmpty = true
  · rw [if_pos hempty]
    rw [List.isEmpty_iff] at hempty
    rw [hempty, List.singleton_append, List.dropWhile_cons_of_neg (by simp [hc])]
    simp
  · rw [if_neg hempty]
    simp

/-- Nothing but tabs and newlines goes from a plain authority. -/
theorem Plain.clean_eq {a tail : List Char} (h : Plain a tail) (hne : a ≠ []) (scheme : Scheme) :
    ∃ tail', Ends tail' ∧ clean (scheme.text ++ a ++ tail) =
      scheme.text ++ ((a.filter fun c => !isTabOrNewline c) ++ tail') := by
  have hhead : (scheme.text ++ a ++ tail).dropWhile isC0OrSpace = scheme.text ++ a ++ tail := by
    cases scheme <;> rfl
  have hscheme : scheme.text.filter (fun c => !isTabOrNewline c) = scheme.text := by
    cases scheme <;> rfl
  unfold clean
  rw [hhead]
  cases tail with
  | nil =>
    refine ⟨[], by simp [Ends], ?_⟩
    have hkeep : (scheme.text ++ a).rdropWhile isC0OrSpace = scheme.text ++ a := by
      rw [List.rdropWhile_eq_self_iff]
      intro hall
      have hlast := h.last rfl (a.getLast hne) (List.getLast?_eq_some_getLast hne ▸ rfl)
      rw [List.getLast_append_of_ne_nil _ hne, hlast]
      exact Bool.false_ne_true
    rw [List.append_nil, List.append_nil, hkeep, List.filter_append, hscheme]
  | cons c t =>
    have hc := h.ends c rfl
    have hc0 : isC0OrSpace c = false := by
      rcases endsAuthority_cases hc with rfl | rfl | rfl | rfl <;> rfl
    have htab : (!isTabOrNewline c) = true := by
      rcases endsAuthority_cases hc with rfl | rfl | rfl | rfl <;> rfl
    refine ⟨c :: (t.rdropWhile isC0OrSpace).filter fun c => !isTabOrNewline c, ?_, ?_⟩
    · intro d hd
      rw [List.head?_cons, Option.mem_some_iff] at hd
      exact hd ▸ hc
    · rw [rdropWhile_append_cons hc0, List.filter_append, List.filter_append, hscheme,
        List.filter_cons_of_pos (p := fun c => !isTabOrNewline c) htab, List.append_assoc]

theorem readScheme_text (scheme : Scheme) (s : List Char) :
    readScheme (scheme.text ++ s) = some (scheme, '/' :: '/' :: s) := by
  cases scheme <;> rfl

/-- The authority is read up to its end. -/
theorem authority_append {a tail : List Char} (hne : a ≠ [])
    (hin : ∀ c ∈ a, endsAuthority c = false) (hends : Ends tail) :
    authority ('/' :: '/' :: (a ++ tail)) = a := by
  have hslash : ('/' :: '/' :: (a ++ tail)).dropWhile isSlash = a ++ tail := by
    cases a with
    | nil => exact absurd rfl hne
    | cons c a =>
      have hc := hin c List.mem_cons_self
      simp only [endsAuthority, Bool.or_eq_false_iff] at hc
      rw [List.dropWhile_cons_of_pos rfl, List.dropWhile_cons_of_pos rfl, List.cons_append,
        List.dropWhile_cons_of_neg (by simp [hc.1.1])]
  unfold authority
  rw [hslash, List.takeWhile_append_of_pos fun c hc => by simp [hin c hc]]
  cases tail with
  | nil => simp
  | cons c t =>
    rw [List.takeWhile_cons_of_neg (by simp [hends c rfl]), List.append_nil]

/-- What stands behind the user information does not change. -/
theorem afterLast_filter {a : List Char}
    (h : ∀ c ∈ afterLast '@' a, isTabOrNewline c = false) :
    afterLast '@' (a.filter fun c => !isTabOrNewline c) = afterLast '@' a := by
  have hkeep : (afterLast '@' a).filter (fun c => !isTabOrNewline c) = afterLast '@' a := by
    rw [List.filter_eq_self]
    intro c hc
    rw [h c hc]
    rfl
  by_cases hat : '@' ∈ a
  · obtain ⟨u, hu⟩ := eq_append_afterLast hat
    have hnot := not_mem_afterLast '@' a
    generalize afterLast '@' a = v at hu hnot hkeep
    rw [hu, List.filter_append, List.filter_cons_of_pos rfl, hkeep, afterLast_append hnot]
  · rw [afterLast_of_not_mem hat] at hkeep ⊢
    rw [hkeep, afterLast_of_not_mem hat]

/-- A plain authority is read as it stands. -/
theorem parse_plain {Addr : Type*} (parser : HostParser Addr) {a tail : List Char}
    (h : Plain a tail) (hne : afterLast '@' a ≠ []) (scheme : Scheme) :
    parse parser (scheme.text ++ a ++ tail) =
      parseHostPort parser scheme (afterLast '@' a) := by
  have hanil : a ≠ [] := by
    rintro rfl
    exact hne rfl
  obtain ⟨tail', hends, hclean⟩ := h.clean_eq hanil scheme
  have hfilter : a.filter (fun c => !isTabOrNewline c) ≠ [] := by
    intro hnil
    rw [← afterLast_filter h.hostPort, hnil] at hne
    exact hne rfl
  have hin : ∀ c ∈ a.filter (fun c => !isTabOrNewline c), endsAuthority c = false :=
    fun c hc => h.inside c (List.mem_filter.1 hc).1
  unfold parse
  rw [hclean, readScheme_text]
  change parseHostPort parser scheme (afterLast '@' (authority _)) = _
  rw [authority_append hfilter hin hends, afterLast_filter h.hostPort]

end WebUrl
