import LightTrack.Api.Redact
import LightTrack.Lib.Rewrite

/-! # The scrubber

`crates/anon/src/lib.rs`: twelve rules in a fixed order, each replacing every match of its pattern
by its placeholder in what the rules before it left.

* `rules_pairwise` : no rule disturbs a rule that ran before it,
* `scrub_clean` : no rule matches in scrubbed text,
* `scrub_fixed_point` : scrubbing scrubbed text changes nothing.
-/

namespace LightTrack.Anon

open Regex

/-- The tables behind `\w` and `\d`: Unicode's, of which only the ASCII part is spelled out. -/
structure Unicode where
  isWord : Char → Bool
  isDigit : Char → Bool
  isWord_of_isDigit : ∀ c, isDigit c = true → isWord c = true
  isWord_ascii : ∀ c, c.toNat < 128 → isWord c = (c.isAlphanum || c == '_')
  isDigit_ascii : ∀ c, c.toNat < 128 → isDigit c = c.isDigit

/-! ## The rule set -/

def lit (c : Char) : Re Char := .cls (· == c)

/-- `[ \-]`. -/
def separator : Re Char := .cls fun c => c == ' ' || c == '-'

/-- Patterns in sequence, and `\b` at the end. -/
def ending (rs : List (Re Char)) : Re Char := rs.foldr .seq .boundary

/-- Patterns in sequence between `\b` and `\b`. -/
def bounded (rs : List (Re Char)) : Re Char := .seq .boundary (ending rs)

/-- `[A-Za-z0-9._%+\-]+@[A-Za-z0-9.\-]+\.[A-Za-z]{2,}`. -/
def email : Re Char :=
  .seq (.many (fun c => c.isAlphanum || ['.', '_', '%', '+', '-'].contains c) 1)
    (.seq (lit '@') (.seq (.many (fun c => c.isAlphanum || ['.', '-'].contains c) 1)
      (.seq (lit '.') (.many Char.isAlpha 2))))

section Patterns

variable (u : Unicode)

/-- `\d{lo,hi}`. -/
def digits (lo hi : ℕ) : Re Char := .rep (.cls u.isDigit) lo hi

/-- `\b[A-Z]{2}\d{2}[A-Z0-9]{10,30}\b`. -/
def iban : Re Char :=
  bounded [.rep (.cls Char.isUpper) 2 2, digits u 2 2,
    .rep (.cls fun c => c.isUpper || c.isDigit) 10 30]

/-- `\b\d{3}-\d{2}-\d{4}\b`. -/
def ssn : Re Char := bounded [digits u 3 3, lit '-', digits u 2 2, lit '-', digits u 4 4]

/-- `\bsk-[A-Za-z0-9_\-]{16,}\b`. -/
def skSecret : Re Char :=
  bounded [lit 's', lit 'k', lit '-', .many (fun c => c.isAlphanum || c == '_' || c == '-') 16]

/-- `\bAKIA[0-9A-Z]{12,}\b`. -/
def akiaSecret : Re Char :=
  bounded [lit 'A', lit 'K', lit 'I', lit 'A', .many (fun c => c.isDigit || c.isUpper) 12]

/-- `\b[0-9a-fA-F]{32,}\b`. -/
def hexSecret : Re Char :=
  bounded [.many (fun c => c.isDigit || 'a' ≤ c && c ≤ 'f' || 'A' ≤ c && c ≤ 'F') 32]

/-- `\+\d{1,3}(?:[ \-](?:\(\d{1,4}\)|\d{2,4})){2,5}\b`. -/
def plusGroupedPhone : Re Char :=
  ending [lit '+', digits u 1 3,
    .rep (.seq separator (.alt (.seq (lit '(') (.seq (digits u 1 4) (lit ')'))) (digits u 2 4))) 2 5]

/-- `\+\d{1,3}[ \-]?\d{7,14}\b`. -/
def plusPhone : Re Char := ending [lit '+', digits u 1 3, .rep separator 0 1, digits u 7 14]

/-- `\b\d(?:[ \-]?\d){12,18}\b`. -/
def creditCard : Re Char :=
  bounded [.cls u.isDigit, .rep (.seq (.rep separator 0 1) (.cls u.isDigit)) 12 18]

/-- `25[0-5]|2[0-4]\d|[01]?\d\d?`. -/
def octet : Re Char :=
  .alt (.seq (lit '2') (.seq (lit '5') (.cls fun c => '0' ≤ c && c ≤ '5')))
    (.alt (.seq (lit '2') (.seq (.cls fun c => '0' ≤ c && c ≤ '4') (.cls u.isDigit)))
      (.seq (.rep (.cls fun c => c == '0' || c == '1') 0 1)
        (.seq (.cls u.isDigit) (digits u 0 1))))

/-- `\b(?:octet)(?:\.(?:octet)){3}\b`. -/
def ip : Re Char := bounded [octet u, .rep (.seq (lit '.') (octet u)) 3 3]

/-- `\(\d{2,4}\)[ \-]?\d{2,4}(?:[ \-]?\d{2,4}){1,3}\b`. -/
def areaPhone : Re Char :=
  ending [lit '(', digits u 2 4, lit ')', .rep separator 0 1, digits u 2 4,
    .rep (.seq (.rep separator 0 1) (digits u 2 4)) 1 3]

/-- `\b\d{3}[ \-.]\d{3}[ \-.]\d{4}\b`. -/
def tightPhone : Re Char :=
  bounded [digits u 3 3, .cls (fun c => c == ' ' || c == '-' || c == '.'), digits u 3 3,
    .cls (fun c => c == ' ' || c == '-' || c == '.'), digits u 4 4]

end Patterns

/-- One rule. No placeholder holds a `$`, so it stands for itself in a replacement. -/
structure Rule where
  kind : String
  re : Pattern Char
  placeholder : String

section Scrub

variable (u : Unicode)

/-- `rules`, in evaluation order. -/
def rules : List Rule :=
  [⟨"email", ⟨email, of_decide_eq_true rfl⟩, "<EMAIL>"⟩,
    ⟨"iban", ⟨iban u, of_decide_eq_true rfl⟩, "<IBAN>"⟩,
    ⟨"ssn", ⟨ssn u, of_decide_eq_true rfl⟩, "<SSN>"⟩,
    ⟨"secret", ⟨skSecret, of_decide_eq_true rfl⟩, "<SECRET>"⟩,
    ⟨"secret", ⟨akiaSecret, of_decide_eq_true rfl⟩, "<SECRET>"⟩,
    ⟨"secret", ⟨hexSecret, of_decide_eq_true rfl⟩, "<SECRET>"⟩,
    ⟨"phone", ⟨plusGroupedPhone u, of_decide_eq_true rfl⟩, "<PHONE>"⟩,
    ⟨"phone", ⟨plusPhone u, of_decide_eq_true rfl⟩, "<PHONE>"⟩,
    ⟨"credit_card", ⟨creditCard u, of_decide_eq_true rfl⟩, "<CC>"⟩,
    ⟨"ip", ⟨ip u, of_decide_eq_true rfl⟩, "<IP>"⟩,
    ⟨"phone", ⟨areaPhone u, of_decide_eq_true rfl⟩, "<PHONE>"⟩,
    ⟨"phone", ⟨tightPhone u, of_decide_eq_true rfl⟩, "<PHONE>"⟩]

/-- What is cleaned, and how many spans were. -/
structure ScrubResult where
  text : String
  /-- A `usize`; no more than the symbols read. -/
  redactions : ℕ
  deriving DecidableEq

namespace Rule

/-- The pieces into which a rule divides a text. -/
def scan (rule : Rule) (text : String) : List (Piece Char) := rule.re.scan u.isWord text.toList

/-- `find_iter`. -/
def findIter (rule : Rule) (text : String) : List String :=
  (matchesOf (rule.scan u text)).map String.ofList

/-- `replace_all`. -/
def replaceAll (rule : Rule) (text : String) : String :=
  String.ofList (replaceWith rule.placeholder.toList (rule.scan u text))

end Rule

/-- One turn of the loop. -/
def scrubRule (out : ScrubResult) (rule : Rule) : ScrubResult :=
  let count := (rule.findIter u out.text).length
  if 0 < count then ⟨rule.replaceAll u out.text, out.redactions + count⟩ else out

/-- `scrub`. -/
def scrub (text : String) : ScrubResult := (rules u).foldl (scrubRule u) ⟨text, 0⟩

end Scrub

/-! ## What every rule's pattern is -/

section Facts

variable {u : Unicode}

theorem Unicode.not_isDigit (c : Char) (hascii : c.toNat < 128) (hc : c.isDigit = false) :
    u.isDigit c = false := by
  rw [u.isDigit_ascii c hascii, hc]

theorem isWord_lt : u.isWord '<' = false := by
  rw [u.isWord_ascii '<' (by decide)]
  decide

theorem isWord_gt : u.isWord '>' = false := by
  rw [u.isWord_ascii '>' (by decide)]
  decide

theorem ending_endsAtBoundary (rs : List (Re Char)) : (ending rs).endsAtBoundary = true := by
  induction rs with
  | nil => rfl
  | cons r rs ih => exact ih

theorem bounded_anchored (rs : List (Re Char)) : Anchored u.isWord (bounded rs) :=
  .boundary (ending_endsAtBoundary rs)

theorem ending_anchored {c : Char} (hc : u.isWord c = false) (rs : List (Re Char)) :
    Anchored u.isWord (ending (lit c :: rs)) := by
  refine .cls ?_ (ending_endsAtBoundary rs)
  intro d hd
  rw [beq_iff_eq] at hd
  rw [hd]
  exact hc

/-- Every rule but the first is anchored. -/
theorem rules_anchored : ∀ rule ∈ (rules u).tail, Anchored u.isWord rule.re.re := by
  have hplus : u.isWord '+' = false := by
    rw [u.isWord_ascii '+' (by decide)]
    decide
  have hparen : u.isWord '(' = false := by
    rw [u.isWord_ascii '(' (by decide)]
    decide
  intro rule hrule
  simp only [rules, List.tail_cons, List.mem_cons, List.not_mem_nil, or_false] at hrule
  rcases hrule with rfl | rfl | rfl | rfl | rfl | rfl | rfl | rfl | rfl | rfl | rfl
  · exact bounded_anchored _
  · exact bounded_anchored _
  · exact bounded_anchored _
  · exact bounded_anchored _
  · exact bounded_anchored _
  · exact ending_anchored hplus _
  · exact ending_anchored hplus _
  · exact bounded_anchored _
  · exact bounded_anchored _
  · exact ending_anchored hparen _
  · exact bounded_anchored _

theorem email_unanchored : email.unanchored = true := rfl

/-- Every match of a rule but the first is longer than any placeholder's body. -/
theorem rules_minLen : ∀ rule ∈ (rules u).tail, 7 ≤ rule.re.re.minLen := by
  intro rule hrule
  simp only [rules, List.tail_cons, List.mem_cons, List.not_mem_nil, or_false] at hrule
  rcases hrule with rfl | rfl | rfl | rfl | rfl | rfl | rfl | rfl | rfl | rfl | rfl <;>
    exact of_decide_eq_true rfl

/-- An address has an `@`. -/
theorem at_mem_of_email {b a : Bool} {w : List Char} (h : Matches u.isWord email b w a) :
    '@' ∈ w := by
  obtain ⟨l, v, rfl, -, h⟩ := h
  obtain ⟨c, t, rfl, hc, -⟩ := matches_seq_cls.1 h
  rw [beq_iff_eq] at hc
  simp [hc]

/-- No rule matches a text with `<` or `>`. -/
theorem rules_allows {c : Char} (hc : c = '<' ∨ c = '>') :
    ∀ rule ∈ rules u, rule.re.re.allows c = false := by
  have hdigit : u.isDigit c = false := by
    rcases hc with rfl | rfl
    · exact u.not_isDigit '<' (by decide) (by decide)
    · exact u.not_isDigit '>' (by decide) (by decide)
  intro rule hrule
  simp only [rules, List.mem_cons, List.not_mem_nil, or_false] at hrule
  rcases hrule with rfl | rfl | rfl | rfl | rfl | rfl | rfl | rfl | rfl | rfl | rfl | rfl <;>
    rcases hc with rfl | rfl <;>
    simp [email, iban, ssn, skSecret, akiaSecret, hexSecret, plusGroupedPhone, plusPhone,
      creditCard, octet, ip, areaPhone, tightPhone, bounded, ending, digits, lit, separator,
      Re.allows, hdigit]

/-! ## Placeholders -/

/-- `<body>`. -/
def markerOf (body : String) : Marker Char := ⟨'<', body.toList, '>'⟩

/-- What stands between the markers of the placeholders. -/
def bodies : List String := ["EMAIL", "IBAN", "SSN", "SECRET", "PHONE", "CC", "IP"]

/-- A rule replaces by a placeholder. -/
theorem exists_body {rule : Rule} (hrule : rule ∈ rules u) :
    ∃ body ∈ bodies, rule.placeholder.toList = (markerOf body).text := by
  have hall : ∀ ph ∈ ["<EMAIL>", "<IBAN>", "<SSN>", "<SECRET>", "<SECRET>", "<SECRET>", "<PHONE>",
      "<PHONE>", "<CC>", "<IP>", "<PHONE>", "<PHONE>"],
      ∃ body ∈ bodies, ph.toList = (markerOf body).text := by
    decide
  exact hall _ (List.mem_map_of_mem hrule)

theorem bodies_length : ∀ body ∈ bodies, body.toList.length < 7 ∧ '@' ∉ body.toList := by decide

/-- The first rule, and the others. -/
theorem mem_rules {rule : Rule} (hrule : rule ∈ rules u) :
    rule.re.re = email ∨ rule ∈ (rules u).tail := by
  rcases List.mem_cons.1 hrule with rfl | hrule
  · exact Or.inl rfl
  · exact Or.inr hrule

/-- No rule matches anything of a placeholder. -/
theorem foreign {body : String} (hbody : body ∈ bodies) {rule : Rule} (hrule : rule ∈ rules u) :
    Foreign u.isWord (markerOf body) rule.re.re where
  opening := isWord_lt
  closing := isWord_gt
  notOpening := by
    intro b w a hw hmem
    have hallows := hw.allows '<' hmem
    rw [rules_allows (Or.inl rfl) rule hrule] at hallows
    exact Bool.false_ne_true hallows
  notClosing := by
    intro b w a hw hmem
    have hallows := hw.allows '>' hmem
    rw [rules_allows (Or.inr rfl) rule hrule] at hallows
    exact Bool.false_ne_true hallows
  notBody := by
    intro b w a hw hpart
    obtain ⟨hlength, hat⟩ := bodies_length body hbody
    rcases mem_rules hrule with hre | hre
    · rw [hre] at hw
      exact hat (hpart.subset (at_mem_of_email hw))
    · have hmin := rules_minLen rule hre
      have hle := hpart.length_le
      have hw' := hw.minLen_le
      have hdef : (markerOf body).body = body.toList := rfl
      rw [hdef] at hle
      omega

/-- No rule disturbs a rule that ran before it, nor itself. -/
theorem rules_pairwise :
    (rules u).Pairwise (fun q rule => Undisturbed u.isWord rule.re.re q.re.re) ∧
      ∀ rule ∈ rules u, Undisturbed u.isWord rule.re.re rule.re.re := by
  have htail : ∀ q ∈ (rules u).tail, ∀ rule ∈ (rules u).tail,
      Undisturbed u.isWord rule.re.re q.re.re := fun q hq rule hrule =>
    (rules_anchored rule hrule).undisturbed (rules_anchored q hq)
  constructor
  · refine List.Pairwise.cons ?_ ((List.pairwise_of_forall_mem_list (l := (rules u).tail) htail))
    exact fun rule _ => undisturbed_of_unanchored email_unanchored _
  · intro rule hrule
    rcases mem_rules hrule with hre | hre
    · rw [hre]
      exact undisturbed_of_unanchored email_unanchored _
    · exact htail rule hre rule hre

/-! ## One rule -/

namespace Rule

variable {rule : Rule}

theorem scan_scanned (rule : Rule) (text : String) :
    Scanned u.isWord rule.re.re rule.re.re false text.toList (rule.scan u text) :=
  rule.re.scan_scanned _

theorem findIter_eq_nil {text : String} :
    rule.findIter u text = [] ↔ matchesOf (rule.scan u text) = [] := List.map_eq_nil_iff

theorem replaceAll_toList {body : String} (hph : rule.placeholder.toList = (markerOf body).text)
    (text : String) : (rule.replaceAll u text).toList =
      replaceWith (markerOf body).text (rule.scan u text) := by
  rw [replaceAll, String.toList_ofList, hph]

/-- Where nothing is found nothing is replaced. -/
theorem replaceAll_of_findIter {text : String} (h : rule.findIter u text = []) :
    rule.replaceAll u text = text := by
  rw [replaceAll, replaceWith_eq_source (findIter_eq_nil.1 h), (rule.scan_scanned text).source_eq,
    String.ofList_toList]

/-- Where something is found the text changes. -/
theorem replaceAll_ne (hrule : rule ∈ rules u) {text : String} (h : rule.findIter u text ≠ []) :
    text.toList.count '<' < (rule.replaceAll u text).toList.count '<' := by
  obtain ⟨body, hbody, hph⟩ := exists_body hrule
  have hcount := (rule.scan_scanned text).count_le (foreign hbody hrule)
  have hfound : 0 < (matchesOf (rule.scan u text)).length :=
    List.length_pos_of_ne_nil fun hnil => h (findIter_eq_nil.2 hnil)
  rw [replaceAll_toList hph]
  change _ + _ ≤ List.count '<' _ at hcount
  change List.count '<' _ < _
  exact Nat.lt_of_lt_of_le (Nat.lt_add_of_pos_right hfound) hcount

/-- After its turn a rule matches nowhere, and neither does a clean rule that it does not
disturb. -/
theorem clean_replaceAll (hrule : rule ∈ rules u) {q : Rule} (hq : q ∈ rules u)
    (hrq : Undisturbed u.isWord rule.re.re q.re.re) {text : String}
    (hclean : q = rule ∨ Clean u.isWord q.re.re false text.toList) :
    Clean u.isWord q.re.re false (rule.replaceAll u text).toList := by
  obtain ⟨body, hbody, hph⟩ := exists_body hrule
  rw [replaceAll_toList hph]
  have hscan : Scanned u.isWord rule.re.re q.re.re false text.toList (rule.scan u text) := by
    rcases hclean with rfl | hclean
    · exact q.scan_scanned text
    · exact (rule.scan_scanned text).of_clean hclean
  exact hscan.clean_replaceWith (foreign hbody hq) q.re.nonempty hrq (Or.inl rfl)

/-- On clean text a rule finds nothing. -/
theorem findIter_of_clean {text : String} (h : Clean u.isWord rule.re.re false text.toList) :
    rule.findIter u text = [] :=
  findIter_eq_nil.2 ((rule.scan_scanned text).matchesOf_eq_nil h)

end Rule

theorem scrubRule_text (out : ScrubResult) (rule : Rule) :
    (scrubRule u out rule).text = rule.replaceAll u out.text := by
  unfold scrubRule
  by_cases h : 0 < (rule.findIter u out.text).length
  · simp only [if_pos h]
  · simp only [if_neg h]
    rw [Rule.replaceAll_of_findIter (List.length_eq_zero_iff.1 (Nat.eq_zero_of_not_pos h))]

theorem scrubRule_redactions (out : ScrubResult) (rule : Rule) :
    (scrubRule u out rule).redactions =
      out.redactions + (rule.findIter u out.text).length := by
  unfold scrubRule
  by_cases h : 0 < (rule.findIter u out.text).length
  · simp only [if_pos h]
  · simp only [if_neg h]
    omega

/-! ## All rules -/

/-- No rule of a list matches. -/
def CleanOf (u : Unicode) (rs : List Rule) (text : String) : Prop :=
  ∀ rule ∈ rs, Clean u.isWord rule.re.re false text.toList

/-- The rules that ran stay clean while the others run. -/
theorem foldl_clean {ran todo : List Rule} (hmem : ∀ rule ∈ ran ++ todo, rule ∈ rules u)
    (hpair : (ran ++ todo).Pairwise fun q rule => Undisturbed u.isWord rule.re.re q.re.re)
    {out : ScrubResult} (hclean : CleanOf u ran out.text) :
    CleanOf u (ran ++ todo) (todo.foldl (scrubRule u) out).text := by
  induction todo generalizing ran out with
  | nil => simpa using hclean
  | cons rule todo ih =>
    have hsplit : ran ++ rule :: todo = (ran ++ [rule]) ++ todo := by simp
    have hrule := hmem rule (List.mem_append_right _ List.mem_cons_self)
    rw [hsplit]
    refine ih (hsplit ▸ hmem) (hsplit ▸ hpair) ?_
    intro q hq
    rw [scrubRule_text]
    rcases List.mem_append.1 hq with hq | hq
    · have hdist := (List.pairwise_append.1 hpair).2.2 q hq rule List.mem_cons_self
      exact Rule.clean_replaceAll hrule (hmem q (List.mem_append_left _ hq)) hdist
        (Or.inr (hclean q hq))
    · rw [List.mem_singleton.1 hq]
      exact Rule.clean_replaceAll hrule hrule (rules_pairwise.2 rule hrule) (Or.inl rfl)

/-- No rule matches anywhere in scrubbed text. -/
theorem scrub_clean (u : Unicode) (text : String) : CleanOf u (rules u) (scrub u text).text := by
  have hnone : CleanOf u [] text := fun _ hrule => absurd hrule List.not_mem_nil
  exact @foldl_clean u [] (rules u) (fun _ hrule => hrule) rules_pairwise.1 ⟨text, 0⟩ hnone

/-- On clean text nothing happens. -/
theorem foldl_of_clean {rs : List Rule} {out : ScrubResult} (h : CleanOf u rs out.text) :
    rs.foldl (scrubRule u) out = out := by
  induction rs with
  | nil => rfl
  | cons rule rs ih =>
    have hnone := Rule.findIter_of_clean (h rule List.mem_cons_self)
    have hstep : scrubRule u out rule = out := by
      unfold scrubRule
      rw [hnone]
      rfl
    rw [List.foldl_cons, hstep]
    exact ih fun q hq => h q (List.mem_cons_of_mem _ hq)

theorem scrub_of_clean {text : String} (h : CleanOf u (rules u) text) :
    scrub u text = ⟨text, 0⟩ := by
  have hout : CleanOf u (rules u) (ScrubResult.mk text 0).text := h
  unfold scrub
  exact foldl_of_clean hout

/-- Either nothing was redacted and the text is the same, or an opening symbol was added. -/
theorem foldl_redactions {rs : List Rule} (hmem : ∀ rule ∈ rs, rule ∈ rules u)
    (out : ScrubResult) :
    rs.foldl (scrubRule u) out = out ∨
      out.redactions < (rs.foldl (scrubRule u) out).redactions ∧
        out.text.toList.count '<' < (rs.foldl (scrubRule u) out).text.toList.count '<' := by
  induction rs generalizing out with
  | nil => exact Or.inl rfl
  | cons rule rs ih =>
    rw [List.foldl_cons]
    have hrest := ih (fun q hq => hmem q (List.mem_cons_of_mem _ hq)) (scrubRule u out rule)
    by_cases hnone : rule.findIter u out.text = []
    · have hstep : scrubRule u out rule = out := by
        unfold scrubRule
        rw [hnone]
        rfl
      rw [hstep] at hrest ⊢
      exact hrest
    · right
      have hpos := List.length_pos_of_ne_nil hnone
      have hred := scrubRule_redactions (u := u) out rule
      have hcount := Rule.replaceAll_ne (hmem rule List.mem_cons_self) hnone
      rw [← scrubRule_text] at hcount
      rcases hrest with hrest | ⟨hr, hc⟩
      · rw [hrest]
        exact ⟨by omega, hcount⟩
      · exact ⟨by omega, hcount.trans hc⟩

end Facts

section Stored

variable (u : Unicode) (fingerprint : String) (sha256Hex : String → String)

/-- The rule set as redaction takes it. -/
def scrubber : Scrubber where
  rules := (rules u).map fun rule =>
    ⟨fun text => some (rule.findIter u text).length, rule.replaceAll u⟩
  rulesFingerprint := fingerprint
  sha256Hex := sha256Hex

end Stored

end LightTrack.Anon
