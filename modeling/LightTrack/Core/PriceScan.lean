import LightTrack.Core.Pricing
import LightTrack.Lib.Extremum

/-! # Price resolution as a scan

What the price book's index and fallbacks come to: the first spelling of a model that has a rate for
the call, and of its rows that of the lane of the call, else of the greatest tier the prompt exceeds,
else the base row.

* `tier_eq_scan` : the index answers as a scan of the rows does,
* `resolveExact_rate`, `resolveExact_eq_none_iff` : the rate of one spelling,
* `resolve_scans` : the rate of a call,
* `lane_rows_alone` : two books where more could be expected.
-/

namespace LightTrack

namespace PriceBook

/-! ## The reference -/

/-- The tiers of a base key that a prompt exceeds, in the order of the rows. -/
def exceeded (book : PriceBook) (base : String) (inputTokens : UInt64) : List (ℕ × String) :=
  book.entries.filterMap fun kv =>
    match splitTier kv.1 with
    | some (b, n) => if b == base && decide (n < inputTokens.toNat) then some (n, kv.1) else none
    | none => none

/-- The lane a call is priced in: the one asked for, else the one its model name carries. -/
def laneOf (provider model : String) (mode : PricingMode) : PricingMode :=
  match mode, (canonicalize provider model).lane with
  | .standard, some l => .parse l
  | mode, _ => mode

/-- The row of a lane. -/
def laneRow (book : PriceBook) (provider model : String) (mode : PricingMode) : Option ModelPrice :=
  match mode with
  | .standard => none
  | .batch => book.entries.lookup (key provider (model ++ "@batch"))
  | .flex => book.entries.lookup (key provider (model ++ "@flex"))

/-- The rate of one spelling, by a scan of the rows. -/
def scan (book : PriceBook) (provider model : String) (inputTokens : UInt64) (mode : PricingMode) :
    Option ModelPrice :=
  match book.laneRow provider model mode with
  | some row => some row
  | none =>
    match (book.exceeded (key provider model) inputTokens).argmax Prod.fst with
    | some (_, tier) => book.entries.lookup tier
    | none => book.entries.lookup (key provider model)

/-- The row is the rate of a spelling: that of the lane, else of the greatest tier that the prompt
exceeds, else the base row. -/
inductive IsRate (book : PriceBook) (provider model : String) (inputTokens : UInt64)
    (mode : PricingMode) (row : ModelPrice) : Prop where
  | lane (hrow : book.laneRow provider model mode = some row)
  | tier (hlane : book.laneRow provider model mode = none) (n : ℕ) (name : String)
      (htier : splitTier name = some (key provider model, n)) (hexceeded : n < inputTokens.toNat)
      (hgreatest : ∀ kv ∈ book.entries, ∀ n', splitTier kv.1 = some (key provider model, n') →
        n' < inputTokens.toNat → n' ≤ n)
      (hrow : book.entries.lookup name = some row)
  | base (hlane : book.laneRow provider model mode = none)
      (hnone : ∀ kv ∈ book.entries, ∀ n, splitTier kv.1 = some (key provider model, n) →
        inputTokens.toNat ≤ n)
      (hrow : book.entries.lookup (key provider model) = some row)

section Scan

variable {book : PriceBook} {provider model : String} {inputTokens : UInt64} {mode : PricingMode}

/-! ## One spelling -/

theorem mem_exceeded {base : String} {x : ℕ × String} :
    x ∈ book.exceeded base inputTokens ↔ (∃ kv ∈ book.entries, kv.1 = x.2) ∧
      splitTier x.2 = some (base, x.1) ∧ x.1 < inputTokens.toNat := by
  unfold exceeded
  rw [List.mem_filterMap]
  constructor
  · rintro ⟨kv, hkv, hx⟩
    cases hsplit : splitTier kv.1 with
    | none =>
      rw [hsplit] at hx
      cases hx
    | some t =>
      obtain ⟨b, n⟩ := t
      simp only [hsplit] at hx
      split_ifs at hx with hcond
      rw [Bool.and_eq_true, beq_iff_eq, decide_eq_true_eq] at hcond
      obtain ⟨rfl, hn⟩ := hcond
      obtain rfl := Option.some.inj hx
      exact ⟨⟨kv, hkv, rfl⟩, hsplit, hn⟩
  · rintro ⟨⟨kv, hkv, hkey⟩, hsplit, hn⟩
    refine ⟨kv, hkv, ?_⟩
    simp only [hkey, hsplit, beq_self_eq_true, Bool.true_and, decide_eq_true hn, if_true]

/-- The exceeded part of the index is the index of the exceeded rows. -/
theorem filter_tiers (base : String) :
    (book.tiers base).filter (fun t => decide (t.1 < inputTokens.toNat)) =
      (book.exceeded base inputTokens).mergeSort fun a b => decide (b.1 ≤ a.1) := by
  unfold tiers
  rw [Stable.filter_mergeSort]
  · congr 1
    unfold exceeded
    rw [List.filter_filterMap]
    refine List.filterMap_congr fun kv _ => ?_
    cases splitTier kv.1 with
    | none => rfl
    | some t =>
      by_cases hbase : t.1 = base <;> by_cases hn : t.2 < inputTokens.toNat <;>
        simp [hbase, hn, Nat.le_of_not_lt]
  · intro a b c hab hbc
    rw [decide_eq_true_eq] at *
    exact hbc.trans hab
  · intro a b
    rw [Bool.or_eq_true, decide_eq_true_eq, decide_eq_true_eq]
    exact le_total b.1 a.1

/-- **The index finds the tier a scan finds.** -/
theorem tier_eq_scan (base : String) :
    ((book.tiers base).find? fun t => decide (t.1 < inputTokens.toNat)) =
      (book.exceeded base inputTokens).argmax Prod.fst := by
  rw [← List.head?_filter, filter_tiers, Extremum.head?_mergeSort_eq_argmax]

theorem laneRow_eq :
    (mode.suffix.bind fun suffix => book.entries.lookup (key provider (model ++ suffix))) =
      book.laneRow provider model mode := by
  cases mode <;> rfl

theorem resolveExact_eq_scan :
    book.resolveExact provider model inputTokens mode =
      book.scan provider model inputTokens mode := by
  unfold resolveExact scan
  dsimp only
  rw [tier_eq_scan, laneRow_eq]
  cases book.laneRow provider model mode with
  | some row => rfl
  | none =>
    cases hbest : (book.exceeded (key provider model) inputTokens).argmax Prod.fst with
    | none => rfl
    | some t =>
      obtain ⟨⟨kv, hkv, hkey⟩, -⟩ := mem_exceeded.1 (List.argmax_mem hbest)
      obtain ⟨row, hrow⟩ : ∃ row, book.entries.lookup t.2 = some row := by
        rw [← Option.isSome_iff_exists, List.lookup_isSome_iff]
        exact ⟨kv, hkv, beq_iff_eq.2 hkey.symm⟩
      change (none : Option ModelPrice).or (Option.or (book.entries.lookup t.2) _) =
        book.entries.lookup t.2
      rw [hrow]
      rfl

/-- **A spelling is charged by its rate.** -/
theorem scan_rate {row : ModelPrice} (h : book.scan provider model inputTokens mode = some row) :
    book.IsRate provider model inputTokens mode row := by
  unfold scan at h
  cases hlane : book.laneRow provider model mode with
  | some lane =>
    rw [hlane] at h
    exact .lane (hlane.trans h)
  | none =>
    simp only [hlane] at h
    cases hbest : (book.exceeded (key provider model) inputTokens).argmax Prod.fst with
    | none =>
      simp only [hbest] at h
      refine .base hlane ?_ h
      intro kv hkv n hsplit
      by_contra hn
      have hmem : (n, kv.1) ∈ book.exceeded (key provider model) inputTokens :=
        mem_exceeded.2 ⟨⟨kv, hkv, rfl⟩, hsplit, not_le.1 hn⟩
      rw [List.argmax_eq_none.1 hbest] at hmem
      exact absurd hmem List.not_mem_nil
    | some t =>
      simp only [hbest] at h
      obtain ⟨-, hsplit, hn⟩ := mem_exceeded.1 (List.argmax_mem hbest)
      refine .tier hlane t.1 t.2 hsplit hn ?_ h
      intro kv hkv n' hsplit' hn'
      have hmem : (n', kv.1) ∈ book.exceeded (key provider model) inputTokens :=
        mem_exceeded.2 ⟨⟨kv, hkv, rfl⟩, hsplit', hn'⟩
      exact List.le_of_mem_argmax hmem hbest

/-- **A spelling without a rate is passed over.** -/
theorem scan_eq_none_iff :
    book.scan provider model inputTokens mode = none ↔
      ∀ row, ¬ book.IsRate provider model inputTokens mode row := by
  constructor
  · intro h row hrate
    unfold scan at h
    cases hrate with
    | lane hrow =>
      rw [hrow] at h
      cases h
    | tier hlane n name htier hexceeded hgreatest hrow =>
      simp only [hlane] at h
      obtain ⟨kv, hkv, hname⟩ : ∃ kv ∈ book.entries, (name == kv.1) = true := by
        rw [← List.lookup_isSome_iff, hrow]
        rfl
      have hmem : (n, name) ∈ book.exceeded (key provider model) inputTokens :=
        mem_exceeded.2 ⟨⟨kv, hkv, (beq_iff_eq.1 hname).symm⟩, htier, hexceeded⟩
      -- the row is a tier that is exceeded, so there is a greatest one
      cases hbest : (book.exceeded (key provider model) inputTokens).argmax Prod.fst with
      | none =>
        rw [List.argmax_eq_none.1 hbest] at hmem
        exact absurd hmem List.not_mem_nil
      | some t =>
        simp only [hbest] at h
        obtain ⟨⟨kv', hkv', hkey⟩, -⟩ := mem_exceeded.1 (List.argmax_mem hbest)
        rw [List.lookup_eq_none_iff] at h
        have hne := h kv' hkv'
        rw [hkey, bne_self_eq_false] at hne
        exact absurd hne Bool.false_ne_true
    | base hlane hnone hrow =>
      simp only [hlane] at h
      cases hbest : (book.exceeded (key provider model) inputTokens).argmax Prod.fst with
      | none =>
        simp only [hbest, hrow] at h
        cases h
      | some t =>
        obtain ⟨⟨kv, hkv, hkey⟩, hsplit, hn⟩ := mem_exceeded.1 (List.argmax_mem hbest)
        -- no tier is exceeded
        exact absurd hn (not_lt.2 (hnone kv hkv t.1 (hkey ▸ hsplit)))
  · intro h
    cases hscan : book.scan provider model inputTokens mode with
    | none => rfl
    | some row => exact absurd (scan_rate hscan) (h row)

end Scan

/-! ## All spellings -/

/-- What is kept once stays in front. -/
theorem prefix_foldl_new {α : Type*} [BEq α] [LawfulBEq α] (l out : List α) :
    out <+: l.foldl (fun out x => if x ∈ out then out else out ++ [x]) out := by
  induction l generalizing out with
  | nil => exact List.prefix_refl out
  | cons x l ih =>
    rw [List.foldl_cons]
    split_ifs
    · exact ih out
    · exact (List.prefix_append out [x]).trans (ih (out ++ [x]))

/-- The spelling of the call comes first. -/
theorem head?_candidates (book : PriceBook) (provider model : String) :
    (book.candidates provider model).head? = some (provider, model) := by
  unfold candidates
  dsimp only
  rw [List.cons_append, List.foldl_cons, if_neg List.not_mem_nil, List.nil_append]
  obtain ⟨rest, hrest⟩ := prefix_foldl_new _ [(provider, model)]
  rw [← hrest]
  rfl

end PriceBook

/-- What a price resolution comes to. -/
structure ScansAs (book : PriceBook) (provider model : String) (inputTokens : UInt64)
    (mode : PricingMode) : Prop where
  raw : (book.candidates provider model).head? = some (provider, model)
  scan : book.resolve provider model inputTokens mode =
    (book.candidates provider model).findSome? fun c =>
      book.scan c.1 c.2 inputTokens (PriceBook.laneOf provider model mode)
  rate : ∀ row, book.resolve provider model inputTokens mode = some row →
    ∃ pre c post, book.candidates provider model = pre ++ c :: post ∧
      book.IsRate c.1 c.2 inputTokens (PriceBook.laneOf provider model mode) row ∧
      ∀ c' ∈ pre, ∀ row', ¬ book.IsRate c'.1 c'.2 inputTokens
        (PriceBook.laneOf provider model mode) row'
  unpriced : book.resolve provider model inputTokens mode = none ↔
    ∀ c ∈ book.candidates provider model, ∀ row, ¬ book.IsRate c.1 c.2 inputTokens
      (PriceBook.laneOf provider model mode) row

namespace PriceBook

section Resolve

variable {book : PriceBook} {provider model : String} {inputTokens : UInt64} {mode : PricingMode}

theorem resolve_eq_scan : book.resolve provider model inputTokens mode =
    (book.candidates provider model).findSome? fun c =>
      book.scan c.1 c.2 inputTokens (laneOf provider model mode) := by
  unfold resolve laneOf
  dsimp only
  simp only [resolveExact_eq_scan]
  cases (canonicalize provider model).lane <;> cases mode <;> rfl

/-- **A price resolution is a scan**: the first spelling that has a rate for the call is charged. -/
theorem resolve_scans (book : PriceBook) (provider model : String) (inputTokens : UInt64)
    (mode : PricingMode) : ScansAs book provider model inputTokens mode := by
  refine ⟨head?_candidates book provider model, resolve_eq_scan, ?_, ?_⟩
  · intro row h
    rw [resolve_eq_scan] at h
    obtain ⟨pre, c, post, hsplit, hrow, hpre⟩ := List.findSome?_eq_some_iff.1 h
    exact ⟨pre, c, post, hsplit, scan_rate hrow, fun c' hc' => scan_eq_none_iff.1 (hpre c' hc')⟩
  · rw [resolve_eq_scan, List.findSome?_eq_none_iff]
    exact forall₂_congr fun c _ => scan_eq_none_iff

end Resolve

/-! ## Rows of a lane -/

/-- A row of the book is one of a spelling's: of its standard lane or of another, the base row or a
tier. -/
def IsRowOf (book : PriceBook) (c : String × String) (name : String) : Prop :=
  (∃ row, book.entries.lookup name = some row) ∧ ∃ lane ∈ ["", "@batch", "@flex"],
    name = key c.1 (c.2 ++ lane) ∨ ∃ n, splitTier name = some (key c.1 (c.2 ++ lane), n)

/-- A book that knows a model's batch rate alone. -/
def batchBook : PriceBook where
  entries := [("openai/gpt-4o@batch", { inputPerMtok := 1, outputPerMtok := 2 })]

/-- A book with a tier of a lane. -/
def batchTierBook : PriceBook where
  entries := [("openai/gpt-4o@batch", { inputPerMtok := 1, outputPerMtok := 2 }),
    ("openai/gpt-4o@batch@in>1000", { inputPerMtok := 3, outputPerMtok := 4 })]

/-- A standard call of a spelling with a row, which has no price; and a batch call beyond the
threshold of a tier of its lane, which is charged by the row of the lane. -/
theorem lane_rows_alone :
    (batchBook.resolve "openai" "gpt-4o" 5000 .standard = none ∧
      ∃ c ∈ batchBook.candidates "openai" "gpt-4o", ∃ name, batchBook.IsRowOf c name) ∧
    batchTierBook.resolve "openai" "gpt-4o" 5000 .batch =
      some { inputPerMtok := 1, outputPerMtok := 2 } ∧
    splitTier "openai/gpt-4o@batch@in>1000" = some (key "openai" ("gpt-4o" ++ "@batch"), 1000) := by
  refine ⟨⟨by decide +kernel, ("openai", "gpt-4o"), by decide +kernel, "openai/gpt-4o@batch",
    ⟨_, rfl⟩, "@batch", by decide, .inl rfl⟩, by decide +kernel, by decide +kernel⟩

end PriceBook

end LightTrack
