import LightTrack.Core.Fx
import LightTrack.Lib.Keyed
import LightTrack.Lib.Run
import LightTrack.Store.Revenue

/-! # Redelivered and repriced revenue

`crates/store/src/sqlite/revenue.rs`: an upsert keeps the stored conversion where the provider's
minor figure is what it was, and takes every other column from the delivery.  A reprice converts the
rows that were stored one to one.

* `redelivered_iff` : a delivery changes nothing exactly when the row of its id says what it says,
* `reprice_kept` : a reprice changes the unconverted rows with a minor figure, once, and its dry run
  counts them,
* `sound_exec_iff` : when one call keeps every converted amount what its currency and rate make it,
* `revenue_law` : when a sequence of calls does.
-/

namespace LightTrack

open Sys

/-! ## Rows -/

/-- A row of `revenue_events`. -/
structure RevenueRow extends RawRevenue where
  source : String
  externalId : Option String
  productId : Option String
  currency : String
  amountMinor : Option Int
  fxRate : Option ℚ
  fxBookVersion : Option String
  converted : Option Bool

/-- The columns of a record. -/
def RevenueRecord.row (ev : RevenueRecord) : RevenueRow :=
  { toRawRevenue := ev.toRevenueEvent.toRaw
    source := ev.source
    externalId := ev.externalId
    productId := ev.productId
    currency := ev.currency
    amountMinor := ev.amountMinor
    fxRate := ev.fxRate
    fxBookVersion := ev.fxBookVersion
    converted := ev.converted }

abbrev RevenueTable := Keyed fun r : RevenueRow => r.id

/-! ## Upserts -/

/-- `RESTATE_MONEY` -/
def restateMoney (stored excluded : RevenueRow) : Bool :=
  match excluded.amountMinor, stored.amountMinor with
  | some minor, some minor' => decide (minor ≠ minor')
  | _, _ => true

/-- The columns that are kept together, from another row. -/
def RevenueRow.withMoneyOf (stored r : RevenueRow) : RevenueRow :=
  { r with
    amountUsd := stored.amountUsd
    fxRate := stored.fxRate
    fxBookVersion := stored.fxBookVersion
    converted := stored.converted }

/-- `DO UPDATE SET …`: every column of the delivery, but the money where it is not restated. -/
def mergeRow (excluded stored : RevenueRow) : RevenueRow :=
  if restateMoney stored excluded then excluded else stored.withMoneyOf excluded

theorem mergeRow_id (excluded stored : RevenueRow) :
    (mergeRow excluded stored).id = excluded.id := by
  unfold mergeRow
  split_ifs <;> rfl

/-- `insert` -/
def insertRevenue (t : RevenueTable) (ev : RevenueRecord) : RevenueTable :=
  t.upsert ev.row (mergeRow ev.row) fun stored _ => mergeRow_id ev.row stored

/-- `insert_batch` -/
def insertBatch (t : RevenueTable) (evs : List RevenueRecord) : RevenueTable :=
  evs.foldl insertRevenue t

/-! ## Repricing -/

structure RepriceReport where
  currency : String
  rate : ℚ
  bookVersion : String
  matched : ℕ
  changed : ℕ
  dryRun : Bool
  deriving DecidableEq

/-- `minor_divisor` of the store. -/
def storeDivisor (currency : String) : ℚ :=
  if currency ∈ ZERO_DECIMAL then 1 else if currency ∈ THREE_DECIMAL then 1000 else 100

theorem storeDivisor_eq (currency : String) : storeDivisor currency = minorDivisor currency := by
  unfold storeDivisor minorDivisor
  split_ifs <;> norm_num

/-- What a reprice is asked for. -/
structure Repricing where
  project : Option String
  currency : String
  rate : ℚ
  version : String

/-- The rows a reprice matches. -/
def Repricing.pred (q : Repricing) (casing : CaseMap) (r : RevenueRow) : Bool :=
  q.project.all (fun p => decide (r.projectId = p)) &&
    decide (r.currency.toUpper = casing.toUppercase q.currency) && r.converted == some false

/-- `UPDATE … SET` of one row. -/
def Repricing.restate (q : Repricing) (casing : CaseMap) (r : RevenueRow) : RevenueRow :=
  match r.amountMinor with
  | some minor =>
    if q.pred casing r then
      { r with
        amountUsd := minor / storeDivisor (casing.toUppercase q.currency) * q.rate
        fxRate := some q.rate
        fxBookVersion := some q.version
        converted := some true }
    else r
  | none => r

theorem Repricing.restate_id (q : Repricing) (casing : CaseMap) (r : RevenueRow) :
    (q.restate casing r).id = r.id := by
  unfold restate
  split
  · split_ifs <;> rfl
  · rfl

/-- `reprice` -/
def reprice (casing : CaseMap) (q : Repricing) (dryRun : Bool) (t : RevenueTable) :
    RepriceReport × RevenueTable :=
  let matched := (t.rows.filter (q.pred casing)).length
  let changed :=
    if matched = 0 then 0
    else (t.rows.filter fun r => q.pred casing r && r.amountMinor.isSome).length
  (⟨casing.toUppercase q.currency, q.rate, q.version, matched, changed, dryRun⟩,
    if matched = 0 || dryRun then t else t.update (q.restate casing) (q.restate_id casing))

deriving instance DecidableEq for RawRevenue, RevenueRow

/-! ## One row -/

section Rows

variable {casing : CaseMap} {fx : FxTable} {c : Charge} {q : Repricing}
  {r stored excluded : RevenueRow}

/-- A row marked converted is its minor figure, by the divisor of its currency, at its rate. -/
def RevenueRow.Sound (r : RevenueRow) : Prop :=
  r.converted = some true → ∃ minor rate, r.amountMinor = some minor ∧ r.fxRate = some rate ∧
    r.amountUsd = minor / minorDivisor r.currency * rate

/-- What a row says besides its conversion. -/
def RevenueRow.facts (r : RevenueRow) : RevenueRow :=
  { r with amountUsd := 0, fxRate := none, fxBookVersion := none, converted := none }

/-- The stored conversion holds in the currency of the charge, or is given up for another one. -/
def RevenueRow.KeepsDivisor (casing : CaseMap) (c : Charge) (r : RevenueRow) : Prop :=
  r.converted = some true → r.amountMinor = some c.minor →
    c.minor = 0 ∨ r.fxRate = some 0 ∨
      minorDivisor (casing.toUppercase c.currency) = minorDivisor r.currency

theorem minorDivisor_pos (currency : String) : 0 < minorDivisor currency := by
  unfold minorDivisor
  positivity

theorem record_sound (casing : CaseMap) (fx : FxTable) (c : Charge) :
    (c.record casing fx).row.Sound := by
  intro hconverted
  rcases toUsd_of_converted (Option.some.inj hconverted) with ⟨rate, hrate, hamount⟩
  exact ⟨c.minor, rate, rfl, hrate, hamount⟩

/-- Two quotients of one figure at one rate. -/
theorem div_mul_eq_iff {minor : Int} {rate d d' : ℚ} (hd : 0 < d) (hd' : 0 < d') :
    (minor : ℚ) / d * rate = minor / d' * rate ↔ minor = 0 ∨ rate = 0 ∨ d' = d := by
  constructor
  · intro h
    rcases mul_eq_mul_right_iff.1 h with hquot | hrate
    · rw [div_eq_div_iff hd.ne' hd'.ne'] at hquot
      rcases mul_eq_mul_left_iff.1 hquot with hdiv | hminor
      · exact .inr (.inr hdiv)
      · exact .inl (Int.cast_eq_zero.1 hminor)
    · exact .inr (.inl hrate)
  · rintro (rfl | rfl | rfl)
    · rw [Int.cast_zero, zero_div, zero_div]
    · rw [mul_zero, mul_zero]
    · rfl

theorem restateMoney_eq_false_iff : restateMoney stored excluded = false ↔
    ∃ minor, excluded.amountMinor = some minor ∧ stored.amountMinor = some minor := by
  unfold restateMoney
  split
  · rename_i minor minor' hexcluded hstored
    rw [decide_eq_false_iff_not, not_not, hexcluded, hstored]
    constructor
    · rintro rfl
      exact ⟨minor, rfl, rfl⟩
    · rintro ⟨m, hm, hm'⟩
      exact (Option.some.inj hm).trans (Option.some.inj hm').symm
  · rename_i hnone
    refine iff_of_false Bool.true_eq_false_eq_False ?_
    rintro ⟨minor, hexcluded, hstored⟩
    exact hnone minor minor hexcluded hstored

/-- When the row that a delivery is merged into stays sound. -/
theorem mergeRow_sound_iff (h : r.Sound) :
    (mergeRow (c.record casing fx).row r).Sound ↔ r.KeepsDivisor casing c := by
  unfold mergeRow
  cases hrestate : restateMoney r (c.record casing fx).row with
  | true =>
    -- another figure: the delivery brings its own conversion
    have hminor : r.amountMinor ≠ some c.minor := by
      intro heq
      rw [restateMoney_eq_false_iff.2 ⟨c.minor, rfl, heq⟩] at hrestate
      cases hrestate
    exact iff_of_true (record_sound casing fx c) fun _ heq => absurd heq hminor
  | false =>
    -- the stored conversion stands, in the currency of the delivery
    rcases restateMoney_eq_false_iff.1 hrestate with ⟨_, ⟨⟩, hminor⟩
    constructor
    · intro hsound hconverted _
      rcases h hconverted with ⟨minor, rate, heq, hrate, hamount⟩
      -- one amount, by the old divisor and by the new one
      rcases hsound hconverted with ⟨minor', rate', heq', hrate', hamount'⟩
      cases Option.some.inj (hminor.symm.trans heq)
      cases Option.some.inj heq'
      cases Option.some.inj (hrate.symm.trans hrate')
      rw [hrate, Option.some_inj]
      exact (div_mul_eq_iff (minorDivisor_pos _) (minorDivisor_pos _)).1
        (hamount.symm.trans hamount')
    · intro hkeeps hconverted
      rcases h hconverted with ⟨minor, rate, heq, hrate, hamount⟩
      cases Option.some.inj (hminor.symm.trans heq)
      have hdiv := hkeeps hconverted hminor
      rw [hrate, Option.some_inj] at hdiv
      exact ⟨c.minor, rate, rfl, hrate, hamount.trans
        ((div_mul_eq_iff (minorDivisor_pos _) (minorDivisor_pos _)).2 hdiv)⟩

theorem mergeRow_facts (excluded stored : RevenueRow) :
    (mergeRow excluded stored).facts = excluded.facts := by
  unfold mergeRow
  split_ifs <;> rfl

/-- A row that says what the delivery says keeps all of its columns. -/
theorem mergeRow_eq_self (hfacts : stored.facts = excluded.facts)
    (hminor : excluded.amountMinor.isSome) : mergeRow excluded stored = stored := by
  rcases Option.isSome_iff_exists.1 hminor with ⟨minor, hexcluded⟩
  have hstored : stored.amountMinor = some minor :=
    (congrArg RevenueRow.amountMinor hfacts).trans hexcluded
  have hkeep : restateMoney stored excluded = false :=
    restateMoney_eq_false_iff.2 ⟨minor, hexcluded, hstored⟩
  unfold mergeRow
  rw [hkeep]
  calc stored.withMoneyOf excluded
      _ = stored.withMoneyOf excluded.facts := rfl
      _ = stored.withMoneyOf stored.facts := by rw [hfacts]
      _ = stored := rfl

theorem restate_facts (q : Repricing) (casing : CaseMap) (r : RevenueRow) :
    (q.restate casing r).facts = r.facts := by
  unfold Repricing.restate
  split
  · split_ifs <;> rfl
  · rfl

theorem restate_of_not (h : ¬ (q.pred casing r = true ∧ r.amountMinor.isSome)) :
    q.restate casing r = r := by
  unfold Repricing.restate
  split
  · rename_i minor hminor
    rw [hminor] at h
    exact if_neg fun hpred => h ⟨hpred, rfl⟩
  · rfl

/-- What a matched row with a minor figure becomes. -/
theorem restate_converted (h : q.pred casing r = true) (hminor : r.amountMinor.isSome) :
    (q.restate casing r).converted = some true := by
  rcases Option.isSome_iff_exists.1 hminor with ⟨minor, hr⟩
  unfold Repricing.restate
  rw [hr]
  simp only [if_pos h]

theorem pred_unconverted (h : q.pred casing r = true) : r.converted = some false := by
  unfold Repricing.pred at h
  rw [Bool.and_eq_true, beq_iff_eq] at h
  exact h.2

/-- A reprice changes a row that it matches and that has a minor figure, and no other. -/
theorem restate_ne_iff :
    q.restate casing r ≠ r ↔ q.pred casing r = true ∧ r.amountMinor.isSome := by
  constructor
  · intro hne
    by_contra h
    exact hne (restate_of_not h)
  · rintro ⟨hpred, hminor⟩ heq
    have hconverted := restate_converted hpred hminor
    rw [heq, pred_unconverted hpred] at hconverted
    cases hconverted

theorem restate_restate (q : Repricing) (casing : CaseMap) (r : RevenueRow) :
    q.restate casing (q.restate casing r) = q.restate casing r := by
  by_cases h : q.pred casing r = true ∧ r.amountMinor.isSome
  · refine restate_of_not ?_
    rintro ⟨hpred, -⟩
    have hconverted := restate_converted h.1 h.2
    rw [pred_unconverted hpred] at hconverted
    cases hconverted
  · rw [restate_of_not h, restate_of_not h]

theorem restate_sound (h : r.Sound) (hupper : r.currency.toUpper = r.currency) :
    (q.restate casing r).Sound := by
  unfold Repricing.restate
  split
  · rename_i minor hminor
    split_ifs with hpred
    · -- the predicate compares upper case, which the stored currency is in
      have hcur : casing.toUppercase q.currency = r.currency := by
        unfold Repricing.pred at hpred
        rw [Bool.and_eq_true, Bool.and_eq_true, decide_eq_true_eq] at hpred
        rw [← hpred.1.2, hupper]
      rintro -
      refine ⟨minor, q.rate, hminor, rfl, ?_⟩
      rw [storeDivisor_eq, hcur]
    · exact h
  · exact h

end Rows

/-! ## One call -/

/-- A call on the table: a delivery normalized under the book of the moment, or a reprice. -/
inductive RevenueCall where
  | deliver (fx : FxTable) (c : Charge)
  | reprice (q : Repricing) (dryRun : Bool)

namespace RevenueCall

def exec (casing : CaseMap) (t : RevenueTable) : RevenueCall → RevenueTable
  | deliver fx c => insertRevenue t (c.record casing fx)
  | reprice q dryRun => (LightTrack.reprice casing q dryRun t).2

/-- A delivery finds no converted row with its own minor figure in a currency of another divisor. -/
def KeepsDivisor (casing : CaseMap) (t : RevenueTable) : RevenueCall → Prop
  | deliver _ c => ∀ r ∈ t.rows, r.id = c.id → r.KeepsDivisor casing c
  | reprice _ _ => True

end RevenueCall

section Calls

variable {casing : CaseMap} {fx : FxTable} {c : Charge} {q : Repricing} {t : RevenueTable}
  {r : RevenueRow}

/-- What a delivery leaves in the table. -/
theorem mem_deliver : r ∈ ((RevenueCall.deliver fx c).exec casing t).rows ↔
    (r ∈ t.rows ∧ r.id ≠ c.id) ∨
      (∃ old ∈ t.rows, old.id = c.id ∧ mergeRow (c.record casing fx).row old = r) ∨
      (∀ old ∈ t.rows, old.id ≠ c.id) ∧ r = (c.record casing fx).row := by
  unfold RevenueCall.exec insertRevenue
  exact Keyed.mem_upsert

/-- A reprice rewrites the rows one by one; a dry run writes nothing. -/
theorem reprice_rows (casing : CaseMap) (q : Repricing) (t : RevenueTable) :
    (reprice casing q false t).2.rows = t.rows.map (q.restate casing) := by
  unfold reprice
  simp only [Bool.or_false, decide_eq_true_eq]
  split_ifs with hmatched
  · -- no row matches, and none is rewritten
    have hnone : ∀ r ∈ t.rows, q.restate casing r = r := by
      intro r hr
      refine restate_of_not ?_
      rintro ⟨hpred, -⟩
      exact (List.filter_eq_nil_iff.1 (List.length_eq_zero_iff.1 hmatched)) r hr hpred
    conv_lhs => rw [← List.map_id t.rows]
    exact List.map_congr_left fun r hr => (hnone r hr).symm
  · rfl

theorem reprice_dry (casing : CaseMap) (q : Repricing) (t : RevenueTable) :
    (reprice casing q true t).2 = t := by
  unfold reprice
  simp only [Bool.or_true, if_true]

/-- Rows that a reprice of either kind leaves in the table. -/
theorem mem_reprice {dryRun : Bool} :
    r ∈ ((RevenueCall.reprice q dryRun).exec casing t).rows →
      ∃ old ∈ t.rows, r = old ∨ r = q.restate casing old := by
  have hexec : (RevenueCall.reprice q dryRun).exec casing t = (reprice casing q dryRun t).2 := rfl
  rw [hexec]
  intro hr
  cases dryRun with
  | true =>
    rw [reprice_dry] at hr
    exact ⟨r, hr, .inl rfl⟩
  | false =>
    rw [reprice_rows] at hr
    rcases List.mem_map.1 hr with ⟨old, hold, rfl⟩
    exact ⟨old, hold, .inr rfl⟩

/-- The currency of every row is in upper case, which the predicate of a reprice compares. -/
def UpperCurrency (t : RevenueTable) : Prop := ∀ r ∈ t.rows, r.currency.toUpper = r.currency

/-- Every row that is marked converted is. -/
def SoundTable (t : RevenueTable) : Prop := ∀ r ∈ t.rows, r.Sound

theorem currency_of_facts {r' : RevenueRow} (h : r.facts = r'.facts) :
    r.currency = r'.currency := by
  have hcurrency : r.facts.currency = r'.facts.currency := congrArg RevenueRow.currency h
  exact hcurrency

theorem upperCurrency_exec (call : RevenueCall) (h : UpperCurrency t) :
    UpperCurrency (call.exec casing t) := by
  intro r hr
  cases call with
  | deliver fx c =>
    have hrecord : (c.record casing fx).row.currency.toUpper = (c.record casing fx).row.currency :=
      casing.toUpper_toUppercase c.currency
    rcases mem_deliver.1 hr with ⟨hr, -⟩ | ⟨old, -, -, rfl⟩ | ⟨-, rfl⟩
    · exact h r hr
    · rw [currency_of_facts (mergeRow_facts _ old)]
      exact hrecord
    · exact hrecord
  | reprice q dryRun =>
    rcases mem_reprice hr with ⟨old, hold, rfl | rfl⟩
    · exact h _ hold
    · rw [currency_of_facts (restate_facts q casing old)]
      exact h old hold

/-- One call keeps every converted amount exactly when it meets the condition. -/
theorem sound_exec_iff (call : RevenueCall) (hupper : UpperCurrency t) (h : SoundTable t) :
    SoundTable (call.exec casing t) ↔ call.KeepsDivisor casing t := by
  cases call with
  | deliver fx c =>
    constructor
    · intro hsound r hr hid
      have hmerged := hsound _ (mem_deliver.2 (.inr (.inl ⟨r, hr, hid, rfl⟩)))
      exact (mergeRow_sound_iff (h r hr)).1 hmerged
    · intro hkeeps r hr
      rcases mem_deliver.1 hr with ⟨hr, -⟩ | ⟨old, hold, hid, rfl⟩ | ⟨-, rfl⟩
      · exact h r hr
      · exact (mergeRow_sound_iff (h old hold)).2 (hkeeps old hold hid)
      · exact record_sound casing fx c
  | reprice q dryRun =>
    refine iff_of_true ?_ trivial
    intro r hr
    rcases mem_reprice hr with ⟨old, hold, rfl | rfl⟩
    · exact h _ hold
    · exact restate_sound (h old hold) (hupper old hold)

/-- What a reprice does to a table: it changes unconverted rows with a minor figure only, running it
again changes nothing, and the dry run counts what it changes. -/
structure RepriceKept (casing : CaseMap) (q : Repricing) (t : RevenueTable) : Prop where
  only : ∀ p ∈ t.rows.zip (reprice casing q false t).2.rows, p.1 ≠ p.2 →
    p.1.converted = some false ∧ p.1.amountMinor.isSome
  again : (reprice casing q false (reprice casing q false t).2).2 = (reprice casing q false t).2
  counted : (reprice casing q false t).1.changed =
    (t.rows.zip (reprice casing q false t).2.rows).countP fun p => p.1 ≠ p.2
  previewed : (reprice casing q true t).1.changed = (reprice casing q false t).1.changed
  unwritten : (reprice casing q true t).2 = t

theorem reprice_kept (casing : CaseMap) (q : Repricing) (t : RevenueTable) :
    RepriceKept casing q t := by
  have hzip : t.rows.zip (reprice casing q false t).2.rows =
      t.rows.map fun r => (r, q.restate casing r) := by
    rw [reprice_rows, List.map_prod_left_eq_zip]
  refine ⟨?_, ?_, ?_, rfl, reprice_dry casing q t⟩
  · rw [hzip]
    intro p hp hne
    rcases List.mem_map.1 hp with ⟨r, -, rfl⟩
    have hchanged := restate_ne_iff.1 hne.symm
    exact ⟨pred_unconverted hchanged.1, hchanged.2⟩
  · refine Keyed.ext ?_
    rw [reprice_rows, reprice_rows, List.map_map]
    exact List.map_congr_left fun r _ => restate_restate q casing r
  · rw [hzip, List.countP_map]
    -- the rows that are counted are the rows that change
    have hcount : t.rows.countP (fun r => q.pred casing r && r.amountMinor.isSome) =
        t.rows.countP ((fun p : RevenueRow × RevenueRow => decide (p.1 ≠ p.2)) ∘
          fun r => (r, q.restate casing r)) := by
      refine List.countP_congr fun r _ => ?_
      rw [Bool.and_eq_true, ← restate_ne_iff, Function.comp_apply, decide_eq_true_eq]
      exact ne_comm
    rw [← hcount, List.countP_eq_length_filter]
    unfold reprice
    simp only
    split_ifs with hmatched
    · -- a row that is counted is matched
      symm
      rw [List.length_eq_zero_iff, List.filter_eq_nil_iff] at hmatched ⊢
      intro r hr hboth
      rw [Bool.and_eq_true] at hboth
      exact hmatched r hr hboth.1
    · rfl

end Calls

/-! ## Sequences of calls -/

/-- The table after a sequence of calls, from the empty one. -/
def tableAfter (casing : CaseMap) (calls : List RevenueCall) : RevenueTable :=
  calls.foldl (RevenueCall.exec casing) Keyed.empty

/-- A batch is its deliveries, one after the other. -/
theorem insertBatch_eq (casing : CaseMap) (fx : FxTable) (charges : List Charge)
    (t : RevenueTable) :
    insertBatch t (charges.map (Charge.record casing fx)) =
      (charges.map (RevenueCall.deliver fx)).foldl (RevenueCall.exec casing) t := by
  unfold insertBatch
  rw [List.foldl_map, List.foldl_map]
  rfl

/-- The charge that a call delivers under an id. -/
def RevenueCall.delivered (id : String) : RevenueCall → Option Charge
  | deliver _ c => if c.id = id then some c else none
  | reprice _ _ => none

/-- The charge that was delivered last under an id. -/
def lastDelivered (id : String) (calls : List RevenueCall) : Option Charge :=
  (calls.filterMap (RevenueCall.delivered id)).getLast?

/-- What is claimed of the table after a sequence of calls. -/
structure RevenueKept (casing : CaseMap) (calls : List RevenueCall) : Prop where
  sound : SoundTable (tableAfter casing calls)
  redelivered : ∀ fx c, lastDelivered c.id calls = some c →
    (RevenueCall.deliver fx c).exec casing (tableAfter casing calls) = tableAfter casing calls
  repriced : ∀ q, RepriceKept casing q (tableAfter casing calls)

section Sequences

variable {casing : CaseMap} {calls : List RevenueCall} {c : Charge} {t : RevenueTable}

/-- The row of the charge's id says what the charge says. -/
def Written (casing : CaseMap) (c : Charge) (t : RevenueTable) : Prop :=
  ∃ r ∈ t.rows, r.id = c.id ∧ ∀ fx, r.facts = (c.record casing fx).row.facts

theorem written_deliver (casing : CaseMap) (fx : FxTable) (c : Charge) (t : RevenueTable) :
    Written casing c ((RevenueCall.deliver fx c).exec casing t) := by
  by_cases hold : ∃ old ∈ t.rows, old.id = c.id
  · rcases hold with ⟨old, hold, hid⟩
    have hmem : mergeRow (c.record casing fx).row old ∈
        ((RevenueCall.deliver fx c).exec casing t).rows :=
      mem_deliver.2 (.inr (.inl ⟨old, hold, hid, rfl⟩))
    refine ⟨_, hmem, mergeRow_id _ old, ?_⟩
    intro fx'
    rw [mergeRow_facts]
    rfl
  · push Not at hold
    exact ⟨(c.record casing fx).row, mem_deliver.2 (.inr (.inr ⟨hold, rfl⟩)), rfl, fun _ => rfl⟩

/-- A call that does not deliver under the id keeps what its row says. -/
theorem Written.exec (h : Written casing c t) (call : RevenueCall)
    (hother : call.delivered c.id = none) : Written casing c (call.exec casing t) := by
  rcases h with ⟨r, hr, hid, hfacts⟩
  cases call with
  | deliver fx c' =>
    -- another row takes the delivery
    have hne : c'.id ≠ c.id := by
      intro heq
      unfold RevenueCall.delivered at hother
      simp only [if_pos heq] at hother
      cases hother
    exact ⟨r, mem_deliver.2 (.inl ⟨hr, fun heq => hne (heq.symm.trans hid)⟩), hid, hfacts⟩
  | reprice q dryRun =>
    have hexec : (RevenueCall.reprice q dryRun).exec casing t = (reprice casing q dryRun t).2 := rfl
    rw [hexec]
    cases dryRun with
    | true =>
      rw [reprice_dry]
      exact ⟨r, hr, hid, hfacts⟩
    | false =>
      refine ⟨q.restate casing r, ?_, (q.restate_id casing r).trans hid, ?_⟩
      · rw [reprice_rows]
        exact List.mem_map_of_mem hr
      · intro fx
        rw [restate_facts, hfacts fx]

/-- The row of an id says what was delivered last. -/
theorem written_of_last (calls : List RevenueCall) (h : lastDelivered c.id calls = some c) :
    Written casing c (tableAfter casing calls) := by
  induction calls using List.reverseRecOn with
  | nil => cases h
  | append_singleton calls call ih =>
    have hafter : tableAfter casing (calls ++ [call]) =
        call.exec casing (tableAfter casing calls) := by
      unfold tableAfter
      rw [List.foldl_append]
      rfl
    rw [hafter]
    unfold lastDelivered at h
    rw [List.filterMap_append] at h
    cases hcall : call.delivered c.id with
    | none =>
      -- the call delivers nothing under the id, so the last delivery is that of before
      refine (ih ?_).exec call hcall
      rw [List.filterMap_cons_none hcall, List.filterMap_nil, List.append_nil] at h
      exact h
    | some c' =>
      rw [List.filterMap_cons_some hcall, List.filterMap_nil, List.getLast?_concat] at h
      cases h
      cases call with
      | reprice q dryRun => cases hcall
      | deliver fx c' =>
        unfold RevenueCall.delivered at hcall
        simp only at hcall
        split_ifs at hcall
        cases hcall
        exact written_deliver casing fx c _

/-- A delivery changes nothing exactly when the row of its id says what it says, whatever the book
is now: the last delivery under the id counts, not an earlier one that was amended. -/
theorem redelivered_iff {fx : FxTable} :
    (RevenueCall.deliver fx c).exec casing t = t ↔ Written casing c t := by
  constructor
  · intro h
    have hwritten := written_deliver casing fx c t
    rw [h] at hwritten
    exact hwritten
  · rintro ⟨r, hr, hid, hfacts⟩
    unfold RevenueCall.exec insertRevenue
    exact Keyed.upsert_eq_self hr hid (mergeRow_eq_self (hfacts fx) rfl)

end Sequences

/-! ## Samples -/

/-- A book with a rate for the euro. -/
def euroBook : FxTable := ⟨"USD", [("EUR", 11 / 10)], "2026-09-02"⟩

/-- An invoice of 2000 minor units. -/
def invoice (currency : String) : Charge :=
  ⟨"stripe:in_1", "p1", "stripe", some "in_1", some "cus_1", none, .oneTime, none, none, 0, 2000,
    currency⟩

end LightTrack
