import LightTrack.Store.Threshold
import Mathlib

/-! # Provider amounts in dollars

`crates/billing/src/fx.rs`: a billing provider reports an amount in the minor unit of a currency.
The book of rates makes dollars of it, and a currency without a rate is stored one to one and
marked.  Every record that a provider's event is normalized to takes its money from there.

* `toUsd_of_converted` : a converted amount is the minor figure by its divisor, at its rate.
-/

namespace LightTrack

/-! ## Letter case -/

/-- `str::to_uppercase`: it leaves no ASCII letter in lower case, which are the letters that
SQLite's `UPPER` and `String.toUpper` change. -/
structure CaseMap where
  toUppercase : String → String
  toUpper_toUppercase : ∀ s, (toUppercase s).toUpper = toUppercase s

theorem toUpper_toUpper (s : String) : s.toUpper.toUpper = s.toUpper := by
  have hchar : ∀ c : Char, c.toUpper.toUpper = c.toUpper := by
    intro c
    apply Char.toUpper_eq_of_not_isLower
    rw [Char.isLower_toUpper_eq_false]
    exact Bool.false_ne_true
  rw [← String.toList_inj]
  unfold String.toUpper
  rw [String.toList_map, String.toList_map, List.map_map]
  exact List.map_congr_left fun c _ => hchar c

/-- On ASCII texts. -/
def asciiCase : CaseMap := ⟨String.toUpper, toUpper_toUpper⟩

/-! ## The book -/

/-- Currencies whose minor unit is the major unit. -/
def ZERO_DECIMAL : List String :=
  ["BIF", "CLP", "DJF", "GNF", "ISK", "JPY", "KMF", "KRW", "PYG", "RWF", "UGX", "VND", "VUV", "XAF",
    "XOF", "XPF"]

def THREE_DECIMAL : List String := ["BHD", "IQD", "JOD", "KWD", "LYD", "OMR", "TND"]

/-- `fx::minor_divisor`: ten to the number of decimals. -/
def minorDivisor (currency : String) : ℚ :=
  10 ^ if currency ∈ ZERO_DECIMAL then 0 else if currency ∈ THREE_DECIMAL then 3 else 2

/-- The rates are dollars for one major unit, by upper-case code. -/
structure FxTable where
  base : String
  rates : List (String × ℚ)
  version : String

structure UsdAmount where
  amountUsd : ℚ
  converted : Bool
  rate : Option ℚ

/-- `FxTable::to_usd`. -/
def FxTable.toUsd (fx : FxTable) (casing : CaseMap) (minorUnits : Int) (currency : String) :
    UsdAmount :=
  let cur := casing.toUppercase currency
  let major := minorUnits / minorDivisor cur
  if cur = fx.base then ⟨major, true, some 1⟩
  else
    match fx.rates.lookup cur with
    | some rate => ⟨major * rate, true, some rate⟩
    | none => ⟨major, false, none⟩

/-! ## Records -/

/-- A revenue record with where it comes from and what its amount was converted from. -/
structure RevenueRecord extends RevenueEvent where
  source : String
  externalId : Option String
  productId : Option String
  currency : String
  amountMinor : Option Int
  fxRate : Option ℚ
  fxBookVersion : Option String
  converted : Option Bool

/-- What the normalizers read off a provider's object: `stripe::normalize_invoice` and
`normalize_refund`, `polar::normalize_order` and `refund_event`. -/
structure Charge where
  id : String
  projectId : String
  source : String
  externalId : Option String
  customerId : Option String
  productId : Option String
  kind : RevenueKind
  periodStart : Option Time
  periodEnd : Option Time
  ts : Time
  minor : Int
  currency : String

/-- The record that a normalizer makes of a charge, under the book of the moment. -/
def Charge.record (casing : CaseMap) (fx : FxTable) (c : Charge) : RevenueRecord :=
  let usd := fx.toUsd casing c.minor c.currency
  { id := c.id
    projectId := c.projectId
    source := c.source
    externalId := c.externalId
    customerId := c.customerId
    productId := c.productId
    amountUsd := usd.amountUsd
    currency := casing.toUppercase c.currency
    amountMinor := some c.minor
    fxRate := usd.rate
    fxBookVersion := some fx.version
    converted := some usd.converted
    kind := c.kind
    periodStart := c.periodStart
    periodEnd := c.periodEnd
    ts := c.ts }

/-- A converted amount is the minor figure by its divisor, at its rate. -/
theorem toUsd_of_converted {fx : FxTable} {casing : CaseMap} {minorUnits : Int} {currency : String}
    (h : (fx.toUsd casing minorUnits currency).converted = true) :
    ∃ rate, (fx.toUsd casing minorUnits currency).rate = some rate ∧
      (fx.toUsd casing minorUnits currency).amountUsd =
        minorUnits / minorDivisor (casing.toUppercase currency) * rate := by
  unfold FxTable.toUsd at h ⊢
  simp only at h ⊢
  split_ifs at h ⊢ with hbase
  · exact ⟨1, rfl, (mul_one _).symm⟩
  · cases hrate : fx.rates.lookup (casing.toUppercase currency) with
    | none =>
      rw [hrate] at h
      cases h
    | some rate => exact ⟨rate, rfl, rfl⟩

end LightTrack
