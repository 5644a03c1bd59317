import LightTrack.Api.Validate
import LightTrack.Store.DateTime

/-! # Stored timestamps order and read back

The store compares timestamps as text, so what the ingest policy accepts has to be writable with four
digits of a year.  The policy bounds the distance from the clock, and only where its bounds are set.

* `fourDigit_of_bounded`, `exists_accepted` : what the bounds let through,
* `storedInOrder_iff` : the stored timestamps are in order just if the bounds keep to the years that
  have four digits.
-/

namespace LightTrack

namespace IngestPolicy

/-- `IngestPolicy::from_env`, of the settings that are set: the symmetric one wins. -/
def fromEnv (symmetric future past : Option Int) (checkUsageSubcounts : Bool) : IngestPolicy :=
  match symmetric with
  | some bound => ⟨max bound 0, max bound 0, checkUsageSubcounts⟩
  | none => ⟨max (future.getD 300) 0, max (past.getD (7 * 24 * 3600)) 0, checkUsageSubcounts⟩

/-- The two bounds, given how many seconds `ts` is ahead. -/
def skewOf (p : IngestPolicy) (delta : Int) : Except Rejection Unit :=
  if 0 < p.maxFutureSecs ∧ p.maxFutureSecs < delta then
    .error ⟨.tsTooNew, "`ts` is " ++ toString delta ++ "s ahead of server time, beyond the allowed " ++
      toString p.maxFutureSecs ++ "s future skew (see LIGHTTRACK_MAX_TS_SKEW_FUTURE_SECS)"⟩
  else if 0 < p.maxPastSecs ∧ p.maxPastSecs < -delta then
    .error ⟨.tsTooOld, "`ts` is " ++ toString (-delta) ++ "s behind server time, beyond the allowed " ++
      toString p.maxPastSecs ++ "s past skew (see LIGHTTRACK_MAX_TS_SKEW_PAST_SECS)"⟩
  else .ok ()

/-- `IngestPolicy::validate` of an event that carries the timestamp `ts`. -/
def validateAt (p : IngestPolicy) (ev : LlmEvent) (ts now : DateTime) : Except Rejection Unit :=
  if isBlank ev.model then .error ⟨.badRequest, "`model` must not be empty"⟩
  else do
    checkTraceRef "trace_id" ev.traceId
    checkTraceRef "span_id" ev.spanId
    checkTraceRef "parent_span_id" ev.parentSpanId
    checkUsage ev p.checkUsageSubcounts
    p.skewOf (Time.numSeconds (ts.sub now))

/-- A timestamp that some event can carry past the policy, at some reading of the clock. -/
def Accepts (p : IngestPolicy) (clock : Set DateTime) (ts : DateTime) : Prop :=
  ∃ ev, ∃ now ∈ clock, p.validateAt ev ts now = .ok ()

/-- What the store relies on of the timestamps it is given. -/
structure StoredInOrder (p : IngestPolicy) (clock : Set DateTime) : Prop where
  order : ∀ ts ts', p.Accepts clock ts → p.Accepts clock ts' → (ts.fmt < ts'.fmt ↔ ts < ts')
  width : ∀ ts ts', p.Accepts clock ts → p.Accepts clock ts' → ts.fmt.length = ts'.fmt.length
  reads : ∀ ts, p.Accepts clock ts → DateTime.parse ts.fmt = some ts

/-- An instant in nanoseconds. -/
def nanosAt (now : DateTime) : Int := now.secs * Time.second + now.frac

/-- Both bounds are set, and what they let through has four digits of a year; the last second before
the year 0 may be a leap second. -/
structure Bounded (p : IngestPolicy) (now : DateTime) : Prop where
  future : 0 < p.maxFutureSecs
  past : 0 < p.maxPastSecs
  last : nanosAt now + (p.maxFutureSecs + 1) * Time.second ≤ DateTime.END_SECOND * Time.second
  first : (DateTime.FIRST_SECOND + p.maxPastSecs + 2) * Time.second ≤ nanosAt now + 1

/-! ## What is accepted -/

section Accepted

variable {p : IngestPolicy} {ev : LlmEvent} {ts now : DateTime}

theorem skewOf_eq_ok_iff {delta : Int} : p.skewOf delta = .ok () ↔
    (0 < p.maxFutureSecs → delta ≤ p.maxFutureSecs) ∧
      (0 < p.maxPastSecs → -delta ≤ p.maxPastSecs) := by
  unfold skewOf
  split_ifs with hfuture hpast
  · refine iff_of_false (fun h => by cases h) ?_
    rintro ⟨h, -⟩
    exact absurd (h hfuture.1) (not_le.2 hfuture.2)
  · refine iff_of_false (fun h => by cases h) ?_
    rintro ⟨-, h⟩
    exact absurd (h hpast.1) (not_le.2 hpast.2)
  · refine iff_of_true rfl ⟨fun h => ?_, fun h => ?_⟩
    · exact not_lt.1 fun hlt => hfuture ⟨h, hlt⟩
    · exact not_lt.1 fun hlt => hpast ⟨h, hlt⟩

/-- Only the skew depends on the timestamp. -/
theorem skew_of_validateAt (h : p.validateAt ev ts now = .ok ()) :
    p.skewOf (Time.numSeconds (ts.sub now)) = .ok () := by
  unfold validateAt at h
  split_ifs at h
  rw [except_bind_eq_ok_iff, except_bind_eq_ok_iff, except_bind_eq_ok_iff,
    except_bind_eq_ok_iff] at h
  exact h.2.2.2.2

/-- A call that has nothing to check but its timestamp. -/
def plainEvent : LlmEvent :=
  { id := "", projectId := "", ts := 0, receivedAt := 0, provider := .new "openai", model := "gpt-4o"
    usage := { input := 0, output := 0 } }

theorem validateAt_plainEvent : p.validateAt plainEvent ts now =
    p.skewOf (Time.numSeconds (ts.sub now)) := by
  have hblank : isBlank plainEvent.model = false := by decide +kernel
  have husage : checkUsage plainEvent p.checkUsageSubcounts = .ok () :=
    checkUsage_eq_ok_iff.2 fun _ => rfl
  unfold validateAt
  rw [hblank, if_neg Bool.false_ne_true, husage]
  rfl

/-- How far apart two instants are, where the clock shows no leap second. -/
theorem sub_bounds (hnow : now.frac < 1000000000) :
    ts.secs * Time.second - nanosAt now ≤ ts.sub now ∧
      ts.sub now ≤ ts.secs * Time.second + ts.frac - nanosAt now := by
  have hfrac := ts.frac_lt
  unfold DateTime.sub nanosAt Time.second
  simp only
  rw [if_neg fun h => absurd h.2 (not_le.2 hnow)]
  split_ifs with hleap
  · omega
  · omega

/-- Nothing is taken off on the last second of a day. -/
theorem sub_of_last (hnow : now.frac < 1000000000) (hts : now.tod ≤ ts.tod) :
    ts.sub now = ts.secs * Time.second + ts.frac - nanosAt now := by
  unfold DateTime.sub nanosAt Time.second
  simp only
  rw [if_neg fun h => absurd h.2 (not_le.2 hnow), if_neg fun h => absurd h.1 (not_lt.2 hts)]
  omega

theorem numSeconds_neg (d : Int) : Time.numSeconds (-d) = -Time.numSeconds d := Int.neg_tdiv ..

theorem lt_numSeconds {k d : Int} (hk : 0 ≤ k) (h : (k + 1) * Time.second ≤ d) :
    k < Time.numSeconds d := by
  unfold Time.numSeconds Time.second at *
  rw [Int.tdiv_eq_ediv_of_nonneg (by omega)]
  omega

theorem numSeconds_le {k d : Int} (hk : 0 ≤ k) (h : d < (k + 1) * Time.second) :
    Time.numSeconds d ≤ k := by
  rcases le_total 0 d with hd | hd
  · unfold Time.numSeconds Time.second at *
    rw [Int.tdiv_eq_ediv_of_nonneg hd]
    omega
  · have hneg : 0 ≤ Time.numSeconds (-d) := Int.tdiv_nonneg (Int.neg_nonneg.2 hd) (by decide)
    rw [numSeconds_neg] at hneg
    omega

/-- **Within the bounds every accepted timestamp has a year of four digits.** -/
theorem fourDigit_of_bounded (hnow : now.frac < 1000000000) (hp : p.Bounded now)
    (h : p.skewOf (Time.numSeconds (ts.sub now)) = .ok ()) : ts.FourDigit := by
  rcases skewOf_eq_ok_iff.1 h with ⟨hfuture, hpast⟩
  have hsub : _ ∧ ts.sub now ≤ _ := sub_bounds hnow
  have hfrac := ts.frac_lt
  have hlast := hp.last
  have hfirst := hp.first
  rw [DateTime.fourDigit_iff]
  constructor
  · by_contra hlt
    have hfar : (p.maxPastSecs + 1) * Time.second ≤ -ts.sub now := by
      unfold Time.second at *
      omega
    have hrefused := lt_numSeconds hp.past.le hfar
    rw [numSeconds_neg] at hrefused
    exact absurd (hpast hp.past) (not_le.2 hrefused)
  · by_contra hge
    have hfar : (p.maxFutureSecs + 1) * Time.second ≤ ts.sub now := by
      unfold Time.second at *
      omega
    exact absurd (hfuture hp.future) (not_le.2 (lt_numSeconds hp.future.le hfar))

/-- A timestamp less than a second beyond each bound that is set is accepted. -/
theorem skewOf_of_near (hfuture : 0 < p.maxFutureSecs →
      ts.sub now < (p.maxFutureSecs + 1) * Time.second)
    (hpast : 0 < p.maxPastSecs → -ts.sub now < (p.maxPastSecs + 1) * Time.second) :
    p.skewOf (Time.numSeconds (ts.sub now)) = .ok () := by
  rw [skewOf_eq_ok_iff]
  constructor
  · intro hset
    exact numSeconds_le hset.le (hfuture hset)
  · intro hset
    rw [← numSeconds_neg]
    exact numSeconds_le hset.le (hpast hset)

/-- The later of now and the year 10000. -/
def beyondEnd (now : DateTime) : DateTime where
  secs := max DateTime.END_SECOND now.secs
  frac := 0
  frac_lt := by decide
  leap := by
    intro h
    cases h
  range := by
    have hrange := now.range
    unfold DateTime.END_SECOND
    omega

/-- The last leap second before the year 0. -/
def beforeFirst : DateTime where
  secs := DateTime.FIRST_SECOND - 1
  frac := 1999999999
  frac_lt := by decide
  leap := fun _ => by decide
  range := by decide

theorem accepted_beyondEnd (hnow : now.frac < 1000000000)
    (hp : ¬ (0 < p.maxFutureSecs ∧
      nanosAt now + (p.maxFutureSecs + 1) * Time.second ≤ DateTime.END_SECOND * Time.second)) :
    p.skewOf (Time.numSeconds ((beyondEnd now).sub now)) = .ok () := by
  have hsub : _ ∧ (beyondEnd now).sub now ≤ _ := sub_bounds hnow
  have hsecs : (beyondEnd now).secs = max DateTime.END_SECOND now.secs := rfl
  have hfrac : (beyondEnd now).frac = 0 := rfl
  rw [hsecs, hfrac] at hsub
  unfold nanosAt DateTime.END_SECOND Time.second at *
  refine skewOf_of_near ?_ ?_
  · intro hset
    unfold Time.second
    omega
  · intro hset
    unfold Time.second
    omega

theorem accepted_beforeFirst (hnow : now.frac < 1000000000) (hlate : DateTime.FIRST_SECOND ≤ now.secs)
    (hp : ¬ (0 < p.maxPastSecs ∧
      (DateTime.FIRST_SECOND + p.maxPastSecs + 2) * Time.second ≤ nanosAt now + 1)) :
    p.skewOf (Time.numSeconds (beforeFirst.sub now)) = .ok () := by
  have htod : now.tod ≤ beforeFirst.tod := by
    have hbound := DateTime.tod_bounds now
    have hlast : beforeFirst.tod = 86399 := by decide
    omega
  have hsub := sub_of_last hnow htod
  have hsecs : beforeFirst.secs = DateTime.FIRST_SECOND - 1 := rfl
  have hfrac : beforeFirst.frac = 1999999999 := rfl
  rw [hsecs, hfrac] at hsub
  unfold nanosAt DateTime.FIRST_SECOND Time.second at *
  refine skewOf_of_near ?_ ?_
  · intro hset
    unfold Time.second
    omega
  · intro hset
    unfold Time.second
    omega

/-- **Beyond them some timestamp is accepted that has not.** -/
theorem exists_accepted (hnow : now.frac < 1000000000) (hp : ¬ p.Bounded now) :
    ∃ ts : DateTime, ¬ ts.FourDigit ∧ p.skewOf (Time.numSeconds (ts.sub now)) = .ok () := by
  by_cases hfuture : 0 < p.maxFutureSecs ∧
      nanosAt now + (p.maxFutureSecs + 1) * Time.second ≤ DateTime.END_SECOND * Time.second
  · -- the past is not bounded, or too late
    have hpast : ¬ (0 < p.maxPastSecs ∧
        (DateTime.FIRST_SECOND + p.maxPastSecs + 2) * Time.second ≤ nanosAt now + 1) :=
      fun h => hp ⟨hfuture.1, h.1, hfuture.2, h.2⟩
    by_cases hlate : DateTime.FIRST_SECOND ≤ now.secs
    · refine ⟨beforeFirst, ?_, accepted_beforeFirst hnow hlate hpast⟩
      decide +kernel
    · refine ⟨now, ?_, ?_⟩
      · rw [DateTime.fourDigit_iff]
        exact fun h => hlate h.1
      · have hzero : now.sub now = 0 := by
          rw [sub_of_last hnow le_rfl]
          exact sub_self _
        refine skewOf_of_near ?_ ?_
        · intro hset
          rw [hzero]
          exact mul_pos (by omega) (by decide)
        · intro hset
          rw [hzero, neg_zero]
          exact mul_pos (by omega) (by decide)
  · refine ⟨beyondEnd now, ?_, accepted_beyondEnd hnow hfuture⟩
    rw [DateTime.fourDigit_iff]
    exact fun h => absurd h.2 (not_lt.2 (le_max_left _ _))

end Accepted

/-! ## Order -/

section Order

variable {p : IngestPolicy} {clock : Set DateTime}

theorem accepts_iff {ts : DateTime} :
    p.Accepts clock ts ↔ ∃ now ∈ clock, p.skewOf (Time.numSeconds (ts.sub now)) = .ok () := by
  constructor
  · rintro ⟨ev, now, hnow, h⟩
    exact ⟨now, hnow, skew_of_validateAt h⟩
  · rintro ⟨now, hnow, h⟩
    exact ⟨plainEvent, now, hnow, validateAt_plainEvent.trans h⟩

/-- **Stored timestamps order and read back** just if at every reading of the clock both bounds are
set and keep to the years of four digits. -/
theorem storedInOrder_iff (hclock : ∀ now ∈ clock, now.frac < 1000000000) :
    p.StoredInOrder clock ↔ ∀ now ∈ clock, p.Bounded now := by
  constructor
  · intro h now hnow
    by_contra hp
    rcases exists_accepted (hclock now hnow) hp with ⟨ts, hyear, hskew⟩
    have hread := h.reads ts (accepts_iff.2 ⟨now, hnow, hskew⟩)
    rw [DateTime.parse_fmt, if_neg hyear] at hread
    cases hread
  · intro hp
    have hyear : ∀ ts, p.Accepts clock ts → ts.FourDigit := by
      intro ts h
      rcases accepts_iff.1 h with ⟨now, hnow, hskew⟩
      exact fourDigit_of_bounded (hclock now hnow) (hp now hnow) hskew
    refine ⟨?_, ?_, ?_⟩
    · intro ts ts' h h'
      exact DateTime.fmt_lt_iff (hyear ts h) (hyear ts' h')
    · intro ts ts' h h'
      rw [DateTime.length_fmt (hyear ts h), DateTime.length_fmt (hyear ts' h')]
    · intro ts h
      rw [DateTime.parse_fmt, if_pos (hyear ts h)]

/-- A noon of 2026. -/
def noon : DateTime := ⟨1780228800, 0, by decide, by decide, by decide⟩

theorem storedInOrder_default : (fromEnv none none none true).StoredInOrder {noon} := by
  refine (storedInOrder_iff ?_).2 ?_
  · rintro now rfl
    decide
  · rintro now rfl
    exact ⟨by decide, by decide, by decide, by decide⟩

/-- The first instant of the year 10000. -/
def tenThousand : DateTime := ⟨253402300800, 0, by decide, by decide, by decide⟩

/-- With the skew switched off a timestamp of the year 10000 is accepted; its text is longer, sorts
before noon and is not read. -/
theorem unbounded_unreadable :
    ¬ (fromEnv (some 0) none none true).StoredInOrder {noon} := by
  intro h
  have haccepted : (fromEnv (some 0) none none true).Accepts {noon} tenThousand :=
    ⟨plainEvent, noon, rfl, by decide +kernel⟩
  have hread := h.reads tenThousand haccepted
  have hnone : DateTime.parse tenThousand.fmt = none := by decide +kernel
  rw [hnone] at hread
  cases hread

end Order

end IngestPolicy

end LightTrack
