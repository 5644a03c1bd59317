import LightTrack.Core.Clock
import LightTrack.Core.Limits
import LightTrack.Engine.Canonical
import LightTrack.Lib.Grid
import LightTrack.Lib.Traverse

/-! # The grid of a preview

A span is a count with a unit; its seconds become a duration, which is taken from the clock, and the
instants divide what lies between.  Each step of the way panics out of its own range.

* `instants_eq_ok` : the instants of a span that fits are an even grid,
* `previewGrid_iff` : exactly when a preview answers with a well-formed grid, or refuses the span.
-/

namespace LightTrack

open Time

/-! ## The request -/

/-- `DEFAULT_STEPS` -/
def DEFAULT_STEPS : ℕ := 48

/-- `MAX_STEPS` -/
def MAX_STEPS : ℕ := 200

/-- `MAX_DEFAULT_SPAN_DAYS` -/
def MAX_DEFAULT_SPAN_DAYS : Int := 90

/-- The digits of a span and the seconds of its unit. -/
def splitUnit (t : List Char) : List Char × Int :=
  match t.getLast? with
  | some 'd' => (t.dropLast, 86400)
  | some 'h' => (t.dropLast, 3600)
  | some 'm' => (t.dropLast, 60)
  | some 's' => (t.dropLast, 1)
  | _ => (t, 1)

/-- The count and the unit of a span, as they are read. -/
def readSpan (s : String) : Option Int × Int :=
  let parts := splitUnit (trimChars isWhite s.toList)
  (Engine.parseI64 (trimChars isWhite parts.1), parts.2)

/-- The seconds a positive count asks for. -/
def spanOf (checks : Bool) (count unit : Int) : Except Overflow Int := do
  let secs ← mulI64 checks count unit
  ofSeconds secs

/-- `parse_span`: a duration, or why the text is refused. -/
def parseSpan (checks : Bool) (s : String) : Except Overflow (Except String Int) :=
  match (readSpan s).1 with
  | none =>
    .ok (.error ("unknown span '" ++ s ++
      "' (expected a count with a unit, e.g. 7d / 48h / 90m)"))
  | some n =>
    if n ≤ 0 then .ok (.error ("span '" ++ s ++ "' must be positive"))
    else (spanOf checks n (readSpan s).2).map .ok

/-- `default_span`: seven windows, capped. -/
def defaultSpan (window : LimitWindow) : Int :=
  min (window.lookback * 7) (MAX_DEFAULT_SPAN_DAYS * 86400 * second)

/-- One of the instants. -/
def instantAt (checks : Bool) (from_ : Time) (span : Int) (steps i : ℕ) : Except Overflow Time := do
  let product ← mulI64 checks span i
  addMillis from_ (product.tdiv steps)

/-- `instants`: oldest first, the newest at `to`. -/
def instants (checks : Bool) (from_ to_ : Time) (steps : ℕ) : Except Overflow (List Time) :=
  let span := max ((to_ - from_).tdiv millisecond) 1
  (List.range steps).mapM fun i => instantAt checks from_ span steps (i + 1)

/-- The replayed span and its sampling grid. -/
structure PreviewSpan where
  from_ : Time
  to_ : Time
  steps : ℕ
  stepSecs : Int
  windowSecs : Int
  instants : List Time
  deriving DecidableEq

/-- `q.steps.unwrap_or(DEFAULT_STEPS).clamp(2, MAX_STEPS)` -/
def clampSteps (steps : Option ℕ) : ℕ := max 2 (min MAX_STEPS (steps.getD DEFAULT_STEPS))

/-- The grid over a duration, and the starts of its windows. -/
def gridOver (checks : Bool) (window : LimitWindow) (steps : ℕ) (now : Time) (span : Int) :
    Except Overflow PreviewSpan := do
  let from_ ← subDelta now span
  let grid ← instants checks from_ now steps
  let _ ← grid.mapM fun t => subDelta t window.lookback
  return {
    from_
    to_ := now
    steps := grid.length
    stepSecs := (span.tdiv second).tdiv steps
    windowSecs := window.lookback.tdiv second
    instants := grid }

/-- `preview_limit`, up to the reads of the store. -/
def previewGrid (checks : Bool) (window : LimitWindow) (overAsked : Option String)
    (steps : Option ℕ) (now : Time) : Except Overflow (Except String PreviewSpan) :=
  match overAsked with
  | none => (gridOver checks window (clampSteps steps) now (defaultSpan window)).map .ok
  | some s =>
    match parseSpan checks s with
    | .error o => .error o
    | .ok (.error why) => .ok (.error why)
    | .ok (.ok span) => (gridOver checks window (clampSteps steps) now span).map .ok

/-! ## What is asked for -/

/-- The seconds a request asks for; `none` where the text is refused. -/
def spanAsked (window : LimitWindow) (overAsked : Option String) : Option Int :=
  match overAsked with
  | none => some (min (window.lookback / second * 7) (MAX_DEFAULT_SPAN_DAYS * 86400))
  | some s =>
    match (readSpan s).1 with
    | none => none
    | some n => if n ≤ 0 then none else some (n * (readSpan s).2)

/-- The grid is of the interval that was asked for: as many instants as steps, strictly increasing,
after its start and up to its end, with representable windows. -/
structure GridWellFormed (window : LimitWindow) (steps : ℕ) (from_ to_ : Time) (g : PreviewSpan) :
    Prop where
  starts : g.from_ = from_
  ends : g.to_ = to_
  length : g.instants.length = steps
  increasing : g.instants.Pairwise (· < ·)
  bounds : ∀ t ∈ g.instants, from_ < t ∧ t ≤ to_
  last : g.instants.getLast? = some to_
  windows : ∀ t ∈ g.instants, InUtc (window.since t)

/-- The preview refuses the span, or answers with a well-formed grid of the interval that was asked
for. -/
def GridOk (checks : Bool) (window : LimitWindow) (overAsked : Option String) (steps : Option ℕ)
    (now : Time) : Prop :=
  (∃ why, previewGrid checks window overAsked steps now = .ok (.error why)) ∨
    ∃ secs g, spanAsked window overAsked = some secs ∧
      previewGrid checks window overAsked steps now = .ok (.ok g) ∧
        GridWellFormed window (clampSteps steps) (now - secs * second) now g

/-- The first instant of the grid over some seconds. -/
def firstInstant (secs : Int) (steps : ℕ) (now : Time) : Time :=
  now - secs * second + secs * 1000 / steps * millisecond

/-- What is asked for is a duration, reaches back to an instant, and so does the first window. -/
def SpanFits (window : LimitWindow) (overAsked : Option String) (steps : Option ℕ) (now : Time) :
    Prop :=
  ∀ secs, spanAsked window overAsked = some secs →
    SecondsFit secs ∧ InUtc (now - secs * second) ∧
      InUtc (window.since (firstInstant secs (clampSteps steps) now))

theorem clampSteps_bounds (steps : Option ℕ) : 2 ≤ clampSteps steps ∧ clampSteps steps ≤ 200 := by
  unfold clampSteps MAX_STEPS
  omega

theorem unit_pos (s : String) : 0 < (readSpan s).2 := by
  have hunit : ∀ t, 0 < (splitUnit t).2 := by
    intro t
    unfold splitUnit
    split <;> simp
  exact hunit _

/-! ## The instants -/

section Grid

variable {checks : Bool} {window : LimitWindow} {secs : Int} {steps : ℕ} {now : Time}

/-- Between two instants lie fewer than `2 ^ 54` milliseconds. -/
theorem secs_le_of_inUtc (hnow : InUtc now) (hfrom : InUtc (now - secs * second)) :
    secs ≤ 16544868105600 := by
  have harith : ∀ n s : Int, n ≤ 8210266876800 * 1000000000 - 1 →
      -8334601228800 * 1000000000 ≤ n - s * 1000000000 → s ≤ 16544868105600 := by
    intro n s _ _
    omega
  exact harith now secs hnow.2 hfrom.1

/-- What lies after the start of a span and up to its end is an instant. -/
theorem inUtc_between (hfrom : InUtc (now - secs * second)) (hnow : InUtc now) {p : Int}
    (hpos : 0 < p) (hp : p ≤ secs * 1000) : InUtc (now - secs * second + p * millisecond) := by
  have harith : ∀ n : Int, -8334601228800 * 1000000000 ≤ n - secs * 1000000000 →
      n ≤ 8210266876800 * 1000000000 - 1 →
      -8334601228800 * 1000000000 ≤ n - secs * 1000000000 + p * 1000000 ∧
        n - secs * 1000000000 + p * 1000000 ≤ 8210266876800 * 1000000000 - 1 := by
    intro n _ _
    omega
  exact harith now hfrom.1 hnow.2

/-- **The instants of a span that fits are an even grid.** -/
theorem instants_eq_ok (hnow : InUtc now) (hsecs : 0 < secs)
    (hfrom : InUtc (now - secs * second)) (hpos : 0 < steps) (hsteps : steps ≤ 200) :
    instants checks (now - secs * second) now steps =
      .ok ((Grid.points (secs * 1000) steps).map fun p => now - secs * second + p * millisecond) := by
  have hbound := secs_le_of_inUtc hnow hfrom
  have hspan : max ((now - (now - secs * second)).tdiv millisecond) 1 = secs * 1000 := by
    have hmul : now - (now - secs * second) = secs * 1000 * millisecond := by
      unfold second millisecond
      ring
    rw [hmul, Int.mul_tdiv_cancel _ (by decide)]
    omega
  have hwide : (steps : Int) ≤ secs * 1000 := by omega
  unfold instants Grid.points
  rw [hspan, List.map_map]
  refine (Traverse.mapM_eq_map_iff_of_mem (P := fun _ => True) ?_).2 ⟨fun _ _ => trivial, rfl⟩
  intro i hi t
  rw [List.mem_range] at hi
  rw [true_and]
  have hpoint := Grid.mem_points_bounds hpos hwide (Grid.mem_points_iff.2 ⟨i, hi, rfl⟩)
  have hi' : ((i + 1 : ℕ) : Int) ≤ 200 := by exact_mod_cast (Nat.succ_le_of_lt hi).trans hsteps
  have hnonneg : (0 : Int) ≤ ((i + 1 : ℕ) : Int) := Int.natCast_nonneg _
  have hproduct : InI64 (secs * 1000 * (i + 1 : ℕ)) := by
    unfold InI64 i64Bound
    constructor <;> nlinarith
  have hquotient : (secs * 1000 * (i + 1 : ℕ)).tdiv steps = secs * 1000 * (i + 1 : ℕ) / steps :=
    Int.tdiv_eq_ediv_of_nonneg (by positivity)
  have hstep : instantAt checks (now - secs * second) (secs * 1000) steps (i + 1) =
      addMillis (now - secs * second) (secs * 1000 * (i + 1 : ℕ) / steps) := by
    unfold instantAt
    rw [mulI64_of_inI64 hproduct, ← hquotient]
    rfl
  rw [hstep, addMillis_eq_ok_iff]
  refine and_iff_right ⟨?_, ?_⟩
  · omega
  · exact inUtc_between hfrom hnow hpoint.1 hpoint.2.2

/-- The grid a span that fits is given. -/
def evenGrid (secs : Int) (steps : ℕ) (now : Time) : List Time :=
  (Grid.points (secs * 1000) steps).map fun p => now - secs * second + p * millisecond

/-- The windows of an even grid are representable when its first is. -/
theorem windows_evenGrid_iff (hnow : InUtc now) (hsecs : 0 < secs) (hpos : 0 < steps)
    (hsteps : steps ≤ 200) :
    (∀ t ∈ evenGrid secs steps now, InUtc (window.since t)) ↔
      InUtc (window.since (firstInstant secs steps now)) := by
  have hwide : (steps : Int) ≤ secs * 1000 := by omega
  unfold evenGrid firstInstant
  rw [List.forall_mem_map]
  constructor
  · intro h
    exact h _ (Grid.first_mem_points hpos)
  · intro h p hp
    -- a later window starts between the first one and the clock
    rcases Grid.mem_points_bounds hpos hwide hp with ⟨-, hfirst, hlast⟩
    have hlook := window.lookback_pos
    refine ⟨h.1.trans ?_, le_trans ?_ hnow.2⟩
    · unfold LimitWindow.since millisecond
      have harith : ∀ a b l : Int, a ≤ p → b + a * 1000000 - l ≤ b + p * 1000000 - l := by
        intro a b l _
        omega
      exact harith _ _ _ hfirst
    · have harith : ∀ n l : Int, 0 < l → n - secs * 1000000000 + p * 1000000 - l ≤ n := by
        intro n l _
        omega
      exact harith _ _ hlook

/-- What the grid over some seconds answers, and when. -/
theorem gridOver_eq_ok_iff (hnow : InUtc now) (hsecs : 0 < secs) (hpos : 0 < steps)
    (hsteps : steps ≤ 200) (g : PreviewSpan) :
    gridOver checks window steps now (secs * second) = .ok g ↔
      (InUtc (now - secs * second) ∧ InUtc (window.since (firstInstant secs steps now))) ∧
        g = {
          from_ := now - secs * second
          to_ := now
          steps := (evenGrid secs steps now).length
          stepSecs := secs.tdiv steps
          windowSecs := window.lookback.tdiv second
          instants := evenGrid secs steps now } := by
  have hwhole : (secs * second).tdiv second = secs := Int.mul_tdiv_cancel _ (by decide)
  have hwindows : ∀ grid starts : List Time,
      (grid.mapM fun t => subDelta t window.lookback) = .ok starts ↔
        (∀ t ∈ grid, InUtc (window.since t)) ∧ starts = grid.map window.since :=
    fun grid starts => Traverse.mapM_eq_map_iff fun t t' => subDelta_eq_ok_iff
  unfold gridOver
  simp only [Traverse.bind_eq_ok_iff, subDelta_eq_ok_iff, hwindows, hwhole, pure, Except.pure,
    Except.ok.injEq]
  constructor
  · intro h
    rcases h with ⟨from_, ⟨hfrom, rfl⟩, grid, hgrid, starts, ⟨hstarts, -⟩, hg⟩
    rw [instants_eq_ok hnow hsecs hfrom hpos hsteps] at hgrid
    have hgrid' : evenGrid secs steps now = grid := Except.ok.inj hgrid
    rw [← hgrid'] at hstarts hg
    exact ⟨⟨hfrom, (windows_evenGrid_iff hnow hsecs hpos hsteps).1 hstarts⟩, hg.symm⟩
  · intro h
    rcases h with ⟨⟨hfrom, hfirst⟩, hg⟩
    refine ⟨_, ⟨hfrom, rfl⟩, evenGrid secs steps now, ?_, _, ⟨?_, rfl⟩, hg.symm⟩
    · exact instants_eq_ok hnow hsecs hfrom hpos hsteps
    · exact (windows_evenGrid_iff hnow hsecs hpos hsteps).2 hfirst

/-- An even grid over a span that is long enough is well formed. -/
theorem gridWellFormed_evenGrid (hsecs : 0 < secs) (hpos : 0 < steps) (hsteps : steps ≤ 200)
    (hwindows : ∀ t ∈ evenGrid secs steps now, InUtc (window.since t)) {g : PreviewSpan}
    (hfrom : g.from_ = now - secs * second) (hto : g.to_ = now)
    (hg : g.instants = evenGrid secs steps now) :
    GridWellFormed window steps (now - secs * second) now g := by
  have hwide : (steps : Int) ≤ secs * 1000 := by omega
  have hend : now - secs * second + secs * 1000 * millisecond = now := by
    unfold second millisecond
    ring
  refine ⟨hfrom, hto, ?_, ?_, ?_, ?_, ?_⟩
  · rw [hg, evenGrid, List.length_map, Grid.length_points]
  · rw [hg, evenGrid, List.pairwise_map]
    refine (Grid.points_increasing hpos hwide).imp ?_
    intro p p' hlt
    have hms : p * millisecond < p' * millisecond := mul_lt_mul_of_pos_right hlt (by decide)
    exact Int.add_lt_add_left hms _
  · rw [hg, evenGrid, List.forall_mem_map]
    intro p hp
    rcases Grid.mem_points_bounds hpos hwide hp with ⟨hfirst, -, hlast⟩
    have hmin : 0 < p * millisecond := mul_pos hfirst (by decide)
    have hmax : p * millisecond ≤ secs * 1000 * millisecond :=
      mul_le_mul_of_nonneg_right hlast (by decide)
    refine ⟨Int.lt_add_of_pos_right _ hmin, ?_⟩
    exact (Int.add_le_add_left hmax _).trans hend.le
  · rw [hg, evenGrid, List.getLast?_map, Grid.getLast_points hpos, Option.map_some, hend]
  · rw [hg]
    exact hwindows

end Grid

/-! ## The answer -/

theorem defaultSpan_eq (window : LimitWindow) :
    defaultSpan window = min (window.lookback / second * 7) (MAX_DEFAULT_SPAN_DAYS * 86400) * second := by
  cases window <;> decide

/-- What the duration of a positive count is, and when there is one. -/
theorem spanOf_eq_ok_iff {checks : Bool} {count unit d : Int} :
    spanOf checks count unit = .ok d ↔
      ((checks = true → InI64 (count * unit)) ∧ SecondsFit (wrapI64 (count * unit))) ∧
        d = wrapI64 (count * unit) * second := by
  have hseconds : ∀ secs, ofSeconds secs = .ok d ↔ SecondsFit secs ∧ d = secs * second := by
    intro secs
    unfold ofSeconds
    rw [guard_eq_ok_iff, not_not]
  unfold spanOf
  simp only [Traverse.bind_eq_ok_iff, mulI64_eq_ok_iff, hseconds]
  constructor
  · intro h
    rcases h with ⟨secs, ⟨hfit, rfl⟩, hsecs, hd⟩
    exact ⟨⟨hfit, hsecs⟩, hd⟩
  · intro h
    exact ⟨_, ⟨h.1.1, rfl⟩, h.1.2, h.2⟩

theorem inI64_of_secondsFit {secs : Int} (h : SecondsFit secs) : InI64 secs := by
  unfold SecondsFit InI64 i64Bound at *
  omega

theorem from_gridOver {checks : Bool} {window : LimitWindow} {steps : ℕ} {now : Time} {d : Int}
    {g : PreviewSpan} (h : gridOver checks window steps now d = .ok g) : g.from_ = now - d := by
  unfold gridOver at h
  simp only [Traverse.bind_eq_ok_iff, subDelta_eq_ok_iff, pure, Except.pure, Except.ok.injEq] at h
  rcases h with ⟨from_, ⟨-, rfl⟩, grid, -, starts, -, rfl⟩
  rfl

section Request

variable {checks : Bool} {window : LimitWindow} {overAsked : Option String} {steps : Option ℕ}
  {now : Time}

/-- A request that is accepted: `Reads d` is that its span is read as `d`. -/
theorem gridOk_iff_of_accepted (hnow : InUtc now) {secs : Int} (Reads : Int → Prop)
    (hsecs : 0 < secs) (hasked : spanAsked window overAsked = some secs)
    (hrun : ∀ answer, previewGrid checks window overAsked steps now = .ok answer ↔
      ∃ d g, Reads d ∧ gridOver checks window (clampSteps steps) now d = .ok g ∧ answer = .ok g)
    (hreads : Reads (secs * second) ↔ SecondsFit secs) :
    GridOk checks window overAsked steps now ↔ SpanFits window overAsked steps now := by
  rcases clampSteps_bounds steps with ⟨htwo, hsteps⟩
  have hpos : 0 < clampSteps steps := by omega
  have hgrid := @gridOver_eq_ok_iff checks window secs _ now hnow hsecs hpos hsteps
  unfold GridOk SpanFits
  rw [hasked]
  simp only [hrun, Option.some.injEq, forall_eq']
  constructor
  · intro h
    rcases h with ⟨why, d, g, -, -, hno⟩ | ⟨secs', g, rfl, ⟨d, g', hd, hg, hanswer⟩, hwell⟩
    · cases hno
    · rcases Except.ok.inj hanswer with rfl
      -- the interval is the one that was asked for, so the span was read without a wrap
      have hstart := (from_gridOver hg).symm.trans hwell.starts
      have hspan : d = secs * second := by
        have harith : ∀ a b c : Int, a - b = a - c → b = c := by
          intro a b c _
          omega
        exact harith _ _ _ hstart
      rw [hspan] at hd hg
      exact ⟨hreads.1 hd, ((hgrid g).1 hg).1⟩
  · intro h
    rcases h with ⟨hfit, hfrom, hfirst⟩
    refine .inr ⟨secs, _, rfl, ⟨secs * second, _, hreads.2 hfit, (hgrid _).2 ⟨⟨hfrom, hfirst⟩, rfl⟩,
      rfl⟩, ?_⟩
    exact gridWellFormed_evenGrid hsecs hpos hsteps
      ((windows_evenGrid_iff hnow hsecs hpos hsteps).2 hfirst) rfl rfl rfl

/-- A request that is refused. -/
theorem gridOk_iff_of_refused (why : String) (hasked : spanAsked window overAsked = none)
    (hrun : previewGrid checks window overAsked steps now = .ok (.error why)) :
    GridOk checks window overAsked steps now ↔ SpanFits window overAsked steps now := by
  have hfits : SpanFits window overAsked steps now := by
    intro secs hsecs
    rw [hasked] at hsecs
    cases hsecs
  exact iff_of_true (.inl ⟨why, hrun⟩) hfits

end Request

/-- **The grid of a preview is well formed, or the span refused, exactly when what is asked for
fits**: its seconds are a duration, it reaches back to an instant, and so does the first window. In
a build with overflow checks and in one without. -/
theorem previewGrid_iff (checks : Bool) (window : LimitWindow) (overAsked : Option String)
    (steps : Option ℕ) (now : Time) (hnow : InUtc now) :
    GridOk checks window overAsked steps now ↔ SpanFits window overAsked steps now := by
  cases overAsked with
  | none =>
    -- the default span of a window is a constant of the code
    have hsecs : 0 < min (window.lookback / second * 7) (MAX_DEFAULT_SPAN_DAYS * 86400) := by
      cases window <;> decide
    have hfit : SecondsFit (min (window.lookback / second * 7) (MAX_DEFAULT_SPAN_DAYS * 86400)) := by
      cases window <;> decide
    refine gridOk_iff_of_accepted hnow (fun d => d = defaultSpan window) hsecs rfl ?_ ?_
    · intro answer
      unfold previewGrid
      simp only [Traverse.map_eq_ok_iff, exists_and_left, exists_eq_left]
    · exact iff_of_true (defaultSpan_eq window).symm hfit
  | some s =>
    cases hread : (readSpan s).1 with
    | none =>
      -- what is no span is refused, whatever the rest of the request is
      refine gridOk_iff_of_refused ("unknown span '" ++ s ++
        "' (expected a count with a unit, e.g. 7d / 48h / 90m)") ?_ ?_
      · simp only [spanAsked, hread]
      · simp only [previewGrid, parseSpan, hread]
    | some n =>
      by_cases hn : n ≤ 0
      · refine gridOk_iff_of_refused ("span '" ++ s ++ "' must be positive") ?_ ?_
        · simp only [spanAsked, hread, if_pos hn]
        · simp only [previewGrid, parseSpan, hread, if_pos hn]
      · have hsecs : 0 < n * (readSpan s).2 := mul_pos (not_le.1 hn) (unit_pos s)
        refine gridOk_iff_of_accepted hnow (fun d => spanOf checks n (readSpan s).2 = .ok d) hsecs
          ?_ ?_ ?_
        · simp only [spanAsked, hread, if_neg hn]
        · intro answer
          unfold previewGrid parseSpan
          simp only [hread, if_neg hn]
          cases spanOf checks n (readSpan s).2 with
          | error o => simp [Except.map]
          | ok d =>
            change (gridOver checks window (clampSteps steps) now d).map .ok = .ok answer ↔ _
            simp only [Traverse.map_eq_ok_iff, Except.ok.injEq, exists_and_left, exists_eq_left']
        · rw [spanOf_eq_ok_iff]
          constructor
          · intro h
            -- the product did not wrap, so the seconds are those asked for
            have hwrap : n * (readSpan s).2 = wrapI64 (n * (readSpan s).2) :=
              mul_right_cancel₀ (by decide : second ≠ 0) h.2
            rw [hwrap]
            exact h.1.2
          · intro hfit
            have hin := inI64_of_secondsFit hfit
            rw [wrapI64_of_inI64 hin]
            exact ⟨⟨fun _ => hin, hfit⟩, rfl⟩

/-- The theorem at a week before the epoch. -/
theorem previewGrid_week : GridOk true .day (some "7d") none 0 := by
  refine (previewGrid_iff true .day (some "7d") none 0 (by decide)).2 ?_
  intro secs hsecs
  have hasked : spanAsked .day (some "7d") = some 604800 := by decide +kernel
  rcases Option.some.inj (hasked.symm.trans hsecs) with rfl
  decide

/-- **A count that is read can panic**: too many seconds for a duration, too many days for a
product, more days than there were before the clock. -/
theorem previewGrid_panics :
    ¬ GridOk true .day (some "9223372036854775807") none 0 ∧
      ¬ GridOk true .day (some "9223372036854775807d") none 0 ∧
        ¬ GridOk true .day (some "100000000d") none 0 := by
  have hno : ∀ overAsked o, previewGrid true .day overAsked none 0 = .error o →
      ¬ GridOk true .day overAsked none 0 := by
    intro overAsked o hrun hok
    rcases hok with ⟨why, h⟩ | ⟨secs, g, -, h, -⟩
    · exact nomatch hrun.symm.trans h
    · exact nomatch hrun.symm.trans h
  have hseconds : previewGrid true .day (some "9223372036854775807") none 0 = .error .seconds := by
    decide +kernel
  have hmul : previewGrid true .day (some "9223372036854775807d") none 0 = .error .mul := by
    decide +kernel
  have hdate : previewGrid true .day (some "100000000d") none 0 = .error .dateTimeSub := by
    decide +kernel
  exact ⟨hno _ _ hseconds, hno _ _ hmul, hno _ _ hdate⟩

end LightTrack
