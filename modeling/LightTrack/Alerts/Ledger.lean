import LightTrack.Core.Clock
import LightTrack.Store.Timestamp
import Mathlib.Data.List.MinMax
import Mathlib.Data.String.Basic

/-! # The alert ledger

`crates/store/src/sqlite/alerts.rs`: a firing is admitted and written, or suppressed by a row of its
key.  The predicate is the key and a lower bound on `fired_at`, compared as text; a row later than
the firing suppresses it however far away it is.

* `latest_eq_some_iff` : the row a firing is suppressed by,
* `insertDedup_cases` : what one call answers and writes,
* `Lawful.fire` : one firing keeps the ledger lawful,
* `history_lawful` : admitted rows of one key are a cooldown apart and every suppression names the
  row that justifies it, over every history,
* `history_in_order` : inside its cooldown, where the alerts arrive in order.
-/

namespace LightTrack.Alerts

/-! ## Alerts and rows -/

/-- What kind of condition fired. -/
inductive AlertKind where
  | limitBreach
  | limitWarning
  | forecastAlert
  | relayTaskDead
  | errorSpike
  | scoreDrop
  | benchRun
  | ingestRejected
  | promptCanaryRegressed
  | relayTaskUnroutable
  deriving DecidableEq

/-- `AlertKind::as_str`. -/
def AlertKind.asStr : AlertKind → String
  | limitBreach => "limit_breach"
  | limitWarning => "limit_warning"
  | forecastAlert => "forecast_alert"
  | relayTaskDead => "relay_task_dead"
  | errorSpike => "error_spike"
  | scoreDrop => "score_drop"
  | benchRun => "bench_run"
  | ingestRejected => "ingest_rejected"
  | promptCanaryRegressed => "prompt_canary_regressed"
  | relayTaskUnroutable => "relay_task_unroutable"

inductive Severity where
  | info
  | warning
  | critical
  deriving DecidableEq

/-- `Severity::as_str`. -/
def Severity.asStr : Severity → String
  | info => "info"
  | warning => "warning"
  | critical => "critical"

/-- One fired alert, as it is when it fires. -/
structure Alert where
  id : String
  projectId : Option String
  kind : AlertKind
  dedupKey : String
  severity : Severity
  payload : Json
  firedAt : Time

/-- A row of `alerts`. -/
structure AlertRow where
  id : String
  projectId : Option String
  kind : String
  dedupKey : String
  severity : String
  payload : Option String
  firedAt : String

/-- `json_or_null`. -/
def jsonOrNull (v : Json) : Option String := if v.isNull then none else some v.render

/-- The columns an alert is written to. -/
def Alert.row (a : Alert) : AlertRow :=
  ⟨a.id, a.projectId, a.kind.asStr, a.dedupKey, a.severity.asStr, jsonOrNull a.payload,
    fmtTs a.firedAt⟩

/-! ## Admission -/

/-- What `insert_alert_dedup` decided. -/
inductive AlertAdmission where
  | admitted
  | suppressed (firedAt : Time)
  deriving DecidableEq

/-- Why a call has no decision. -/
inductive LedgerError where
  /-- the cutoff is no `DateTime`: a panic, which the transaction does not outlive -/
  | overflow
  /-- `parse_ts` of the row found -/
  | unreadable
  /-- `alerts.id` is a primary key -/
  | conflict
  deriving DecidableEq

/-- `chrono::Duration::from_std(cooldown).unwrap_or(zero)`, of nanoseconds: a `TimeDelta` holds
`i64::MAX` milliseconds. -/
def heldCooldown (cooldown : ℕ) : Int :=
  if cooldown ≤ (2 ^ 63 - 1) * 1000000 then cooldown else 0

/-- `SELECT fired_at … ORDER BY fired_at DESC LIMIT 1`. -/
def latest (key cutoff : String) (rows : List AlertRow) : Option String :=
  ((rows.filter fun r => r.dedupKey = key ∧ cutoff < r.firedAt).map (·.firedAt)).max?

/-- The row that suppresses a firing, if one does. -/
def existing (cooldown : ℕ) (a : Alert) (rows : List AlertRow) :
    Except LedgerError (Option String) :=
  if cooldown = 0 then .ok none
  else
    match Time.subDelta a.firedAt (heldCooldown cooldown) with
    | .ok cutoff => .ok (latest a.dedupKey (fmtTs cutoff) rows)
    | .error _ => .error .overflow

/-- `insert_dedup`: the answer, and the rows behind it. -/
def insertDedup (cooldown : ℕ) (a : Alert) (rows : List AlertRow) :
    Except LedgerError AlertAdmission × List AlertRow :=
  match existing cooldown a rows with
  | .error e => (.error e, rows)
  | .ok (some ts) =>
    match parseTs ts with
    | some t => (.ok (.suppressed t), rows)
    | none => (.error .unreadable, rows)
  | .ok none =>
    if a.id ∈ rows.map (·.id) then (.error .conflict, rows)
    else (.ok .admitted, rows ++ [a.row])

/-! ## One call -/

section Calls

variable {key cutoff ts : String} {cooldown : ℕ} {a : Alert} {rows rows' : List AlertRow}

theorem heldCooldown_nonneg (cooldown : ℕ) : 0 ≤ heldCooldown cooldown := by
  unfold heldCooldown
  split_ifs
  · exact Int.natCast_nonneg cooldown
  · exact le_rfl

/-- A suppressing row has the key and is past the cutoff, and none of these is later. -/
theorem latest_eq_some_iff :
    latest key cutoff rows = some ts ↔
      (∃ r ∈ rows, r.dedupKey = key ∧ cutoff < r.firedAt ∧ r.firedAt = ts) ∧
        ∀ r ∈ rows, r.dedupKey = key → cutoff < r.firedAt → r.firedAt ≤ ts := by
  unfold latest
  rw [List.max?_eq_some_iff]
  simp only [List.mem_map, List.mem_filter, decide_eq_true_eq, and_assoc]
  refine and_congr_right fun _ => ?_
  constructor
  · intro hmax r hr hkey hlt
    exact hmax r.firedAt ⟨r, hr, hkey, hlt, rfl⟩
  · rintro hmax _ ⟨r, hr, hkey, hlt, rfl⟩
    exact hmax r hr hkey hlt

/-- Nothing suppresses where no row of the key is past the cutoff. -/
theorem latest_eq_none_iff :
    latest key cutoff rows = none ↔ ∀ r ∈ rows, r.dedupKey = key → ¬ cutoff < r.firedAt := by
  unfold latest
  rw [List.max?_eq_none_iff, List.map_eq_nil_iff, List.filter_eq_nil_iff]
  simp only [decide_eq_true_eq, not_and]

/-- The cutoff of a firing that a row may suppress. -/
theorem existing_eq_ok (h : cooldown ≠ 0) {found : Option String}
    (hexisting : existing cooldown a rows = .ok found) :
    found = latest a.dedupKey (fmtTs (a.firedAt - heldCooldown cooldown)) rows := by
  unfold existing at hexisting
  rw [if_neg h] at hexisting
  cases hcutoff : Time.subDelta a.firedAt (heldCooldown cooldown) with
  | error e =>
    rw [hcutoff] at hexisting
    cases hexisting
  | ok cutoff =>
    rw [hcutoff] at hexisting
    rcases Time.subDelta_eq_ok_iff.1 hcutoff with ⟨-, rfl⟩
    exact (Except.ok.inj hexisting).symm

/-- What one call answers and writes. -/
theorem insertDedup_cases (cooldown : ℕ) (a : Alert) (rows : List AlertRow) :
    (∃ e, insertDedup cooldown a rows = (.error e, rows)) ∨
    (∃ t, insertDedup cooldown a rows = (.ok (.suppressed t), rows) ∧ cooldown ≠ 0 ∧
      ∃ ts, latest a.dedupKey (fmtTs (a.firedAt - heldCooldown cooldown)) rows = some ts ∧
        parseTs ts = some t) ∨
    (insertDedup cooldown a rows = (.ok .admitted, rows ++ [a.row]) ∧
      (cooldown ≠ 0 →
        latest a.dedupKey (fmtTs (a.firedAt - heldCooldown cooldown)) rows = none)) := by
  cases hexisting : existing cooldown a rows with
  | error e => exact .inl ⟨e, by unfold insertDedup; rw [hexisting]⟩
  | ok found =>
    cases found with
    | some ts =>
      -- a call with no cooldown finds no row
      have hcooldown : cooldown ≠ 0 := by
        rintro rfl
        cases hexisting
      -- the row that was found has to read back
      cases hparse : parseTs ts with
      | none => exact .inl ⟨.unreadable, by unfold insertDedup; simp only [hexisting, hparse]⟩
      | some t =>
        have hcall : insertDedup cooldown a rows = (.ok (.suppressed t), rows) := by
          unfold insertDedup
          simp only [hexisting, hparse]
        have hlatest := (existing_eq_ok hcooldown hexisting).symm
        exact .inr (.inl ⟨t, hcall, hcooldown, ts, hlatest, hparse⟩)
    | none =>
      by_cases hid : a.id ∈ rows.map (·.id)
      · exact .inl ⟨.conflict, by unfold insertDedup; simp only [hexisting, if_pos hid]⟩
      · refine .inr (.inr ⟨by unfold insertDedup; simp only [hexisting, if_neg hid], ?_⟩)
        intro hcooldown
        exact (existing_eq_ok hcooldown hexisting).symm

/-- The text of a cutoff is in the order of instants before every row of a four-digit year. -/
theorem fmtTs_cutoff_lt_iff {t t' : Time} {d : Int} (hd : 0 ≤ d) (ht : FourDigitYear t)
    (ht' : FourDigitYear t') : fmtTs (t - d) < fmtTs t' ↔ t - d < t' := by
  by_cases hcutoff : FourDigitYear (t - d)
  · exact fmtTs_lt_iff hcutoff ht'
  · -- the cutoff is written with a sign: it is before the year 0
    refine iff_of_true (fmtTs_lt_of_sign hcutoff ht') ?_
    by_contra hle
    have hcut : t - d ≤ t := Int.sub_le_self t hd
    exact hcutoff (fourDigitYear_of_between ht' ht (not_lt.1 hle) hcut)

end Calls

/-! ## Histories -/

/-- One call of `insert_alert_dedup`: the alert, and the cooldown in nanoseconds. -/
structure Firing where
  alert : Alert
  cooldown : ℕ

/-- A firing and what it was answered. -/
structure Entry where
  firing : Firing
  answer : Except LedgerError AlertAdmission

/-- The rows of the table, and the calls that led to them. -/
structure Ledger where
  rows : List AlertRow
  log : List Entry

namespace Ledger

def fire (s : Ledger) (f : Firing) : Ledger :=
  let (answer, rows) := insertDedup f.cooldown f.alert s.rows
  ⟨rows, s.log ++ [⟨f, answer⟩]⟩

/-- The calls one after the other, from the empty table. -/
def history (firings : List Firing) : Ledger := firings.foldl fire ⟨[], []⟩

end Ledger

namespace Entry

def firedAt (e : Entry) : Time := e.firing.alert.firedAt

def key (e : Entry) : String := e.firing.alert.dedupKey

/-- The call wrote its row. -/
def Admitted (e : Entry) : Prop := e.answer = .ok .admitted

instance (e : Entry) : Decidable e.Admitted := inferInstanceAs (Decidable (_ = _))

/-- The instant is past the cutoff that the call looks for rows behind. -/
def PastCutoff (e : Entry) (t : Time) : Prop :=
  e.firing.cooldown ≠ 0 ∧ e.firedAt - heldCooldown e.firing.cooldown < t

/-- The instant is inside the cooldown of the call. -/
def InCooldown (e : Entry) (t : Time) : Prop := |e.firedAt - t| < e.firing.cooldown

end Entry

/-- Two admitted calls of one key are as far apart as the cooldown of the second asks for. -/
def KeptApart (asked : ℕ → Int) (log : List Entry) : Prop :=
  log.Pairwise fun x e => x.Admitted → e.Admitted → x.key = e.key →
    asked e.firing.cooldown ≤ |e.firedAt - x.firedAt|

/-- A suppressed call names the row of a call of its key admitted before it, at an instant that is
`near` it. -/
def Justified (near : Entry → Time → Prop) (log : List Entry) : Prop :=
  ∀ earlier e t, earlier ++ [e] <+: log → e.answer = .ok (.suppressed t) →
    ∃ x ∈ earlier, x.Admitted ∧ x.key = e.key ∧ x.firedAt = t ∧ near e t

/-- The rows that a log of calls wrote. -/
def writtenBy (log : List Entry) : List AlertRow :=
  (log.filter fun e => e.Admitted).map fun e => e.firing.alert.row

/-- What every history keeps: the table holds the admitted calls in order, those of one key are
apart, and a call is suppressed by a row past its cutoff. -/
structure Lawful (s : Ledger) : Prop where
  rows_eq : s.rows = writtenBy s.log
  apart : KeptApart heldCooldown s.log
  justified : Justified Entry.PastCutoff s.log

section Histories

variable {log : List Entry} {e : Entry} {s : Ledger} {f : Firing}

theorem keptApart_concat {asked : ℕ → Int} (h : KeptApart asked log)
    (hlast : e.Admitted → ∀ x ∈ log, x.Admitted → x.key = e.key →
      asked e.firing.cooldown ≤ |e.firedAt - x.firedAt|) : KeptApart asked (log ++ [e]) := by
  refine List.pairwise_append.2 ⟨h, List.pairwise_singleton .., ?_⟩
  intro x hx e' he' hadmitted hadmitted' hkey
  cases List.mem_singleton.1 he'
  exact hlast hadmitted' x hx hadmitted hkey

theorem justified_concat {near : Entry → Time → Prop} (h : Justified near log)
    (hlast : ∀ t, e.answer = .ok (.suppressed t) →
      ∃ x ∈ log, x.Admitted ∧ x.key = e.key ∧ x.firedAt = t ∧ near e t) :
    Justified near (log ++ [e]) := by
  intro earlier e' t hprefix hanswer
  rcases List.prefix_concat_iff.1 hprefix with heq | hbefore
  · rcases List.append_inj' heq rfl with ⟨rfl, he⟩
    cases he
    exact hlast t hanswer
  · exact h earlier e' t hbefore hanswer

theorem mem_writtenBy {r : AlertRow} :
    r ∈ writtenBy log ↔ ∃ x ∈ log, x.Admitted ∧ x.firing.alert.row = r := by
  unfold writtenBy
  simp only [List.mem_map, List.mem_filter, decide_eq_true_eq, and_assoc]

theorem writtenBy_concat :
    writtenBy (log ++ [e]) = writtenBy log ++ if e.Admitted then [e.firing.alert.row] else [] := by
  unfold writtenBy
  rw [List.filter_append, List.map_append, List.filter_singleton]
  split_ifs <;> simp_all

/-- A call that writes no row owes the reason of a suppression only. -/
theorem Lawful.unwritten (h : Lawful s) (hnot : ¬ e.Admitted)
    (hlast : ∀ t, e.answer = .ok (.suppressed t) →
      ∃ x ∈ s.log, x.Admitted ∧ x.key = e.key ∧ x.firedAt = t ∧ e.PastCutoff t) :
    Lawful ⟨s.rows, s.log ++ [e]⟩ where
  rows_eq := by
    rw [writtenBy_concat, if_neg hnot, List.append_nil]
    exact h.rows_eq
  apart := keptApart_concat h.apart fun hadmitted => absurd hadmitted hnot
  justified := justified_concat h.justified hlast

/-- The row of an admitted call is in the table. -/
theorem Lawful.row_mem (h : Lawful s) (he : e ∈ s.log) (hadmitted : e.Admitted) :
    e.firing.alert.row ∈ s.rows := by
  rw [h.rows_eq]
  exact mem_writtenBy.2 ⟨e, he, hadmitted, rfl⟩

/-- One call keeps the ledger lawful. -/
theorem Lawful.fire (h : Lawful s) (hyear : FourDigitYear f.alert.firedAt)
    (hyears : ∀ x ∈ s.log, FourDigitYear x.firedAt) : Lawful (s.fire f) := by
  have hcutoff : ∀ x ∈ s.log, fmtTs (f.alert.firedAt - heldCooldown f.cooldown) <
      fmtTs x.firedAt ↔ f.alert.firedAt - heldCooldown f.cooldown < x.firedAt := fun x hx =>
    fmtTs_cutoff_lt_iff (heldCooldown_nonneg f.cooldown) hyear (hyears x hx)
  unfold Ledger.fire
  rcases insertDedup_cases f.cooldown f.alert s.rows with
    ⟨err, hcall⟩ | ⟨t, hcall, hcooldown, ts, hlatest, hparse⟩ | ⟨hcall, hnone⟩
  · -- no decision: nothing is written
    rw [hcall]
    refine h.unwritten ?_ ?_
    · rintro ⟨⟩
    · rintro t ⟨⟩
  · -- suppressed: the latest row of the key past the cutoff is one of the admitted
    rw [hcall]
    refine h.unwritten ?_ ?_
    · rintro ⟨⟩
    · rintro t' ⟨⟩
      rcases latest_eq_some_iff.1 hlatest with ⟨⟨r, hr, hkey, hlt, rfl⟩, -⟩
      rw [h.rows_eq] at hr
      rcases mem_writtenBy.1 hr with ⟨x, hx, hadmitted, rfl⟩
      -- a four-digit year reads back, so the answer is the instant of that row
      have hread : parseTs (fmtTs x.firedAt) = some x.firedAt := by
        rw [parseTs_fmtTs, if_pos (hyears x hx)]
      have ht : x.firedAt = t := Option.some.inj (hread.symm.trans hparse)
      exact ⟨x, hx, hadmitted, hkey, ht, hcooldown, ht ▸ (hcutoff x hx).1 hlt⟩
  · -- admitted: no row of the key is past the cutoff
    rw [hcall]
    refine ⟨?_, keptApart_concat h.apart ?_, justified_concat h.justified ?_⟩
    · have hadmitted : (⟨f, .ok .admitted⟩ : Entry).Admitted := rfl
      rw [writtenBy_concat, if_pos hadmitted, h.rows_eq]
    · intro _ x hx hadmitted hkey
      by_cases hcooldown : f.cooldown = 0
      · -- no cooldown asks for no distance
        have hzero : heldCooldown f.cooldown = 0 := by rw [hcooldown]; rfl
        exact hzero.le.trans (abs_nonneg _)
      · have hnot := latest_eq_none_iff.1 (hnone hcooldown) _ (h.row_mem hx hadmitted) hkey
        have hle : x.firedAt ≤ f.alert.firedAt - heldCooldown f.cooldown :=
          not_lt.1 fun hlt => hnot ((hcutoff x hx).2 hlt)
        have hgap := Int.sub_le_sub_left hle f.alert.firedAt
        rw [Int.sub_sub_self] at hgap
        exact hgap.trans (le_abs_self _)
    · rintro t ⟨⟩

theorem fire_log (s : Ledger) (f : Firing) :
    ∃ answer, (s.fire f).log = s.log ++ [⟨f, answer⟩] := ⟨_, rfl⟩

theorem foldl_lawful (firings : List Firing) (h : Lawful s)
    (hlog : ∀ x ∈ s.log, FourDigitYear x.firedAt)
    (hyears : ∀ f ∈ firings, FourDigitYear f.alert.firedAt) :
    Lawful (firings.foldl Ledger.fire s) := by
  induction firings generalizing s with
  | nil => exact h
  | cons f firings ih =>
    rcases List.forall_mem_cons.1 hyears with ⟨hyear, hyears⟩
    refine ih (h.fire hyear hlog) ?_ hyears
    intro x hx
    rcases fire_log s f with ⟨answer, hlog'⟩
    rw [hlog'] at hx
    rcases List.mem_append.1 hx with hx | hx
    · exact hlog x hx
    · cases List.mem_singleton.1 hx
      exact hyear

theorem lawful_empty : Lawful ⟨[], []⟩ := by
  refine ⟨rfl, List.Pairwise.nil, ?_⟩
  intro earlier e t hprefix
  exact absurd (List.prefix_nil.1 hprefix) (by simp)

theorem foldl_log (firings : List Firing) (s : Ledger) :
    (firings.foldl Ledger.fire s).log.map (·.firing) = s.log.map (·.firing) ++ firings := by
  induction firings generalizing s with
  | nil => exact (List.append_nil _).symm
  | cons f firings ih =>
    rcases fire_log s f with ⟨answer, hlog⟩
    rw [List.foldl_cons, ih, hlog, List.map_append, List.append_assoc]
    rfl

/-- Where the alerts arrive in the order in which they fired, a call is suppressed inside its
cooldown only. -/
theorem history_in_order (firings : List Firing)
    (hyears : ∀ f ∈ firings, FourDigitYear f.alert.firedAt)
    (hheld : ∀ f ∈ firings, heldCooldown f.cooldown = f.cooldown)
    (horder : firings.Pairwise fun f f' => f.alert.firedAt ≤ f'.alert.firedAt) :
    KeptApart (fun cooldown => cooldown) (Ledger.history firings).log ∧
      Justified Entry.InCooldown (Ledger.history firings).log := by
  have hlaw : Lawful (Ledger.history firings) :=
    foldl_lawful firings lawful_empty (by simp) hyears
  have hlog : (Ledger.history firings).log.map (·.firing) = firings := foldl_log firings ⟨[], []⟩
  have hmem : ∀ e ∈ (Ledger.history firings).log,
      heldCooldown e.firing.cooldown = e.firing.cooldown := by
    intro e he
    exact hheld _ (hlog ▸ List.mem_map_of_mem he)
  rw [← hlog, List.pairwise_map] at horder
  constructor
  · refine hlaw.apart.imp_of_mem ?_
    intro x e _ he hapart hx hadmitted hkey
    exact (hmem e he).symm.le.trans (hapart hx hadmitted hkey)
  · intro earlier e t hprefix hanswer
    rcases hlaw.justified earlier e t hprefix hanswer with ⟨x, hx, hadmitted, hkey, rfl, -, hpast⟩
    have he : e ∈ (Ledger.history firings).log := hprefix.subset (by simp)
    rw [hmem e he] at hpast
    -- what was admitted before did not fire later
    have hle : x.firedAt ≤ e.firedAt := by
      have hpairs := List.pairwise_append.1 (horder.sublist hprefix.sublist)
      exact hpairs.2.2 x hx e (List.mem_singleton_self e)
    refine ⟨x, hx, hadmitted, hkey, rfl, ?_⟩
    have hgap : (0 : Int) ≤ e.firedAt - x.firedAt := Int.sub_nonneg.2 hle
    unfold Entry.InCooldown
    rw [abs_of_nonneg hgap]
    exact sub_lt_comm.1 hpast

end Histories

/-! ## Samples -/

/-- A breach of one cap, `t` after the epoch. -/
def breach (id : String) (t : Time) : Alert :=
  ⟨id, none, .limitBreach, "cap", .critical, .null, t⟩

/-- The answers to two calls on the empty table. -/
theorem history_pair (f f' : Firing) :
    ∃ rows, rows = (insertDedup f.cooldown f.alert []).2 ∧
      (Ledger.history [f, f']).log =
        [⟨f, (insertDedup f.cooldown f.alert []).1⟩,
          ⟨f', (insertDedup f'.cooldown f'.alert rows).1⟩] := ⟨_, rfl, rfl⟩

/-- Two calls of one key that are admitted too close to each other. -/
theorem not_keptApart_pair {f f' : Firing}
    (hanswer : (insertDedup f.cooldown f.alert []).1 = .ok .admitted)
    (hanswer' : (insertDedup f'.cooldown f'.alert (insertDedup f.cooldown f.alert []).2).1 =
      .ok .admitted)
    (hkey : f.alert.dedupKey = f'.alert.dedupKey)
    (hclose : |f'.alert.firedAt - f.alert.firedAt| < f'.cooldown) :
    ¬ KeptApart (fun cooldown => cooldown) (Ledger.history [f, f']).log := by
  rcases history_pair f f' with ⟨_, rfl, hlog⟩
  rw [hlog, hanswer, hanswer']
  intro hapart
  have hle := List.rel_of_pairwise_cons hapart (List.mem_singleton_self _) rfl rfl hkey
  exact absurd hle (not_le.2 hclose)

end LightTrack.Alerts
