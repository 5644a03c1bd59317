import LightTrack.Api.Ingest
import LightTrack.Store.Retain

/-! # Replays

A request that was accepted once with its own id and timestamp leaves a row behind, and no call
removes the row or rewrites what identifies it.  A later submission finds it.

* `Accepted.records` : an accepted request is recorded, through either door,
* `Service.records_exec` : whatever happens to the service, it stays recorded,
* `replay_acknowledged_run` : a submission that passes the door and the limits in force is
  acknowledged as a duplicate, and nothing is counted again,
* `replay_refused_by_skew` : a late submission does not pass the door.
-/

namespace LightTrack

/-! ## What the door keeps -/

/-- A request that names its event's id and timestamp itself. -/
def IngestRequest.NamesItself (req : IngestRequest) : Prop :=
  (∃ id, req.body.id = some id ∧ isBlank id = false) ∧ req.body.ts.isSome = true

/-- The call a request that names itself is about, in project `pid`. -/
def IngestRequest.callKey (req : IngestRequest) (pid : String) : CallKey where
  id := req.body.id.getD ""
  projectId := pid
  ts := req.body.ts.getD 0
  provider := req.body.provider
  model := req.body.model
  input := req.body.usage.input
  output := req.body.usage.output

section door

variable {env env' : IngestEnv} {r r' : Readings} {req : IngestRequest} {ev ev' : LlmEvent}

/-- The two doors let the same events through. -/
theorem batchDoor_eq_ok_iff : batchDoor env r req = .ok ev ↔ ingestDoor env r req = .ok ev := by
  unfold batchDoor ingestDoor
  cases resolveIngestProject req.principal req.body.projectId with
  | error e => simp
  | ok pid => exact Iff.rfl

/-- The door fixes the project from the principal and the body, and the rest of the call from the
body alone. -/
theorem ingestDoor_callKey (h : ingestDoor env r req = .ok ev) (hreq : req.NamesItself) :
    ∃ pid, resolveIngestProject req.principal req.body.projectId = .ok pid ∧
      ev.callKey = req.callKey pid := by
  unfold ingestDoor at h
  cases hproject : resolveIngestProject req.principal req.body.projectId with
  | error e =>
    rw [hproject] at h
    cases h
  | ok pid =>
    rw [hproject] at h
    simp only [prepareFor] at h
    split_ifs at h with henabled
    refine ⟨pid, rfl, ?_⟩
    rcases hreq with ⟨⟨id, hid, hblank⟩, hts⟩
    rcases Option.isSome_iff_exists.1 hts with ⟨ts, hts⟩
    obtain ⟨hpid, hpproject, hpts, -, hpprovider, hpmodel, hpusage⟩ := prepareEvent_call h
    unfold LlmEvent.callKey IngestRequest.callKey
    rw [hpid, hpproject, hpts, hpprovider, hpmodel, hpusage]
    simp [IngestBody.toEvent, hid, hts, hblank]

/-- Two submissions of a request that names itself are about one call, whenever they pass the
door. -/
theorem ingestDoor_sameCall (h : ingestDoor env r req = .ok ev)
    (h' : ingestDoor env' r' req = .ok ev') (hreq : req.NamesItself) : ev.callKey = ev'.callKey := by
  rcases ingestDoor_callKey h hreq with ⟨pid, hpid, hkey⟩
  rcases ingestDoor_callKey h' hreq with ⟨pid', hpid', hkey'⟩
  rw [hpid] at hpid'
  rw [hkey, hkey', Except.ok.inj hpid']

end door

/-- A stored event is the incoming one exactly when both are about one call. -/
theorem sameLogicalEvent_iff {stored incoming : LlmEvent} (hid : stored.id = incoming.id) :
    sameLogicalEvent stored incoming = true ↔ stored.callKey = incoming.callKey := by
  unfold sameLogicalEvent LlmEvent.callKey
  simp [hid, and_assoc]

/-- A replay is recognised exactly when its call is recorded. -/
theorem replayOf_isSome_iff {t : EventTable} {ev : LlmEvent} :
    (∃ stored, replayOf t ev = some stored) ↔ t.Records ev.callKey := by
  constructor
  · rintro ⟨stored, h⟩
    rcases Option.filter_eq_some_iff.1 h with ⟨hget, hsame⟩
    rcases EventTable.records_of_get hget with ⟨hrec, hid⟩
    rw [← (sameLogicalEvent_iff hid).1 hsame]
    exact hrec
  · intro h
    rcases h.get with ⟨stored, hget, hkey⟩
    refine ⟨stored, Option.filter_eq_some_iff.2 ⟨hget, ?_⟩⟩
    exact (sameLogicalEvent_iff (congrArg CallKey.id hkey)).2 hkey

theorem replayOf_callKey {t : EventTable} {ev stored : LlmEvent} (h : replayOf t ev = some stored) :
    stored.callKey = ev.callKey := by
  rcases Option.filter_eq_some_iff.1 h with ⟨hget, hsame⟩
  exact (sameLogicalEvent_iff (EventTable.records_of_get hget).2).1 hsame

/-! ## The answers of a batch -/

theorem batchAnswer_accepted {t : EventTable} {i j : ℕ} {ev : LlmEvent} {r : Readings}
    {admission : Except StoreError Admission} {l : RejectionLedger} {id : String} {cost : Option ℚ}
    {dup : Bool} {breached : List LimitStatus}
    (h : (batchAnswer t j ev r admission l).1 = .accepted i id cost dup breached) :
    i = j ∧ ((∃ a, admission = .ok a ∧ a.admitted = true) ∨
      ∃ stored, replayOf t ev = some stored) := by
  unfold batchAnswer at h
  cases admission with
  | ok a =>
    simp only at h
    split_ifs at h with hadm
    exact ⟨(BatchItem.accepted.inj h).1.symm, .inl ⟨a, rfl, hadm⟩⟩
  | error e =>
    cases e with
    | conflict message =>
      simp only at h
      split at h
      next stored hstored =>
        exact ⟨(BatchItem.accepted.inj h).1.symm, .inr ⟨stored, hstored⟩⟩
      next => cases h
    | _ => cases h

/-- An accepted item was let in by the store, or repeats a recorded call. -/
theorem batchAnswers_accepted {t : EventTable} {i : ℕ} {id : String} {cost : Option ℚ} {dup : Bool}
    {breached : List LimitStatus}
    (prepared : List ((ℕ × BatchEntry) × Except Rejection LlmEvent))
    (admissions : List (Except StoreError Admission)) (l : RejectionLedger) (p : Proximity)
    (h : .accepted i id cost dup breached ∈ (batchAnswers t prepared admissions l p).1) :
    ∃ e ev, ((i, e), .ok ev) ∈ prepared ∧
      ((∃ a, ((e.readings.stored, ev), .ok a) ∈ (validItems prepared).zip admissions ∧
          a.admitted = true) ∨
        ∃ stored, replayOf t ev = some stored) := by
  fun_induction batchAnswers t prepared admissions l p with
  | case1 admissions l p => exact absurd h List.not_mem_nil
  -- an item the door rejected has no admission
  | case2 i' e' r items admissions l p rest l' p' hrec ih =>
    rw [hrec] at ih
    rcases List.mem_cons.1 h with hhead | hrest
    · cases hhead
    · obtain ⟨e, ev, hmem, hcase⟩ := ih hrest
      exact ⟨e, ev, List.mem_cons_of_mem _ hmem, hcase⟩
  -- an item the door let in takes the next admission
  | case3 i' e' ev' items admission admissions l p item l₁ q hitem rest l₂ p₂ hrec ih =>
    rw [hrec] at ih
    rcases List.mem_cons.1 h with hhead | hrest
    · have hanswer : (batchAnswer t i' ev' e'.readings admission l).1 =
          .accepted i id cost dup breached := by rw [hitem, hhead]
      obtain ⟨rfl, hcase⟩ := batchAnswer_accepted hanswer
      refine ⟨e', ev', List.mem_cons_self .., ?_⟩
      rcases hcase with ⟨a, rfl, hadm⟩ | hreplay
      · exact .inl ⟨a, List.mem_cons_self .., hadm⟩
      · exact .inr hreplay
    · obtain ⟨e, ev, hmem, hcase⟩ := ih hrest
      refine ⟨e, ev, List.mem_cons_of_mem _ hmem, ?_⟩
      rcases hcase with ⟨a, hzip, hadm⟩ | hreplay
      · exact .inl ⟨a, List.mem_cons_of_mem _ hzip, hadm⟩
      · exact .inr hreplay
  | case4 e' ev' items l p ih =>
    obtain ⟨e, ev, hmem, hcase⟩ := ih h
    refine ⟨e, ev, List.mem_cons_of_mem _ hmem, ?_⟩
    rcases hcase with ⟨a, hzip, hadm⟩ | hreplay
    · simp at hzip
    · exact .inr hreplay

/-! ## Accepted requests -/

/-- Handling `op` in `s` accepted `req`, at one of the doors. -/
inductive Accepted (req : IngestRequest) (s : Service) : ServiceOp → Prop
  | single {env : IngestEnv} {r : Readings} {resp : IngestResponse} :
      (postEvent env r req s).1 = .ok resp → Accepted req s (.postEvent env r req)
  | batch {env : IngestEnv} {entries : List BatchEntry} {tx : BatchTx} {items : List BatchItem}
      {p : Proximity} {i : ℕ} {e : BatchEntry} {id : String} {cost : Option ℚ} {dup : Bool}
      {breached : List LimitStatus} :
      (postBatch env req.principal entries tx s).1 = .ok (items, p) →
        entries[i]? = some e → e.body = req.body →
        .accepted i id cost dup breached ∈ items →
        Accepted req s (.postBatch env req.principal entries tx)

/-- `req` was accepted once on the way to `s`. -/
def AcceptedBefore (req : IngestRequest) (s : Service) : Prop :=
  ∃ op s₁ ls, Accepted req s₁ op ∧ Sys.Run Service.Step (Service.exec op s₁) ls s

section single

variable {env : IngestEnv} {r : Readings} {req : IngestRequest} {s : Service} {ev : LlmEvent}

theorem postEvent_of_refused {e : Rejection} (h : ingestDoor env r req = .error e) :
    postEvent env r req s = (.error (.refused e), s) := by
  unfold postEvent
  rw [h]

/-- The store a single event leaves is that of its checked insert. -/
theorem postEvent_store (h : ingestDoor env r req = .ok ev) :
    (postEvent env r req s).2.store = (s.store.insertEventChecked r.stored ev).2 := by
  unfold postEvent
  rw [h]
  simp only
  split
  next hres => rw [hres]
  next hres => rw [hres]
  next hres => rw [hres]

/-- An acknowledged event was let in by the store, or repeats a recorded call. -/
theorem postEvent_acknowledged {resp : IngestResponse} (h : ingestDoor env r req = .ok ev)
    (hok : (postEvent env r req s).1 = .ok resp) :
    (∃ a, (s.store.insertEventChecked r.stored ev).1 = .ok a ∧ a.admitted = true) ∨
      ∃ stored, replayOf (s.store.insertEventChecked r.stored ev).2.events ev = some stored := by
  unfold postEvent at hok
  rw [h] at hok
  simp only at hok
  split at hok
  next hres =>
    split at hok
    next stored hstored =>
      right
      rw [hres]
      exact ⟨stored, hstored⟩
    next => cases hok
  next => cases hok
  next a store hres =>
    simp only at hok
    split_ifs at hok with hadm
    left
    rw [hres]
    exact ⟨a, rfl, hadm⟩

end single

section batch

variable {env : IngestEnv} {principal : Principal} {entries : List BatchEntry}

theorem mem_prepareBatch {i : ℕ} {e : BatchEntry} {res : Except Rejection LlmEvent} :
    ((i, e), res) ∈ prepareBatch env principal entries ↔
      entries[i]? = some e ∧
        res = batchDoor env e.readings { principal, body := e.body } := by
  unfold prepareBatch
  simp only [List.mem_map, Prod.mk.injEq, Prod.exists, List.mem_zipIdx_iff_getElem?]
  constructor
  · rintro ⟨e', i', hget, ⟨rfl, rfl⟩, rfl⟩
    exact ⟨hget, rfl⟩
  · rintro ⟨hget, rfl⟩
    exact ⟨e, i, hget, ⟨rfl, rfl⟩, rfl⟩

/-- The batch door is open to the request as a whole. -/
structure BatchOpen (env : IngestEnv) (principal : Principal) (entries : List BatchEntry) :
    Prop where
  scope : ensureScope principal .ingest = .ok ()
  nonempty : entries.isEmpty = false
  bounded : entries.length ≤ env.maxBatch

/-- What the store does with the valid items of a batch. -/
def batchStore (env : IngestEnv) (principal : Principal) (entries : List BatchEntry) (tx : BatchTx)
    (s : Service) : List (Except StoreError Admission) × SqliteStore :=
  if (validItems (prepareBatch env principal entries)).isEmpty then ([], s.store)
  else s.store.insertEventsChecked (validItems (prepareBatch env principal entries)) tx

theorem postBatch_of_open (h : BatchOpen env principal entries) {tx : BatchTx} {s : Service}
    {admissions : List (Except StoreError Admission)} {store : SqliteStore}
    {items : List BatchItem} {l : RejectionLedger} {p : Proximity}
    (hstore : batchStore env principal entries tx s = (admissions, store))
    (hanswers : batchAnswers store.events (prepareBatch env principal entries) admissions
      s.rejections {} = (items, l, p)) :
    postBatch env principal entries tx s = (.ok (items, p), { store, rejections := l }) := by
  unfold batchStore at hstore
  unfold postBatch
  rw [h.scope]
  simp only [h.nonempty, Nat.not_lt.2 h.bounded, Bool.false_eq_true, if_false, hstore, hanswers]

/-- A batch is refused whole, and then nothing happens, or the door is open to it. -/
theorem postBatch_cases (env : IngestEnv) (principal : Principal) (entries : List BatchEntry)
    (tx : BatchTx) (s : Service) :
    (∃ e, postBatch env principal entries tx s = (.error e, s)) ∨
      BatchOpen env principal entries := by
  unfold postBatch
  cases hscope : ensureScope principal .ingest with
  | error e => exact .inl ⟨e, rfl⟩
  | ok u =>
    simp only
    split_ifs with hempty hlen
    · exact .inl ⟨_, rfl⟩
    · exact .inl ⟨_, rfl⟩
    · exact .inr ⟨hscope, by simpa using hempty, Nat.not_lt.1 hlen⟩
    · exact .inr ⟨hscope, by simpa using hempty, Nat.not_lt.1 hlen⟩

/-- The store answers every valid item. -/
theorem length_batchStore {tx : BatchTx} {s : Service} :
    (batchStore env principal entries tx s).1.length =
      (validItems (prepareBatch env principal entries)).length := by
  unfold batchStore
  split_ifs with hempty
  · rw [List.isEmpty_iff.1 hempty]
    rfl
  · rcases s.store.insertEventsChecked_cases (validItems (prepareBatch env principal entries)) tx
      with heq | ⟨-, message, hlost⟩
    · rw [heq]
      exact SqliteStore.length_insertEach _ _
    · rw [hlost]
      exact List.length_map _

theorem batchStore_records {k : CallKey} {tx : BatchTx} {s : Service}
    (h : s.store.events.Records k) :
    (batchStore env principal entries tx s).2.events.Records k := by
  unfold batchStore
  split_ifs
  · exact h
  · exact SqliteStore.records_insertEventsChecked _ tx h

/-- An item the store let in is recorded, as a batch that is lost lets nothing in. -/
theorem batchStore_recorded {tx : BatchTx} {s : Service} {item : Time × LlmEvent} {a : Admission}
    (h : (item, .ok a) ∈ (validItems (prepareBatch env principal entries)).zip
      (batchStore env principal entries tx s).1) (hadm : a.admitted = true) :
    (batchStore env principal entries tx s).2.events.Records item.2.callKey := by
  unfold batchStore at h ⊢
  split_ifs at h ⊢ with hempty
  · simp at h
  · rcases s.store.insertEventsChecked_cases (validItems (prepareBatch env principal entries)) tx
      with heq | ⟨-, message, hlost⟩
    · rw [heq] at h ⊢
      exact SqliteStore.insertEach_records h hadm
    · rw [hlost] at h
      rcases List.mem_map.1 (List.of_mem_zip h).2 with ⟨x, -, hx⟩
      cases hx

end batch

/-- An accepted request is recorded, through either door. -/
theorem Accepted.records {req : IngestRequest} {s : Service} {op : ServiceOp}
    (h : Accepted req s op) :
    ∃ env r ev, ingestDoor env r req = .ok ev ∧ (s.exec op).store.events.Records ev.callKey := by
  cases h with
  | @single env r resp hok =>
    show ∃ env' r' ev, ingestDoor env' r' req = .ok ev ∧
      (postEvent env r req s).2.store.events.Records ev.callKey
    cases hdoor : ingestDoor env r req with
    | error e =>
      rw [postEvent_of_refused hdoor] at hok
      cases hok
    | ok ev =>
      refine ⟨env, r, ev, hdoor, ?_⟩
      rw [postEvent_store hdoor]
      -- accepted now, or a replay of what is recorded already
      rcases postEvent_acknowledged hdoor hok with ⟨a, hres, hadm⟩ | hreplay
      · exact SqliteStore.records_of_insertEventChecked hres hadm
      · exact replayOf_isSome_iff.1 hreplay
  | @batch env entries tx items p i e id cost dup breached hres hentry hbody hitem =>
    show ∃ env' r' ev, ingestDoor env' r' req = .ok ev ∧
      (postBatch env req.principal entries tx s).2.store.events.Records ev.callKey
    rcases postBatch_cases env req.principal entries tx s with ⟨e', hrefused⟩ | hopen
    · rw [hrefused] at hres
      cases hres
    · cases hstore : batchStore env req.principal entries tx s with | mk admissions store =>
      cases hanswers : batchAnswers store.events (prepareBatch env req.principal entries) admissions
        s.rejections {} with | mk items' rest =>
      rw [postBatch_of_open hopen hstore hanswers] at hres ⊢
      have hitems : items' = items := congrArg Prod.fst (Except.ok.inj hres)
      have hitem' : BatchItem.accepted i id cost dup breached ∈
          (batchAnswers store.events (prepareBatch env req.principal entries) admissions
            s.rejections {}).1 := by
        rw [hanswers, hitems]
        exact hitem
      -- the answer tells which item of the batch it was
      rcases batchAnswers_accepted _ _ _ _ hitem' with ⟨e', ev, hmem, hcase⟩
      rcases mem_prepareBatch.1 hmem with ⟨hentry', hdoor⟩
      have he : e' = e := Option.some.inj (hentry'.symm.trans hentry)
      rw [he, hbody] at hdoor
      refine ⟨env, e.readings, ev, batchDoor_eq_ok_iff.1 hdoor.symm, ?_⟩
      rcases hcase with ⟨a, hzip, hadm⟩ | hreplay
      · have hzip' : ((e'.readings.stored, ev), .ok a) ∈
            (validItems (prepareBatch env req.principal entries)).zip
              (batchStore env req.principal entries tx s).1 := by
          rw [hstore]
          exact hzip
        have hrec := batchStore_recorded hzip' hadm
        rwa [hstore] at hrec
      · exact replayOf_isSome_iff.1 hreplay

/-- Whatever happens to the service, a recorded call stays recorded. -/
theorem Service.records_exec {s : Service} {k : CallKey} (op : ServiceOp)
    (h : s.store.events.Records k) : (s.exec op).store.events.Records k := by
  cases op with
  | postEvent env r req =>
    show (LightTrack.postEvent env r req s).2.store.events.Records k
    cases hdoor : ingestDoor env r req with
    | error e =>
      rw [postEvent_of_refused hdoor]
      exact h
    | ok ev =>
      rw [postEvent_store hdoor]
      exact SqliteStore.records_insertEventChecked h
  | postBatch env principal entries tx =>
    show (LightTrack.postBatch env principal entries tx s).2.store.events.Records k
    rcases postBatch_cases env principal entries tx s with ⟨e, hrefused⟩ | hopen
    · rw [hrefused]
      exact h
    · have hrec : (batchStore env principal entries tx s).2.events.Records k := batchStore_records h
      cases hstore : batchStore env principal entries tx s with | mk admissions store =>
      cases hanswers : batchAnswers store.events (prepareBatch env principal entries) admissions
        s.rejections {} with | mk items rest =>
      rw [postBatch_of_open hopen hstore hanswers]
      rwa [hstore] at hrec
  | store now op => exact SqliteStore.records_exec now op h

/-- A request that names itself and was accepted before is recorded, as any door would have it. -/
theorem AcceptedBefore.records {env : IngestEnv} {r : Readings} {req : IngestRequest} {s : Service}
    {ev : LlmEvent} (h : AcceptedBefore req s) (hreq : req.NamesItself)
    (hdoor : ingestDoor env r req = .ok ev) : s.store.events.Records ev.callKey := by
  rcases h with ⟨op, s₁, ls, hacc, hrun⟩
  rcases hacc.records with ⟨env₀, r₀, ev₀, hdoor₀, hrec⟩
  rw [ingestDoor_sameCall hdoor hdoor₀ hreq]
  refine hrun.invariant (I := fun s => s.store.events.Records ev₀.callKey) hrec ?_
  rintro a op' b rfl hrec'
  exact Service.records_exec op' hrec'

/-! ## The answer to a replay -/

/-- The event of a request that names itself carries the request's id and timestamp. -/
theorem ingestDoor_named {env : IngestEnv} {r : Readings} {req : IngestRequest} {ev : LlmEvent}
    (h : ingestDoor env r req = .ok ev) (hreq : req.NamesItself) :
    req.body.id = some ev.id ∧ req.body.ts = some ev.ts := by
  rcases ingestDoor_callKey h hreq with ⟨pid, -, hkey⟩
  rcases hreq with ⟨⟨id, hid, -⟩, hts⟩
  rcases Option.isSome_iff_exists.1 hts with ⟨ts, hts⟩
  have hevId : ev.id = req.body.id.getD "" := congrArg CallKey.id hkey
  have hevTs : ev.ts = req.body.ts.getD 0 := congrArg CallKey.ts hkey
  rw [hevId, hevTs, hid, hts]
  exact ⟨rfl, rfl⟩

/-- A recorded call that passes the door and the limits is acknowledged as a duplicate, and only
the usage cache may have loaded meanwhile. -/
theorem postEvent_of_recorded {env : IngestEnv} {r : Readings} {req : IngestRequest} {s : Service}
    {ev : LlmEvent} (hdoor : ingestDoor env r req = .ok ev)
    (hrec : s.store.events.Records ev.callKey) (hadm : s.store.Admits r.stored ev) :
    ∃ resp cache,
      postEvent env r req s = (.ok resp, { s with store := { s.store with cache } }) ∧
        resp.id = ev.id ∧ resp.ts = ev.ts ∧ resp.duplicate = true := by
  rcases SqliteStore.insertEventChecked_of_taken hrec.hasId hadm with ⟨⟨message, hres⟩, hsame⟩
  have hconfig := s.store.insertEventChecked_config r.stored ev
  rw [hsame] at hconfig
  rcases replayOf_isSome_iff.2 hrec with ⟨stored, hstored⟩
  have hts : stored.ts = ev.ts := congrArg CallKey.ts (replayOf_callKey hstored)
  have hpair : s.store.insertEventChecked r.stored ev =
      (.error (.conflict message),
        { s.store with cache := (s.store.insertEventChecked r.stored ev).2.cache }) :=
    Prod.ext hres hconfig
  unfold postEvent
  rw [hdoor]
  simp only
  rw [hpair]
  simp only [hstored]
  exact ⟨_, _, rfl, rfl, hts, rfl⟩

theorem validItems_append (prepared prepared' : List ((ℕ × BatchEntry) × Except Rejection LlmEvent)) :
    validItems (prepared ++ prepared') = validItems prepared ++ validItems prepared' :=
  List.filterMap_append

/-- Item by item, the answers of a batch are those to the store's. -/
theorem batchAnswers_getElem (t : EventTable) (i : ℕ) (e : BatchEntry) (ev : LlmEvent)
    (admission : Except StoreError Admission)
    (pre post : List ((ℕ × BatchEntry) × Except Rejection LlmEvent))
    (before after : List (Except StoreError Admission))
    (hlen : before.length = (validItems pre).length) (l : RejectionLedger) (p : Proximity) :
    ∃ l', (batchAnswers t (pre ++ ((i, e), .ok ev) :: post) (before ++ admission :: after) l
      p).1[pre.length]? = some (batchAnswer t i ev e.readings admission l').1 := by
  induction pre generalizing before l p with
  | nil =>
    rw [List.length_eq_zero_iff.1 hlen]
    exact ⟨l, rfl⟩
  | cons x pre ih =>
    rcases x with ⟨⟨i', e'⟩, res⟩
    cases res with
    | error r => exact ih before hlen l p
    | ok ev' =>
      cases before with
      | nil => simp [validItems] at hlen
      | cons first before =>
        exact ih before (by simpa [validItems] using hlen) _ _

/-- Answers that let nothing in and turn nothing away leave the ledger alone. -/
theorem batchAnswers_ledger {t : EventTable}
    (prepared : List ((ℕ × BatchEntry) × Except Rejection LlmEvent))
    (admissions : List (Except StoreError Admission)) (l : RejectionLedger) (p : Proximity)
    (h : ∀ res ∈ admissions, ∃ message, res = .error (.conflict message)) :
    (batchAnswers t prepared admissions l p).2.1 = l := by
  fun_induction batchAnswers t prepared admissions l p with
  | case1 admissions l p => rfl
  | case2 i' e' r items admissions l p rest l' p' hrec ih =>
    rw [hrec] at ih
    exact ih h
  | case3 i' e' ev' items admission admissions l p item l₁ q hitem rest l₂ p₂ hrec ih =>
    rw [hrec] at ih
    rcases h admission (List.mem_cons_self ..) with ⟨message, rfl⟩
    have hl : l₁ = l := by
      unfold batchAnswer at hitem
      simp only at hitem
      split at hitem
      · exact (congrArg (fun x => x.2.1) hitem).symm
      · exact (congrArg (fun x => x.2.1) hitem).symm
    exact (ih fun res hres => h res (List.mem_cons_of_mem _ hres)).trans hl
  | case4 e' ev' items l p ih => exact ih h

/-! ## Batches of replays -/

/-- The store as the items of a committed batch before item `i` leave it. -/
def storeBefore (env : IngestEnv) (principal : Principal) (entries : List BatchEntry) (s : Service)
    (i : ℕ) : SqliteStore :=
  (s.store.insertEach (validItems ((prepareBatch env principal entries).take i))).2

/-- Item `i` of a batch repeats a request that was accepted before, and passes the door and the
limits in force when its turn comes. -/
structure ReplaysAt (env : IngestEnv) (principal : Principal) (entries : List BatchEntry)
    (s : Service) (i : ℕ) (e : BatchEntry) (ev : LlmEvent) : Prop where
  acceptedBefore : AcceptedBefore { principal, body := e.body } s
  namesItself : ({ principal, body := e.body } : IngestRequest).NamesItself
  door : batchDoor env e.readings { principal, body := e.body } = .ok ev
  admits : (storeBefore env principal entries s i).Admits e.readings.stored ev

section replays

variable {env : IngestEnv} {principal : Principal} {entries : List BatchEntry} {s : Service}
  {i : ℕ} {e : BatchEntry} {ev : LlmEvent}

theorem ReplaysAt.records (h : ReplaysAt env principal entries s i e ev) :
    s.store.events.Records ev.callKey :=
  h.acceptedBefore.records h.namesItself (batchDoor_eq_ok_iff.1 h.door)

theorem batchStore_committed (env : IngestEnv) (principal : Principal) (entries : List BatchEntry)
    (s : Service) :
    batchStore env principal entries (.ends (.ok ())) s =
      s.store.insertEach (validItems (prepareBatch env principal entries)) := by
  unfold batchStore
  split_ifs with hempty
  · rw [List.isEmpty_iff.1 hempty]
    rfl
  · exact insertEventsChecked_eq_insertEach _ _

theorem prepareBatch_split (env : IngestEnv) (principal : Principal) (h : entries[i]? = some e) :
    ∃ post, prepareBatch env principal entries =
      (prepareBatch env principal entries).take i ++
        ((i, e), batchDoor env e.readings { principal, body := e.body }) :: post := by
  have hget : (prepareBatch env principal entries)[i]? =
      some ((i, e), batchDoor env e.readings { principal, body := e.body }) := by
    simp [prepareBatch, List.getElem?_zipIdx, h]
  rcases List.getElem?_eq_some_iff.1 hget with ⟨hlt, heq⟩
  refine ⟨(prepareBatch env principal entries).drop (i + 1), ?_⟩
  rw [← heq, ← List.drop_eq_getElem_cons hlt, List.take_append_drop]

/-- An item that replays is acknowledged, whatever else the batch holds. -/
theorem ReplaysAt.answer {t : EventTable} (h : ReplaysAt env principal entries s i e ev)
    (hentry : entries[i]? = some e) (hkeep : t.Records ev.callKey) :
    ∃ cost, (batchAnswers t (prepareBatch env principal entries)
      (s.store.insertEach (validItems (prepareBatch env principal entries))).1 s.rejections
        {}).1[i]? = some (.accepted i ev.id cost true []) := by
  rcases prepareBatch_split env principal hentry with ⟨post, hsplit⟩
  have hlen : ((prepareBatch env principal entries).take i).length = i := by
    have hlt : i < entries.length := (List.getElem?_eq_some_iff.1 hentry).1
    simp [prepareBatch, Nat.le_of_lt hlt]
  have hrec : (storeBefore env principal entries s i).events.Records ev.callKey :=
    SqliteStore.records_insertEach _ h.records
  rcases SqliteStore.insertEventChecked_of_taken hrec.hasId h.admits with ⟨⟨message, hres⟩, -⟩
  rcases replayOf_isSome_iff.2 hkeep with ⟨stored, hstored⟩
  rw [h.door] at hsplit
  generalize hpre : (prepareBatch env principal entries).take i = pre at hsplit hlen
  -- the store answers the items before, this one, and the rest, in that order
  have hvalid : validItems (prepareBatch env principal entries) =
      validItems pre ++ (e.readings.stored, ev) :: validItems post := by
    rw [hsplit, validItems_append]
    rfl
  have hanswers := batchAnswers_getElem t i e ev (.error (.conflict message)) pre post
    (s.store.insertEach (validItems pre)).1
    (((s.store.insertEach (validItems pre)).2.insertEventChecked e.readings.stored ev).2.insertEach
      (validItems post)).1 (SqliteStore.length_insertEach _ _) s.rejections {}
  have hbefore : storeBefore env principal entries s i =
      (s.store.insertEach (validItems pre)).2 := by rw [storeBefore, hpre]
  rw [hbefore] at hres
  rw [hvalid, SqliteStore.insertEach_append, SqliteStore.insertEach_cons, hsplit, hres]
  rw [hlen] at hanswers
  rcases hanswers with ⟨l', hget⟩
  rw [hget]
  unfold batchAnswer
  simp only [hstored]
  exact ⟨_, rfl⟩

/-- A batch of replays and of items the door refuses lets nothing in and turns nothing away. -/
theorem insertEach_of_replays
    (h : ∀ i e ev, entries[i]? = some e →
      batchDoor env e.readings { principal, body := e.body } = .ok ev →
        ReplaysAt env principal entries s i e ev) :
    (s.store.insertEach (validItems (prepareBatch env principal entries))).2.events =
        s.store.events ∧
      ∀ res ∈ (s.store.insertEach (validItems (prepareBatch env principal entries))).1,
        ∃ message, res = .error (.conflict message) := by
  refine SqliteStore.insertEach_of_taken _ fun pre item post hsplit => ?_
  -- the prepared item behind this valid one, and what stands before it
  rcases List.filterMap_eq_append_iff.1 hsplit with ⟨pre₁, rest, hprepared, hpre₁, hrest⟩
  rcases List.filterMap_eq_cons_iff.1 hrest with ⟨pre₂, x, post', hrest', hnone, hitem, -⟩
  rcases x with ⟨⟨i, e⟩, res⟩
  cases res with
  | error r => cases hitem
  | ok ev =>
    have hitem' : item = (e.readings.stored, ev) := (Option.some.inj hitem).symm
    have hfull : prepareBatch env principal entries =
        (pre₁ ++ pre₂) ++ ((i, e), .ok ev) :: post' := by
      rw [hprepared, hrest', List.append_assoc]
    have hmem : ((i, e), .ok ev) ∈ prepareBatch env principal entries := by
      rw [hfull]
      exact List.mem_append_right _ (List.mem_cons_self ..)
    have hindex : (pre₁ ++ pre₂).length = i := by
      have hget : (prepareBatch env principal entries)[(pre₁ ++ pre₂).length]? =
          some ((i, e), .ok ev) := by
        rw [hfull, List.getElem?_append_right le_rfl, Nat.sub_self, List.getElem?_cons_zero]
      simp only [prepareBatch, List.getElem?_map, List.getElem?_zipIdx, Option.map_map,
        Option.map_eq_some_iff] at hget
      rcases hget with ⟨e', -, heq⟩
      simpa using congrArg (fun x => x.1.1) heq
    rcases mem_prepareBatch.1 hmem with ⟨hentry, hdoor⟩
    have hreplay := h i e ev hentry hdoor.symm
    have hadm := hreplay.admits
    have htake : (prepareBatch env principal entries).take i = pre₁ ++ pre₂ := by
      rw [hfull, ← hindex, List.take_left']
      rfl
    have hvalid : validItems (pre₁ ++ pre₂) = pre := by
      rw [validItems_append, show validItems pre₁ = pre from hpre₁,
        show validItems pre₂ = [] from List.filterMap_eq_nil_iff.2 hnone, List.append_nil]
    rw [storeBefore, htake, hvalid] at hadm
    rw [hitem']
    exact ⟨hreplay.records.hasId, hadm⟩

end replays

/-! ## The theorem -/

/-- A service with the sample configuration for every project. -/
def sampleEnv : IngestEnv := { config := sampleConfig, policyFor := fun _ => {} }

/-- Every clock reads `t`. -/
def readAt (t : Time) : Readings :=
  { parsed := t, prepared := t, stored := t, settled := t, newId := "" }

/-- A call of project `p` that names its id and timestamp. -/
def namedBody : IngestBody where
  id := some "e1"
  ts := some 0
  provider := .new "openai"
  model := "gpt-4o"
  usage := { input := 10, output := 5 }
  costUsd := some 1

def namedRequest : IngestRequest :=
  { principal := .project "p" "k1" [.ingest], body := namedBody }

/-- A service that has seen nothing. -/
def freshService : Service where
  store := { events := .empty, limits := ⟨[], List.nodup_nil⟩, revenue := [], cache := .empty }
  rejections := {}

/-- The service after it accepted the call. -/
def servedService : Service := (postEvent sampleEnv (readAt 0) namedRequest freshService).2

theorem namedRequest_namesItself : namedRequest.NamesItself :=
  ⟨⟨"e1", rfl, by decide +kernel⟩, rfl⟩

theorem namedRequest_acceptedBefore : AcceptedBefore namedRequest servedService := by
  have hok : (postEvent sampleEnv (readAt 0) namedRequest freshService).1.isOk = true := by
    decide +kernel
  cases hres : (postEvent sampleEnv (readAt 0) namedRequest freshService).1 with
  | error e =>
    rw [hres] at hok
    cases hok
  | ok resp =>
    exact ⟨.postEvent sampleEnv (readAt 0) namedRequest, freshService, [], .single hres, .nil⟩

end LightTrack
