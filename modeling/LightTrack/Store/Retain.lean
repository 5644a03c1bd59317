import LightTrack.Store.BatchRuns
import Mathlib.Data.List.Induction

/-! # Recorded calls

No call on the store removes a row or rewrites what identifies it, so a call that is recorded
stays recorded.

* `SqliteStore.records_exec` : whatever happens to the store, a recorded call stays recorded,
* `insertEach_records` : an item that a batch admits is recorded when the batch ends,
* `insertEach_of_taken` : a batch of admitted items whose ids are all taken changes no row.
-/

namespace LightTrack

/-! ## What identifies a call -/

/-- The part of an event that two submissions of one call have in common. -/
structure CallKey where
  id : String
  projectId : String
  ts : Time
  provider : ProviderId
  model : String
  input : UInt64
  output : UInt64

/-- The call an event is about. -/
def LlmEvent.callKey (ev : LlmEvent) : CallKey where
  id := ev.id
  projectId := ev.projectId
  ts := ev.ts
  provider := ev.provider
  model := ev.model
  input := ev.usage.input
  output := ev.usage.output

/-- The call a row is about, as it reads back. -/
def EventRow.callKey (r : EventRow) : CallKey := r.toEvent.callKey

/-- What identifies a call survives storage. -/
theorem EventRow.callKey_ofEvent (rowid : Nat) (ev : LlmEvent) :
    (EventRow.ofEvent rowid ev).callKey = ev.callKey := by
  unfold EventRow.callKey LlmEvent.callKey EventRow.toEvent EventRow.ofEvent
  simp only [ProviderId.new_asStr, asU64_asI64]

namespace EventTable

/-- Whether a row of the table is about the call `k`. -/
def Records (t : EventTable) (k : CallKey) : Prop := ∃ r ∈ t.rows, r.callKey = k

variable {t t' : EventTable} {k : CallKey} {ev : LlmEvent}

theorem Records.hasId (h : t.Records ev.callKey) : t.hasId ev.id = true := by
  rcases h with ⟨r, hr, hkey⟩
  have hid : r.id = ev.id := congrArg CallKey.id hkey
  exact List.any_eq_true.2 ⟨r, hr, by simpa using hid⟩

theorem Records.insert (h : t.Records k) (hins : t.insert ev = .ok t') : t'.Records k := by
  rcases h with ⟨r, hr, hkey⟩
  refine ⟨r, ?_, hkey⟩
  rw [(rows_of_insert hins).2]
  exact List.mem_append_left _ hr

/-- An inserted event is recorded. -/
theorem records_of_insert (hins : t.insert ev = .ok t') : t'.Records ev.callKey := by
  refine ⟨t.nextRow ev, ?_, EventRow.callKey_ofEvent _ ev⟩
  rw [(rows_of_insert hins).2]
  exact List.mem_append_right _ (List.mem_singleton_self _)

/-- A price fill rewrites costs only. -/
theorem Records.fill (h : t.Records k) (f : PriceFill) : (f.fill t).1.Records k := by
  rcases h with ⟨r, hr, hkey⟩
  rcases f.filled_fill t with ⟨g, hrows, hrewrite⟩
  refine ⟨g r, ?_, ?_⟩
  · rw [hrows]
    exact List.mem_map_of_mem hr
  · rcases hrewrite r hr with heq | ⟨-, cost, -, heq⟩
    · rw [heq]
      exact hkey
    · rw [heq]
      exact hkey

/-- Ids are unique, so looking up a recorded call finds its row. -/
theorem Records.get (h : t.Records ev.callKey) :
    ∃ stored, t.get ev.projectId ev.id = some stored ∧ stored.callKey = ev.callKey := by
  rcases h with ⟨r, hr, hkey⟩
  have hid : r.id = ev.id := congrArg CallKey.id hkey
  have hproject : r.projectId = ev.projectId := congrArg CallKey.projectId hkey
  have hfind : (t.rows.find? fun r => r.id == ev.id && r.projectId == ev.projectId).isSome := by
    rw [List.find?_isSome]
    exact ⟨r, hr, by simp [hid, hproject]⟩
  rcases Option.isSome_iff_exists.1 hfind with ⟨r', hr'⟩
  have hid' : r'.id = ev.id := by
    have hmatch := List.find?_some hr'
    simp only [Bool.and_eq_true, beq_iff_eq] at hmatch
    exact hmatch.1
  have heq : r' = r := List.inj_on_of_nodup_map t.ids (List.mem_of_find?_eq_some hr') hr
    (hid'.trans hid.symm)
  refine ⟨r.toEvent, ?_, hkey⟩
  unfold EventTable.get
  rw [hr', heq, Option.map_some]

/-- What a lookup finds is a recorded row. -/
theorem records_of_get {project id : String} {stored : LlmEvent}
    (h : t.get project id = some stored) : t.Records stored.callKey ∧ stored.id = id := by
  rcases Option.map_eq_some_iff.1 h with ⟨r, hfind, rfl⟩
  have hmatch := List.find?_some hfind
  simp only [Bool.and_eq_true, beq_iff_eq] at hmatch
  exact ⟨⟨r, List.mem_of_find?_eq_some hfind, rfl⟩, hmatch.1⟩

end EventTable

/-! ## Checked inserts -/

namespace SqliteStore

variable {s : SqliteStore} {now : Time} {ev : LlmEvent} {k : CallKey}

/-- The admission that a checked insert of `ev` decides on. -/
def evaluation (s : SqliteStore) (now : Time) (ev : LlmEvent) : Except StoreError Admission :=
  ((s.limits.list ev.projectId).admission (UsageCache.reader s.events.rows ev.projectId now) ev now
    (revenueList s.revenue ev.projectId) s.cache).1

/-- The limits in force let `ev` in. -/
def Admits (s : SqliteStore) (now : Time) (ev : LlmEvent) : Prop :=
  ∃ a, s.evaluation now ev = .ok a ∧ a.admitted = true

/-- A checked insert evaluates, and on admission inserts. -/
theorem insertEventChecked_cases (s : SqliteStore) (now : Time) (ev : LlmEvent) :
    (¬ s.Admits now ev ∧ (s.insertEventChecked now ev).1 = s.evaluation now ev ∧
        (s.insertEventChecked now ev).2.events = s.events) ∨
      (∃ e, s.Admits now ev ∧ s.events.insert ev = .error e ∧
        (s.insertEventChecked now ev).1 = .error e ∧
        (s.insertEventChecked now ev).2.events = s.events) ∨
      s.Admits now ev ∧ s.events.insert ev = .ok (s.insertEventChecked now ev).2.events := by
  unfold Admits evaluation insertEventChecked insertCheckedWithRules
  simp only
  cases ((s.limits.list ev.projectId).admission (UsageCache.reader s.events.rows ev.projectId now) ev
      now (revenueList s.revenue ev.projectId) s.cache).1 with
  | error e => exact .inl ⟨by simp, rfl, rfl⟩
  | ok a =>
    by_cases hadm : a.admitted = true
    · simp only [hadm, if_true]
      cases hins : s.events.insert ev with
      | error e => exact .inr (.inl ⟨e, ⟨a, rfl, hadm⟩, rfl, rfl, rfl⟩)
      | ok t => exact .inr (.inr ⟨⟨a, rfl, hadm⟩, rfl⟩)
    · simp only [hadm]
      exact .inl ⟨by simpa using hadm, rfl, rfl⟩

theorem insertEventChecked_config (s : SqliteStore) (now : Time) (ev : LlmEvent) :
    (s.insertEventChecked now ev).2 =
      { s with
        events := (s.insertEventChecked now ev).2.events
        cache := (s.insertEventChecked now ev).2.cache } := rfl

theorem records_insertEventChecked (h : s.events.Records k) :
    (s.insertEventChecked now ev).2.events.Records k := by
  rcases s.insertEventChecked_cases now ev with ⟨-, -, hsame⟩ | ⟨e, -, -, -, hsame⟩ | ⟨-, hins⟩
  · rw [hsame]
    exact h
  · rw [hsame]
    exact h
  · exact h.insert hins

/-- An event that is let in is recorded. -/
theorem records_of_insertEventChecked {a : Admission}
    (h : (s.insertEventChecked now ev).1 = .ok a) (hadm : a.admitted = true) :
    (s.insertEventChecked now ev).2.events.Records ev.callKey := by
  rcases s.insertEventChecked_cases now ev with ⟨hno, heval, -⟩ | ⟨e, -, -, herr, -⟩ | ⟨-, hins⟩
  · exact absurd ⟨a, heval.symm.trans h, hadm⟩ hno
  · rw [herr] at h
    cases h
  · exact EventTable.records_of_insert hins

/-- An event that is let in under a taken id is a conflict, and changes no row. -/
theorem insertEventChecked_of_taken (hid : s.events.hasId ev.id = true) (hadm : s.Admits now ev) :
    (∃ message, (s.insertEventChecked now ev).1 = .error (.conflict message)) ∧
      (s.insertEventChecked now ev).2.events = s.events := by
  have htaken := EventTable.insert_of_hasId hid
  rcases s.insertEventChecked_cases now ev with ⟨hno, -, -⟩ | ⟨e, -, hins, herr, hsame⟩ | ⟨-, hins⟩
  · exact absurd hadm hno
  · rw [htaken] at hins
    rw [← Except.error.inj hins] at herr
    exact ⟨⟨_, herr⟩, hsame⟩
  · rw [htaken] at hins
    cases hins

/-! ## Batches -/

theorem insertEach_cons (s : SqliteStore) (item : Time × LlmEvent)
    (items : List (Time × LlmEvent)) :
    s.insertEach (item :: items) =
      ((s.insertEventChecked item.1 item.2).1 ::
          ((s.insertEventChecked item.1 item.2).2.insertEach items).1,
        ((s.insertEventChecked item.1 item.2).2.insertEach items).2) := rfl

theorem insertEach_append (s : SqliteStore) (items items' : List (Time × LlmEvent)) :
    s.insertEach (items ++ items') =
      ((s.insertEach items).1 ++ ((s.insertEach items).2.insertEach items').1,
        ((s.insertEach items).2.insertEach items').2) := by
  induction items generalizing s with
  | nil => rfl
  | cons item items ih =>
    rw [List.cons_append, insertEach_cons, ih, insertEach_cons, List.cons_append]

theorem length_insertEach (s : SqliteStore) (items : List (Time × LlmEvent)) :
    (s.insertEach items).1.length = items.length := by
  induction items generalizing s with
  | nil => rfl
  | cons item items ih => exact congrArg (· + 1) (ih _)

theorem records_insertEach (items : List (Time × LlmEvent)) (h : s.events.Records k) :
    (s.insertEach items).2.events.Records k := by
  induction items generalizing s with
  | nil => exact h
  | cons item items ih => exact ih (records_insertEventChecked h)

theorem insertEach_config (s : SqliteStore) (items : List (Time × LlmEvent)) :
    (s.insertEach items).2 =
      { s with events := (s.insertEach items).2.events, cache := (s.insertEach items).2.cache } := by
  induction items generalizing s with
  | nil => rfl
  | cons item items ih =>
    rw [insertEach_cons]
    show ((s.insertEventChecked item.1 item.2).2.insertEach items).2 = _
    rw [ih, insertEventChecked_config]

/-- An item that a batch admits is recorded when the batch ends. -/
theorem insertEach_records {items : List (Time × LlmEvent)} {item : Time × LlmEvent}
    {a : Admission} (h : (item, .ok a) ∈ items.zip (s.insertEach items).1)
    (hadm : a.admitted = true) : (s.insertEach items).2.events.Records item.2.callKey := by
  induction items generalizing s with
  | nil => exact absurd h List.not_mem_nil
  | cons first items ih =>
    rw [insertEach_cons, List.zip_cons_cons] at h
    rcases List.mem_cons.1 h with heq | hrest
    · have hitem : item = first := congrArg Prod.fst heq
      have hres : .ok a = (s.insertEventChecked first.1 first.2).1 := congrArg Prod.snd heq
      rw [hitem]
      exact records_insertEach items (records_of_insertEventChecked hres.symm hadm)
    · exact ih hrest

/-- A batch of admitted items whose ids are all taken is conflicts only, and changes no row. -/
theorem insertEach_of_taken (items : List (Time × LlmEvent))
    (h : ∀ pre item post, items = pre ++ item :: post →
      s.events.hasId item.2.id = true ∧ (s.insertEach pre).2.Admits item.1 item.2) :
    (s.insertEach items).2.events = s.events ∧
      ∀ res ∈ (s.insertEach items).1, ∃ message, res = .error (.conflict message) := by
  induction items using List.reverseRecOn with
  | nil => exact ⟨rfl, fun res hres => absurd hres List.not_mem_nil⟩
  | append_singleton items item ih =>
    have hinit : ∀ pre item' post, items = pre ++ item' :: post →
        s.events.hasId item'.2.id = true ∧ (s.insertEach pre).2.Admits item'.1 item'.2 := by
      intro pre item' post hsplit
      refine h pre item' (post ++ [item]) ?_
      rw [hsplit, List.append_assoc, List.cons_append]
    rcases ih hinit with ⟨hsame, hall⟩
    rcases h items item [] rfl with ⟨hid, hadm⟩
    rw [← hsame] at hid
    rcases insertEventChecked_of_taken hid hadm with ⟨⟨message, hres⟩, hlast⟩
    rw [insertEach_append, insertEach_cons]
    constructor
    · show ((s.insertEach items).2.insertEventChecked item.1 item.2).2.events = s.events
      rw [hlast, hsame]
    · intro res hmem
      rcases List.mem_append.1 hmem with hmem | hmem
      · exact hall res hmem
      · rcases List.mem_singleton.1 hmem with rfl
        exact ⟨message, hres⟩

/-- A batch is its items one at a time, or it is lost: the table stays as it was and every item
fails with the same error. -/
theorem insertEventsChecked_cases (s : SqliteStore) (items : List (Time × LlmEvent))
    (tx : BatchTx) :
    s.insertEventsChecked items tx = s.insertEach items ∨
      (s.insertEventsChecked items tx).2.events = s.events ∧
        ∃ message, (s.insertEventsChecked items tx).1 = items.map fun _ => .error (.other message) := by
  cases tx with
  | beginFails e => exact .inr ⟨rfl, _, rfl⟩
  | ends commit =>
    cases commit with
    | ok u => exact .inl (insertEventsChecked_eq_insertEach s items)
    | error e => exact .inr ⟨rfl, _, rfl⟩

theorem records_insertEventsChecked (items : List (Time × LlmEvent)) (tx : BatchTx)
    (h : s.events.Records k) : (s.insertEventsChecked items tx).2.events.Records k := by
  rcases s.insertEventsChecked_cases items tx with heq | ⟨hsame, -⟩
  · rw [heq]
    exact records_insertEach items h
  · rw [hsame]
    exact h

/-- Whatever happens to the store, a recorded call stays recorded. -/
theorem records_exec (now : Time) (op : Op) (h : s.events.Records k) :
    (SqliteStore.exec now op s).state.events.Records k := by
  cases op with
  | insertEvent ev =>
    show (s.insertEvent ev).2.events.Records k
    unfold SqliteStore.insertEvent
    cases hins : s.events.insert ev with
    | error e => exact h
    | ok t => exact h.insert hins
  | insertEventChecked ev => exact records_insertEventChecked h
  | insertEventsChecked items tx => exact records_insertEventsChecked (readings now items) tx h
  | fillUnpricedCost f => exact h.fill f
  | askUsage project key => exact h
  | configure limits revenue => exact h

end SqliteStore

end LightTrack
