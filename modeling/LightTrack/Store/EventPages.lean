import LightTrack.Lib.Keyset
import LightTrack.Store.Cursor
import LightTrack.Store.Events
import Mathlib.Data.Prod.Lex

/-! # Paging through events

`list_filtered` pages through the matching events, newest first, on the text of `(ts, id)`.

* `EventFilter.isMatch` : the predicates of a filter, without its cursor,
* `fromRaw_eq_ok_iff` : when a row reads back, and as what,
* `eventPager_walk_iff` : what following the cursors yields.
-/

namespace LightTrack

/-- `Status::as_str`. -/
def Status.asStr : Status → String
  | success => "success"
  | error => "error"
  | timeout => "timeout"

/-- `EventFilter`. The predicates over the JSON columns (`tag`, `metadata_key`, `metadata_value`,
`redaction_rules`, `min_redacted_spans`) read nothing but the row and are one predicate here. -/
structure EventFilter where
  since : Option Time := none
  until_ : Option Time := none
  provider : Option String := none
  model : Option String := none
  traceId : Option String := none
  name : Option String := none
  status : Option String := none
  minCost : Option ℚ := none
  json : EventRow → Bool := fun _ => true
  withTotal : Bool := false
  cursor : Option String := none

namespace EventFilter

/-- `build_predicates`: every condition but the cursor's. A NULL column passes no comparison. -/
def isMatch (project : Option String) (f : EventFilter) (r : EventRow) : Bool :=
  project.all (fun p => r.projectId == p) &&
    f.since.all (fun t => decide (fmtTs t ≤ fmtTs r.ts)) &&
    f.until_.all (fun t => decide (fmtTs r.ts < fmtTs t)) &&
    f.provider.all (fun v => r.provider == v) &&
    f.model.all (fun v => r.model == v) &&
    f.traceId.all (fun v => r.traceId == some v) &&
    f.name.all (fun v => r.name == some v) &&
    f.status.all (fun v => r.status.asStr == v) &&
    f.minCost.all (fun c => r.costUsd.any fun cost => decide (c ≤ cost)) &&
    f.json r

/-- The predicates do not depend on the cursor. -/
theorem isMatch_cursor (project : Option String) (f : EventFilter) (c : Option String) :
    isMatch project { f with cursor := c } = isMatch project f := rfl

end EventFilter

/-! ## Reading a row -/

/-- `parse_ts` of a stored timestamp. -/
def readTs (t : Time) : Except StoreError Time :=
  match parseTs (fmtTs t) with
  | some t => .ok t
  | none => .error (.other ("bad ts \"" ++ fmtTs t ++ "\": input contains invalid characters"))

/-- `from_raw`. -/
def fromRaw (r : EventRow) : Except StoreError LlmEvent := do
  let ts ← readTs r.ts
  let receivedAt ← readTs r.windowTs
  return { r.toEvent with ts, receivedAt }

/-- The timestamps of a row have four-digit years. -/
def EventRow.Readable (r : EventRow) : Prop := FourDigitYear r.ts ∧ FourDigitYear r.windowTs

instance (r : EventRow) : Decidable r.Readable := inferInstanceAs (Decidable (_ ∧ _))

theorem readTs_eq_ok_iff {t t' : Time} : readTs t = .ok t' ↔ FourDigitYear t ∧ t' = t := by
  unfold readTs
  rw [parseTs_fmtTs]
  split_ifs with h
  · simp [h, eq_comm]
  · simp [h]

/-- A row reads back exactly when its timestamps do, and as the event it was written for. -/
theorem fromRaw_eq_ok_iff {r : EventRow} {ev : LlmEvent} :
    fromRaw r = .ok ev ↔ r.Readable ∧ ev = r.toEvent := by
  unfold fromRaw EventRow.Readable
  by_cases hts : FourDigitYear r.ts
  · rw [readTs_eq_ok_iff.2 ⟨hts, rfl⟩]
    by_cases hreceived : FourDigitYear r.windowTs
    · rw [readTs_eq_ok_iff.2 ⟨hreceived, rfl⟩]
      simp only [bind, Except.bind, pure, Except.pure, Except.ok.injEq, hts, hreceived, true_and]
      exact eq_comm
    · cases hread : readTs r.windowTs with
      | error e => simp [bind, Except.bind, hreceived]
      | ok t => exact absurd (readTs_eq_ok_iff.1 hread).1 hreceived
  · cases hread : readTs r.ts with
    | error e => simp [bind, Except.bind, hts]
    | ok t => exact absurd (readTs_eq_ok_iff.1 hread).1 hts

/-! ## One page -/

/-- `EventPage`. -/
structure EventPage where
  events : List LlmEvent
  nextCursor : Option String
  total : Option ℕ

/-- The text `(ts, id)` that events are ordered on. Text is compared by code points, which orders
it as its bytes do. -/
def eventKey (r : EventRow) : String ×ₗ String := toLex (fmtTs r.ts, r.id)

/-- `LIMIT (limit as i64).saturating_add(1)`. -/
def sqlFetch {α : Type*} (limit : UInt64) (rows : List α) : List α :=
  if limit.toNat + 1 < 2 ^ 63 then rows.take (limit.toNat + 1)
  else if limit.toNat + 1 = 2 ^ 63 then rows.take limit.toNat
  -- the cast is negative: -1 fetches nothing, and a negative limit is none
  else if limit.toNat + 1 = 2 ^ 64 then []
  else rows

/-- The cursor of an event. -/
def eventCursor (ev : LlmEvent) : String := encodeEventCursor (fmtTs ev.ts) ev.id

/-- Cut the fetched rows to a page, with a cursor if there is a further one. -/
def cutPage {α : Type*} (limit : UInt64) (cursorOf : α → String) (fetched : List α) :
    List α × Option String :=
  -- `fetched.len() as i64 > limit as i64`
  if 2 ^ 63 ≤ limit.toNat ∨ limit.toNat < fetched.length then
    (fetched.take limit.toNat, (fetched.take limit.toNat).getLast?.map cursorOf)
  else (fetched, none)

/-- Decode the cursor of a filter. -/
def decodeCursor : Option String → Except StoreError (Option (String ×ₗ String))
  | none => .ok none
  | some c => match decodeEventCursor c with
    | some key => .ok (some (toLex key))
    | none => .error (.other ("invalid cursor \"" ++ c ++ "\""))

/-- The rows whose keys are below a decoded cursor. -/
def belowCursor {α : Type*} (keyOf : α → String ×ₗ String) (cursor : Option (String ×ₗ String))
    (rows : List α) : List α :=
  rows.filter fun r => cursor.all fun c => decide (keyOf r < c)

theorem decodeCursor_encode (t : Time) (id : String) :
    decodeCursor (some (encodeEventCursor (fmtTs t) id)) = .ok (some (toLex (fmtTs t, id))) := by
  simp only [decodeCursor, decodeEventCursor_encodeEventCursor (fmtTs_no_separator t)]

/-- `list_filtered`. -/
def listFiltered (rows : List EventRow) (project : Option String) (filter : EventFilter)
    (limit : UInt64) : Except StoreError EventPage := do
  let matching := rows.filter (filter.isMatch project)
  let total := if filter.withTotal then some matching.length else none
  let cursor ← decodeCursor filter.cursor
  let below := belowCursor eventKey cursor matching
  let events ← (sqlFetch limit (Keyset.newestFirst eventKey below)).mapM fromRaw
  let page := cutPage limit eventCursor events
  return { events := page.1, nextCursor := page.2, total }

/-! ## Pages and walks -/

/-- One page of a sorted listing, in the terms of the library. -/
theorem cutPage_mapM {α β ε : Type*} {limit : UInt64} (h : limit.toNat + 1 < 2 ^ 63)
    (read : α → Except ε β) (cursorOf : β → String) (rest : List α) :
    ((sqlFetch limit rest).mapM read).map (cutPage limit cursorOf) =
      Keyset.takePage limit.toNat read cursorOf rest := by
  have hfetch : sqlFetch limit rest = rest.take (limit.toNat + 1) := if_pos h
  have hcut : cutPage limit cursorOf = fun bs =>
      if limit.toNat < bs.length then
        (bs.take limit.toNat, (bs.take limit.toNat).getLast?.map cursorOf)
      else (bs, none) := by
    funext bs
    have hpos : ¬ 2 ^ 63 ≤ limit.toNat := by omega
    unfold cutPage
    simp only [hpos, false_or]
  rw [hfetch, hcut]
  rfl

theorem cutPage_map {α β : Type*} (limit : UInt64) (cursorOf : β → String) (g : α → β)
    (fetched : List α) :
    cutPage limit cursorOf (fetched.map g) =
      ((cutPage limit (fun a => cursorOf (g a)) fetched).1.map g,
        (cutPage limit (fun a => cursorOf (g a)) fetched).2) := by
  unfold cutPage
  rw [List.length_map]
  split_ifs
  · rw [← List.map_take, List.getLast?_map, Option.map_map]
    rfl
  · rfl

/-- The pager behind `X-Next-Cursor`: the same question with another cursor. -/
def eventPager (rows : List EventRow) (project : Option String) (filter : EventFilter)
    (limit : UInt64) (cursor : Option String) :
    Except StoreError (List LlmEvent × Option String) :=
  (listFiltered rows project { filter with cursor } limit).map fun p => (p.events, p.nextCursor)

/-- The matching rows, newest first. -/
def eventListing (rows : List EventRow) (project : Option String) (filter : EventFilter) :
    List EventRow :=
  Keyset.newestFirst eventKey (rows.filter (filter.isMatch project))

theorem eventKeys_nodup (t : EventTable) (p : EventRow → Bool) :
    ((t.rows.filter p).map eventKey).Nodup := by
  refine List.Nodup.of_map (fun k : String ×ₗ String => (ofLex k).2) ?_
  rw [List.map_map]
  exact t.ids.sublist (List.filter_sublist.map _)

/-- A cursor stands where its page ended: what is below it is what is left of the listing. -/
theorem decodeCursor_at {α β ε : Type*} {keyOf : α → String ×ₗ String} {read : α → Except ε β}
    {cursorOf : β → String} {rows : List α} (hkeys : (rows.map keyOf).Nodup)
    (hcursor : ∀ a ∈ rows, ∀ b, read a = .ok b →
      decodeCursor (some (cursorOf b)) = .ok (some (keyOf a)))
    {pre rest : List α} (hlisting : Keyset.newestFirst keyOf rows = pre ++ rest)
    {c : Option String} (hc : Keyset.CursorAt read cursorOf pre c) :
    ∃ key, decodeCursor c = .ok key ∧
      Keyset.newestFirst keyOf (belowCursor keyOf key rows) = rest := by
  unfold belowCursor
  rcases hc with ⟨rfl, rfl⟩ | ⟨a, b, hlast, hread, rfl⟩
  · refine ⟨none, rfl, ?_⟩
    simp only [Option.all_none, List.filter_true]
    exact hlisting
  · have hmem : a ∈ rows := by
      have hperm := (hlisting ▸ Keyset.newestFirst_perm rows : (pre ++ rest).Perm rows)
      rw [← hperm.mem_iff]
      exact List.mem_append_left _ (List.mem_of_getLast? hlast)
    refine ⟨some (keyOf a), hcursor a hmem b hread, ?_⟩
    have hdesc := Keyset.newestFirst_descending hkeys
    rw [hlisting] at hdesc
    simp only [Option.all_some]
    rw [Keyset.newestFirst_filter hkeys, hlisting]
    exact Keyset.filter_below hdesc hlast

/-- A page of the rows below a cursor. -/
theorem eventPager_of_key (rows : List EventRow) (project : Option String) (filter : EventFilter)
    (limit : UInt64) {c : Option String} {key : Option (String ×ₗ String)}
    (hkey : decodeCursor c = .ok key) :
    eventPager rows project filter limit c =
      ((sqlFetch limit (Keyset.newestFirst eventKey
        (belowCursor eventKey key (rows.filter (filter.isMatch project))))).mapM fromRaw).map
          (cutPage limit eventCursor) := by
  unfold eventPager listFiltered
  simp only [hkey, bind, Except.bind, EventFilter.isMatch_cursor]
  cases (sqlFetch limit (Keyset.newestFirst eventKey
      (belowCursor eventKey key (rows.filter (filter.isMatch project))))).mapM fromRaw with
  | error e => rfl
  | ok evs => rfl

/-- A page starts where its cursor stands. -/
theorem eventPager_eq (t : EventTable) (project : Option String) (filter : EventFilter)
    {limit : UInt64} (hlimit : limit.toNat + 1 < 2 ^ 63) {pre rest : List EventRow}
    (hlisting : eventListing t.rows project filter = pre ++ rest) {c : Option String}
    (hc : Keyset.CursorAt fromRaw eventCursor pre c) :
    eventPager t.rows project filter limit c =
      Keyset.takePage limit.toNat fromRaw eventCursor rest := by
  have hcursor : ∀ r ∈ t.rows.filter (filter.isMatch project), ∀ ev, fromRaw r = .ok ev →
      decodeCursor (some (eventCursor ev)) = .ok (some (eventKey r)) := by
    intro r _ ev hread
    rcases fromRaw_eq_ok_iff.1 hread with ⟨-, rfl⟩
    exact decodeCursor_encode r.ts r.id
  rcases decodeCursor_at (eventKeys_nodup t (filter.isMatch project)) hcursor hlisting hc with
    ⟨key, hkey, hbelow⟩
  rw [eventPager_of_key t.rows project filter limit hkey, hbelow, cutPage_mapM hlimit]

/-- **Following the cursors** of an event listing yields every matching event once, newest first,
exactly when the timestamps of all matching rows can be read. -/
theorem eventPager_walk_iff (t : EventTable) (project : Option String) (filter : EventFilter)
    {limit : UInt64} (hpos : 0 < limit.toNat) (hlimit : limit.toNat + 1 < 2 ^ 63)
    {evs : List LlmEvent} :
    Keyset.Walk (eventPager t.rows project filter limit) none evs ↔
      (∀ r ∈ t.rows, filter.isMatch project r = true → r.Readable) ∧
        evs = (eventListing t.rows project filter).map EventRow.toEvent := by
  have hpages : ∀ pre rest, eventListing t.rows project filter = pre ++ rest → ∀ c,
      Keyset.CursorAt fromRaw eventCursor pre c → ∀ page,
        eventPager t.rows project filter limit c = .ok page ↔
          Keyset.takePage limit.toNat fromRaw eventCursor rest = .ok page := by
    intro pre rest hlisting c hc page
    rw [eventPager_eq t project filter hlimit hlisting hc]
  rw [Keyset.walk_iff hpos hpages, Traverse.mapM_eq_map_iff fun r ev => fromRaw_eq_ok_iff]
  have hmem : ∀ r, r ∈ eventListing t.rows project filter ↔
      r ∈ t.rows ∧ filter.isMatch project r = true := by
    intro r
    unfold eventListing
    rw [(Keyset.newestFirst_perm _).mem_iff, List.mem_filter]
  simp only [hmem, and_imp]

/-- Readable rows in the order of their text are in the order of their instants and ids. -/
theorem eventListing_chronological (t : EventTable) (project : Option String) (filter : EventFilter)
    (hread : ∀ r ∈ t.rows, filter.isMatch project r = true → r.Readable) :
    ((eventListing t.rows project filter).map EventRow.toEvent).Pairwise fun a b =>
      b.ts < a.ts ∨ b.ts = a.ts ∧ b.id < a.id := by
  have hkeys := eventKeys_nodup t (filter.isMatch project)
  have hdesc : Keyset.Descending eventKey (eventListing t.rows project filter) :=
    Keyset.newestFirst_descending hkeys
  have hfour : ∀ r ∈ eventListing t.rows project filter, FourDigitYear r.ts := by
    intro r hr
    rw [eventListing, (Keyset.newestFirst_perm _).mem_iff, List.mem_filter] at hr
    exact (hread r hr.1 hr.2).1
  rw [List.pairwise_map]
  refine hdesc.imp_of_mem ?_
  intro a b ha hb hlt
  rcases (Prod.Lex.lt_iff).1 hlt with hts | ⟨hts, hid⟩
  · exact .inl ((fmtTs_lt_iff (hfour b hb) (hfour a ha)).1 hts)
  · exact .inr ⟨fmtTs_inj (hfour b hb) (hfour a ha) hts, hid⟩

end LightTrack
