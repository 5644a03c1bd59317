import LightTrack.Store.TraceSummaries

/-! # Paging through traces

The trace list pages on the text of `(ended, trace_id)`, over groups that are aggregated anew for
every page.

* `tracePager_walk_iff` : what following the cursors yields, and when.
-/

namespace LightTrack

/-- `TracePage`. -/
structure TracePage where
  traces : List TraceSummary
  nextCursor : Option String

/-- The cursor of a trace. -/
def traceCursor (s : TraceSummary) : String := encodeEventCursor (fmtTs s.endedAt) s.traceId

/-- `list_trace_summaries_filtered`. -/
def listTraceSummariesFiltered (checks : Bool) (rows : List EventRow) (project : Option String)
    (filter : TraceFilter) (limit : UInt64) : Except TraceError TracePage := do
  let cursor ← (decodeCursor filter.cursor).mapError .store
  let groups ← ((tracesInScope rows project filter.since).mapM traceGroup).mapError .store
  let below := belowCursor traceGroupKey cursor (groups.filter filter.having)
  let raws ← (sqlFetch limit (Keyset.newestFirst traceGroupKey below)).mapM mapTraceSummary
  let summaries ← raws.mapM (traceSummaryFromRaw checks)
  let page := cutPage limit traceCursor summaries
  return { traces := page.1.map (withModels rows project), nextCursor := page.2 }

/-- The pager behind `X-Next-Cursor`: the same question with another cursor. -/
def tracePager (checks : Bool) (rows : List EventRow) (project : Option String)
    (filter : TraceFilter) (limit : UInt64) (cursor : Option String) :
    Except TraceError (List TraceSummary × Option String) :=
  (listTraceSummariesFiltered checks rows project { filter with cursor } limit).map fun p =>
    (p.traces, p.nextCursor)

/-! ## The listing -/

/-- The matching traces, each with its rows. -/
def matchingTraces (rows : List EventRow) (project : Option String) (filter : TraceFilter) :
    List (String × List EventRow) :=
  (tracesInScope rows project filter.since).filter fun g => filter.having (exactGroup g)

/-- The matching traces, newest first. -/
def traceListing (rows : List EventRow) (project : Option String) (filter : TraceFilter) :
    List (String × List EventRow) :=
  Keyset.newestFirst (fun g => traceGroupKey (exactGroup g)) (matchingTraces rows project filter)

variable {checks : Bool} {rows : List EventRow} {project : Option String} {filter : TraceFilter}

theorem mem_traceListing {g : String × List EventRow} :
    g ∈ traceListing rows project filter ↔
      g ∈ tracesInScope rows project filter.since ∧ filter.having (exactGroup g) = true := by
  unfold traceListing matchingTraces
  rw [(Keyset.newestFirst_perm _).mem_iff, List.mem_filter]

/-- No trace is listed twice. -/
theorem matchingTraces_ids_nodup (rows : List EventRow) (project : Option String)
    (filter : TraceFilter) : ((matchingTraces rows project filter).map Prod.fst).Nodup := by
  refine List.Nodup.sublist (List.filter_sublist.map _) ?_
  unfold tracesInScope
  rw [Group.keys_groupsBy]
  exact List.nodup_dedup _

theorem traceKeys_nodup (rows : List EventRow) (project : Option String) (filter : TraceFilter) :
    ((matchingTraces rows project filter).map fun g => traceGroupKey (exactGroup g)).Nodup := by
  refine List.Nodup.of_map (fun k : String ×ₗ String => (ofLex k).2) ?_
  rw [List.map_map]
  exact matchingTraces_ids_nodup rows project filter

/-- A row of the listing, read and with its models. -/
def readTrace (checks : Bool) (rows : List EventRow) (project : Option String) (G : TraceGroup) :
    Except TraceError TraceSummary :=
  (readSummary checks G).map (withModels rows project)

/-- The listed summary of a trace. -/
def listedSummary (rows : List EventRow) (project : Option String)
    (g : String × List EventRow) : TraceSummary :=
  withModels rows project (groupSummary g)

theorem readTrace_eq_ok_iff {g : String × List EventRow} (h : g.2 ≠ []) {s : TraceSummary} :
    readTrace checks rows project (exactGroup g) = .ok s ↔
      GroupReadable checks g.2 ∧ s = listedSummary rows project g := by
  unfold readTrace listedSummary
  rw [Traverse.map_eq_ok_iff]
  simp only [readSummary_exactGroup_iff h]
  constructor
  · rintro ⟨_, ⟨hread, rfl⟩, rfl⟩
    exact ⟨hread, rfl⟩
  · rintro ⟨hread, rfl⟩
    exact ⟨_, ⟨hread, rfl⟩, rfl⟩

/-- The end of a readable group is written as the text it was read from. -/
theorem groupSummary_endedAt {g : String × List EventRow} (h : g.2 ≠ [])
    (hyears : ∀ r ∈ g.2, FourDigitYear r.ts) :
    FourDigitYear (groupSummary g).endedAt ∧
      fmtTs (groupSummary g).endedAt = (exactGroup g).ended := by
  rcases exists_ended h with ⟨r, hr, htext, -⟩
  have hended : (groupSummary g).endedAt = r.ts := by
    have hparse := (parse_ended h hyears (t := r.ts)).1
    rw [htext, parseTsOrError_eq_ok_iff] at hparse
    exact (hparse ⟨hyears r hr, rfl⟩).symm
  rw [hended]
  exact ⟨hyears r hr, htext.symm⟩

/-! ## Pages -/

/-- A page of the groups below a cursor, when every sum fits. -/
theorem tracePager_eq_ok_iff {limit : UInt64}
    (hfits : ∀ g ∈ tracesInScope rows project filter.since, TokenSumsFit g.2) {c : Option String}
    {key : Option (String ×ₗ String)} (hkey : decodeCursor c = .ok key)
    {page : List TraceSummary × Option String} :
    tracePager checks rows project filter limit c = .ok page ↔
      ((sqlFetch limit (Keyset.newestFirst traceGroupKey (belowCursor traceGroupKey key
        ((matchingTraces rows project filter).map exactGroup)))).mapM
          (readTrace checks rows project)).map (cutPage limit traceCursor) = .ok page := by
  have hgroups : (tracesInScope rows project filter.since).mapM traceGroup =
      .ok ((tracesInScope rows project filter.since).map exactGroup) :=
    (Traverse.mapM_eq_map_iff fun _ _ => traceGroup_eq_ok_iff).2 ⟨hfits, rfl⟩
  have hmatching : ((tracesInScope rows project filter.since).map exactGroup).filter
      filter.having = (matchingTraces rows project filter).map exactGroup := by
    rw [List.filter_map]
    rfl
  unfold tracePager listTraceSummariesFiltered
  simp only [hkey, hgroups, Except.mapError]
  simp only [bind, Except.bind]
  have hhaving : ({ filter with cursor := c } : TraceFilter).having = filter.having := rfl
  rw [hhaving, hmatching]
  set fetched := sqlFetch limit (Keyset.newestFirst traceGroupKey (belowCursor traceGroupKey key
    ((matchingTraces rows project filter).map exactGroup)))
  rw [Traverse.map_eq_ok_iff, Traverse.map_eq_ok_iff]
  -- one pass reads what the two passes read, and the models change no cursor
  have hcut : ∀ ss : List TraceSummary, cutPage limit traceCursor (ss.map (withModels rows project))
      = ((cutPage limit traceCursor ss).1.map (withModels rows project),
        (cutPage limit traceCursor ss).2) :=
    fun ss => cutPage_map limit traceCursor (withModels rows project) ss
  have hpass : ∀ ss : List TraceSummary, fetched.mapM (readTrace checks rows project) = .ok ss ↔
      ∃ ss', fetched.mapM mapTraceSummary >>= (fun raws => raws.mapM (traceSummaryFromRaw checks)) =
        .ok ss' ∧ ss = ss'.map (withModels rows project) := by
    intro ss
    simp only [Traverse.mapM_mapM_iff]
    exact Traverse.mapM_map_iff
  constructor
  · rintro ⟨p, hp, rfl⟩
    cases hraws : fetched.mapM mapTraceSummary with
    | error e => simp [hraws] at hp
    | ok raws =>
      cases hss : raws.mapM (traceSummaryFromRaw checks) with
      | error e => simp [hraws, hss] at hp
      | ok ss =>
        simp only [hraws, hss, pure, Except.pure, Except.ok.injEq] at hp
        refine ⟨ss.map (withModels rows project), (hpass _).2 ⟨ss, ?_, rfl⟩, ?_⟩
        · simp [hraws, hss, bind, Except.bind]
        · rw [hcut, ← hp]
  · rintro ⟨ss', hss', rfl⟩
    rcases (hpass ss').1 hss' with ⟨ss, hss, rfl⟩
    rcases Traverse.bind_eq_ok_iff.1 hss with ⟨raws, hraws, hread⟩
    refine ⟨_, by simp only [hraws, hread]; rfl, ?_⟩
    rw [hcut]

/-- A page starts where its cursor stands. -/
theorem tracePager_at {limit : UInt64} (hlimit : limit.toNat + 1 < 2 ^ 63)
    (hfits : ∀ g ∈ tracesInScope rows project filter.since, TokenSumsFit g.2)
    {pre rest : List TraceGroup}
    (hlisting : Keyset.newestFirst traceGroupKey
      ((matchingTraces rows project filter).map exactGroup) = pre ++ rest)
    {c : Option String} (hc : Keyset.CursorAt (readTrace checks rows project) traceCursor pre c)
    {page : List TraceSummary × Option String} :
    tracePager checks rows project filter limit c = .ok page ↔
      Keyset.takePage limit.toNat (readTrace checks rows project) traceCursor rest =
        .ok page := by
  have hkeys : (((matchingTraces rows project filter).map exactGroup).map traceGroupKey).Nodup := by
    rw [List.map_map]
    exact traceKeys_nodup rows project filter
  have hcursor : ∀ G ∈ (matchingTraces rows project filter).map exactGroup, ∀ s,
      readTrace checks rows project G = .ok s →
        decodeCursor (some (traceCursor s)) = .ok (some (traceGroupKey G)) := by
    intro G hG s hread
    rcases List.mem_map.1 hG with ⟨g, hg, rfl⟩
    have hne : g.2 ≠ [] := Group.ne_nil_of_mem_groupsBy (List.mem_filter.1 hg).1
    rcases (readTrace_eq_ok_iff hne).1 hread with ⟨hreadable, rfl⟩
    unfold traceGroupKey
    rw [← (groupSummary_endedAt hne hreadable.years).2]
    exact decodeCursor_encode (groupSummary g).endedAt g.1
  rcases decodeCursor_at hkeys hcursor hlisting hc with ⟨key, hkey, hbelow⟩
  rw [tracePager_eq_ok_iff hfits hkey, hbelow, cutPage_mapM hlimit]

/-- Where some sum does not fit there is no page. -/
theorem tracePager_first_error {limit : UInt64} {page : List TraceSummary × Option String}
    (h : tracePager checks rows project filter limit none = .ok page) :
    ∀ g ∈ tracesInScope rows project filter.since, TokenSumsFit g.2 := by
  unfold tracePager listTraceSummariesFiltered at h
  simp only [Traverse.map_eq_ok_iff, Traverse.bind_eq_ok_iff, Traverse.mapError_eq_ok_iff] at h
  rcases h with ⟨_, ⟨_, -, groups, hgroups, -⟩, -⟩
  exact ((Traverse.mapM_eq_map_iff fun _ _ => traceGroup_eq_ok_iff).1 hgroups).1

/-- **Following the cursors** of a trace listing yields every matching trace once, newest first,
exactly when the sums of all traces in scope fit and every matching trace can be read. -/
theorem tracePager_walk_iff {limit : UInt64} (hpos : 0 < limit.toNat)
    (hlimit : limit.toNat + 1 < 2 ^ 63) {xs : List TraceSummary} :
    Keyset.Walk (tracePager checks rows project filter limit) none xs ↔
      ((∀ g ∈ tracesInScope rows project filter.since, TokenSumsFit g.2) ∧
        ∀ g ∈ matchingTraces rows project filter, GroupReadable checks g.2) ∧
        xs = (traceListing rows project filter).map (listedSummary rows project) := by
  by_cases hfits : ∀ g ∈ tracesInScope rows project filter.since, TokenSumsFit g.2
  · rw [Keyset.walk_iff hpos fun pre rest hlisting c hc page =>
      tracePager_at hlimit hfits hlisting hc, Keyset.newestFirst_map, Traverse.mapM_of_map]
    have hread : ∀ g ∈ traceListing rows project filter, ∀ s,
        readTrace checks rows project (exactGroup g) = .ok s ↔
          GroupReadable checks g.2 ∧ s = listedSummary rows project g := by
      intro g hg s
      exact readTrace_eq_ok_iff (Group.ne_nil_of_mem_groupsBy (mem_traceListing.1 hg).1)
    have hmem : ∀ g, g ∈ traceListing rows project filter ↔
        g ∈ matchingTraces rows project filter := fun g => (Keyset.newestFirst_perm _).mem_iff
    have hpass : (traceListing rows project filter).mapM
        (fun g => readTrace checks rows project (exactGroup g)) = .ok xs ↔
          (∀ g ∈ traceListing rows project filter, GroupReadable checks g.2) ∧
            xs = (traceListing rows project filter).map (listedSummary rows project) :=
      Traverse.mapM_eq_map_iff_of_mem hread
    unfold traceListing at hpass hmem
    rw [hpass]
    simp only [hmem]
    constructor
    · intro h
      exact ⟨⟨hfits, h.1⟩, h.2⟩
    · intro h
      exact ⟨h.1.2, h.2⟩
  · constructor
    · intro hwalk
      rcases hwalk.exists_page with ⟨page, hpage⟩
      exact absurd (tracePager_first_error hpage) hfits
    · intro h
      exact absurd h.1.1 hfits

/-- Traces that can be read are in the order of their ends and ids. -/
theorem traceListing_chronological
    (hread : ∀ g ∈ matchingTraces rows project filter, GroupReadable checks g.2) :
    ((traceListing rows project filter).map (listedSummary rows project)).Pairwise fun a b =>
      b.endedAt < a.endedAt ∨ b.endedAt = a.endedAt ∧ b.traceId < a.traceId := by
  have hdesc := Keyset.newestFirst_descending (traceKeys_nodup rows project filter)
  have hended : ∀ g ∈ traceListing rows project filter,
      FourDigitYear (groupSummary g).endedAt ∧
        fmtTs (groupSummary g).endedAt = (exactGroup g).ended := by
    intro g hg
    rw [traceListing, (Keyset.newestFirst_perm _).mem_iff] at hg
    have hne : g.2 ≠ [] := Group.ne_nil_of_mem_groupsBy (List.mem_filter.1 hg).1
    exact groupSummary_endedAt hne (hread g hg).years
  rw [List.pairwise_map]
  refine List.Pairwise.imp_of_mem ?_ hdesc
  intro a b ha hb hlt
  rcases hended a ha with ⟨hyear, htext⟩
  rcases hended b hb with ⟨hyear', htext'⟩
  rcases (Prod.Lex.lt_iff).1 hlt with hts | ⟨hts, hid⟩
  · left
    refine (fmtTs_lt_iff hyear' hyear).1 ?_
    rw [htext, htext']
    exact hts
  · right
    exact ⟨fmtTs_inj hyear' hyear (htext'.trans (Eq.trans hts htext.symm)), hid⟩

end LightTrack
