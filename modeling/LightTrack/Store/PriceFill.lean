import LightTrack.Core.Pricing
import LightTrack.Store.CacheExact

/-! # Forward fill of unpriced rows

`fill` prices the rows of one `(provider, model)` whose cost is still NULL, a page
at a time, and stamps each row it writes.  Nothing else about a row changes.

* `filled_fill` : every row is left alone or priced from the book,
* `fill_fuel` : the loop has stopped long before its fuel runs out,
* `Bucket.Holds.fill` : a bucket that has loaded none of the rows the fill prices
  still holds.
-/

namespace LightTrack

/-- `metadata.cost_source` of a row priced after the fact. -/
def FILL_SOURCE : String := "book_fill"

/-- What a forward fill needs. -/
structure PriceFill where
  provider : String
  model : String
  book : PriceBook
  /-- `fmt_ts` of the instant stamped on every row written. -/
  pricedAt : String
  /-- Rows per transaction. -/
  page : Nat

/-- One stored row a fill is considering. -/
structure Candidate where
  id : String
  usage : TokenUsage
  tags : List String
  metadata : Json

namespace PriceFill

/-- The cost this fill assigns to one stored row. -/
def costFor (f : PriceFill) (usage : TokenUsage) (mode : PricingMode) : Option ℚ :=
  f.book.costUsdMode f.provider f.model usage mode

/-- Apply the provenance stamp; metadata that is no object is replaced by one. -/
def stamp (f : PriceFill) (metadata : Json) : Json :=
  let fields := match metadata with
    | .obj fields => fields
    | _ => []
  .obj (Json.insertKey "priced_at" (.str f.pricedAt)
    (Json.insertKey "cost_source" (.str FILL_SOURCE) fields))

/-- A row as the fill reads it. -/
def candidate (r : EventRow) : Candidate where
  id := r.id
  usage :=
    { input := EventRow.asU64 (max r.inputTokens 0)
      output := EventRow.asU64 (max r.outputTokens 0)
      cachedInput := r.cachedInputTokens.map fun v => EventRow.asU64 (max v 0)
      reasoning := r.reasoningTokens.map fun v => EventRow.asU64 (max v 0) }
  tags := r.tags
  metadata := r.metadata.getD .null

/-- `cost_usd IS NULL AND provider = ?1 AND model = ?2`. -/
def eligible (f : PriceFill) (r : EventRow) : Bool :=
  r.costUsd.isNone && r.provider == f.provider && r.model == f.model

/-- The next page of unpriced rows for this key. -/
def candidates (f : PriceFill) (t : EventTable) (page : Nat) : List Candidate :=
  ((t.rows.filter f.eligible).take page).map candidate

/-- What the book says about a candidate. -/
def price (f : PriceFill) (c : Candidate) : Option ℚ :=
  f.costFor c.usage (.fromHints c.metadata c.tags)

/-- `UPDATE events SET cost_usd, metadata WHERE id = ?3 AND cost_usd IS NULL`, on one row. -/
def updateRow (f : PriceFill) (c : Candidate) (cost : ℚ) (r : EventRow) : EventRow :=
  if r.id == c.id && r.costUsd.isNone then
    { r with costUsd := some cost, metadata := some (f.stamp c.metadata) }
  else r

theorem updateRow_rowid (f : PriceFill) (c : Candidate) (cost : ℚ) (r : EventRow) :
    (f.updateRow c cost r).rowid = r.rowid := by
  unfold updateRow
  split_ifs <;> rfl

theorem updateRow_id (f : PriceFill) (c : Candidate) (cost : ℚ) (r : EventRow) :
    (f.updateRow c cost r).id = r.id := by
  unfold updateRow
  split_ifs <;> rfl

/-- Price and write one page. -/
def writePage (f : PriceFill) : List Candidate → EventTable → EventTable × Nat
  | [], t => (t, 0)
  | c :: batch, t =>
    match f.price c with
    | none => writePage f batch t
    | some cost =>
      let hit := (t.rows.filter fun r => r.id == c.id && r.costUsd.isNone).length
      let (t', wrote) := writePage f batch
        (t.mapRows (f.updateRow c cost) (f.updateRow_rowid c cost) (f.updateRow_id c cost))
      (t', hit + wrote)

/-- The paging loop. -/
def loop (f : PriceFill) (page : Nat) : Nat → EventTable → Nat → EventTable × Nat
  | 0, t, filled => (t, filled)
  | fuel + 1, t, filled =>
    let batch := f.candidates t page
    if batch.isEmpty then (t, filled)
    else
      let (t', wrote) := f.writePage batch t
      -- a page that priced nothing would come back unchanged
      if wrote = 0 ∨ batch.length < page then (t', filled + wrote)
      else loop f page fuel t' (filled + wrote)

/-- `price_fill::fill`: the table after the fill and the number of rows written. -/
def fill (f : PriceFill) (t : EventTable) : EventTable × Nat :=
  f.loop (max f.page 1) (t.rows.length + 1) t 0

/-! ## What a fill does to a row -/

/-- The row a fill writes over `r`. -/
def priced (f : PriceFill) (cost : ℚ) (r : EventRow) : EventRow :=
  { r with costUsd := some cost, metadata := some (f.stamp (r.metadata.getD .null)) }

/-- A row is left alone, or it had no cost and is priced from the book. -/
def Rewrites (f : PriceFill) (r r' : EventRow) : Prop :=
  r' = r ∨ f.eligible r = true ∧ ∃ cost, f.price (candidate r) = some cost ∧ r' = f.priced cost r

/-- Every row of `t` is left alone or priced in `t'`. -/
def Filled (f : PriceFill) (t t' : EventTable) : Prop :=
  ∃ g : EventRow → EventRow, t'.rows = t.rows.map g ∧ ∀ r ∈ t.rows, f.Rewrites r (g r)

theorem Filled.refl (f : PriceFill) (t : EventTable) : f.Filled t t :=
  ⟨id, by simp, fun _ _ => .inl rfl⟩

/-- A row that was priced is not priced again. -/
theorem Rewrites.trans {f : PriceFill} {r r' r'' : EventRow} (h : f.Rewrites r r')
    (h' : f.Rewrites r' r'') : f.Rewrites r r'' := by
  rcases h with rfl | ⟨hel, cost, hcost, rfl⟩
  · exact h'
  · rcases h' with rfl | ⟨hel', -⟩
    · exact .inr ⟨hel, cost, hcost, rfl⟩
    · simp [eligible, priced] at hel'

theorem Filled.trans {f : PriceFill} {t t' t'' : EventTable} (h : f.Filled t t')
    (h' : f.Filled t' t'') : f.Filled t t'' := by
  obtain ⟨g, hg, hr⟩ := h
  obtain ⟨g', hg', hr'⟩ := h'
  refine ⟨g' ∘ g, by rw [hg', hg, List.map_map], fun r hmem => ?_⟩
  refine (hr r hmem).trans (hr' (g r) ?_)
  rw [hg]
  exact List.mem_map_of_mem hmem

/-- Rows of a table with the same id are the same row. -/
theorem eq_of_id_eq {t : EventTable} {r r' : EventRow} (hr : r ∈ t.rows) (hr' : r' ∈ t.rows)
    (h : r.id = r'.id) : r = r' :=
  List.inj_on_of_nodup_map t.ids hr hr' h

theorem filled_writePage {f : PriceFill} {t₀ : EventTable} (batch : List Candidate)
    (hbatch : ∀ c ∈ batch, ∃ r ∈ t₀.rows, f.eligible r = true ∧ c = candidate r)
    {t : EventTable} (ht : f.Filled t₀ t) : f.Filled t₀ (f.writePage batch t).1 := by
  induction batch generalizing t with
  | nil => exact ht
  | cons c batch ih =>
    have hrest := fun c' hc' => hbatch c' (List.mem_cons_of_mem _ hc')
    unfold writePage
    cases hcost : f.price c with
    | none => exact ih hrest ht
    | some cost =>
      refine ih hrest ?_
      obtain ⟨g, hg, hrew⟩ := ht
      obtain ⟨rc, hrc, hel, rfl⟩ := hbatch c (List.mem_cons_self ..)
      refine ⟨f.updateRow (candidate rc) cost ∘ g, ?_, fun r hr => ?_⟩
      · simp only [EventTable.mapRows, hg, List.map_map]
      · have hgr := hrew r hr
        simp only [Function.comp_apply, updateRow]
        split_ifs with hhit
        · -- a row hit while its cost is NULL is still the row the page was read from
          obtain ⟨hid, hnone⟩ := Bool.and_eq_true_iff.1 hhit
          rcases hgr with hgr | ⟨-, cost', -, hgr⟩
          · have hrr : rc = r := by
              refine eq_of_id_eq hrc hr ?_
              rw [hgr] at hid
              exact (by simpa [candidate] using hid : r.id = rc.id).symm
            refine .inr ⟨hrr ▸ hel, cost, hrr ▸ hcost, ?_⟩
            rw [hgr, hrr]
            rfl
          · simp [hgr, priced] at hnone
        · exact hgr

theorem candidates_spec {f : PriceFill} {t : EventTable} {page : Nat} :
    ∀ c ∈ f.candidates t page, ∃ r ∈ t.rows, f.eligible r = true ∧ c = candidate r := by
  intro c hc
  obtain ⟨r, hr, rfl⟩ := List.mem_map.1 hc
  obtain ⟨hmem, hel⟩ := List.mem_filter.1 (List.mem_of_mem_take hr)
  exact ⟨r, hmem, hel, rfl⟩

theorem filled_loop (f : PriceFill) (page fuel : Nat) (t : EventTable) (filled : Nat) :
    f.Filled t (f.loop page fuel t filled).1 := by
  induction fuel generalizing t filled with
  | zero => exact .refl f t
  | succ fuel ih =>
    have hpage : f.Filled t (f.writePage (f.candidates t page) t).1 :=
      filled_writePage _ candidates_spec (.refl f t)
    unfold loop
    simp only
    split_ifs
    · exact .refl f t
    · exact hpage
    · exact hpage.trans (ih _ _)

/-- **A fill leaves every row alone or prices it from the book.** -/
theorem filled_fill (f : PriceFill) (t : EventTable) : f.Filled t (f.fill t).1 :=
  filled_loop ..

/-! ## The loop stops by itself -/

/-- How many rows carry no cost. -/
def unpriced (rows : List EventRow) : Nat := (rows.filter fun r => r.costUsd.isNone).length

/-- An update prices exactly the rows it hits. -/
theorem unpriced_updateRow (f : PriceFill) (c : Candidate) (cost : ℚ) (rows : List EventRow) :
    unpriced (rows.map (f.updateRow c cost)) +
        (rows.filter fun r => r.id == c.id && r.costUsd.isNone).length = unpriced rows := by
  unfold unpriced
  induction rows with
  | nil => rfl
  | cons r rows ih =>
    rw [List.map_cons]
    by_cases hnone : r.costUsd.isNone = true
    · by_cases hid : r.id = c.id
      · have hup : (f.updateRow c cost r).costUsd.isNone = false := by simp [updateRow, hid, hnone]
        rw [List.filter_cons_of_neg (by simp [hup]), List.filter_cons_of_pos (by simp [hid, hnone]),
          List.filter_cons_of_pos (by simpa using hnone)]
        simp only [List.length_cons]
        omega
      · have hup : f.updateRow c cost r = r := by simp [updateRow, hid]
        rw [hup, List.filter_cons_of_pos (by simpa using hnone),
          List.filter_cons_of_neg (by simp [hid]), List.filter_cons_of_pos (by simpa using hnone)]
        simp only [List.length_cons]
        omega
    · have hup : f.updateRow c cost r = r := by simp [updateRow, hnone]
      rw [hup, List.filter_cons_of_neg (by simpa using hnone),
        List.filter_cons_of_neg (by simp [hnone]), List.filter_cons_of_neg (by simpa using hnone)]
      exact ih

theorem unpriced_writePage (f : PriceFill) (batch : List Candidate) (t : EventTable) :
    unpriced (f.writePage batch t).1.rows + (f.writePage batch t).2 = unpriced t.rows := by
  induction batch generalizing t with
  | nil => rfl
  | cons c batch ih =>
    unfold writePage
    cases f.price c with
    | none => exact ih t
    | some cost =>
      have hstep := unpriced_updateRow f c cost t.rows
      have hih := ih (t.mapRows (f.updateRow c cost) (f.updateRow_rowid c cost)
        (f.updateRow_id c cost))
      simp only [EventTable.mapRows] at hih ⊢
      omega

theorem loop_succ (f : PriceFill) (page : Nat) {fuel : Nat} {t : EventTable} (filled : Nat)
    (h : unpriced t.rows < fuel) : f.loop page (fuel + 1) t filled = f.loop page fuel t filled := by
  induction fuel generalizing t filled with
  | zero => omega
  | succ fuel ih =>
    have hcount := unpriced_writePage f (f.candidates t page) t
    unfold loop
    simp only
    split_ifs with hempty hstop
    · rfl
    · rfl
    · exact ih _ (by omega)

/-- **The loop has stopped before its fuel runs out**: more fuel changes nothing. -/
theorem fill_fuel (f : PriceFill) (t : EventTable) (extra : Nat) :
    f.loop (max f.page 1) (t.rows.length + 1 + extra) t 0 = f.fill t := by
  have hle : unpriced t.rows ≤ t.rows.length := List.length_filter_le ..
  induction extra with
  | zero => rfl
  | succ extra ih => rw [← ih, ← add_assoc, loop_succ f _ 0 (by omega)]

/-! ## What a fill keeps -/

/-- The stamp leaves the members it does not own as they were. -/
theorem get_stamp {key : String} (hsource : key ≠ "cost_source") (hat : key ≠ "priced_at")
    (f : PriceFill) (metadata : Json) : (f.stamp metadata).get key = metadata.get key := by
  cases metadata with
  | obj fields =>
    simp [stamp, Json.lookup_insertKey_of_ne hsource, Json.lookup_insertKey_of_ne hat]
  | _ => simp [stamp, Json.get, Json.lookup_insertKey_of_ne hsource, Json.lookup_insertKey_of_ne hat]

theorem get_stamp_costSource (f : PriceFill) (metadata : Json) :
    (f.stamp metadata).get "cost_source" = some (.str FILL_SOURCE) := by
  unfold stamp
  rw [Json.get_obj, Json.lookup_insertKey_of_ne (by decide), Json.lookup_insertKey_self]

/-- Metadata that is NULL reads like the JSON value `null`. -/
theorem bind_get_getD (metadata : Option Json) (key : String) :
    metadata.bind (Json.get key) = (metadata.getD .null).get key := by
  cases metadata <;> rfl

theorem jsonExtract_priced {key : String} (hsource : key ≠ "cost_source") (hat : key ≠ "priced_at")
    (f : PriceFill) (cost : ℚ) (r : EventRow) :
    jsonExtract (f.priced cost r).metadata key = jsonExtract r.metadata key := by
  unfold jsonExtract priced
  rw [bind_get_getD, bind_get_getD, Option.getD_some, get_stamp hsource hat]

/-- A rewritten row keeps what it is matched and measured on. -/
theorem Rewrites.keeps {f : PriceFill} {r r' : EventRow} (h : f.Rewrites r r') :
    r'.rowid = r.rowid ∧ r'.projectId = r.projectId ∧ r'.windowTs = r.windowTs ∧
      r'.scopeDims = r.scopeDims := by
  rcases h with rfl | ⟨-, cost, -, rfl⟩
  · exact ⟨rfl, rfl, rfl, rfl⟩
  · refine ⟨rfl, rfl, rfl, ?_⟩
    unfold EventRow.scopeDims
    rw [jsonExtract_priced (by decide) (by decide), jsonExtract_priced (by decide) (by decide)]
    rfl

theorem Rewrites.inKey {f : PriceFill} {r r' : EventRow} (h : f.Rewrites r r') (project : String)
    (scope : Option LimitScope) : inKey project scope r' = inKey project scope r := by
  obtain ⟨-, hproj, -, hdims⟩ := h.keeps
  rw [LightTrack.inKey, LightTrack.inKey, hproj, hdims]

/-- A rewritten row still loads. -/
theorem Rewrites.loadable {f : PriceFill} {r r' : EventRow} (h : f.Rewrites r r')
    (hr : r.Loadable) : r'.Loadable := by
  rcases h with rfl | ⟨-, cost, -, rfl⟩
  · exact hr
  · refine ⟨hr.tokens, ?_, ?_, ?_⟩
    · have htext : jsonExtract (f.priced cost r).metadata "cost_source" = .text FILL_SOURCE := by
        unfold jsonExtract priced
        rw [bind_get_getD, Option.getD_some, get_stamp_costSource]
      exact .inr ⟨_, htext⟩
    · rw [jsonExtract_priced (by decide) (by decide)]
      exact hr.apiKeyId
    · rw [jsonExtract_priced (by decide) (by decide)]
      exact hr.customerId

end PriceFill

namespace Bucket

/-- A fill that prices no row the bucket has loaded and can still count leaves the bucket
holding. -/
theorem Holds.fill {t : EventTable} {project : String} {scope : Option LimitScope} {start : Time}
    {b : Bucket} (hb : b.Holds t.rows project scope start) (f : PriceFill)
    (hspare : ∀ r ∈ t.rows, ∀ r' ∈ (f.fill t).1.rows, r'.rowid = r.rowid → r'.costUsd ≠ r.costUsd →
      inKey project scope r = true → start ≤ r.windowTs → b.seenRowid < r.rowid) :
    b.Holds (f.fill t).1.rows project scope start := by
  obtain ⟨g, hg, hrew⟩ := f.filled_fill t
  have hrowids : (t.rows.map g).map EventRow.rowid = t.rows.map EventRow.rowid := by
    rw [List.map_map]
    exact List.map_congr_left fun r hr => (hrew r hr).keeps.1
  have hmax : EventTable.maxRowid (f.fill t).1.rows = EventTable.maxRowid t.rows := by
    rw [hg, EventTable.maxRowid, EventTable.maxRowid, hrowids]
  refine ⟨hmax ▸ hb.seen_le, hb.keys_le, hb.total_eq, fun s hs => ?_⟩
  rw [hb.kept s hs, hg, seenUsage, seenUsage, usageOf_map]
  refine usageOf_congr fun r hr => ?_
  obtain ⟨hid, -, hts, -⟩ := (hrew r hr).keeps
  refine ⟨?_, fun hkeep => ?_⟩
  · simp only [Function.comp_apply, hid, hts, (hrew r hr).inKey]
  · -- a row that counts was not priced, or the bucket would not have loaded it yet
    simp only [Bool.and_eq_true, decide_eq_true_eq] at hkeep
    obtain ⟨hseen, hin, hst⟩ := hkeep
    have hmem : g r ∈ (f.fill t).1.rows := hg ▸ List.mem_map_of_mem hr
    rcases hrew r hr with heq | ⟨hel, cost, -, heq⟩
    · rw [Function.comp_apply, heq]
    · have hne : (g r).costUsd ≠ r.costUsd := by
        rw [heq]
        simp only [PriceFill.eligible, Bool.and_eq_true, Option.isNone_iff_eq_none] at hel
        simp [PriceFill.priced, hel.1.1]
      have hlt := hspare r hr (g r) hmem hid hne hin (hs.trans hst)
      exact absurd hseen (not_le.2 hlt)

end Bucket

end LightTrack
