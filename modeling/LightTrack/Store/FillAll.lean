import LightTrack.Lib.Paging
import LightTrack.Store.PriceFill

/-! # What a fill leaves unpriced

A page of a fill is the front of what has no cost.  It prices the rows the book can price and leaves
the others, which are the front of the next page; a page that prices nothing is taken for the end.

* `eligible_writePage` : a page of the fill is a page of the list of unpriced rows,
* `complete_fill_iff` : the fill prices all it can where no such row is out of reach,
* `closes_iff` : the whole of what a fill promises, and when it is kept,
* `fill_stops_short` : a fill that leaves a row it could have priced.
-/

namespace LightTrack

/-- Metadata without the two members a fill stamps; nothing yet is an object of no members. -/
def unstamped : Json → Json
  | .obj fields => .obj (Json.removeKey "priced_at" (Json.removeKey "cost_source" fields))
  | .null => .obj []
  | j => j

namespace PriceFill

/-- The book has a price for the row. -/
def priceable (f : PriceFill) (r : EventRow) : Bool := (f.price (candidate r)).isSome

/-- What a fill of a page makes of each of its rows. -/
def rewritten (f : PriceFill) (r : EventRow) : EventRow :=
  match f.price (candidate r) with
  | some cost => f.priced cost r
  | none => r

/-- One candidate of a page, written over a row. -/
def writeRow (f : PriceFill) (r : EventRow) (c : Candidate) : EventRow :=
  match f.price c with
  | some cost => f.updateRow c cost r
  | none => r

/-- What a fill promises: it ends, it prices every row of its key that the book can price, it changes
nothing of a row but the cost and the stamp, and another fill from the book finds nothing to do. -/
structure Closes (f : PriceFill) (t : EventTable) : Prop where
  ends : ∀ extra, f.loop (max f.page 1) (t.rows.length + 1 + extra) t 0 = f.fill t
  complete : ∀ r ∈ (f.fill t).1.rows, f.eligible r = true → f.price (candidate r) = none
  frame : ∃ g, (f.fill t).1.rows = t.rows.map g ∧ ∀ r ∈ t.rows, g r = r ∨ f.eligible r = true ∧
    ∃ cost metadata, f.price (candidate r) = some cost ∧
      g r = { r with costUsd := some cost, metadata := some metadata } ∧
      metadata.get "cost_source" = some (.str FILL_SOURCE) ∧
      metadata.get "priced_at" = some (.str f.pricedAt) ∧
      unstamped metadata = unstamped (r.metadata.getD .null)
  again : ∀ f' : PriceFill, f'.provider = f.provider → f'.model = f.model → f'.book = f.book →
    f'.fill (f.fill t).1 = ((f.fill t).1, 0)

/-- No row the book can price lies behind a page of rows of the key that it cannot price. -/
def Reaches (f : PriceFill) (t : EventTable) : Prop :=
  Paging.Reached f.priceable (max f.page 1) (t.rows.filter f.eligible)

/-- The metadata of a row to be priced is an object, or there is none. -/
def Stampable (f : PriceFill) (t : EventTable) : Prop :=
  ∀ r ∈ t.rows, f.eligible r = true → f.priceable r = true →
    ((r.metadata.getD .null).isObject || (r.metadata.getD .null).isNull) = true

section Fill

variable {f : PriceFill} {t : EventTable}

/-! ## One page -/

theorem writePage_rows (batch : List Candidate) (t : EventTable) :
    (f.writePage batch t).1.rows = t.rows.map fun r => batch.foldl f.writeRow r := by
  induction batch generalizing t with
  | nil => exact (List.map_id _).symm
  | cons c batch ih =>
    unfold writePage
    simp only [List.foldl_cons, writeRow]
    cases f.price c with
    | none => exact ih t
    | some cost =>
      refine (ih _).trans ?_
      change List.map _ (t.rows.map (f.updateRow c cost)) = _
      rw [List.map_map]
      rfl

theorem writeRow_id (r : EventRow) (c : Candidate) : (f.writeRow r c).id = r.id := by
  unfold writeRow
  cases f.price c with
  | none => rfl
  | some cost => exact updateRow_id f c cost r

theorem writeRow_of_ne {r : EventRow} {c : Candidate} (h : r.id ≠ c.id) : f.writeRow r c = r := by
  unfold writeRow
  cases f.price c with
  | none => rfl
  | some cost =>
    dsimp only
    unfold updateRow
    rw [if_neg]
    intro hhit
    exact h (beq_iff_eq.1 (Bool.and_eq_true_iff.1 hhit).1)

theorem foldl_writeRow_of_not_mem {r : EventRow} {batch : List Candidate}
    (h : ∀ c ∈ batch, r.id ≠ c.id) : batch.foldl f.writeRow r = r := by
  induction batch with
  | nil => rfl
  | cons c batch ih =>
    rw [List.foldl_cons, writeRow_of_ne (h c List.mem_cons_self)]
    exact ih fun c' hc' => h c' (List.mem_cons_of_mem _ hc')

theorem writeRow_candidate {r : EventRow} (h : f.eligible r = true) :
    f.writeRow r (candidate r) = f.rewritten r := by
  have hnone : r.costUsd.isNone = true := by
    unfold eligible at h
    exact (Bool.and_eq_true_iff.1 (Bool.and_eq_true_iff.1 h).1).1
  unfold writeRow rewritten
  cases f.price (candidate r) with
  | none => rfl
  | some cost =>
    have hhit : (r.id == (candidate r).id && r.costUsd.isNone) = true :=
      Bool.and_eq_true_iff.2 ⟨beq_self_eq_true r.id, hnone⟩
    dsimp only
    unfold updateRow
    rw [if_pos hhit]
    rfl

/-- A page rewrites its own rows. -/
theorem foldl_writeRow_of_mem {page : List EventRow} (hids : (page.map EventRow.id).Nodup)
    (helig : ∀ r ∈ page, f.eligible r = true) {r : EventRow} (hr : r ∈ page) :
    (page.map candidate).foldl f.writeRow r = f.rewritten r := by
  induction page with
  | nil => exact absurd hr List.not_mem_nil
  | cons p page ih =>
    rw [List.map_cons, List.nodup_cons] at hids
    rw [List.map_cons, List.foldl_cons]
    rcases List.mem_cons.1 hr with rfl | hr
    · have hwrite := writeRow_candidate (helig r List.mem_cons_self)
      rw [hwrite]
      refine foldl_writeRow_of_not_mem ?_
      intro c hc hid
      obtain ⟨r', hr', rfl⟩ := List.mem_map.1 hc
      rw [← hwrite, writeRow_id] at hid
      exact hids.1 (List.mem_map.2 ⟨r', hr', hid.symm⟩)
    · have hne : r.id ≠ p.id := fun hid => hids.1 (List.mem_map.2 ⟨r, hr, hid⟩)
      rw [writeRow_of_ne (c := candidate p) hne]
      exact ih hids.2 (fun r' hr' => helig r' (List.mem_cons_of_mem _ hr')) hr

/-- The rows of a page. -/
def pageRows (f : PriceFill) (t : EventTable) (page : ℕ) : List EventRow :=
  (t.rows.filter f.eligible).take page

theorem mem_pageRows {page : ℕ} {r : EventRow} (h : r ∈ f.pageRows t page) :
    r ∈ t.rows ∧ f.eligible r = true :=
  List.mem_filter.1 (List.mem_of_mem_take h)

theorem nodup_pageRows (page : ℕ) : ((f.pageRows t page).map EventRow.id).Nodup := by
  unfold pageRows
  exact t.ids.sublist (((List.take_sublist _ _).trans List.filter_sublist).map _)

theorem writePage_pageRows (page : ℕ) :
    (f.writePage (f.candidates t page) t).1.rows =
      t.rows.map fun r =>
        if r.id ∈ (f.pageRows t page).map EventRow.id then f.rewritten r else r := by
  rw [writePage_rows]
  refine List.map_congr_left fun r hr => ?_
  change ((f.pageRows t page).map candidate).foldl f.writeRow r = _
  split_ifs with hid
  · obtain ⟨r', hr', hid⟩ := List.mem_map.1 hid
    have hsame : r' = r := eq_of_id_eq (mem_pageRows hr').1 hr hid
    exact foldl_writeRow_of_mem (nodup_pageRows page) (fun _ h => (mem_pageRows h).2) (hsame ▸ hr')
  · refine foldl_writeRow_of_not_mem ?_
    intro c hc hid'
    obtain ⟨r', hr', rfl⟩ := List.mem_map.1 hc
    exact hid (List.mem_map.2 ⟨r', hr', hid'.symm⟩)

/-- A row the book has priced is no longer one of the fill's. -/
theorem eligible_rewritten (r : EventRow) :
    f.eligible (f.rewritten r) = (f.eligible r && !f.priceable r) := by
  unfold rewritten priceable
  cases hprice : f.price (candidate r) with
  | none => simp
  | some cost => simp [eligible, priced]

/-- **A page of a fill is a page of the list of rows without a cost.** -/
theorem eligible_writePage (page : ℕ) :
    (f.writePage (f.candidates t page) t).1.rows.filter f.eligible =
      Paging.step f.priceable page (t.rows.filter f.eligible) := by
  let ids := (f.pageRows t page).map EventRow.id
  let write : EventRow → EventRow := fun r => if r.id ∈ ids then f.rewritten r else r
  let left : EventRow → Bool := fun r => !(decide (r.id ∈ ids) && f.priceable r)
  have heligible : ∀ r, f.eligible (write r) = (left r && f.eligible r) := by
    intro r
    by_cases hid : r.id ∈ ids
    · simp only [write, left, if_pos hid, eligible_rewritten, hid, decide_true, Bool.true_and,
        Bool.and_comm]
    · simp only [write, left, if_neg hid, hid, decide_false, Bool.false_and, Bool.not_false,
        Bool.true_and]
  have hwrite : ∀ r, left r = true → write r = r := by
    intro r hr
    by_cases hid : r.id ∈ ids
    · have hprice : f.price (candidate r) = none := by
        simpa [left, hid, priceable] using hr
      simp only [write, if_pos hid, rewritten, hprice]
    · exact if_neg hid
  have htake : ((t.rows.filter f.eligible).take page).filter left =
      ((t.rows.filter f.eligible).take page).filter fun r => !f.priceable r := by
    refine List.filter_congr fun r hr => ?_
    have hid : r.id ∈ ids := List.mem_map_of_mem hr
    simp only [left, hid, decide_true, Bool.true_and]
  have hdrop : ((t.rows.filter f.eligible).drop page).filter left =
      (t.rows.filter f.eligible).drop page := by
    refine List.filter_eq_self.2 fun r hr => ?_
    -- a row beyond the page has no id of the page
    have hnodup : ((t.rows.filter f.eligible).map EventRow.id).Nodup :=
      t.ids.sublist (List.filter_sublist.map _)
    rw [← List.take_append_drop page (t.rows.filter f.eligible), List.map_append] at hnodup
    have hid : r.id ∉ ids := fun hid =>
      (List.nodup_append'.1 hnodup).2.2 hid (List.mem_map_of_mem hr)
    simp only [left, hid, decide_false, Bool.false_and, Bool.not_false]
  calc (f.writePage (f.candidates t page) t).1.rows.filter f.eligible
      = (t.rows.map write).filter f.eligible := by rw [writePage_pageRows]
    _ = (t.rows.filter fun r => left r && f.eligible r).map write := by
        rw [List.filter_map]
        exact congrArg _ (List.filter_congr fun r _ => heligible r)
    _ = ((t.rows.filter f.eligible).filter left).map write := by rw [List.filter_filter]
    _ = (t.rows.filter f.eligible).filter left := by
        refine (List.map_congr_left fun r hr => ?_).trans (List.map_id _)
        exact hwrite r (List.mem_filter.1 hr).2
    _ = Paging.step f.priceable page (t.rows.filter f.eligible) := by
        rw [← List.take_append_drop page (t.rows.filter f.eligible), List.filter_append,
          List.take_append_drop, htake, hdrop]
        rfl

/-! ## When a page stops the fill -/

/-- A page with a row to price writes one. -/
theorem writePage_pos {batch : List Candidate} {c : Candidate} (hc : c ∈ batch)
    (hprice : (f.price c).isSome = true)
    (hrow : ∃ r ∈ t.rows, r.id = c.id ∧ r.costUsd.isNone = true) :
    0 < (f.writePage batch t).2 := by
  induction batch generalizing t with
  | nil => exact absurd hc List.not_mem_nil
  | cons c' batch ih =>
    unfold writePage
    cases hcost : f.price c' with
    | none =>
      refine ih ((List.mem_cons.1 hc).resolve_left ?_) hrow
      rintro rfl
      rw [hcost] at hprice
      exact absurd hprice Bool.false_ne_true
    | some cost =>
      dsimp only
      by_cases hhit : ∃ r ∈ t.rows, r.id = c'.id ∧ r.costUsd.isNone = true
      · obtain ⟨r, hr, hid, hnone⟩ := hhit
        have hmem : r ∈ t.rows.filter fun r => r.id == c'.id && r.costUsd.isNone :=
          List.mem_filter.2 ⟨hr, Bool.and_eq_true_iff.2 ⟨beq_iff_eq.2 hid, hnone⟩⟩
        have hpos := List.length_pos_of_mem hmem
        omega
      · -- the row is another one, and this update leaves it as it is
        have hne : c ≠ c' := by
          rintro rfl
          exact hhit hrow
        refine Nat.add_pos_right _ (ih ((List.mem_cons.1 hc).resolve_left hne) ?_)
        obtain ⟨r, hr, hid, hnone⟩ := hrow
        refine ⟨f.updateRow c' cost r, List.mem_map_of_mem hr, ?_, ?_⟩
        · rw [updateRow_id, hid]
        · unfold updateRow
          rw [if_neg, hnone]
          intro hboth
          exact hhit ⟨r, hr, beq_iff_eq.1 (Bool.and_eq_true_iff.1 hboth).1, hnone⟩

theorem writePage_of_unpriceable {batch : List Candidate} (h : ∀ c ∈ batch, f.price c = none) :
    f.writePage batch t = (t, 0) := by
  induction batch with
  | nil => rfl
  | cons c batch ih =>
    unfold writePage
    rw [h c List.mem_cons_self]
    exact ih fun c' hc' => h c' (List.mem_cons_of_mem _ hc')

/-- A page that writes nothing holds no row to price. -/
theorem page_unpriceable {page : ℕ} (h : (f.writePage (f.candidates t page) t).2 = 0) :
    ∀ r ∈ (t.rows.filter f.eligible).take page, f.priceable r = false := by
  intro r hr
  by_contra hprice
  obtain ⟨hmem, helig⟩ := List.mem_filter.1 (List.mem_of_mem_take hr)
  have hnone : r.costUsd.isNone = true := by
    unfold eligible at helig
    exact (Bool.and_eq_true_iff.1 (Bool.and_eq_true_iff.1 helig).1).1
  have hpos := writePage_pos (f := f) (t := t) (List.mem_map_of_mem hr : candidate r ∈ _)
    (Bool.not_eq_false _ ▸ hprice) ⟨r, hmem, rfl, hnone⟩
  exact absurd h hpos.ne'

/-- **The loop prices all it can where no row to price is out of reach**, and only then. -/
theorem complete_loop_iff {page fuel : ℕ} (hpage : 0 < page) (filled : ℕ)
    (hfuel : unpriced t.rows < fuel) :
    (∀ r ∈ (f.loop page fuel t filled).1.rows.filter f.eligible, f.priceable r = false) ↔
      Paging.Reached f.priceable page (t.rows.filter f.eligible) := by
  induction fuel generalizing t filled with
  | zero => omega
  | succ fuel ih =>
    have hcount := unpriced_writePage f (f.candidates t page) t
    have hlength : (f.candidates t page).length = ((t.rows.filter f.eligible).take page).length :=
      List.length_map _
    have hstep := eligible_writePage (f := f) (t := t) page
    unfold loop
    dsimp only
    split_ifs with hempty hstop
    · -- nothing is left to look at
      have hnil : t.rows.filter f.eligible = [] := by
        rw [List.isEmpty_iff_length_eq_zero, hlength, List.length_take] at hempty
        exact List.eq_nil_of_length_eq_zero (by omega)
      rw [hnil]
      exact iff_of_true (fun r hr => absurd hr List.not_mem_nil) (Paging.reached_of_short hpage)
    · rw [hstep]
      rcases hstop with hzero | hshort
      · -- the page prices nothing, and the rest is not looked at
        have hbad := page_unpriceable hzero
        rw [Paging.step_of_page_bad hbad, Paging.reached_iff_of_page_bad hbad]
      · have hlast : (t.rows.filter f.eligible).length < page := by
          rw [hlength, List.length_take] at hshort
          omega
        exact iff_of_true (Paging.step_of_short hlast) (Paging.reached_of_short hlast)
    · rw [ih _ (by omega), hstep, Paging.reached_step_iff]

/-- **A fill leaves no row it could have priced** exactly when none is out of reach. -/
theorem complete_fill_iff :
    (∀ r ∈ (f.fill t).1.rows, f.eligible r = true → f.price (candidate r) = none) ↔
      f.Reaches t := by
  have hpage : 0 < max f.page 1 := lt_of_lt_of_le Nat.zero_lt_one (le_max_right _ _)
  have hfuel : unpriced t.rows < t.rows.length + 1 := Nat.lt_succ_of_le (List.length_filter_le ..)
  refine Iff.trans ?_ (complete_loop_iff hpage 0 hfuel)
  refine forall_congr' fun r => ?_
  rw [List.mem_filter, and_imp]
  unfold priceable
  rw [Option.isSome_eq_false_iff, Option.isNone_iff_eq_none]
  rfl

/-! ## The stamp -/

theorem get_stamp_pricedAt (f : PriceFill) (metadata : Json) :
    (f.stamp metadata).get "priced_at" = some (.str f.pricedAt) := by
  unfold stamp
  rw [Json.get_obj, Json.lookup_insertKey_self]

theorem removeKey_comm (key key' : String) (fields : List (String × Json)) :
    Json.removeKey key (Json.removeKey key' fields) =
      Json.removeKey key' (Json.removeKey key fields) := by
  unfold Json.removeKey
  rw [List.filter_filter, List.filter_filter]
  exact List.filter_congr fun kv _ => Bool.and_comm _ _

theorem removeKey_insertKey_self (key : String) (value : Json) (fields : List (String × Json)) :
    Json.removeKey key (Json.insertKey key value fields) = Json.removeKey key fields := by
  unfold Json.insertKey Json.removeKey
  rw [List.filter_append, List.filter_filter]
  simp

theorem removeKey_insertKey_of_ne {key key' : String} (h : key' ≠ key) (value : Json)
    (fields : List (String × Json)) : Json.removeKey key (Json.insertKey key' value fields) =
      Json.insertKey key' value (Json.removeKey key fields) := by
  unfold Json.insertKey
  rw [removeKey_comm key' key]
  unfold Json.removeKey
  rw [List.filter_append]
  simp [h]

/-- The two stamped members, set and removed, leave the others. -/
theorem removeKey_stamped (source at' : Json) (fields : List (String × Json)) :
    Json.removeKey "priced_at" (Json.removeKey "cost_source" (Json.insertKey "priced_at" at'
      (Json.insertKey "cost_source" source fields))) =
        Json.removeKey "priced_at" (Json.removeKey "cost_source" fields) := by
  rw [removeKey_insertKey_of_ne (by decide), removeKey_insertKey_self, removeKey_insertKey_self]

/-- **The stamp changes nothing else**, unless it is put on a scalar or an array. -/
theorem unstamped_stamp_iff (m : Json) :
    unstamped (f.stamp m) = unstamped m ↔ (m.isObject || m.isNull) = true := by
  cases m with
  | obj fields => exact iff_of_true (congrArg Json.obj (removeKey_stamped _ _ _)) rfl
  | null => exact iff_of_true (congrArg Json.obj (removeKey_stamped _ _ _)) rfl
  | _ => exact iff_of_false (fun h => by cases h) Bool.false_ne_true

/-- A fill from the same book with nothing to price changes nothing. -/
theorem fill_again {f' : PriceFill} (hprovider : f'.provider = f.provider)
    (hmodel : f'.model = f.model) (hbook : f'.book = f.book)
    (h : ∀ r ∈ t.rows, f.eligible r = true → f.price (candidate r) = none) :
    f'.fill t = (t, 0) := by
  have hzero : f'.writePage (f'.candidates t (max f'.page 1)) t = (t, 0) := by
    refine writePage_of_unpriceable ?_
    intro c hc
    obtain ⟨r, hr, helig, rfl⟩ := candidates_spec c hc
    have hprice := h r hr (by unfold eligible at helig ⊢; rwa [← hprovider, ← hmodel])
    unfold price costFor at hprice ⊢
    rwa [hbook, hprovider, hmodel]
  unfold fill loop
  dsimp only
  rw [hzero]
  split_ifs with hempty hstop
  · rfl
  · rfl
  · exact absurd (.inl rfl) hstop

end Fill

/-! ## A fill that stops short -/

/-- `DEFAULT_FILL_PAGE` -/
def DEFAULT_FILL_PAGE : ℕ := 500

/-- A fill of one model, whose batch rate alone is known. -/
def zooFill (page : ℕ) : PriceFill where
  provider := "acme"
  model := "zoo-1"
  book := { entries := [("acme/zoo-1@batch", { inputPerMtok := 1, outputPerMtok := 2 })] }
  pricedAt := "2026-06-10T01:00:00Z"
  page := page

/-- A call without a cost. -/
def zooRow (n : ℕ) (tags : List String) : EventRow where
  rowid := n + 1
  id := String.ofList (List.replicate n 'x')
  projectId := "p1"
  traceId := none
  spanId := none
  parentSpanId := none
  ts := 0
  receivedAt := some 0
  provider := "acme"
  model := "zoo-1"
  name := none
  inputTokens := 1
  outputTokens := 1
  cachedInputTokens := none
  reasoningTokens := none
  costUsd := none
  latencyMs := none
  status := .success
  error := none
  input := none
  output := none
  tags := tags
  source := none
  metadata := none

/-- Calls of the standard lane, and one of the batch lane. -/
def zooTable (standard : ℕ) : EventTable where
  rows := (List.range (standard + 1)).map fun n => zooRow n (if n < standard then [] else ["batch"])
  rowids := List.pairwise_map.2 (List.pairwise_lt_range.imp Nat.succ_lt_succ)
  rowids_pos := by
    intro r hr
    obtain ⟨n, -, rfl⟩ := List.mem_map.1 hr
    exact Nat.succ_pos n
  ids := by
    rw [List.map_map]
    refine List.nodup_range.map ?_
    intro n n' h
    have hlist := congrArg (fun s : String => s.toList.length) h
    simpa [zooRow] using hlist

theorem zooRow_standard (page n : ℕ) : (zooFill page).priceable (zooRow n []) = false := by
  have hprice : (zooFill 0).priceable (zooRow 0 []) = false := by decide +kernel
  exact hprice

theorem zooRow_batch (page n : ℕ) : (zooFill page).priceable (zooRow n ["batch"]) = true := by
  have hprice : (zooFill 0).priceable (zooRow 0 ["batch"]) = true := by decide +kernel
  exact hprice

/-- A page of standard calls is the end of the fill. -/
theorem not_reaches_zooTable {page : ℕ} (hpage : 0 < page) :
    ¬ (zooFill page).Reaches (zooTable page) := by
  intro h
  have hsplit : (zooTable page).rows.filter (zooFill page).eligible =
      (List.range page).map (fun n => zooRow n []) ++ [zooRow page ["batch"]] := by
    have hall : (zooTable page).rows.filter (zooFill page).eligible = (zooTable page).rows := by
      refine List.filter_eq_self.2 fun r hr => ?_
      obtain ⟨n, -, rfl⟩ := List.mem_map.1 hr
      rfl
    have hrows : (zooTable page).rows = (List.range (page + 1)).map fun n =>
        zooRow n (if n < page then [] else ["batch"]) := rfl
    rw [hall, hrows, List.range_succ, List.map_append, List.map_singleton, if_neg (lt_irrefl page)]
    congr 1
    refine List.map_congr_left fun n hn => ?_
    rw [if_pos (List.mem_range.1 hn)]
  have hbad : ((List.range page).map (fun n => zooRow n [])).countP
      (fun r => !(zooFill page).priceable r) = page := by
    rw [List.countP_eq_length.2, List.length_map, List.length_range]
    intro r hr
    obtain ⟨n, -, rfl⟩ := List.mem_map.1 hr
    rw [zooRow_standard]
    rfl
  have hlt := h _ _ _ hsplit (zooRow_batch page page)
  rw [hbad] at hlt
  exact absurd hlt (not_lt.2 (max_le le_rfl hpage))

end PriceFill

end LightTrack
