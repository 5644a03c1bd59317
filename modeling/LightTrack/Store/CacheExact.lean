import LightTrack.Store.UsageCache

/-! # Exactness of a bucket

What a bucket has folded in, measured against the table: for every window start
that can still be asked, the contributions kept at or after it add up to those of
the rows the bucket has seen.  A read of such a bucket is the plain window scan,
and the bucket still holds afterwards, from the new window start on.
-/

namespace LightTrack

/-- Whether a row counts for a project and an optional scope. -/
def inKey (project : String) (scope : Option LimitScope) (r : EventRow) : Bool :=
  r.projectId == project && scopeMatches scope r.scopeDims

/-- The plain window scan: the contributions of the project's matching rows at or after the
window start, in exact arithmetic. -/
def windowUsage (rows : List EventRow) (project : String) (key : UsageKey) (now : Time) : Usage :=
  usageOf (fun r => inKey project key.2 r && decide (key.1.since now ≤ r.windowTs))
    EventRow.contribution rows

namespace Bucket

variable {project : String} {scope : Option LimitScope} {rows : List EventRow} {b : Bucket}

/-- The contribution of an item that lies at or after `s`. -/
def keptFrom (s : Time) (e : (Time ×ₗ Nat) × Usage) : Usage := if isOld s e.1 then 0 else e.2

/-- The contribution of a row a bucket has seen, for the window that starts at `s`. -/
def seenUsage (rows : List EventRow) (project : String) (scope : Option LimitScope) (seen : Nat)
    (s : Time) : Usage :=
  usageOf (fun r => decide (r.rowid ≤ seen) && (inKey project scope r && decide (s ≤ r.windowTs)))
    EventRow.contribution rows

/-- The bucket keeps, for every window start from `start` on, exactly the rows it has seen. -/
structure Holds (rows : List EventRow) (project : String) (scope : Option LimitScope)
    (start : Time) (b : Bucket) : Prop where
  seen_le : b.seenRowid ≤ EventTable.maxRowid rows
  keys_le : ∀ k ∈ b.items.keys, (ofLex k).2 ≤ b.seenRowid
  total_eq : b.total = b.items.weight Prod.snd
  kept : ∀ s, start ≤ s →
    b.items.weight (keptFrom s) = seenUsage rows project scope b.seenRowid s

theorem isOld_mono {s : Time} (a b : Time ×ₗ Nat) (hab : a < b) (hb : isOld s b = true) :
    isOld s a = true := by
  have hle : (ofLex a).1 ≤ (ofLex b).1 := by
    rcases Prod.Lex.lt_iff.1 hab with h | h
    · exact h.le
    · exact h.1.le
  simp only [isOld, decide_eq_true_eq] at hb ⊢
  exact lt_of_le_of_lt hle hb

/-! ## Folding rows in -/

/-- What one row adds to a key. -/
def added (project : String) (scope : Option LimitScope) (g : (Time ×ₗ Nat) × Usage → Usage)
    (r : EventRow) : Usage :=
  if inKey project scope r then g (toLex (r.windowTs, r.rowid), r.contribution) else 0

variable (project scope) in
/-- One row: the bucket moves past it and adds it if it counts for the key. -/
theorem fold_spec {r : EventRow} (hnew : b.seenRowid < r.rowid)
    (hkeys : ∀ k ∈ b.items.keys, (ofLex k).2 ≤ b.seenRowid) :
    (b.fold project scope r.loaded).seenRowid = r.rowid ∧
      (∀ k ∈ (b.fold project scope r.loaded).items.keys, (ofLex k).2 ≤ r.rowid) ∧
      (b.fold project scope r.loaded).total = b.total + added project scope Prod.snd r ∧
      ∀ g, (b.fold project scope r.loaded).items.weight g
        = b.items.weight g + added project scope g r := by
  have hold : ∀ k ∈ b.items.keys, (ofLex k).2 ≤ r.rowid := fun k hk =>
    (hkeys k hk).trans hnew.le
  by_cases hin : inKey project scope r = true
  · -- the row counts for this key
    obtain ⟨hproj, hscope⟩ := Bool.and_eq_true_iff.1 hin
    have hfold : b.fold project scope r.loaded =
        ⟨b.total.plus r.contribution,
          b.items.insert (toLex (r.windowTs, r.rowid)) r.contribution, r.rowid⟩ := by
      unfold fold
      have hp : (r.loaded.project != project) = false := by simpa [EventRow.loaded] using hproj
      simp only [hp, loaded_dims, hscope, loaded_contrib, Bool.not_true, if_neg, Bool.false_eq_true,
        not_false_eq_true]
      have hseen : (if b.seenRowid < r.loaded.rowid then r.loaded.rowid else b.seenRowid)
          = r.rowid := if_pos hnew
      rw [hseen]
      rfl
    have hfresh : toLex (r.windowTs, r.rowid) ∉ b.items.keys := fun hmem =>
      absurd (hkeys _ hmem) (not_le.2 hnew)
    rw [hfold]
    refine ⟨rfl, fun k hk => ?_, ?_, fun g => ?_⟩
    · rcases OrdMap.mem_keys_insert hk with rfl | hk
      · exact le_rfl
      · exact hold k hk
    · simp [added, hin, Usage.plus_eq_add]
    · rw [OrdMap.weight_insert hfresh, added, if_pos hin]
  · have hfold : b.fold project scope r.loaded = { b with seenRowid := r.rowid } := by
      have hseen : (if b.seenRowid < r.loaded.rowid then r.loaded.rowid else b.seenRowid)
          = r.rowid := if_pos hnew
      unfold fold
      simp only [hseen, loaded_dims]
      by_cases hp : r.projectId = project
      · have hs : scopeMatches scope r.scopeDims = false := by
          simpa [inKey, hp] using hin
        simp [EventRow.loaded, hp, hs]
      · simp [EventRow.loaded, hp]
    rw [hfold]
    refine ⟨rfl, hold, ?_, fun g => ?_⟩
    · simp [added, hin]
    · simp [added, hin]

variable (project scope) in
/-- A whole load: rows in increasing rowid order, all past the last one seen. -/
theorem foldl_spec {l : List EventRow} (hsorted : l.Pairwise (fun a b => a.rowid < b.rowid))
    (hnew : ∀ r ∈ l, b.seenRowid < r.rowid)
    (hkeys : ∀ k ∈ b.items.keys, (ofLex k).2 ≤ b.seenRowid) :
    let b' := (l.map EventRow.loaded).foldl (fold project scope) b
    b'.seenRowid = max b.seenRowid (EventTable.maxRowid l) ∧
      (∀ k ∈ b'.items.keys, (ofLex k).2 ≤ b'.seenRowid) ∧
      b'.total = b.total + (l.map (added project scope Prod.snd)).sum ∧
      ∀ g, b'.items.weight g = b.items.weight g + (l.map (added project scope g)).sum := by
  induction l generalizing b with
  | nil => simpa [EventTable.maxRowid] using hkeys
  | cons r l ih =>
    obtain ⟨hlt, hsorted⟩ := List.pairwise_cons.1 hsorted
    have hr := hnew r (List.mem_cons_self ..)
    obtain ⟨hseen, hkeys', htotal, hweight⟩ :=
      fold_spec project scope hr hkeys
    have hnext : ∀ r' ∈ l, (b.fold project scope r.loaded).seenRowid < r'.rowid := by
      intro r' hr'
      rw [hseen]
      exact hlt r' hr'
    obtain ⟨ihseen, ihkeys, ihtotal, ihweight⟩ := ih hsorted hnext (by rw [hseen]; exact hkeys')
    simp only [List.map_cons, List.foldl_cons, List.sum_cons]
    refine ⟨?_, ihkeys, ?_, fun g => ?_⟩
    · rw [ihseen, hseen]
      simp only [EventTable.maxRowid, List.map_cons, List.foldr_cons]
      omega
    · rw [ihtotal, htotal, add_assoc]
    · rw [ihweight g, hweight g, add_assoc]

/-! ## Loading -/

theorem added_keptFrom (s : Time) (r : EventRow) :
    added project scope (keptFrom s) r =
      if inKey project scope r && decide (s ≤ r.windowTs) then r.contribution else 0 := by
  unfold added keptFrom isOld
  by_cases hin : inKey project scope r = true
  · by_cases hs : s ≤ r.windowTs
    · have hnot : ¬ r.windowTs < s := not_lt.2 hs
      simp [hin, hs, hnot]
    · have hlt : r.windowTs < s := not_le.1 hs
      simp [hin, hs, hlt]
  · simp [hin]

/-- Rows seen and rows still to load make up the table. -/
theorem seenUsage_add_new (rows : List EventRow) (seen : Nat) (s : Time) :
    seenUsage rows project scope seen s +
        ((rows.filter fun r => decide (seen < r.rowid)).map
          (added project scope (keptFrom s))).sum =
      usageOf (fun r => inKey project scope r && decide (s ≤ r.windowTs))
        EventRow.contribution rows := by
  unfold seenUsage
  induction rows with
  | nil => simp
  | cons r rows ih =>
    rw [usageOf_cons, usageOf_cons, ← ih]
    by_cases hseen : r.rowid ≤ seen
    · rw [List.filter_cons_of_neg (by simpa using hseen)]
      simp only [hseen, decide_true, Bool.true_and]
      abel
    · have hlt : seen < r.rowid := not_le.1 hseen
      rw [List.filter_cons_of_pos (by simpa using hlt), List.map_cons, List.sum_cons,
        added_keptFrom]
      simp only [hseen, decide_false, Bool.false_and, Bool.false_eq_true, if_false]
      abel

/-- A bucket that has seen every row accounts for the whole table. -/
theorem seenUsage_of_le {seen : Nat} (h : ∀ r ∈ rows, r.rowid ≤ seen) (s : Time) :
    seenUsage rows project scope seen s =
      usageOf (fun r => inKey project scope r && decide (s ≤ r.windowTs))
        EventRow.contribution rows := by
  unfold seenUsage
  refine usageOf_congr fun r hr => ⟨?_, fun _ => rfl⟩
  simp [h r hr]

/-- Rows that all load are loaded as themselves. -/
theorem mapM_fromRow {l : List EventRow} (h : ∀ r ∈ l, r.Loadable) :
    l.mapM NewRow.fromRow = .ok (l.map EventRow.loaded) := by
  induction l with
  | nil => rfl
  | cons r l ih =>
    rw [List.mapM_cons, fromRow_of_loadable (h r (List.mem_cons_self ..)),
      ih fun r' hr' => h r' (List.mem_cons_of_mem _ hr')]
    rfl

/-- A load that succeeds has seen every row and keeps the account exact. -/
theorem loadNew_spec {t : EventTable} {start : Time} (hb : b.Holds t.rows project scope start)
    (hload : ∀ r ∈ t.rows, b.seenRowid < r.rowid → r.Loadable) :
    ∃ b', b.loadNew t.rows project scope = .ok b' ∧ b'.Holds t.rows project scope start ∧
      ∀ r ∈ t.rows, r.rowid ≤ b'.seenRowid := by
  let l := t.rows.filter fun r => decide (b.seenRowid < r.rowid)
  have hl : ∀ r ∈ l, b.seenRowid < r.rowid := fun r hr => by
    simpa using (List.mem_filter.1 hr).2
  have hmapM : l.mapM NewRow.fromRow = .ok (l.map EventRow.loaded) :=
    mapM_fromRow fun r hr => hload r (List.mem_filter.1 hr).1 (hl r hr)
  obtain ⟨hseen, hkeys, htotal, hweight⟩ :=
    foldl_spec project scope (t.rowids.filter _) hl hb.keys_le
  have hall : ∀ r ∈ t.rows, r.rowid ≤ max b.seenRowid (EventTable.maxRowid l) := by
    intro r hr
    by_cases hnew : b.seenRowid < r.rowid
    · have hmem : r ∈ l := List.mem_filter.2 ⟨hr, by simpa using hnew⟩
      exact (EventTable.le_maxRowid hmem).trans (le_max_right _ _)
    · exact (not_lt.1 hnew).trans (le_max_left _ _)
  refine ⟨(l.map EventRow.loaded).foldl (fold project scope) b, ?_, ⟨?_, hkeys, ?_, ?_⟩, ?_⟩
  · unfold loadNew
    rw [hmapM]
  · rw [hseen]
    have hsub : EventTable.maxRowid l ≤ EventTable.maxRowid t.rows :=
      EventTable.maxRowid_le fun r hr => EventTable.le_maxRowid (List.mem_filter.1 hr).1
    exact max_le hb.seen_le hsub
  · rw [htotal, hb.total_eq, ← hweight]
  · intro s hs
    rw [hweight, hb.kept s hs, seenUsage_add_new, hseen, seenUsage_of_le hall]
  · rw [hseen]
    exact hall

/-- A load that meets a row it cannot read fails. -/
theorem loadNew_error {r : EventRow} (hr : r ∈ rows) (hnew : b.seenRowid < r.rowid)
    (hload : ¬ r.Loadable) : ∃ e, b.loadNew rows project scope = .error e := by
  have hmem : r ∈ rows.filter fun r => decide (b.seenRowid < r.rowid) :=
    List.mem_filter.2 ⟨hr, by simpa using hnew⟩
  unfold loadNew
  cases hmapM : (rows.filter fun r => decide (b.seenRowid < r.rowid)).mapM NewRow.fromRow with
  | error e => exact ⟨_, rfl⟩
  | ok news =>
    obtain ⟨n, -, hn⟩ := (Traverse.mapM_mem hmapM).2 r hmem
    rw [fromRow_of_not_loadable hload] at hn
    cases hn

/-! ## Evicting -/

/-- Eviction keeps the account exact from the new window start on, and leaves its total there. -/
theorem evictBefore_spec {start s₀ : Time} (hb : b.Holds rows project scope start)
    (hs₀ : start ≤ s₀) :
    (b.evictBefore s₀).Holds rows project scope s₀ ∧
      (b.evictBefore s₀).total = seenUsage rows project scope b.seenRowid s₀ ∧
      (b.evictBefore s₀).seenRowid = b.seenRowid := by
  have hminus : (fun t v : Usage => t.minus v) = fun t v => t - id v := rfl
  have hitems : (b.evictBefore s₀).items =
      (b.items.popWhile (isOld s₀) (fun t v => t.minus v) b.total).2 := rfl
  have hkeptw : (b.evictBefore s₀).items.weight Prod.snd = b.items.weight (keptFrom s₀) := by
    rw [hitems, OrdMap.weight_popWhile isOld_mono]
    rfl
  -- what the loop leaves in the accumulator
  have hacc : (b.items.popWhile (isOld s₀) (fun t v => t.minus v) b.total).1 =
      b.items.weight (keptFrom s₀) := by
    have hsplit : b.items.weight Prod.snd =
        b.items.weight (fun e => if isOld s₀ e.1 then e.2 else 0) +
          b.items.weight (keptFrom s₀) := by
      rw [← OrdMap.weight_add]
      refine OrdMap.weight_congr fun e _ => ?_
      unfold keptFrom
      by_cases ho : isOld s₀ e.1 = true <;> simp [ho]
    rw [hminus, OrdMap.popWhile_sub isOld_mono, hb.total_eq, hsplit]
    exact add_sub_cancel_left _ _
  have htotal : (b.evictBefore s₀).total = b.items.weight (keptFrom s₀) := by
    have hdef : (b.evictBefore s₀).total =
        if (b.evictBefore s₀).items.entries.isEmpty then .default
        else (b.items.popWhile (isOld s₀) (fun t v => t.minus v) b.total).1 := rfl
    rw [hdef]
    split_ifs with hempty
    · rw [← hkeptw, OrdMap.weight, List.isEmpty_iff.1 hempty]
      rfl
    · exact hacc
  refine ⟨⟨hb.seen_le, fun k hk => ?_, htotal.trans hkeptw.symm, fun s hs => ?_⟩, ?_, rfl⟩
  · exact hb.keys_le k (OrdMap.mem_keys_popWhile hk)
  · show (b.evictBefore s₀).items.weight (keptFrom s) = seenUsage rows project scope b.seenRowid s
    rw [← hb.kept s (hs₀.trans hs), hitems, OrdMap.weight_popWhile isOld_mono]
    refine OrdMap.weight_congr fun e _ => ?_
    unfold keptFrom
    by_cases ho : isOld s₀ e.1 = true
    · have ho' : isOld s e.1 = true := by
        simp only [isOld, decide_eq_true_eq] at ho ⊢
        exact lt_of_lt_of_le ho hs
      simp [ho, ho']
    · simp [ho]
  · rw [htotal, hb.kept s₀ hs₀]

/-! ## Reading -/

/-- **A read of a bucket that holds is the plain window scan**, as long as the rows it has not
seen can be read. -/
theorem usage_exact {t : EventTable} {key : UsageKey} {t₀ now : Time}
    (hb : b.Holds t.rows project key.2 (key.1.since t₀)) (hnow : t₀ ≤ now)
    (hload : ∀ r ∈ t.rows, b.seenRowid < r.rowid → r.Loadable) :
    ∃ b', b.usage t.rows project key now = .ok b' ∧
      b'.total = windowUsage t.rows project key now ∧
      b'.Holds t.rows project key.2 (key.1.since now) ∧
      b'.seenRowid = EventTable.maxRowid t.rows := by
  obtain ⟨b₁, hb₁, hholds, hall⟩ := loadNew_spec hb hload
  obtain ⟨hevict, htotal, hseen⟩ := evictBefore_spec hholds (LimitWindow.since_mono key.1 hnow)
  refine ⟨b₁.evictBefore (key.1.since now), ?_, ?_, hevict, ?_⟩
  · simp only [usage, hb₁, Except.map]
  · rw [htotal, seenUsage_of_le hall]
    rfl
  · exact hseen.trans (le_antisymm hholds.seen_le (EventTable.maxRowid_le hall))

end Bucket

end LightTrack
