import LightTrack.Lib.Keyed
import Mathlib.Logic.Function.Basic

/-! # Rows that are written whole

Two parties write the rows of one table.  The owner edits rows as it likes; a sweeper reads rows and
later writes them back whole, with only the fields of its own changed.  `view` is the part of a row
that is the owner's.

* `Shared.Agrees` : each row shows the owner's part as the owner's last edit of it left it,
* `Shared.Valid` : a row that was read and that the owner has not edited since shows the owner's
  part as the table does,
* `Agrees.write` : a write that keeps the owner's part of every row keeps the agreement.
-/

/-- A table with what the owner's last edit left under each key, and how many edits each key had. -/
structure Shared {ρ : Type*} {κ : Type*} (key : ρ → κ) where
  table : Keyed key
  theirs : κ → Option ρ
  edits : κ → ℕ

/-- A row as it was read, and how many edits its key had then. -/
structure Snapshot (ρ : Type*) where
  row : ρ
  edits : ℕ
deriving DecidableEq

namespace Shared

variable {ρ κ ν : Type*} {key : ρ → κ}

/-- No row, and no edit. -/
def empty : Shared key := ⟨Keyed.empty, fun _ => none, fun _ => 0⟩

/-- Rows read at one instant. -/
def snapshots (s : Shared key) (rows : List ρ) : List (Snapshot ρ) :=
  rows.map fun r => ⟨r, s.edits (key r)⟩

/-- The owner has not edited the row since it was read. -/
def Current (s : Shared key) (x : Snapshot ρ) : Prop := x.edits = s.edits (key x.row)

instance (s : Shared key) (x : Snapshot ρ) : Decidable (s.Current x) :=
  inferInstanceAs (Decidable (_ = _))

variable [DecidableEq κ]

/-- An edit of the owner: the row under one key becomes what it is in `table`. -/
def edit (s : Shared key) (k : κ) (table : Keyed key) : Shared key where
  table := table
  theirs := Function.update s.theirs k (table.find k)
  edits := Function.update s.edits k (s.edits k + 1)

/-- A write of the sweeper. -/
def write (s : Shared key) (f : ρ → ρ) (hkey : ∀ r, key (f r) = key r) : Shared key :=
  { s with table := s.table.update f hkey }

def Agrees (view : ρ → ν) (s : Shared key) : Prop :=
  ∀ k, (s.table.find k).map view = (s.theirs k).map view

structure Valid (view : ρ → ν) (s : Shared key) (x : Snapshot ρ) : Prop where
  past : x.edits ≤ s.edits (key x.row)
  shown : s.Current x → (s.table.find (key x.row)).map view = some (view x.row)

variable {view : ρ → ν} {s : Shared key} {k : κ} {table : Keyed key}

theorem empty_agrees : (empty : Shared key).Agrees view := fun _ => rfl

theorem valid_snapshots {rows : List ρ} (h : ∀ r ∈ rows, r ∈ s.table.rows) :
    ∀ x ∈ s.snapshots rows, s.Valid view x := by
  intro x hx
  rcases List.mem_map.1 hx with ⟨r, hr, rfl⟩
  refine ⟨Nat.le_refl _, fun _ => ?_⟩
  rw [Keyed.find_eq_some_iff.2 ⟨h r hr, rfl⟩]
  rfl

theorem Agrees.edit (h : s.Agrees view) (hothers : ∀ j, j ≠ k → table.find j = s.table.find j) :
    (s.edit k table).Agrees view := by
  intro j
  by_cases hj : j = k
  · subst hj
    simp only [Shared.edit, Function.update_self]
  · simp only [Shared.edit, Function.update_of_ne hj, hothers j hj]
    exact h j

/-- An edit makes the snapshots of its own key stale and leaves the others as they are. -/
theorem Valid.edit {x : Snapshot ρ} (h : s.Valid view x)
    (hothers : ∀ j, j ≠ k → table.find j = s.table.find j) : (s.edit k table).Valid view x := by
  by_cases hx : key x.row = k
  · have hpast := h.past
    refine ⟨?_, fun hcur => ?_⟩
    · simp only [Shared.edit, hx, Function.update_self]
      rw [hx] at hpast
      omega
    · simp only [Current, Shared.edit, hx, Function.update_self] at hcur
      rw [hx] at hpast
      omega
  · refine ⟨?_, fun hcur => ?_⟩
    · simp only [Shared.edit, Function.update_of_ne hx]
      exact h.past
    · simp only [Current, Shared.edit, Function.update_of_ne hx] at hcur ⊢
      rw [hothers _ hx]
      exact h.shown hcur

section write

variable {f : ρ → ρ} {hkey : ∀ r, key (f r) = key r}

theorem map_find_write (hview : ∀ r ∈ s.table.rows, view (f r) = view r) (j : κ) :
    ((s.write f hkey).table.find j).map view = (s.table.find j).map view := by
  simp only [write, Keyed.find_update]
  cases hj : s.table.find j with
  | none => rfl
  | some r =>
    simp only [Option.map_some]
    rw [hview r (Keyed.find_eq_some_iff.1 hj).1]

theorem Agrees.write (h : s.Agrees view) (hview : ∀ r ∈ s.table.rows, view (f r) = view r) :
    (s.write f hkey).Agrees view := by
  intro j
  rw [map_find_write hview]
  exact h j

theorem Valid.write {x : Snapshot ρ} (h : s.Valid view x)
    (hview : ∀ r ∈ s.table.rows, view (f r) = view r) : (s.write f hkey).Valid view x := by
  refine ⟨h.past, fun hcur => ?_⟩
  rw [map_find_write hview]
  exact h.shown hcur

end write

/-- Under a key whose owner has not edited it since, the table shows what was read. -/
theorem Valid.view_eq {x : Snapshot ρ} (h : s.Valid view x) (hcur : s.Current x) {r : ρ}
    (hr : r ∈ s.table.rows) (hk : key r = key x.row) : view r = view x.row := by
  have hshown := h.shown hcur
  rw [Keyed.find_eq_some_iff.2 ⟨hr, hk⟩] at hshown
  exact Option.some.inj hshown

end Shared
