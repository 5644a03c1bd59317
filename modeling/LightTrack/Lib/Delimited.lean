import Mathlib.Algebra.Order.BigOperators.Group.List
import Mathlib.Algebra.Order.Ring.Nat
import Mathlib.Tactic.Common

/-! # Records of delimited fields

Fields are each ended by a separator, and a record by a last field and an end mark.

* `frame_inj`, `record_inj` : a record reads back, where no field holds the separator,
* `records_inj` : so does a sequence of records,
* `exists_moved` : where a field does, the fields can be read in another way,
* `free_of_count` : as many separators as fields are those of the frame,
* `mem_of_mem_splitOn`, `exists_mem_splitOn` : the pieces of a text are made of it,
* `splitOn_append_cons` : the pieces around a separator,
* `splitOn_rewritten`, `rewritten_eq_iff` : rewriting a text piece by piece.
-/

namespace Delimited

variable {α : Type*} {sep eol : α}

/-- Fields, each ended by the separator. -/
def frame (sep : α) (fs : List (List α)) : List α := fs.flatMap (· ++ [sep])

/-- Fields in a frame, a last one and the end mark. -/
def record (sep eol : α) (r : List (List α) × List α) : List α := frame sep r.1 ++ (r.2 ++ [eol])

theorem frame_cons (f : List α) (fs : List (List α)) :
    frame sep (f :: fs) = f ++ sep :: frame sep fs := by
  unfold frame
  rw [List.flatMap_cons, List.append_assoc, List.singleton_append]

/-- **The first separator ends the first field.** -/
theorem append_cons_inj {a b x y : List α} (ha : sep ∉ a) (hb : sep ∉ b)
    (h : a ++ sep :: x = b ++ sep :: y) : a = b ∧ x = y := by
  induction a generalizing b with
  | nil =>
    cases b with
    | nil => exact ⟨rfl, (List.cons.inj h).2⟩
    | cons c b =>
      have hc : sep = c := (List.cons.inj h).1
      exact absurd (hc ▸ List.mem_cons_self) hb
  | cons c a ih =>
    cases b with
    | nil =>
      have hc : c = sep := (List.cons.inj h).1
      exact absurd (hc ▸ List.mem_cons_self) ha
    | cons d b =>
      obtain ⟨rfl, htl⟩ := List.cons.inj h
      obtain ⟨rfl, rfl⟩ := ih (fun hm => ha (List.mem_cons_of_mem _ hm))
        (fun hm => hb (List.mem_cons_of_mem _ hm)) htl
      exact ⟨rfl, rfl⟩

/-- **A frame reads back**, whatever follows it. -/
theorem frame_inj {fs gs : List (List α)} {x y : List α} (hlen : fs.length = gs.length)
    (hfs : ∀ f ∈ fs, sep ∉ f) (hgs : ∀ g ∈ gs, sep ∉ g)
    (h : frame sep fs ++ x = frame sep gs ++ y) : fs = gs ∧ x = y := by
  induction fs generalizing gs with
  | nil =>
    rw [List.length_nil, eq_comm, List.length_eq_zero_iff] at hlen
    rw [hlen] at h ⊢
    exact ⟨rfl, h⟩
  | cons f fs ih =>
    cases gs with
    | nil => simp at hlen
    | cons g gs =>
      rw [frame_cons, frame_cons, List.append_assoc, List.append_assoc, List.cons_append,
        List.cons_append] at h
      obtain ⟨rfl, hrest⟩ :=
        append_cons_inj (hfs f List.mem_cons_self) (hgs g List.mem_cons_self) h
      obtain ⟨rfl, rfl⟩ := ih (Nat.succ.inj hlen)
        (fun f' hf' => hfs f' (List.mem_cons_of_mem _ hf'))
        (fun g' hg' => hgs g' (List.mem_cons_of_mem _ hg')) hrest
      exact ⟨rfl, rfl⟩

/-- A record of a number of fields, none of them with a separator, and without an end mark in the
last. -/
structure Clean (sep eol : α) (n : ℕ) (r : List (List α) × List α) : Prop where
  length : r.1.length = n
  free : ∀ f ∈ r.1, sep ∉ f
  last : eol ∉ r.2

/-- **A record reads back.** -/
theorem record_inj {n : ℕ} {r s : List (List α) × List α} {x y : List α} (hr : Clean sep eol n r)
    (hs : Clean sep eol n s) (h : record sep eol r ++ x = record sep eol s ++ y) :
    r = s ∧ x = y := by
  unfold record at h
  simp only [List.append_assoc, List.singleton_append] at h
  obtain ⟨hfields, hrest⟩ := frame_inj (hr.length.trans hs.length.symm) hr.free hs.free h
  obtain ⟨hlast, hxy⟩ := append_cons_inj hr.last hs.last hrest
  exact ⟨Prod.ext hfields hlast, hxy⟩

theorem record_ne_nil (r : List (List α) × List α) : record sep eol r ≠ [] := by
  unfold record
  exact List.append_ne_nil_of_right_ne_nil _ (List.append_ne_nil_of_right_ne_nil _ (by simp))

/-- **A sequence of records reads back.** -/
theorem records_inj {n : ℕ} {l m : List (List (List α) × List α)}
    (hl : ∀ r ∈ l, Clean sep eol n r) (hm : ∀ r ∈ m, Clean sep eol n r)
    (h : l.flatMap (record sep eol) = m.flatMap (record sep eol)) : l = m := by
  induction l generalizing m with
  | nil =>
    cases m with
    | nil => rfl
    | cons s m =>
      rw [List.flatMap_nil, List.flatMap_cons, eq_comm, List.append_eq_nil_iff] at h
      exact absurd h.1 (record_ne_nil s)
  | cons r l ih =>
    cases m with
    | nil =>
      rw [List.flatMap_nil, List.flatMap_cons, List.append_eq_nil_iff] at h
      exact absurd h.1 (record_ne_nil r)
    | cons s m =>
      rw [List.flatMap_cons, List.flatMap_cons] at h
      obtain ⟨rfl, hrest⟩ := record_inj (hl r List.mem_cons_self) (hm s List.mem_cons_self) h
      rw [ih (fun r' hr' => hl r' (List.mem_cons_of_mem _ hr'))
        (fun r' hr' => hm r' (List.mem_cons_of_mem _ hr')) hrest]

/-- **A separator within a field** can be taken for the one behind it or before it. -/
theorem exists_moved {a c : List α} (h : sep ∈ a ∨ sep ∈ c) : ∃ a' c', a' ≠ a ∧
    ∀ pre post, frame sep (pre ++ a' :: c' :: post) = frame sep (pre ++ a :: c :: post) := by
  have hframe : ∀ x y z : List α, ∀ pre post, frame sep (pre ++ x :: (y ++ sep :: z) :: post) =
      frame sep (pre ++ (x ++ sep :: y) :: z :: post) := by
    intro x y z pre post
    unfold frame
    simp only [List.flatMap_append, List.flatMap_cons, List.append_assoc, List.cons_append,
      List.nil_append]
  have hlonger : ∀ x y : List α, x ≠ x ++ sep :: y := by
    intro x y heq
    have hlen := congrArg List.length heq
    rw [List.length_append, List.length_cons] at hlen
    omega
  rcases h with h | h
  · obtain ⟨x, y, rfl⟩ := List.append_of_mem h
    exact ⟨x, y ++ sep :: c, hlonger x y, hframe x y c⟩
  · obtain ⟨x, y, rfl⟩ := List.append_of_mem h
    exact ⟨a ++ sep :: x, y, (hlonger a x).symm, fun pre post => (hframe a x y pre post).symm⟩

/-! ## Counting separators -/

section Counting

variable [DecidableEq α]

theorem count_frame (fs : List (List α)) :
    (frame sep fs).count sep = (fs.map (List.count sep)).sum + fs.length := by
  induction fs with
  | nil => rfl
  | cons f fs ih =>
    rw [frame_cons, List.count_append, List.count_cons_self, ih, List.map_cons, List.sum_cons,
      List.length_cons]
    omega

theorem length_le_count_frame (fs : List (List α)) : fs.length ≤ (frame sep fs).count sep := by
  rw [count_frame]
  exact Nat.le_add_left _ _

theorem count_frame_of_free {fs : List (List α)} (h : ∀ f ∈ fs, sep ∉ f) :
    (frame sep fs).count sep = fs.length := by
  rw [count_frame, List.sum_eq_zero, Nat.zero_add]
  intro n hn
  obtain ⟨f, hf, rfl⟩ := List.mem_map.1 hn
  exact List.count_eq_zero.2 (h f hf)

/-- **A frame with no more separators than fields** has none within a field. -/
theorem free_of_count {fs : List (List α)} (h : (frame sep fs).count sep ≤ fs.length) :
    ∀ f ∈ fs, sep ∉ f := by
  rw [count_frame] at h
  intro f hf hmem
  have hpos : 0 < f.count sep := List.count_pos_iff.2 hmem
  have hle : f.count sep ≤ (fs.map (List.count sep)).sum :=
    List.single_le_sum (fun _ _ => Nat.zero_le _) _ (List.mem_map_of_mem hf)
  omega

end Counting

/-! ## Pieces between separators -/

section Pieces

variable [BEq α]

/-- What a piece holds, the text holds. -/
theorem mem_of_mem_splitOn {l w : List α} {a : α} (h : w ∈ l.splitOn sep) (ha : a ∈ w) : a ∈ l := by
  induction l generalizing w with
  | nil =>
    rw [List.splitOn_nil, List.mem_singleton] at h
    rw [h] at ha
    exact ha
  | cons b l ih =>
    rw [List.splitOn_cons_eq_if_modifyHead] at h
    split_ifs at h
    · rcases List.mem_cons.1 h with rfl | h
      · exact absurd ha List.not_mem_nil
      · exact List.mem_cons_of_mem _ (ih h ha)
    · rcases List.exists_cons_of_ne_nil (List.splitOn_ne_nil sep l) with ⟨w', ws, hw⟩
      rw [hw, List.modifyHead_cons] at h
      rcases List.mem_cons.1 h with rfl | h
      · rcases List.mem_cons.1 ha with rfl | ha
        · exact List.mem_cons_self
        · exact List.mem_cons_of_mem _ (ih (hw ▸ List.mem_cons_self) ha)
      · exact List.mem_cons_of_mem _ (ih (hw ▸ List.mem_cons_of_mem _ h) ha)

variable [LawfulBEq α]

/-- What a text holds beside its separators, a piece holds. -/
theorem exists_mem_splitOn {l : List α} {a : α} (ha : a ∈ l) (hne : a ≠ sep) :
    ∃ w ∈ l.splitOn sep, a ∈ w := by
  induction l with
  | nil => exact absurd ha List.not_mem_nil
  | cons b l ih =>
    rw [List.splitOn_cons_eq_if_modifyHead]
    split_ifs with hb
    · rcases List.mem_cons.1 ha with rfl | ha
      · exact absurd (beq_iff_eq.1 hb) hne
      · obtain ⟨w, hw, hmem⟩ := ih ha
        exact ⟨w, List.mem_cons_of_mem _ hw, hmem⟩
    · rcases List.exists_cons_of_ne_nil (List.splitOn_ne_nil sep l) with ⟨w', ws, hw⟩
      rw [hw] at ih ⊢
      rw [List.modifyHead_cons]
      rcases List.mem_cons.1 ha with rfl | ha
      · exact ⟨_, List.mem_cons_self, List.mem_cons_self⟩
      · obtain ⟨w, hmem, haw⟩ := ih ha
        rcases List.mem_cons.1 hmem with rfl | hmem
        · exact ⟨_, List.mem_cons_self, List.mem_cons_of_mem _ haw⟩
        · exact ⟨w, List.mem_cons_of_mem _ hmem, haw⟩

/-- The pieces around a separator are those of both sides. -/
theorem splitOn_append_cons (l l' : List α) :
    (l ++ sep :: l').splitOn sep = l.splitOn sep ++ l'.splitOn sep := by
  induction l with
  | nil =>
    rw [List.nil_append, List.splitOn_cons_eq_if_modifyHead, if_pos (beq_self_eq_true sep),
      List.splitOn_nil]
    rfl
  | cons a l ih =>
    rw [List.cons_append, List.splitOn_cons_eq_if_modifyHead, List.splitOn_cons_eq_if_modifyHead,
      ih]
    split_ifs
    · rfl
    · rcases List.exists_cons_of_ne_nil (List.splitOn_ne_nil sep l) with ⟨w, ws, hw⟩
      rw [hw, List.cons_append, List.modifyHead_cons, List.modifyHead_cons, List.cons_append]

/-- No piece holds the separator. -/
theorem not_mem_of_mem_splitOn {l w : List α} (h : w ∈ l.splitOn sep) : sep ∉ w := by
  induction l generalizing w with
  | nil =>
    rw [List.splitOn_nil, List.mem_singleton] at h
    rw [h]
    exact List.not_mem_nil
  | cons a l ih =>
    rw [List.splitOn_cons_eq_if_modifyHead] at h
    split_ifs at h with ha
    · rcases List.mem_cons.1 h with rfl | h
      · exact List.not_mem_nil
      · exact ih h
    · rcases List.exists_cons_of_ne_nil (List.splitOn_ne_nil sep l) with ⟨w', ws, hw⟩
      rw [hw, List.modifyHead_cons] at h
      rcases List.mem_cons.1 h with rfl | h
      · intro hmem
        rcases List.mem_cons.1 hmem with rfl | hmem
        · exact ha (beq_self_eq_true _)
        · exact ih (hw ▸ List.mem_cons_self) hmem
      · exact ih (hw ▸ List.mem_cons_of_mem _ h)

/-- The pieces of a text, each rewritten. -/
def rewritten (sep : α) (f : List α → List α) (l : List α) : List α :=
  [sep].intercalate ((l.splitOn sep).map f)

variable {f : List α → List α}

/-- **The pieces of a rewritten text are the rewritten pieces.** -/
theorem splitOn_rewritten (hf : ∀ w, sep ∉ w → sep ∉ f w) (l : List α) :
    (rewritten sep f l).splitOn sep = (l.splitOn sep).map f := by
  refine List.splitOn_intercalate sep ?_ ?_
  · intro w hw
    rcases List.mem_map.1 hw with ⟨w', hw', rfl⟩
    exact hf w' (not_mem_of_mem_splitOn hw')
  · exact fun hnil => List.splitOn_ne_nil sep l (List.map_eq_nil_iff.1 hnil)

/-- A text stays just if all its pieces do. -/
theorem rewritten_eq_iff (hf : ∀ w, sep ∉ w → sep ∉ f w) {l : List α} :
    rewritten sep f l = l ↔ ∀ w ∈ l.splitOn sep, f w = w := by
  constructor
  · intro h
    have hmap := splitOn_rewritten hf l
    rw [h] at hmap
    refine List.map_inj_left.1 (hmap.symm.trans ?_)
    rw [List.map_id']
  · intro h
    unfold rewritten
    rw [List.map_congr_left h, List.map_id', List.intercalate_splitOn]

end Pieces

end Delimited
