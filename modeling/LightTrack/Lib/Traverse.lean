import Mathlib.Data.List.Forall2
import Mathlib.Data.List.Perm.Basic
import Mathlib.Tactic.Basic

/-! # Passes that can fail

`List.mapM` in `Except`: a pass succeeds when every element does, with the results
in the order of the elements.

* `mapM_eq_ok_iff` : success, element by element,
* `mapM_mapM_iff` : two passes are one,
* `mapM_eq_map_iff` : success of a function whose results are given by a formula,
* `mapM_perm` : another order succeeds with the same results, reordered,
* `select_eq_ok_iff` : keeping the elements a predicate that can fail holds of.
-/

namespace Traverse

universe u

variable {ε α β : Type*} {f : α → Except ε β}

theorem mapM_eq_ok_iff {l : List α} {bs : List β} :
    l.mapM f = .ok bs ↔ List.Forall₂ (fun a b => f a = .ok b) l bs := by
  induction l generalizing bs with
  | nil => cases bs <;> simp [pure, Except.pure]
  | cons a l ih =>
    rw [List.mapM_cons, List.forall₂_cons_left_iff]
    constructor
    · intro h
      cases hfa : f a with
      | error e => simp [hfa, bind, Except.bind] at h
      | ok b =>
        cases hl : l.mapM f with
        | error e => simp [hfa, hl, bind, Except.bind] at h
        | ok bs' =>
          simp only [hfa, hl, bind, Except.bind, pure, Except.pure, Except.ok.injEq] at h
          exact ⟨b, bs', rfl, ih.1 hl, h.symm⟩
    · rintro ⟨b, bs', hfa, hl, rfl⟩
      simp [hfa, ih.2 hl, bind, Except.bind, pure, Except.pure]

/-- Renaming errors leaves results alone. -/
theorem mapError_eq_ok_iff {ε' : Type*} {x : Except ε α} {g : ε → ε'} {a : α} :
    x.mapError g = .ok a ↔ x = .ok a := by
  cases x <;> simp [Except.mapError]

/-- A check before a step. -/
theorem ite_error_eq_ok_iff {P : Prop} [Decidable P] {e : ε} {x : Except ε α} {a : α} :
    (if P then .error e else x) = .ok a ↔ ¬ P ∧ x = .ok a := by
  by_cases h : P
  · simp [h]
  · simp [h]

/-- Two steps one after the other. -/
theorem bind_eq_ok_iff {α β : Type u} {x : Except ε α} {g : α → Except ε β} {b : β} :
    x >>= g = .ok b ↔ ∃ a, x = .ok a ∧ g a = .ok b := by
  cases x <;> simp [bind, Except.bind]

theorem map_eq_ok_iff {x : Except ε α} {g : α → β} {b : β} :
    x.map g = .ok b ↔ ∃ a, x = .ok a ∧ b = g a := by
  cases x <;> simp [Except.map, eq_comm]

/-- A pass over two lists one after the other. -/
theorem mapM_append_iff {l l' : List α} {bs : List β} :
    (l ++ l').mapM f = .ok bs ↔
      ∃ bs₁ bs₂, l.mapM f = .ok bs₁ ∧ l'.mapM f = .ok bs₂ ∧ bs = bs₁ ++ bs₂ := by
  rw [List.mapM_append]
  cases l.mapM f with
  | error e => simp [bind, Except.bind]
  | ok bs₁ =>
    cases l'.mapM f with
    | error e => simp [bind, Except.bind]
    | ok bs₂ => simp [bind, Except.bind, pure, Except.pure, eq_comm]

theorem length_of_mapM {l : List α} {bs : List β} (h : l.mapM f = .ok bs) :
    bs.length = l.length :=
  (mapM_eq_ok_iff.1 h).length_eq.symm

/-- A pass over the same elements in another order succeeds with the same results, reordered. -/
theorem mapM_perm {l l' : List α} (h : l.Perm l') {bs : List β} (hl : l.mapM f = .ok bs) :
    ∃ bs', l'.mapM f = .ok bs' ∧ bs.Perm bs' := by
  obtain ⟨bs', hf, hperm⟩ := List.perm_comp_forall₂ h.symm (mapM_eq_ok_iff.1 hl)
  exact ⟨bs', mapM_eq_ok_iff.2 hf, hperm.symm⟩

/-- The results of a successful pass, element by element. -/
theorem mapM_mem {l : List α} {bs : List β} (h : l.mapM f = .ok bs) :
    (∀ b ∈ bs, ∃ a ∈ l, f a = .ok b) ∧ ∀ a ∈ l, ∃ b ∈ bs, f a = .ok b := by
  have hall := mapM_eq_ok_iff.1 h
  clear h
  induction hall with
  | nil => simp
  | cons hab _ ih =>
    obtain ⟨hback, hforth⟩ := ih
    refine ⟨fun b hb => ?_, fun a ha => ?_⟩
    · rcases List.mem_cons.1 hb with rfl | hb
      · exact ⟨_, List.mem_cons_self .., hab⟩
      · obtain ⟨a, ha, hfa⟩ := hback b hb
        exact ⟨a, List.mem_cons_of_mem _ ha, hfa⟩
    · rcases List.mem_cons.1 ha with rfl | ha
      · exact ⟨_, List.mem_cons_self .., hab⟩
      · obtain ⟨b, hb, hfa⟩ := hforth a ha
        exact ⟨b, List.mem_cons_of_mem _ hb, hfa⟩

theorem mapM_congr {g : α → Except ε β} {l : List α} (h : ∀ a ∈ l, f a = g a) :
    l.mapM f = l.mapM g := by
  induction l with
  | nil => rfl
  | cons a l ih =>
    rw [List.mapM_cons, List.mapM_cons, h a (List.mem_cons_self ..),
      ih fun b hb => h b (List.mem_cons_of_mem _ hb)]

/-- Two passes one after the other succeed as one pass of both steps does. -/
theorem mapM_mapM_iff {β γ : Type u} {f : α → Except ε β} {g : β → Except ε γ} {l : List α}
    {cs : List γ} :
    l.mapM f >>= (fun bs => bs.mapM g) = .ok cs ↔ l.mapM (fun a => f a >>= g) = .ok cs := by
  induction l generalizing cs with
  | nil => simp [pure, Except.pure, bind, Except.bind]
  | cons a l ih =>
    simp only [bind_eq_ok_iff, List.mapM_cons, pure, Except.pure, Except.ok.injEq] at ih ⊢
    constructor
    · rintro ⟨_, ⟨b, hb, bs, hbs, rfl⟩, hcs⟩
      rw [List.mapM_cons] at hcs
      simp only [bind_eq_ok_iff, pure, Except.pure, Except.ok.injEq] at hcs
      rcases hcs with ⟨c, hc, cs', hcs', rfl⟩
      exact ⟨c, ⟨b, hb, hc⟩, cs', ih.1 ⟨bs, hbs, hcs'⟩, rfl⟩
    · rintro ⟨c, ⟨b, hb, hc⟩, cs', hcs', rfl⟩
      rcases ih.2 hcs' with ⟨bs, hbs, hcs⟩
      refine ⟨b :: bs, ⟨b, hb, bs, hbs, rfl⟩, ?_⟩
      rw [List.mapM_cons]
      simp only [bind_eq_ok_iff, pure, Except.pure, Except.ok.injEq]
      exact ⟨c, hc, cs', hcs, rfl⟩

theorem map_map {β γ : Type*} {x : Except ε α} {g : α → β} {h : β → γ} :
    (x.map g).map h = x.map (h ∘ g) := by
  cases x <;> rfl

/-- A function of each result of a pass. -/
theorem map_mapM {γ : Type*} {g : β → γ} {l : List α} :
    (l.mapM f).map (List.map g) = l.mapM fun a => (f a).map g := by
  induction l with
  | nil => rfl
  | cons a l ih =>
    rw [List.mapM_cons, List.mapM_cons, ← ih]
    cases f a with
    | error e => rfl
    | ok b => cases l.mapM f <;> rfl

/-! ## Answers -/

theorem toOption_map {x : Except ε α} {g : α → β} : (x.map g).toOption = x.toOption.map g := by
  cases x <;> rfl

/-- A reading, in terms of whether it answers. -/
theorem eq_ok_iff {x : Except ε α} {d a : α} :
    x = .ok a ↔ (∃ b, x = .ok b) ∧ a = x.toOption.getD d := by
  cases x with
  | error e => simp
  | ok b => simp [Except.toOption, eq_comm]

/-- Two readings that answer under a condition give the same for a function of the answer. -/
theorem toOption_map_eq_iff {ε' : Type*} {x : Except ε α} {y : Except ε' α} {P Q : Prop} {a b : α}
    (hx : ∀ u, x = .ok u ↔ P ∧ u = a) (hy : ∀ u, y = .ok u ↔ Q ∧ u = b) (g : α → β) :
    x.toOption.map g = y.toOption.map g ↔ (P ↔ Q) ∧ (P → g a = g b) := by
  cases x with
  | error e =>
    have hP : ¬ P := fun hP => nomatch (hx a).2 ⟨hP, rfl⟩
    cases y with
    | error e' =>
      have hQ : ¬ Q := fun hQ => nomatch (hy b).2 ⟨hQ, rfl⟩
      simp [hP, hQ, Except.toOption]
    | ok v =>
      have hQ : Q := ((hy v).1 rfl).1
      simp [hP, hQ, Except.toOption]
  | ok u =>
    rcases (hx u).1 rfl with ⟨hP, rfl⟩
    cases y with
    | error e' =>
      have hQ : ¬ Q := fun hQ => nomatch (hy b).2 ⟨hQ, rfl⟩
      simp [hP, hQ, Except.toOption]
    | ok v =>
      rcases (hy v).1 rfl with ⟨hQ, rfl⟩
      simp [hP, hQ, Except.toOption]

/-- Renaming the results of a pass. -/
theorem mapM_map_iff {γ : Type*} {g : β → γ} {l : List α} {cs : List γ} :
    l.mapM (fun a => (f a).map g) = .ok cs ↔ ∃ bs, l.mapM f = .ok bs ∧ cs = bs.map g := by
  induction l generalizing cs with
  | nil => simp [pure, Except.pure, eq_comm]
  | cons a l ih =>
    simp only [List.mapM_cons, bind_eq_ok_iff, map_eq_ok_iff, ih, pure, Except.pure,
      Except.ok.injEq]
    constructor
    · rintro ⟨_, ⟨b, hb, rfl⟩, _, ⟨bs, hbs, rfl⟩, rfl⟩
      exact ⟨b :: bs, ⟨b, hb, bs, hbs, rfl⟩, rfl⟩
    · rintro ⟨_, ⟨b, hb, bs, hbs, rfl⟩, rfl⟩
      exact ⟨g b, ⟨b, hb, rfl⟩, bs.map g, ⟨bs, hbs, rfl⟩, rfl⟩

/-- A pass of a function that succeeds under a condition, with a known result, on the elements of
the list. -/
theorem mapM_eq_map_iff_of_mem {P : α → Prop} {g : α → β} {l : List α}
    (hf : ∀ a ∈ l, ∀ b, f a = .ok b ↔ P a ∧ b = g a) {m : List β} :
    l.mapM f = .ok m ↔ (∀ a ∈ l, P a) ∧ m = l.map g := by
  rw [mapM_eq_ok_iff]
  constructor
  · intro h
    induction h with
    | nil => simp
    | cons hab _ ih =>
      rcases (hf _ (List.mem_cons_self ..) _).1 hab with ⟨hP, rfl⟩
      rcases ih fun a ha => hf a (List.mem_cons_of_mem _ ha) with ⟨hall, rfl⟩
      exact ⟨List.forall_mem_cons.2 ⟨hP, hall⟩, rfl⟩
  · rintro ⟨hall, rfl⟩
    induction l with
    | nil => exact .nil
    | cons a l ih =>
      rcases List.forall_mem_cons.1 hall with ⟨hP, hall⟩
      refine .cons ((hf a (List.mem_cons_self ..) _).2 ⟨hP, rfl⟩) (ih ?_ hall)
      intro a' ha'
      exact hf a' (List.mem_cons_of_mem _ ha')

/-- A pass of a function that succeeds under a condition, with a known result. -/
theorem mapM_eq_map_iff {P : α → Prop} {g : α → β} (hf : ∀ a b, f a = .ok b ↔ P a ∧ b = g a)
    {l : List α} {m : List β} :
    l.mapM f = .ok m ↔ (∀ a ∈ l, P a) ∧ m = l.map g :=
  mapM_eq_map_iff_of_mem fun a _ => hf a

/-- A pass over elements that were renamed first. -/
theorem mapM_of_map {γ : Type*} (g : γ → α) (l : List γ) :
    (l.map g).mapM f = l.mapM fun c => f (g c) := by
  induction l with
  | nil => rfl
  | cons c l ih => rw [List.map_cons, List.mapM_cons, List.mapM_cons, ih]

/-- A pass over elements that all succeed succeeds. -/
theorem exists_mapM {l : List α} (h : ∀ a ∈ l, ∃ b, f a = .ok b) : ∃ bs, l.mapM f = .ok bs := by
  induction l with
  | nil => exact ⟨[], rfl⟩
  | cons a l ih =>
    rcases h a (List.mem_cons_self ..) with ⟨b, hb⟩
    rcases ih fun a' ha' => h a' (List.mem_cons_of_mem _ ha') with ⟨bs, hbs⟩
    exact ⟨b :: bs, mapM_eq_ok_iff.2 (.cons hb (mapM_eq_ok_iff.1 hbs))⟩

/-! ## Selection -/

/-- The elements that a predicate which can fail holds of. -/
def select (p : α → Except ε Bool) : List α → Except ε (List α)
  | [] => .ok []
  | a :: l =>
    match p a with
    | .error e => .error e
    | .ok keep => (select p l).map fun rest => if keep then a :: rest else rest

/-- A selection by a predicate that answers under a condition, as a known one. -/
theorem select_eq_ok_iff {p : α → Except ε Bool} {P : α → Prop} {k : α → Bool} {l : List α}
    (hp : ∀ a ∈ l, ∀ b, p a = .ok b ↔ P a ∧ b = k a) {m : List α} :
    select p l = .ok m ↔ (∀ a ∈ l, P a) ∧ m = l.filter k := by
  induction l generalizing m with
  | nil => simp [select, eq_comm]
  | cons a l ih =>
    have hih := @ih fun b hb => hp b (List.mem_cons_of_mem _ hb)
    have ha := hp a (List.mem_cons_self ..)
    unfold select
    cases hpa : p a with
    | error e =>
      have hno : ¬ P a := by
        intro hP
        rw [(ha _).2 ⟨hP, rfl⟩] at hpa
        cases hpa
      simp [hno]
    | ok keep =>
      rcases (ha keep).1 hpa with ⟨hP, rfl⟩
      simp only
      cases hrest : select p l with
      | error e =>
        have hno : ¬ ∀ b ∈ l, P b := by
          intro hall
          rw [hih.2 ⟨hall, rfl⟩] at hrest
          cases hrest
        simp [hP, hno, Except.map]
      | ok rest =>
        rcases hih.1 hrest with ⟨hall, rfl⟩
        simp only [Except.map, Except.ok.injEq, List.filter_cons, List.forall_mem_cons]
        constructor
        · intro h
          exact ⟨⟨hP, hall⟩, h.symm⟩
        · rintro ⟨-, rfl⟩
          rfl

theorem select_congr {p q : α → Except ε Bool} {l : List α} (h : ∀ a ∈ l, p a = q a) :
    select p l = select q l := by
  induction l with
  | nil => rfl
  | cons a l ih =>
    unfold select
    rw [h a (List.mem_cons_self ..), ih fun b hb => h b (List.mem_cons_of_mem _ hb)]

/-- Selecting from a part of a list: what is left out is not asked. -/
theorem select_filter {p : α → Except ε Bool} {k : α → Bool} {l : List α} :
    select p (l.filter k) = select (fun a => if k a then p a else .ok false) l := by
  induction l with
  | nil => rfl
  | cons a l ih =>
    cases hk : k a with
    | false =>
      rw [List.filter_cons_of_neg (by simp [hk]), ih]
      conv_rhs => unfold select
      simp only [hk, Bool.false_eq_true, if_false]
      cases select (fun a => if k a = true then p a else .ok false) l <;> rfl
    | true =>
      rw [List.filter_cons_of_pos hk]
      unfold select
      simp only [hk, if_true, ih]

/-- A selection by a predicate that always answers keeps, in order, elements it holds of. -/
theorem exists_select {p : α → Except ε Bool} {l : List α} (h : ∀ a ∈ l, ∃ b, p a = .ok b) :
    ∃ as, select p l = .ok as ∧ as.Sublist l ∧ ∀ a ∈ as, p a = .ok true := by
  induction l with
  | nil => exact ⟨[], rfl, List.Sublist.slnil, by simp⟩
  | cons a l ih =>
    rcases h a (List.mem_cons_self ..) with ⟨keep, hkeep⟩
    rcases ih fun a' ha' => h a' (List.mem_cons_of_mem _ ha') with ⟨as, has, hsub, htrue⟩
    refine ⟨if keep then a :: as else as, ?_, ?_⟩
    · simp only [select, hkeep, has, Except.map]
    · cases keep with
      | true => exact ⟨hsub.cons_cons a, List.forall_mem_cons.2 ⟨hkeep, htrue⟩⟩
      | false => exact ⟨hsub.cons a, htrue⟩

/-! ## Tags -/

/-- A pass that puts before each element what is read from it keeps the elements. -/
theorem exists_tagged {κ : Type*} {key : α → Except ε κ} {l : List α}
    (h : ∀ a ∈ l, ∃ k, key a = .ok k) :
    ∃ pairs, (l.mapM fun a => (key a).map fun k => (k, a)) = .ok pairs ∧
      pairs.map Prod.snd = l := by
  induction l with
  | nil => exact ⟨[], rfl, rfl⟩
  | cons a l ih =>
    rcases h a (List.mem_cons_self ..) with ⟨k, hk⟩
    rcases ih fun a' ha' => h a' (List.mem_cons_of_mem _ ha') with ⟨pairs, hpairs, hsnd⟩
    refine ⟨(k, a) :: pairs, ?_, ?_⟩
    · rw [mapM_eq_ok_iff] at hpairs ⊢
      exact .cons (by rw [hk]; rfl) hpairs
    · rw [List.map_cons, hsnd]

end Traverse
