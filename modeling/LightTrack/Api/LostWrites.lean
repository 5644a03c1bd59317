import LightTrack.Api.PromptRegistry

/-! # Acknowledged writes

What the registry owes to the writers whose write it acknowledged, and when it keeps to it: a writer
that replaces the row puts back what it loaded, so no other writer may have replaced it since in a
field that the first does not write.

* `serial` : the row that the acknowledged writes make, one after the other,
* `Kept` : what is owed,
* `Registry.acknowledged_run` : runs in which every writer finds the row as it loaded it,
* `Registry.link_lost` : a benchmark link that a promotion undoes.
-/

namespace LightTrack

/-! ## One write after the other -/

/-- A write on its own. -/
def RegistryWrite.apply (p : Prompt) : RegistryWrite → Prompt
  | label change =>
    let history := p.labelHistory ++ [change]
    { p with
      labels := p.labels.insert change.label change.version
      labelHistory := history.drop (history.length - MAX_LABEL_HISTORY) }
  | link benchmarkId => { p with benchmarkId := benchmarkId }
  | policy canary => { p with canary := canary }

/-- The row that some writes make. -/
def serial (start : Prompt) (acks : List RegistryWrite) : Prompt := acks.foldl RegistryWrite.apply start

/-- The same labels, link, policy and ledger. -/
structure SameContent (p q : Prompt) : Prop where
  labels : ∀ l, p.labels.get l = q.labels.get l
  link : p.benchmarkId = q.benchmarkId
  policy : p.canary = q.canary
  ledger : p.labelHistory = q.labelHistory

/-- The same but for one field; a label moves with its entry in the ledger. -/
structure SameBut (f : RegistryField) (p q : Prompt) : Prop where
  labels : ∀ l, f ≠ .label l → p.labels.get l = q.labels.get l
  link : f ≠ .link → p.benchmarkId = q.benchmarkId
  policy : f ≠ .policy → p.canary = q.canary
  ledger : p.labelHistory = q.labelHistory

/-- The row shows a write. -/
def InEffect (p : Prompt) : RegistryWrite → Prop
  | .label change => p.labels.get change.label = some change.version
  | .link benchmarkId => p.benchmarkId = benchmarkId
  | .policy canary => p.canary = canary

/-- A write moves a label. -/
def RegistryWrite.moves : RegistryWrite → Bool
  | label _ => true
  | _ => false

theorem SameContent.symm {p q : Prompt} (h : SameContent p q) : SameContent q p :=
  ⟨fun l => (h.labels l).symm, h.link.symm, h.policy.symm, h.ledger.symm⟩

theorem SameContent.trans {p q r : Prompt} (h : SameContent p q) (h' : SameContent q r) :
    SameContent p r :=
  ⟨fun l => (h.labels l).trans (h'.labels l), h.link.trans h'.link, h.policy.trans h'.policy,
    h.ledger.trans h'.ledger⟩

theorem SameContent.inEffect {p q : Prompt} (h : SameContent p q) {w : RegistryWrite}
    (hw : InEffect p w) : InEffect q w := by
  cases w with
  | label change => exact (h.labels change.label).symm.trans hw
  | link benchmarkId => exact h.link.symm.trans hw
  | policy canary => exact h.policy.symm.trans hw

/-- A write makes rows the same that were the same but for its field. -/
theorem SameBut.apply {w : RegistryWrite} {p q : Prompt} (h : SameBut w.field p q) :
    SameContent (w.apply p) (w.apply q) := by
  cases w with
  | label change =>
    refine ⟨fun l => ?_, h.link (by intro heq; cases heq), h.policy (by intro heq; cases heq), ?_⟩
    · show (p.labels.insert _ _).get l = (q.labels.insert _ _).get l
      rw [OrdMap.get_insert, OrdMap.get_insert]
      split_ifs with hl
      · rfl
      · refine h.labels l (fun heq => hl ?_)
        cases heq
        rfl
    · show List.drop _ (p.labelHistory ++ _) = List.drop _ (q.labelHistory ++ _)
      rw [h.ledger]
  | link benchmarkId =>
    exact ⟨fun l => h.labels l (by intro heq; cases heq), rfl, h.policy (by intro heq; cases heq),
      h.ledger⟩
  | policy canary =>
    exact ⟨fun l => h.labels l (by intro heq; cases heq), h.link (by intro heq; cases heq), rfl,
      h.ledger⟩

/-- What a writer stores is its write, on its own, on the row that it loaded. -/
theorem write_eq_apply {snapshot : Prompt} {op : RegistryOp} {now : Time} {row : Prompt}
    {ack : RegistryWrite} (hwrite : op.write now snapshot = some (row, ack)) :
    SameContent row (ack.apply snapshot) := by
  rcases (Registry.write_cases hwrite).2 with ⟨l, v, reason, rfl, rfl⟩ | ⟨b, rfl, rfl⟩ |
    ⟨c, rfl, rfl⟩
  · exact ⟨fun _ => rfl, rfl, rfl, rfl⟩
  · exact ⟨fun _ => rfl, rfl, rfl, rfl⟩
  · exact ⟨fun _ => rfl, rfl, rfl, rfl⟩

theorem inEffect_apply (p : Prompt) (w : RegistryWrite) : InEffect (w.apply p) w := by
  cases w with
  | label change => exact (OrdMap.get_insert ..).trans (if_pos rfl)
  | link benchmarkId => rfl
  | policy canary => rfl

/-- A write of another field leaves a write in effect. -/
theorem InEffect.apply_of_ne {p : Prompt} {w w' : RegistryWrite} (h : InEffect p w)
    (hne : w'.field ≠ w.field) : InEffect (w'.apply p) w := by
  cases w with
  | label change =>
    cases w' with
    | label change' =>
      refine ((OrdMap.get_insert ..).trans (if_neg fun heq => hne ?_)).trans h
      exact congrArg RegistryField.label heq.symm
    | link _ => exact h
    | policy _ => exact h
  | link benchmarkId =>
    cases w' with
    | label _ => exact h
    | link _ => exact absurd rfl hne
    | policy _ => exact h
  | policy canary =>
    cases w' with
    | label _ => exact h
    | link _ => exact h
    | policy _ => exact absurd rfl hne

/-- The last write of a field is in effect. -/
theorem inEffect_serial (start : Prompt) (pre post : List RegistryWrite) (w : RegistryWrite)
    (hlast : ∀ w' ∈ post, w'.field ≠ w.field) : InEffect (serial start (pre ++ w :: post)) w := by
  unfold serial
  rw [List.foldl_append, List.foldl_cons]
  generalize hp : w.apply (pre.foldl RegistryWrite.apply start) = p
  have heffect : InEffect p w := hp ▸ inEffect_apply _ w
  clear hp
  induction post generalizing p with
  | nil => exact heffect
  | cons w' post ih =>
    rw [List.forall_mem_cons] at hlast
    exact ih hlast.2 _ (heffect.apply_of_ne hlast.1)

theorem reverse_history_apply (p : Prompt) (change : LabelChange) :
    ((RegistryWrite.label change).apply p).labelHistory.reverse =
      change :: p.labelHistory.reverse.take (MAX_LABEL_HISTORY - 1) := by
  unfold RegistryWrite.apply
  simp only
  rw [← List.take_reverse, List.reverse_append]
  rfl

/-- Each further move takes an entry of the ledger one place back. -/
theorem ledger_foldl {change : LabelChange} (post : List RegistryWrite) {p : Prompt} {k : ℕ}
    (hk : p.labelHistory.reverse[k]? = some change)
    (hfew : k + (post.filter RegistryWrite.moves).length < MAX_LABEL_HISTORY) :
    (post.foldl RegistryWrite.apply p).labelHistory.reverse[
      k + (post.filter RegistryWrite.moves).length]? = some change := by
  induction post generalizing p k with
  | nil => exact hk
  | cons w post ih =>
    rw [List.foldl_cons]
    cases w with
    | label change' =>
      rw [List.filter_cons_of_pos rfl, List.length_cons] at hfew ⊢
      have hnext : ((RegistryWrite.label change').apply p).labelHistory.reverse[k + 1]? =
          some change := by
        rw [reverse_history_apply, List.getElem?_cons_succ, List.getElem?_take_of_lt (by omega)]
        exact hk
      have hplace : k + ((post.filter RegistryWrite.moves).length + 1) =
          k + 1 + (post.filter RegistryWrite.moves).length := by omega
      rw [hplace] at hfew ⊢
      exact ih hnext hfew
    | link benchmarkId =>
      rw [List.filter_cons_of_neg (by simp [RegistryWrite.moves])] at hfew ⊢
      exact ih hk hfew
    | policy canary =>
      rw [List.filter_cons_of_neg (by simp [RegistryWrite.moves])] at hfew ⊢
      exact ih hk hfew

/-- A label move is in the ledger until the bound drops it. -/
theorem mem_ledger_serial (start : Prompt) (pre post : List RegistryWrite) (change : LabelChange)
    (hfew : (post.filter RegistryWrite.moves).length < MAX_LABEL_HISTORY) :
    change ∈ (serial start (pre ++ .label change :: post)).labelHistory := by
  unfold serial
  rw [List.foldl_append, List.foldl_cons, ← List.mem_reverse]
  have hfirst : ((RegistryWrite.label change).apply
      (pre.foldl RegistryWrite.apply start)).labelHistory.reverse[0]? = some change := by
    rw [reverse_history_apply]
    rfl
  exact List.mem_of_getElem? (ledger_foldl post hfirst (by omega))

/-! ## What is owed -/

/-- What is owed to the writers: their writes are in effect until the same field is written again,
their moves are in the ledger until the bound drops them, the ledger is in step with the labels,
and versions have numbers of their own and stay. -/
structure Kept (versions : List PromptVersion) (s : Registry) : Prop where
  effect : ∀ pre w post, s.acks = pre ++ w :: post → (∀ w' ∈ post, w'.field ≠ w.field) →
    InEffect s.row w
  ledger : ∀ pre change post, s.acks = pre ++ .label change :: post →
    (post.filter RegistryWrite.moves).length < MAX_LABEL_HISTORY → change ∈ s.row.labelHistory
  newest : Registry.InStep s.row
  versions : s.VersionsKept versions

namespace Registry

/-- A writer that is about to write finds the row as it loaded it, but for the field it writes. -/
def Undisturbed (s : Registry) (l : RegistryStep) : Prop :=
  match l with
  | .commit i now => ∀ w, s.writers[i]? = some w → (w.op.write now w.snapshot).isSome = true →
    ∀ f, w.op.field w.snapshot = some f → SameBut f w.snapshot s.row
  | _ => True

/-- Then the row is the one that the acknowledged writes make. -/
theorem serial_exec {start : Prompt} {s : Registry} (h : SameContent s.row (serial start s.acks))
    {l : RegistryStep} (hund : s.Undisturbed l) :
    SameContent (s.exec l).row (serial start (s.exec l).acks) := by
  rcases s.exec_cases l with ⟨ws, -, hexec | ⟨i, now, w, row, ack, rfl, hw, hwrite, hexec⟩ |
    ⟨v, -, hexec⟩⟩
  · rw [hexec]
    exact h
  · rw [hexec]
    show SameContent row (serial start (s.acks ++ [ack]))
    have hserial : serial start (s.acks ++ [ack]) = ack.apply (serial start s.acks) := by
      unfold serial
      rw [List.foldl_append]
      rfl
    have hbut := hund w hw (by rw [hwrite]; rfl) ack.field (write_cases hwrite).1
    have hsame : SameBut ack.field s.row (serial start s.acks) :=
      ⟨fun l _ => h.labels l, fun _ => h.link, fun _ => h.policy, h.ledger⟩
    rw [hserial]
    exact ((write_eq_apply hwrite).trans hbut.apply).trans hsame.apply
  · rw [hexec]
    exact h

/-- **No acknowledged write is lost** in a run in which every writer that writes finds the row as it
loaded it, but for the field it writes. -/
theorem acknowledged_run {start : Prompt} {versions : List PromptVersion} (hstart : InStep start)
    (hversions : (versions.map PromptVersion.version).Nodup) {ls : List RegistryStep}
    {s : Registry} (hrun : Sys.Run (Sys.Restrict Step Undisturbed) (init start versions) ls s) :
    Kept versions s := by
  have hserial : SameContent s.row (serial start s.acks) := by
    refine hrun.invariant (I := fun a => SameContent a.row (serial start a.acks)) ?_ ?_
    · exact ⟨fun _ => rfl, rfl, rfl, rfl⟩
    · rintro a l b ⟨rfl, hund⟩ ha
      exact serial_exec ha hund
  refine ⟨?_, ?_, (inStep_run hstart hrun.of_restrict).row,
    versions_run hversions hrun.of_restrict⟩
  · intro pre w post hacks hlast
    rw [hacks] at hserial
    exact hserial.symm.inEffect (inEffect_serial start pre post w hlast)
  · intro pre change post hacks hfew
    rw [hacks] at hserial
    rw [hserial.ledger]
    exact mem_ledger_serial start pre post change hfew

/-- A prompt without labels, and its first version. -/
def freshPrompt : Prompt where
  id := "pr-1"
  projectId := "p1"
  name := "reply"
  benchmarkId := none
  labels := OrdMap.empty
  canary := none
  labelHistory := []
  createdAt := 0
  updatedAt := 0

def firstVersion : PromptVersion := ⟨"v-1", "pr-1", 1, "Hello", .null, none, 0⟩

/-- A promotion, and after it a benchmark link. -/
def promoteThenLink : List RegistryStep :=
  [.load (.promote "production" 1), .look 0, .commit 0 5, .load (.linkBenchmark (some "b1")),
    .commit 0 6]

theorem acknowledged_sample :
    Sys.Run (Sys.Restrict Step Undisturbed) (init freshPrompt [firstVersion]) promoteThenLink
        (promoteThenLink.foldl exec (init freshPrompt [firstVersion])) ∧
      Kept [firstVersion] (promoteThenLink.foldl exec (init freshPrompt [firstVersion])) := by
  have hrun : Sys.Run (Sys.Restrict Step Undisturbed) (init freshPrompt [firstVersion])
      promoteThenLink (promoteThenLink.foldl exec (init freshPrompt [firstVersion])) := by
    refine Sys.Run.of_enabled _ exec Undisturbed (fun s l h => ⟨rfl, h⟩) _ _ ?_
    refine ⟨trivial, trivial, ?_, trivial, ?_, trivial⟩
    · intro w hw _ f _
      cases hw
      exact ⟨fun _ _ => rfl, fun _ => rfl, fun _ => rfl, rfl⟩
    · intro w hw _ f _
      cases hw
      exact ⟨fun _ _ => rfl, fun _ => rfl, fun _ => rfl, rfl⟩
  refine ⟨hrun, acknowledged_run ?_ (by decide) hrun⟩
  intro l c hc
  cases hc

/-- A promotion loads the row, then a benchmark is linked, then the promotion writes. -/
def linkWithinPromote : List RegistryStep :=
  [.load (.promote "production" 1), .look 0, .load (.linkBenchmark (some "b1")), .commit 1 5,
    .commit 0 6]

/-- **A link is lost**: both writes are acknowledged, and no benchmark is linked. -/
theorem link_lost :
    (linkWithinPromote.foldl exec (init freshPrompt [firstVersion])).acks =
        [.link (some "b1"), .label ⟨"production", 1, 6, some REASON_PROMOTE⟩] ∧
      (linkWithinPromote.foldl exec (init freshPrompt [firstVersion])).row.benchmarkId = none ∧
      ¬ Kept [firstVersion] (linkWithinPromote.foldl exec (init freshPrompt [firstVersion])) := by
  have hacks : (linkWithinPromote.foldl exec (init freshPrompt [firstVersion])).acks =
      [.link (some "b1"), .label ⟨"production", 1, 6, some REASON_PROMOTE⟩] := by decide +kernel
  have hrow : (linkWithinPromote.foldl exec (init freshPrompt [firstVersion])).row.benchmarkId =
      none := by decide +kernel
  refine ⟨hacks, hrow, ?_⟩
  intro hkept
  have heffect := hkept.effect [] _ _ hacks (by decide)
  exact absurd (hrow.symm.trans heffect) (by decide)

end Registry

end LightTrack
