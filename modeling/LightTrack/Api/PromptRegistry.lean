import LightTrack.Api.PromptCanarySweep
import LightTrack.Core.Json
import LightTrack.Lib.Keyed

/-! # Writers of a registry entry

A promotion, a benchmark link, a canary policy and a revert of the sweep all load the row of a
prompt, look at other tables and then replace the row: labels, link, policy and ledger.  A version is
added by reading the versions there are and inserting the next number.

Here every store call is one step, and any writer may take a step at any time.

* `Registry.exec` : one step,
* `inStep_run`, `versions_run` : what holds in every run.
-/

namespace LightTrack

/-- One immutable version of a prompt. -/
structure PromptVersion where
  id : String
  promptId : String
  version : UInt32
  content : String
  config : Json
  note : Option String
  createdAt : Time

/-- `next_version`: the highest there is, plus one. -/
def nextVersion (existing : List PromptVersion) : UInt32 :=
  (existing.map PromptVersion.version).max?.getD 0 + 1

/-! ## Writes -/

/-- What a writer is asked to do. -/
inductive RegistryOp where
  | promote (label : String) (version : UInt32)
  | linkBenchmark (benchmarkId : Option String)
  | setCanary (canary : Option CanaryPolicy)
  | sweep (rows : Option (List ScoreSummaryRow))
  | addVersion (id content : String) (config : Json) (note : Option String)

/-- A field of the row that is written on its own. -/
inductive RegistryField where
  | label (label : String)
  | link
  | policy
  deriving DecidableEq

/-- A write that was acknowledged. -/
inductive RegistryWrite where
  | label (change : LabelChange)
  | link (benchmarkId : Option String)
  | policy (canary : Option CanaryPolicy)
  deriving DecidableEq

def RegistryWrite.field : RegistryWrite → RegistryField
  | label change => .label change.label
  | link _ => .link
  | policy _ => .policy

/-- The field that a writer is about to write, in the row as it loaded it. -/
def RegistryOp.field (snapshot : Prompt) : RegistryOp → Option RegistryField
  | promote label _ => some (.label label)
  | linkBenchmark _ => some .link
  | setCanary _ => some .policy
  | sweep _ => snapshot.canary.map fun policy => .label policy.label
  | addVersion .. => none

/-- `set_canary` refuses a policy that could never fire. -/
def canaryAllowed (snapshot : Prompt) (canary : Option CanaryPolicy) : Bool :=
  canary.all fun policy =>
    policy.invalid.isNone && (snapshot.labels.get policy.productionLabel).isSome

/-- The row that a writer stores, made from the row it loaded, and what it acknowledges. -/
def RegistryOp.write (now : Time) (snapshot : Prompt) : RegistryOp → Option (Prompt × RegistryWrite)
  | promote label version =>
    some (snapshot.moveLabel now label version REASON_PROMOTE,
      .label ⟨label, version, now, some REASON_PROMOTE⟩)
  | linkBenchmark benchmarkId =>
    some ({ snapshot with benchmarkId := benchmarkId, updatedAt := now }, .link benchmarkId)
  | setCanary canary =>
    if canaryAllowed snapshot canary then
      some ({ snapshot with canary := canary, updatedAt := now }, .policy canary)
    else none
  | sweep rows =>
    let pass := onePrompt now rows true snapshot
    pass.1.bind fun r => r.revertedTo.map fun version =>
      (pass.2, .label ⟨r.canaryLabel, version, now, some REASON_CANARY_REGRESSED⟩)
  | addVersion .. => none

/-! ## Steps -/

/-- A writer between two store calls: the row as it loaded it, and the version number it looked up,
which is that of the version to promote or the next one. -/
structure RegistryWriter where
  op : RegistryOp
  snapshot : Prompt
  looked : Option UInt32

/-- The row of a prompt and its versions, the writers under way, the writes acknowledged so far
and the versions acknowledged so far, oldest first. -/
structure Registry where
  row : Prompt
  versions : List PromptVersion
  writers : List RegistryWriter
  acks : List RegistryWrite
  added : List PromptVersion

/-- One store call of one writer, or its end. -/
inductive RegistryStep where
  | load (op : RegistryOp)
  | look (i : ℕ)
  | refuse (i : ℕ)
  | commit (i : ℕ) (now : Time)

namespace Registry

/-- `get_prompt_version` of a promotion, `list_prompt_versions` of a new version. -/
def look (s : Registry) (i : ℕ) (w : RegistryWriter) : Registry :=
  match w.op with
  | .promote _ version =>
    if s.versions.any fun v => v.version == version then
      { s with writers := s.writers.set i { w with looked := some version } }
    else { s with writers := s.writers.eraseIdx i }
  | .addVersion .. =>
    { s with writers := s.writers.set i { w with looked := some (nextVersion s.versions) } }
  | _ => s

/-- `update_prompt`: the row is replaced. -/
def update (s : Registry) (i : ℕ) : Option (Prompt × RegistryWrite) → Registry
  | none => { s with writers := s.writers.eraseIdx i }
  | some (row, ack) =>
    { s with row := row, writers := s.writers.eraseIdx i, acks := s.acks ++ [ack] }

/-- `create_prompt_version`, under a number that the store keeps unique, or `update_prompt`. A
promotion that has not found its version does not get here. -/
def commit (s : Registry) (i : ℕ) (now : Time) (w : RegistryWriter) : Registry :=
  match w.op with
  | .addVersion id content config note =>
    match w.looked with
    | none => s
    | some next =>
      let version : PromptVersion := ⟨id, w.snapshot.id, next, content, config, note, now⟩
      if next ∈ s.versions.map PromptVersion.version then
        { s with writers := s.writers.eraseIdx i }
      else
        { s with
          versions := s.versions ++ [version]
          writers := s.writers.eraseIdx i
          added := s.added ++ [version] }
  | .promote _ version =>
    if w.looked = some version then s.update i (w.op.write now w.snapshot) else s
  | _ => s.update i (w.op.write now w.snapshot)

/-- One step. A writer may be refused at any point: by a gate, by an authorisation, or because a
store call fails. -/
def exec (s : Registry) : RegistryStep → Registry
  | .load op => { s with writers := s.writers ++ [⟨op, s.row, none⟩] }
  | .look i => (s.writers[i]?).elim s (s.look i)
  | .refuse i => { s with writers := s.writers.eraseIdx i }
  | .commit i now => (s.writers[i]?).elim s (s.commit i now)

def Step (s : Registry) (l : RegistryStep) (s' : Registry) : Prop := s' = s.exec l

/-- A prompt with its versions, and nobody at work. -/
def init (row : Prompt) (versions : List PromptVersion) : Registry := ⟨row, versions, [], [], []⟩

/-! ## What holds in every run -/

/-- The ledger is in step with the labels: its newest entry of a label names the label's version. -/
def InStep (p : Prompt) : Prop :=
  ∀ l c, (p.labelMoves l).head? = some c → p.labels.get l = some c.version

theorem InStep.moveLabel {p : Prompt} (h : InStep p) (now : Time) (label : String)
    (version : UInt32) (reason : String) : InStep (p.moveLabel now label version reason) := by
  intro l c hc
  rw [Prompt.get_moveLabel]
  by_cases hl : l = label
  · subst hl
    rcases p.labelMoves_moveLabel now l version reason with ⟨kept, -, hmoves⟩
    rw [hmoves, List.head?_cons, Option.some.injEq] at hc
    rw [if_pos rfl, ← hc]
  · rcases p.labelMoves_moveLabel_of_ne now version reason (Ne.symm hl) with ⟨rest, hrest⟩
    rw [if_neg hl]
    refine h l c ?_
    rw [← hrest, List.head?_append, hc]
    rfl

/-- What a writer stores: the row it loaded with one label moved, the link replaced or the policy
replaced. -/
theorem write_cases {snapshot : Prompt} {op : RegistryOp} {now : Time} {row : Prompt}
    {ack : RegistryWrite} (hwrite : op.write now snapshot = some (row, ack)) :
    op.field snapshot = some ack.field ∧
      ((∃ l v reason, ack = .label ⟨l, v, now, some reason⟩ ∧
          row = snapshot.moveLabel now l v reason) ∨
        (∃ b, ack = .link b ∧ row = { snapshot with benchmarkId := b, updatedAt := now }) ∨
        ∃ c, ack = .policy c ∧ row = { snapshot with canary := c, updatedAt := now }) := by
  cases op with
  | promote label version =>
    cases hwrite
    exact ⟨rfl, .inl ⟨_, _, _, rfl, rfl⟩⟩
  | linkBenchmark benchmarkId =>
    cases hwrite
    exact ⟨rfl, .inr (.inl ⟨_, rfl, rfl⟩)⟩
  | setCanary canary =>
    simp only [RegistryOp.write] at hwrite
    split_ifs at hwrite
    cases hwrite
    exact ⟨rfl, .inr (.inr ⟨_, rfl, rfl⟩)⟩
  | sweep rows =>
    simp only [RegistryOp.write] at hwrite
    rcases Option.bind_eq_some_iff.1 hwrite with ⟨r, hr, hrow⟩
    rcases Option.map_eq_some_iff.1 hrow with ⟨v, hv, hpair⟩
    cases hpair
    -- a sweep that stores a row acts on the canary, and so moves its label
    rcases onePrompt_cases now rows true snapshot with ⟨-, hnone⟩ |
      ⟨policy, r', source, target, hacts, -, -, hpass, hlabel, -, hto⟩
    · rw [hr, Option.bind_some, hv] at hnone
      cases hnone
    · rw [hpass] at hr ⊢
      cases hr
      rw [hv, Option.some.injEq] at hto
      subst hto
      refine ⟨?_, .inl ⟨_, v, _, rfl, ?_⟩⟩
      · show snapshot.canary.map _ = some (RegistryField.label r.canaryLabel)
        rw [hacts.policy_eq, hlabel]
        rfl
      · rw [hlabel]
  | addVersion => cases hwrite

/-- Whatever a writer stores is in step, if what it loaded was. -/
theorem InStep.write {snapshot : Prompt} (h : InStep snapshot) {op : RegistryOp} {now : Time}
    {row : Prompt} {ack : RegistryWrite} (hwrite : op.write now snapshot = some (row, ack)) :
    InStep row := by
  rcases (write_cases hwrite).2 with ⟨l, v, reason, -, rfl⟩ | ⟨b, -, rfl⟩ | ⟨c, -, rfl⟩
  · exact h.moveLabel now l v reason
  · exact h
  · exact h

/-- The row and every row that a writer has loaded are in step. -/
structure AllInStep (s : Registry) : Prop where
  row : InStep s.row
  writers : ∀ w ∈ s.writers, InStep w.snapshot

/-- The numbers of the versions differ, and no version that was there or was acknowledged since is
gone. -/
structure VersionsKept (before : List PromptVersion) (s : Registry) : Prop where
  distinct : (s.versions.map PromptVersion.version).Nodup
  kept : ∀ v, v ∈ before ∨ v ∈ s.added → v ∈ s.versions

/-- Each of these writers loaded what one before it had loaded, or the row. -/
def LoadedBefore (s : Registry) (ws : List RegistryWriter) : Prop :=
  ∀ w ∈ ws, w.snapshot = s.row ∨ ∃ w' ∈ s.writers, w.snapshot = w'.snapshot

theorem loadedBefore_self (s : Registry) : s.LoadedBefore s.writers :=
  fun w hw => .inr ⟨w, hw, rfl⟩

theorem loadedBefore_eraseIdx (s : Registry) (i : ℕ) : s.LoadedBefore (s.writers.eraseIdx i) :=
  fun w hw => .inr ⟨w, List.mem_of_mem_eraseIdx hw, rfl⟩

/-- What looking something up does: nothing, or the writer ends, or it goes on. -/
theorem look_cases (s : Registry) {i : ℕ} {w : RegistryWriter} (hw : s.writers[i]? = some w) :
    ∃ ws, s.LoadedBefore ws ∧ s.look i w = { s with writers := ws } := by
  have hset : ∀ looked, s.LoadedBefore (s.writers.set i { w with looked := looked }) := by
    intro looked w' hw'
    rcases List.mem_or_eq_of_mem_set hw' with hw' | rfl
    · exact s.loadedBefore_self w' hw'
    · exact .inr ⟨w, List.mem_of_getElem? hw, rfl⟩
  unfold look
  split
  · split_ifs
    · exact ⟨_, hset _, rfl⟩
    · exact ⟨_, s.loadedBefore_eraseIdx i, rfl⟩
  · exact ⟨_, hset _, rfl⟩
  · exact ⟨_, s.loadedBefore_self, rfl⟩

/-- What a commit does: nothing, when the writer is not that far; nothing but end the writer, when
there is nothing to write or the number is taken; or it writes. -/
theorem commit_cases (s : Registry) (i : ℕ) (now : Time) (w : RegistryWriter) :
    s.commit i now w = s ∨ s.commit i now w = { s with writers := s.writers.eraseIdx i } ∨
      (∃ row ack, w.op.write now w.snapshot = some (row, ack) ∧ s.commit i now w =
        { s with row := row, writers := s.writers.eraseIdx i, acks := s.acks ++ [ack] }) ∨
      ∃ v, v.version ∉ s.versions.map PromptVersion.version ∧ s.commit i now w =
        { s with
          versions := s.versions ++ [v]
          writers := s.writers.eraseIdx i
          added := s.added ++ [v] } := by
  have hupdate : s.update i (w.op.write now w.snapshot) =
        { s with writers := s.writers.eraseIdx i } ∨
      ∃ row ack, w.op.write now w.snapshot = some (row, ack) ∧
        s.update i (w.op.write now w.snapshot) =
          { s with row := row, writers := s.writers.eraseIdx i, acks := s.acks ++ [ack] } := by
    cases hwrite : w.op.write now w.snapshot with
    | none => exact .inl rfl
    | some out => exact .inr ⟨out.1, out.2, rfl, rfl⟩
  unfold commit
  split
  · split
    · exact .inl rfl
    · split_ifs with htaken
      · exact .inr (.inl rfl)
      · exact .inr (.inr (.inr ⟨_, htaken, rfl⟩))
  · split_ifs
    · rcases hupdate with herase | hrow
      · exact .inr (.inl herase)
      · exact .inr (.inr (.inl hrow))
    · exact .inl rfl
  · rcases hupdate with herase | hrow
    · exact .inr (.inl herase)
    · exact .inr (.inr (.inl hrow))

/-- What a step does: it concerns the writers alone, or it replaces the row, or it adds a version
under a number of its own. -/
theorem exec_cases (s : Registry) (l : RegistryStep) : ∃ ws, s.LoadedBefore ws ∧
    (s.exec l = { s with writers := ws } ∨
      (∃ i now w row ack, l = .commit i now ∧ s.writers[i]? = some w ∧
        w.op.write now w.snapshot = some (row, ack) ∧
        s.exec l = { s with row := row, writers := ws, acks := s.acks ++ [ack] }) ∨
      ∃ v, v.version ∉ s.versions.map PromptVersion.version ∧
        s.exec l =
          { s with versions := s.versions ++ [v], writers := ws, added := s.added ++ [v] }) := by
  cases l with
  | load op =>
    refine ⟨s.writers ++ [⟨op, s.row, none⟩], ?_, .inl rfl⟩
    intro w hw
    rcases List.mem_append.1 hw with hw | hw
    · exact s.loadedBefore_self w hw
    · rw [List.mem_singleton.1 hw]
      exact .inl rfl
  | look i =>
    cases hw : s.writers[i]? with
    | none => exact ⟨_, s.loadedBefore_self, .inl (by simp only [exec, hw, Option.elim_none])⟩
    | some w =>
      rcases s.look_cases hw with ⟨ws, hws, hlook⟩
      exact ⟨ws, hws, .inl (by simp only [exec, hw, Option.elim_some, hlook])⟩
  | refuse i => exact ⟨_, s.loadedBefore_eraseIdx i, .inl rfl⟩
  | commit i now =>
    cases hw : s.writers[i]? with
    | none => exact ⟨_, s.loadedBefore_self, .inl (by simp only [exec, hw, Option.elim_none])⟩
    | some w =>
      have hexec : s.exec (.commit i now) = s.commit i now w := by
        simp only [exec, hw, Option.elim_some]
      rcases s.commit_cases i now w with hsame | herase | ⟨row, ack, hwrite, hrow⟩ | ⟨v, hv, hadd⟩
      · exact ⟨_, s.loadedBefore_self, .inl (hexec.trans hsame)⟩
      · exact ⟨_, s.loadedBefore_eraseIdx i, .inl (hexec.trans herase)⟩
      · exact ⟨_, s.loadedBefore_eraseIdx i, .inr (.inl ⟨i, now, w, row, ack, rfl, hw, hwrite,
          hexec.trans hrow⟩)⟩
      · exact ⟨_, s.loadedBefore_eraseIdx i, .inr (.inr ⟨v, hv, hexec.trans hadd⟩)⟩

theorem inStep_run {row : Prompt} {versions : List PromptVersion} (hrow : InStep row)
    {ls : List RegistryStep} {s : Registry} (hrun : Sys.Run Step (init row versions) ls s) :
    s.AllInStep := by
  refine hrun.invariant ⟨hrow, fun w hw => absurd hw List.not_mem_nil⟩ ?_
  rintro a l b rfl ha
  rcases a.exec_cases l with ⟨ws, hws, hexec⟩
  have hloaded : ∀ w ∈ ws, InStep w.snapshot := by
    intro w hw
    rcases hws w hw with hsnap | ⟨w', hw', hsnap⟩
    · rw [hsnap]
      exact ha.row
    · rw [hsnap]
      exact ha.writers w' hw'
  rcases hexec with hexec | ⟨i, now, w, row, ack, -, hw, hwrite, hexec⟩ | ⟨v, -, hexec⟩
  · rw [hexec]
    exact ⟨ha.row, hloaded⟩
  · rw [hexec]
    exact ⟨(ha.writers w (List.mem_of_getElem? hw)).write hwrite, hloaded⟩
  · rw [hexec]
    exact ⟨ha.row, hloaded⟩

theorem versions_run {row : Prompt} {versions : List PromptVersion}
    (hversions : (versions.map PromptVersion.version).Nodup) {ls : List RegistryStep}
    {s : Registry} (hrun : Sys.Run Step (init row versions) ls s) : s.VersionsKept versions := by
  refine hrun.invariant ⟨hversions, ?_⟩ ?_
  · rintro v (hv | hv)
    · exact hv
    · exact absurd hv List.not_mem_nil
  · rintro a l b rfl ha
    rcases a.exec_cases l with ⟨ws, -, hexec | ⟨_, _, _, _, _, -, -, -, hexec⟩ | ⟨v, hfresh, hexec⟩⟩
    · rw [hexec]
      exact ⟨ha.distinct, ha.kept⟩
    · rw [hexec]
      exact ⟨ha.distinct, ha.kept⟩
    · rw [hexec]
      constructor
      · show ((a.versions ++ [v]).map PromptVersion.version).Nodup
        rw [List.map_append]
        refine List.nodup_append.2 ⟨ha.distinct, List.nodup_singleton _, ?_⟩
        intro n hn n' hn' heq
        rw [List.map_singleton, List.mem_singleton] at hn'
        exact hfresh (hn' ▸ heq ▸ hn)
      · show ∀ v', v' ∈ versions ∨ v' ∈ a.added ++ [v] → v' ∈ a.versions ++ [v]
        rintro v' (hv' | hv')
        · exact List.mem_append_left _ (ha.kept v' (.inl hv'))
        · rcases List.mem_append.1 hv' with hv' | hv'
          · exact List.mem_append_left _ (ha.kept v' (.inr hv'))
          · exact List.mem_append_right _ hv'

end Registry

end LightTrack
