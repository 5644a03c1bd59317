import LightTrack.Api.PromptCanarySweep
import LightTrack.Lib.Selection

/-! # Canary reverts over time

Promotions and sweep passes of one prompt, one after the other.  A promotion and a revert leave the
same kind of entry in the ledger, and the sweep falls back to the newest entry of another version:
where the version under the canary label was itself put there by a revert, that is the version that
was reverted.

* `NeverReserves`, `AtMostOnce` : what a history of the canary label should satisfy,
* `LedgerTells` : what the ledger tells about the history,
* `earlier_of_not_placed` : after a revert the ledger falls back to what was reverted,
* `reverts_settle_run` : histories in which no revert starts from what a revert put there,
* `canary_flaps` : two passes that serve again what was reverted.
-/

namespace LightTrack

/-! ## Histories of a label -/

/-- A move of the canary label. -/
inductive LabelMove where
  | promoted (version : UInt32)
  | reverted (source target : UInt32)
  deriving DecidableEq

/-- A history, newest move first, in which a revert moved the label away from a version that no
promotion has chosen since. -/
def LeftBehind (v : UInt32) : List LabelMove → Prop
  | [] => False
  | .promoted w :: moves => v ≠ w ∧ LeftBehind v moves
  | .reverted source _ :: moves => v = source ∨ LeftBehind v moves

/-- No revert put the label back on a version that was left behind. -/
def NeverReserves : List LabelMove → Prop
  | [] => True
  | .promoted _ :: moves => NeverReserves moves
  | .reverted _ target :: moves => ¬ LeftBehind target moves ∧ NeverReserves moves

/-- Between two promotions the label is reverted at most once. -/
def AtMostOnce (moves : List LabelMove) : Prop :=
  moves.IsChain fun m m' =>
    ¬ ((∃ s t, m = .reverted s t) ∧ ∃ s t, m' = .reverted s t)

/-! ## Runs -/

/-- What happens to a prompt. -/
inductive CanaryOp where
  | promote (label : String) (version : UInt32)
  | sweep (rows : Option (List ScoreSummaryRow)) (stored : Bool)

/-- A prompt, and the history of its canary label since the start, newest move first. -/
structure CanaryRun where
  prompt : Prompt
  moves : List LabelMove

/-- The move that a pass made. -/
def sweepMove (r : Option CanaryRegression) : Option LabelMove :=
  r.bind fun r => r.revertedTo.map fun target => .reverted r.canaryVersion target

/-- The move of the canary label that a promotion made. -/
def promoteMove (prompt : Prompt) (label : String) (version : UInt32) : Option LabelMove :=
  if prompt.canary.map CanaryPolicy.label = some label then some (.promoted version) else none

def CanaryRun.exec (s : CanaryRun) (l : Time × CanaryOp) : CanaryRun :=
  match l.2 with
  | .promote label version =>
    ⟨s.prompt.moveLabel l.1 label version REASON_PROMOTE,
      (promoteMove s.prompt label version).toList ++ s.moves⟩
  | .sweep rows stored =>
    ⟨(onePrompt l.1 rows stored s.prompt).2,
      (sweepMove (onePrompt l.1 rows stored s.prompt).1).toList ++ s.moves⟩

def CanaryRun.Step (s : CanaryRun) (l : Time × CanaryOp) (s' : CanaryRun) : Prop :=
  s' = s.exec l

/-! ## What the ledger shows -/

/-- Of the moves of a label, those that led to the current version and kept it. -/
def currentMoves (current : Option UInt32) (changes : List LabelChange) : List LabelChange :=
  changes.takeWhile fun c => some c.version == current

/-- The moves before. -/
def earlierMoves (current : Option UInt32) (changes : List LabelChange) : List LabelChange :=
  changes.dropWhile fun c => some c.version == current

/-- A promotion led to the current version, or the ledger does not show where the label was before. -/
def PlacedByPromotion (current : Option UInt32) (changes : List LabelChange) : Prop :=
  earlierMoves current changes = [] ∨
    ∃ c, (currentMoves current changes).getLast? = some c ∧
      c.reason ≠ some REASON_CANARY_REGRESSED

/-- What the ledger of a label, newest entry first, tells about its history. -/
structure LedgerTells (current : Option UInt32) (changes : List LabelChange)
    (moves : List LabelMove) : Prop where
  shown : ∀ v, LeftBehind v moves → ∀ c, changes.head? = some c → some c.version = current
  served : ∀ v, current = some v → ¬ LeftBehind v moves
  earlier : PlacedByPromotion current changes →
    ∀ c, (earlierMoves current changes).head? = some c → ¬ LeftBehind c.version moves
  reverted : (∃ s t rest, moves = .reverted s t :: rest) → PlacedByPromotion current changes →
    earlierMoves current changes = []
  never : NeverReserves moves
  once : AtMostOnce moves

namespace LedgerTells

variable {current : Option UInt32} {changes kept : List LabelChange} {moves : List LabelMove}

theorem start (current : Option UInt32) (changes : List LabelChange) :
    LedgerTells current changes [] where
  shown _ h := h.elim
  served _ _ h := h
  earlier _ _ _ h := h
  reverted := by
    rintro ⟨s, t, rest, h⟩
    cases h
  never := trivial
  once := List.isChain_nil

/-- A ledger that is cut off shows less. -/
theorem PlacedByPromotion.of_prefix (hkept : kept <+: changes)
    (h : PlacedByPromotion current kept) (hne : earlierMoves current kept ≠ []) :
    PlacedByPromotion current changes ∧
      (earlierMoves current kept).head? = (earlierMoves current changes).head? := by
  rcases Selection.split_of_prefix hkept hne with ⟨htake, hhead⟩
  refine ⟨.inr ?_, hhead⟩
  rcases h with hnil | ⟨c, hlast, hreason⟩
  · exact absurd hnil hne
  · refine ⟨c, ?_, hreason⟩
    unfold currentMoves at hlast ⊢
    rw [← htake]
    exact hlast

theorem cut (h : LedgerTells current changes moves) (hkept : kept <+: changes) :
    LedgerTells current kept moves where
  shown v hv c hc := by
    rcases hkept with ⟨rest, rfl⟩
    refine h.shown v hv c ?_
    rw [List.head?_append, hc]
    rfl
  served := h.served
  earlier hplaced c hc := by
    have hne : earlierMoves current kept ≠ [] := fun hnil => by
      rw [hnil] at hc
      cases hc
    rcases PlacedByPromotion.of_prefix hkept hplaced hne with ⟨hplaced', hhead⟩
    exact h.earlier hplaced' c (hhead ▸ hc)
  reverted hrev hplaced := by
    by_contra hne
    rcases PlacedByPromotion.of_prefix hkept hplaced hne with ⟨hplaced', hhead⟩
    rw [h.reverted hrev hplaced', List.head?_nil, List.head?_eq_none_iff] at hhead
    exact hne hhead
  never := h.never
  once := h.once

/-- A promotion chooses a version again, and leaves the one that it replaces as it was. -/
theorem promote (h : LedgerTells current changes moves) (c : LabelChange) :
    LedgerTells (some c.version) (c :: changes) (.promoted c.version :: moves) where
  shown _ _ c' hc' := by
    rw [List.head?_cons, Option.some.injEq] at hc'
    rw [hc']
  served v hv hleft := by
    rw [Option.some.injEq] at hv
    exact hleft.1 hv.symm
  earlier hplaced c' hc' hleft := by
    have hsplit : earlierMoves (some c.version) (c :: changes) =
        earlierMoves (some c.version) changes := List.dropWhile_cons_of_pos (by simp)
    have htake : currentMoves (some c.version) (c :: changes) =
        c :: currentMoves (some c.version) changes := List.takeWhile_cons_of_pos (by simp)
    rw [hsplit] at hc'
    have hne : changes ≠ [] := fun hnil => by
      rw [hnil] at hc'
      cases hc'
    rcases List.exists_cons_of_ne_nil hne with ⟨c₀, rest, rfl⟩
    have hshown := h.shown _ hleft.2 c₀ (List.head?_cons ..)
    by_cases hsame : current = some c.version
    · -- the version stays, and so does what led to it
      subst hsame
      refine h.earlier ?_ c' hc' hleft.2
      rcases hplaced with hnil | ⟨last, hlast, hlast'⟩
      · rw [hsplit] at hnil
        exact .inl hnil
      · refine .inr ⟨last, ?_, hlast'⟩
        rw [htake] at hlast
        have hcurrent : currentMoves (some c.version) (c₀ :: rest) =
            c₀ :: currentMoves (some c.version) rest :=
          List.takeWhile_cons_of_pos (by simpa using hshown)
        rw [hcurrent, List.getLast?_cons_cons] at hlast
        rw [hcurrent]
        exact hlast
    · -- the version it replaces was served, so it was not left behind
      have hstop : earlierMoves (some c.version) (c₀ :: rest) = c₀ :: rest := by
        apply List.dropWhile_cons_of_neg
        rw [beq_iff_eq, hshown]
        exact hsame
      rw [hstop, List.head?_cons, Option.some.injEq] at hc'
      subst hc'
      exact h.served _ hshown.symm hleft.2
  reverted := by
    rintro ⟨s, t, rest, heq⟩
    cases heq
  never := h.never
  once := by
    have hchain := h.once
    unfold AtMostOnce at hchain ⊢
    cases moves with
    | nil => exact List.isChain_singleton _
    | cons m rest =>
      refine List.isChain_cons_cons.2 ⟨?_, hchain⟩
      rintro ⟨⟨s, t, heq⟩, -⟩
      cases heq

/-- A revert from a version that a promotion put there falls back to one that was not left behind. -/
theorem revert (h : LedgerTells current changes moves) {source : UInt32}
    (hsource : current = some source) (hplaced : PlacedByPromotion current changes)
    {before c : LabelChange} (hbefore : (earlierMoves current changes).head? = some before)
    (hversion : c.version = before.version)
    (hreason : c.reason = some REASON_CANARY_REGRESSED) (hkept : kept <+: changes) :
    LedgerTells (some c.version) (c :: kept) (.reverted source c.version :: moves) := by
  have hne : before.version ≠ source := by
    have hstop := List.head?_dropWhile_not (fun c => some c.version == current) changes
    unfold earlierMoves at hbefore
    rw [hbefore, hsource] at hstop
    simpa using hstop
  have hfree : ¬ LeftBehind c.version moves := hversion ▸ h.earlier hplaced before hbefore
  -- what is shown of the new version is the revert itself
  have hunplaced : PlacedByPromotion (some c.version) (c :: kept) →
      earlierMoves (some c.version) (c :: kept) = [] := by
    have hsplit : earlierMoves (some c.version) (c :: kept) = earlierMoves (some c.version) kept :=
      List.dropWhile_cons_of_pos (by simp)
    have htake : currentMoves (some c.version) (c :: kept) =
        c :: currentMoves (some c.version) kept := List.takeWhile_cons_of_pos (by simp)
    rintro (hnil | ⟨last, hlast, hlast'⟩)
    · exact hnil
    · cases kept with
      | nil => exact hsplit
      | cons k rest =>
        -- the newest move kept is one to the version that is reverted
        have hk : some k.version = current := by
          rcases hplaced with hnil | ⟨first, hfirst, -⟩
          · rw [hnil] at hbefore
            cases hbefore
          · rcases hkept with ⟨rest', rfl⟩
            by_contra hk
            have hstop : currentMoves current (k :: rest ++ rest') = [] :=
              List.takeWhile_cons_of_neg (by simpa using hk)
            rw [hstop] at hfirst
            cases hfirst
        have hstop : currentMoves (some c.version) (k :: rest) = [] := by
          apply List.takeWhile_cons_of_neg
          rw [beq_iff_eq, hk, hsource, Option.some.injEq, hversion]
          exact Ne.symm hne
        rw [htake, hstop, List.getLast?_singleton, Option.some.injEq] at hlast
        subst hlast
        exact absurd hreason hlast'
  refine ⟨?_, ?_, ?_, ?_, ⟨hfree, h.never⟩, ?_⟩
  · intro v _ c' hc'
    rw [List.head?_cons, Option.some.injEq] at hc'
    rw [hc']
  · rintro v hv hleft
    rw [Option.some.injEq] at hv
    subst hv
    rcases hleft with heq | hleft
    · exact hne (hversion ▸ heq)
    · exact hfree hleft
  · intro hplaced' c' hc'
    rw [hunplaced hplaced'] at hc'
    cases hc'
  · exact fun _ => hunplaced
  · have hchain := h.once
    unfold AtMostOnce at hchain ⊢
    cases moves with
    | nil => exact List.isChain_singleton _
    | cons m rest =>
      refine List.isChain_cons_cons.2 ⟨?_, hchain⟩
      rintro ⟨-, s, t, heq⟩
      subst heq
      rw [h.reverted ⟨s, t, rest, rfl⟩ hplaced] at hbefore
      cases hbefore

end LedgerTells

/-- Where a revert led to the current version, the ledger falls back to the version that this revert
moved the label away from. -/
theorem earlier_of_not_placed {current : Option UInt32} {changes : List LabelChange}
    (hshown : ∀ c, changes.head? = some c → some c.version = current)
    (h : ¬ PlacedByPromotion current changes) :
    ∃ newer c before older, changes = newer ++ c :: before :: older ∧
      c.reason = some REASON_CANARY_REGRESSED ∧ some c.version = current ∧
      (earlierMoves current changes).head? = some before := by
  unfold PlacedByPromotion at h
  rw [not_or, not_exists] at h
  rcases h with ⟨hne, hlast⟩
  rcases List.exists_cons_of_ne_nil hne with ⟨before, older, hearlier⟩
  have hcurrent : currentMoves current changes ≠ [] := by
    intro hnil
    have hall := List.takeWhile_append_dropWhile (p := fun c => some c.version == current)
      (l := changes)
    unfold currentMoves at hnil
    unfold earlierMoves at hearlier
    rw [hnil, List.nil_append] at hall
    have hstop := List.head?_dropWhile_not (fun c => some c.version == current) changes
    rw [hearlier] at hstop hall
    have hsome := hshown before (by rw [← hall]; rfl)
    simp [hsome] at hstop
  have hgetLast := List.getLast?_eq_some_getLast hcurrent
  have hmem := List.mem_takeWhile_imp (List.getLast_mem hcurrent)
  refine ⟨(currentMoves current changes).dropLast, (currentMoves current changes).getLast hcurrent,
    before, older, ?_, ?_, by simpa using hmem, by rw [hearlier]; rfl⟩
  · rw [← List.singleton_append, ← List.append_assoc, List.dropLast_append_getLast, ← hearlier]
    exact List.takeWhile_append_dropWhile.symm
  · by_contra hreason
    exact hlast _ ⟨hgetLast, hreason⟩

/-! ## Reverts that settle -/

namespace CanaryRun

/-- Where a pass acts, a promotion led to the version under the canary label. -/
def Settled (s : CanaryRun) (l : Time × CanaryOp) : Prop :=
  match l.2 with
  | .promote .. => True
  | .sweep rows _ => ∀ policy, Acts s.prompt policy rows →
    PlacedByPromotion (s.prompt.labels.get policy.label) (s.prompt.labelMoves policy.label)

/-- The invariant: without a policy nothing moves, and with one the ledger of its label tells about
the history. -/
def Traced (s : CanaryRun) : Prop :=
  (s.prompt.canary = none → s.moves = []) ∧
    ∀ policy, s.prompt.canary = some policy →
      LedgerTells (s.prompt.labels.get policy.label) (s.prompt.labelMoves policy.label) s.moves

/-- A promotion adds its move to the history of the label it moves. -/
theorem traced_promote {s : CanaryRun} (h : s.Traced) (now : Time) (label : String)
    (version : UInt32) : (s.exec (now, .promote label version)).Traced := by
  refine ⟨fun hnone => ?_, fun policy hpolicy => ?_⟩
  · have hcanary : s.prompt.canary = none := hnone
    show (promoteMove s.prompt label version).toList ++ s.moves = []
    rw [h.1 hcanary]
    unfold promoteMove
    rw [hcanary]
    rfl
  have htells := h.2 policy hpolicy
  show LedgerTells ((s.prompt.moveLabel now label version REASON_PROMOTE).labels.get policy.label)
    ((s.prompt.moveLabel now label version REASON_PROMOTE).labelMoves policy.label)
    ((promoteMove s.prompt label version).toList ++ s.moves)
  have hcanary : s.prompt.canary = some policy := hpolicy
  rw [Prompt.get_moveLabel]
  by_cases hlabel : policy.label = label
  · subst hlabel
    rcases s.prompt.labelMoves_moveLabel now policy.label version REASON_PROMOTE with
      ⟨kept, hkept, hmoves⟩
    have hmove : promoteMove s.prompt policy.label version = some (.promoted version) := by
      unfold promoteMove
      rw [hcanary]
      exact if_pos rfl
    rw [if_pos rfl, hmoves, hmove]
    exact (htells.cut hkept).promote ⟨policy.label, version, now, some REASON_PROMOTE⟩
  · have hmove : promoteMove s.prompt label version = none := by
      unfold promoteMove
      rw [hcanary]
      exact if_neg fun heq => hlabel (Option.some.inj heq)
    rw [if_neg hlabel, hmove]
    exact htells.cut (s.prompt.labelMoves_moveLabel_of_ne now version REASON_PROMOTE
      (Ne.symm hlabel))

/-- A pass adds its move, which takes the label back to the version before. -/
theorem traced_sweep {s : CanaryRun} (h : s.Traced) {now : Time}
    {rows : Option (List ScoreSummaryRow)} {stored : Bool}
    (hset : s.Settled (now, .sweep rows stored)) :
    (s.exec (now, .sweep rows stored)).Traced := by
  rcases onePrompt_cases now rows stored s.prompt with ⟨hsame, hnone⟩ |
    ⟨policy, r, source, target, hacts, hsource, htarget, hpass, -, hfrom, hto⟩
  · have hexec : s.exec (now, .sweep rows stored) = s := by
      -- a pass that acts on nothing records no move
      have hmove : sweepMove (onePrompt now rows stored s.prompt).1 = none := by
        unfold sweepMove
        cases hr : (onePrompt now rows stored s.prompt).1 with
        | none => rfl
        | some r =>
          rw [hr] at hnone
          rw [Option.bind_some] at hnone ⊢
          rw [hnone]
          rfl
      show CanaryRun.mk _ _ = s
      rw [hsame, hmove]
      rfl
    rw [hexec]
    exact h
  · have hexec : s.exec (now, .sweep rows stored) =
        ⟨s.prompt.moveLabel now policy.label target REASON_CANARY_REGRESSED,
          .reverted source target :: s.moves⟩ := by
      show CanaryRun.mk _ _ = _
      rw [hpass]
      show CanaryRun.mk _ ((sweepMove (some r)).toList ++ s.moves) = _
      unfold sweepMove
      rw [Option.bind_some, hto, Option.map_some, hfrom]
      rfl
    rw [hexec]
    have hcanary := hacts.policy_eq
    refine ⟨fun hnone => ?_, fun policy' hpolicy' => ?_⟩
    · have hnone' : s.prompt.canary = none := hnone
      rw [hcanary] at hnone'
      cases hnone'
    have hsame : policy' = policy := by
      have hpolicy'' : s.prompt.canary = some policy' := hpolicy'
      rw [hcanary] at hpolicy''
      exact (Option.some.inj hpolicy'').symm
    subst hsame
    -- the version to go back to is where the label was before its last move
    rw [Prompt.previousVersion_eq] at htarget
    rcases Option.map_eq_some_iff.1 htarget with ⟨before, hbefore, hversion⟩
    rcases s.prompt.labelMoves_moveLabel now policy'.label target REASON_CANARY_REGRESSED with
      ⟨kept, hkept, hmoves⟩
    show LedgerTells ((s.prompt.moveLabel now policy'.label target
      REASON_CANARY_REGRESSED).labels.get policy'.label) ((s.prompt.moveLabel now policy'.label
        target REASON_CANARY_REGRESSED).labelMoves policy'.label) _
    rw [Prompt.get_moveLabel, if_pos rfl, hmoves]
    exact (h.2 policy' hcanary).revert hsource (hset policy' hacts) hbefore
      (c := ⟨policy'.label, target, now, some REASON_CANARY_REGRESSED⟩) hversion.symm rfl hkept

theorem traced_exec {s : CanaryRun} (h : s.Traced) {l : Time × CanaryOp} (hset : s.Settled l) :
    (s.exec l).Traced := by
  rcases l with ⟨now, op⟩
  cases op with
  | promote label version => exact traced_promote h now label version
  | sweep rows stored => exact traced_sweep h hset

/-- **No revert serves again what was reverted**, and none follows another, in every run in which
the sweep acts only where a promotion led to the version under the canary label.  What the next pass
changes is the canary label and one entry of the ledger, or nothing. -/
theorem reverts_settle_run {prompt : Prompt} {ls : List (Time × CanaryOp)} {s : CanaryRun}
    (hrun : Sys.Run (Sys.Restrict Step Settled) ⟨prompt, []⟩ ls s) :
    NeverReserves s.moves ∧ AtMostOnce s.moves ∧
      ∀ now rows stored, RevertFrame now rows stored s.prompt := by
  have htraced : s.Traced := by
    refine hrun.invariant ⟨fun _ => rfl, fun _ _ => LedgerTells.start _ _⟩ ?_
    rintro a l b ⟨rfl, hset⟩ ha
    exact traced_exec ha hset
  cases hcanary : s.prompt.canary with
  | none =>
    rw [htraced.1 hcanary]
    exact ⟨trivial, List.isChain_nil, fun now rows stored => onePrompt_frame now rows stored _⟩
  | some policy =>
    have htells := htraced.2 policy hcanary
    exact ⟨htells.never, htells.once, fun now rows stored => onePrompt_frame now rows stored _⟩

/-- Verdicts under which the versions 2 and 3 of a prompt are worse than version 1. -/
def worseRows : List ScoreSummaryRow :=
  [⟨some "reply@v1", 20, 9 / 10, 17 / 20, 19 / 20⟩, ⟨some "reply@v2", 20, 1 / 2, 2 / 5, 3 / 5⟩,
    ⟨some "reply@v3", 20, 1 / 2, 2 / 5, 3 / 5⟩]

/-- A prompt whose canary label is reverted when it regresses. -/
def canaryPrompt : Prompt where
  id := "pr-1"
  projectId := "p1"
  name := "reply"
  benchmarkId := none
  labels := OrdMap.empty
  canary := some ⟨"canary", "production", 20, 86400, 1 / 20, true⟩
  labelHistory := []
  createdAt := 0
  updatedAt := 0

/-- Version 1 serves production, the versions 2 and 3 are promoted to the canary label, and the
sweep runs. -/
def canaryOps : List (Time × CanaryOp) :=
  [(1, .promote "production" 1), (2, .promote "canary" 2), (3, .promote "canary" 3),
    (4, .sweep (some worseRows) true)]

theorem reverts_settle_sample :
    Sys.Run (Sys.Restrict Step Settled) ⟨canaryPrompt, []⟩ canaryOps
        (canaryOps.foldl exec ⟨canaryPrompt, []⟩) ∧
      NeverReserves (canaryOps.foldl exec ⟨canaryPrompt, []⟩).moves ∧
      AtMostOnce (canaryOps.foldl exec ⟨canaryPrompt, []⟩).moves ∧ ∀ now rows stored,
        RevertFrame now rows stored (canaryOps.foldl exec ⟨canaryPrompt, []⟩).prompt := by
  have hrun : Sys.Run (Sys.Restrict Step Settled) ⟨canaryPrompt, []⟩ canaryOps
      (canaryOps.foldl exec ⟨canaryPrompt, []⟩) := by
    refine Sys.Run.of_enabled _ exec Settled (fun s l h => ⟨rfl, h⟩) _ _ ?_
    refine ⟨trivial, trivial, trivial, ?_, trivial⟩
    intro policy hacts
    have hpolicy : some _ = some policy := hacts.policy_eq
    cases hpolicy
    refine .inr ⟨⟨"canary", 3, 3, some REASON_PROMOTE⟩, ?_, ?_⟩
    · decide +kernel
    · decide
  exact ⟨hrun, reverts_settle_run hrun⟩

/-- **The canary flaps**: one more pass under the same verdicts reverts version 2, which the first
revert fell back to, to version 3, which it reverted. -/
theorem canary_flaps :
    ((canaryOps ++ [(5, CanaryOp.sweep (some worseRows) true)]).foldl exec ⟨canaryPrompt, []⟩).moves =
        [.reverted 2 3, .reverted 3 2, .promoted 3, .promoted 2] ∧
      ¬ NeverReserves [.reverted 2 3, .reverted 3 2, .promoted 3, .promoted 2] ∧
      ¬ AtMostOnce [.reverted 2 3, .reverted 3 2, .promoted 3, .promoted 2] := by
  refine ⟨by decide +kernel, ?_, ?_⟩
  · intro hnever
    exact hnever.1 (.inl rfl)
  · intro honce
    exact (List.isChain_cons_cons.1 honce).1 ⟨⟨2, 3, rfl⟩, ⟨3, 2, rfl⟩⟩

end CanaryRun

end LightTrack
