import LightTrack.Client.Limits
import LightTrack.Core.Shed
import LightTrack.Lib.Delimited
import Mathlib.Data.List.AList

/-! # Admission before the spend

A client keeps what the server last said about its caps, one view for each scope that binds, and
decides from that whether a call is made at all.

What a client may be told is read off the answers it has seen, newest last: `Because` says when there
is a reason to refuse.

* `admit_told` : after any history of answers the cache says just what they say,
* `admit_of_response` : the call after an accepted event,
* `admit_of_refusal` : the calls after a refusal.  It is counted against the whole project, whichever
  scope it was for.
-/

namespace LightTrack.Client

/-! ## The cache -/

/-- `AdmitReason` -/
inductive AdmitReason where
  | retryAfter
  | atCap
  | shed
  deriving DecidableEq

/-- `Admit` -/
structure Admit where
  ok : Bool
  reason : Option AdmitReason := none
  retryAfterSecs : Option ℕ := none
  stale : Bool := false
  deriving DecidableEq

/-- `admitted` -/
def Admit.admitted (stale : Bool) : Admit := { ok := true, stale }

/-- `Entry` -/
structure Entry where
  usageRatio : Option ℚ
  shedFraction : Option ℚ
  retryAfterUntilMs : Option Int
  bindingRule : Option String
  refreshedAtMs : Int

/-- `scope_key` -/
def scopeKey (scope : Option BindingScope) : String :=
  match scope with
  | some s => s.kind ++ "=" ++ s.value
  | none => ""

/-- `AdmissionCache` -/
structure AdmissionCache where
  ttlMs : Int
  views : AList fun _ : String => Entry

/-- The deadline of a wait, in the arithmetic of the code. -/
def waitUntil (now : Int) (secs : UInt64) : Int := wrapI64 (now + wrapI64 (asI64 secs * 1000))

/-- The shed lottery of `admit`: the server's, on the binding rule. -/
def drawsShed (shedFraction : Option ℚ) (bindingRule eventId : Option String) : Bool :=
  match shedFraction, eventId with
  | some f, some id => decide (0 < f ∧ shedTicket (bindingRule.getD "") id < f)
  | _, _ => false

theorem drawsShed_iff {shedFraction : Option ℚ} {bindingRule eventId : Option String} :
    drawsShed shedFraction bindingRule eventId = true ↔ ∃ f ∈ shedFraction, ∃ id ∈ eventId,
      0 < f ∧ shedTicket (bindingRule.getD "") id < f := by
  cases shedFraction <;> cases eventId <;> simp [drawsShed]

namespace AdmissionCache

/-- `new` -/
def new (ttlMs : Int) : AdmissionCache := { ttlMs, views := ∅ }

variable (c : AdmissionCache)

/-- `observe` -/
def observe (view : LimitView) (now : Int) : AdmissionCache :=
  let key := scopeKey view.bindingScope
  let prior := c.views.lookup key
  let until_ :=
    if view.accepted then none
    else if view.rateLimited then
      match view.retryAfterSecs with
      | some s => some (waitUntil now s)
      | none => prior.bind Entry.retryAfterUntilMs
    else prior.bind Entry.retryAfterUntilMs
  { c with
    views := c.views.insert key
      { usageRatio := view.usageRatio
        shedFraction := view.shedFraction
        retryAfterUntilMs := until_
        bindingRule := view.bindingRule
        refreshedAtMs := now } }

/-- `clear` -/
def clear : AdmissionCache := { c with views := ∅ }

/-- The view that answers for a call. -/
def viewFor (name : Option String) : Option Entry :=
  (name.bind fun n => c.views.lookup ("name=" ++ n)).or (c.views.lookup "")

/-- `admit` -/
def admitCall (name eventId : Option String) (now : Int) : Admit :=
  match c.viewFor name with
  | none => .admitted false
  | some entry =>
    match entry.retryAfterUntilMs.filter fun t => now < t with
    | some t =>
      -- a wait is a deadline: it does not go stale
      { ok := false
        reason := some .retryAfter
        retryAfterSecs := some ⌈((t - now : Int) : ℚ) / 1000⌉.toNat }
    | none =>
      if c.ttlMs < now - entry.refreshedAtMs then .admitted true
      else if entry.usageRatio.any fun r => decide (1 ≤ r) then
        { ok := false, reason := some .atCap }
      else if drawsShed entry.shedFraction entry.bindingRule eventId then
        { ok := false, reason := some .shed }
      else .admitted false

end AdmissionCache

/-! ## The answers a client has seen -/

/-- What is done with a cache. -/
inductive Act where
  | observe (view : LimitView) (now : Int)
  | clear

def AdmissionCache.exec (c : AdmissionCache) : Act → AdmissionCache
  | .observe view now => c.observe view now
  | .clear => c.clear

/-- The cache after a history. -/
def AdmissionCache.after (ttlMs : Int) (acts : List Act) : AdmissionCache :=
  acts.foldl AdmissionCache.exec (.new ttlMs)

/-- An answer and when it came. -/
structure Seen where
  view : LimitView
  at_ : Int

/-- The answers that count: those after the last time everything was dropped. -/
def since (seen : List Seen) : Act → List Seen
  | .observe view now => seen ++ [⟨view, now⟩]
  | .clear => []

def seenIn (acts : List Act) : List Seen := acts.foldl since []

/-- The answers about one scope. -/
def about (scope : Option BindingScope) (seen : List Seen) : List Seen :=
  seen.filter fun s => s.view.bindingScope = scope

/-- The scope of the calls that name a use-case, or none. -/
def callScope (name : Option String) : Option BindingScope :=
  name.map fun n => { kind := "name", value := n }

/-- The answers that a call is decided from: those about its use-case, if there are any, and
otherwise those about the whole project. -/
def evidence (seen : List Seen) (name : Option String) : List Seen :=
  let own := (name.map fun n => about (callScope (some n)) seen).getD []
  if own = [] then about none seen else own

/-- An answer that says whether to wait: an accepted event, or a refusal with a wait. -/
def Seen.decisive (s : Seen) : Bool :=
  s.view.accepted || s.view.rateLimited && s.view.retryAfterSecs.isSome

/-- Until when to wait: as the last decisive answer said. -/
def deadline (seen : List Seen) : Option Int :=
  (seen.filter Seen.decisive).getLast?.bind fun s =>
    if s.view.accepted then none else s.view.retryAfterSecs.map (waitUntil s.at_)

def Waiting (seen : List Seen) (now : Int) : Prop := ∃ t ∈ deadline seen, now < t

/-- The last answer, while it is evidence. -/
def current (ttlMs : Int) (seen : List Seen) (now : Int) : Option Seen :=
  seen.getLast?.filter fun s => now - s.at_ ≤ ttlMs

/-- When there is a reason to refuse a call. -/
def Because (ttlMs : Int) (seen : List Seen) (eventId : Option String) (now : Int) :
    AdmitReason → Prop
  | .retryAfter => Waiting seen now
  | .atCap => ¬ Waiting seen now ∧
      ∃ s ∈ current ttlMs seen now, ∃ r ∈ s.view.usageRatio, 1 ≤ r
  | .shed => ¬ Waiting seen now ∧ ∃ s ∈ current ttlMs seen now, (∀ r ∈ s.view.usageRatio, r < 1) ∧
      ∃ f ∈ s.view.shedFraction, ∃ id ∈ eventId,
        0 < f ∧ shedTicket (s.view.bindingRule.getD "") id < f

/-- What a client is told. -/
structure Told (ttlMs : Int) (seen : List Seen) (eventId : Option String) (now : Int) (a : Admit) :
    Prop where
  ok : a.ok = true ↔ a.reason = none
  reason : ∀ r, a.reason = some r ↔ Because ttlMs seen eventId now r
  wait : ∀ n, a.retryAfterSecs = some n ↔
    ∃ t ∈ deadline seen, now < t ∧ n = ⌈((t - now : Int) : ℚ) / 1000⌉.toNat
  stale : a.stale = true ↔ ¬ Waiting seen now ∧ ∃ s ∈ seen.getLast?, ttlMs < now - s.at_

/-! ## The cache holds what was seen -/

/-- What the answers about one scope leave in the cache. -/
def entryOf (seen : List Seen) : Option Entry :=
  seen.getLast?.map fun s =>
    { usageRatio := s.view.usageRatio
      shedFraction := s.view.shedFraction
      retryAfterUntilMs := deadline seen
      bindingRule := s.view.bindingRule
      refreshedAtMs := s.at_ }

/-- A scope whose key is no other's: the kinds that the server names have no separator. -/
def Kinded (scope : Option BindingScope) : Prop := ∀ s ∈ scope, '=' ∉ s.kind.toList

def Act.Kinded : Act → Prop
  | .observe view _ => Client.Kinded view.bindingScope
  | .clear => True

theorem kinded_callScope (name : Option String) : Kinded (callScope name) := by
  intro s hs
  obtain ⟨n, -, rfl⟩ := Option.mem_map.1 hs
  simp

theorem scopeKey_inj {a b : Option BindingScope} (ha : Kinded a) (hb : Kinded b)
    (h : scopeKey a = scopeKey b) : a = b := by
  cases a with
  | none =>
    cases b with
    | none => rfl
    | some b =>
      have hlist := congrArg String.toList h
      simp [scopeKey] at hlist
  | some a =>
    have hlist := congrArg String.toList h
    cases b with
    | none => simp [scopeKey] at hlist
    | some b =>
      have hparts : a.kind.toList ++ '=' :: a.value.toList = b.kind.toList ++ '=' :: b.value.toList := by
        simpa [scopeKey] using hlist
      rcases Delimited.append_cons_inj (ha a rfl) (hb b rfl) hparts with ⟨hkind, hvalue⟩
      rcases a with ⟨kind, value⟩
      rcases b with ⟨kind', value'⟩
      obtain rfl : kind = kind' := String.toList_inj.1 hkind
      obtain rfl : value = value' := String.toList_inj.1 hvalue
      rfl

/-- The cache holds, under each scope, what the answers about it say. -/
def Holds (c : AdmissionCache) (seen : List Seen) : Prop :=
  ∀ scope, Kinded scope → c.views.lookup (scopeKey scope) = entryOf (about scope seen)

theorem entryOf_bind (seen : List Seen) :
    (entryOf seen).bind Entry.retryAfterUntilMs = deadline seen := by
  unfold entryOf
  cases h : seen.getLast? with
  | none =>
    rw [List.getLast?_eq_none_iff.1 h]
    rfl
  | some s => rfl

/-- One more answer: it settles the wait, or leaves it as it was. -/
theorem deadline_append (seen : List Seen) (s : Seen) :
    deadline (seen ++ [s]) =
      if s.view.accepted then none
      else if s.view.rateLimited then
        match s.view.retryAfterSecs with
        | some n => some (waitUntil s.at_ n)
        | none => deadline seen
      else deadline seen := by
  unfold deadline
  rw [List.filter_append]
  cases haccepted : s.view.accepted with
  | true => simp [Seen.decisive, haccepted]
  | false =>
    cases hlimited : s.view.rateLimited with
    | false => simp [Seen.decisive, haccepted, hlimited]
    | true => cases hsecs : s.view.retryAfterSecs <;> simp [Seen.decisive, haccepted, hlimited, hsecs]

theorem about_append_self (seen : List Seen) (s : Seen) :
    about s.view.bindingScope (seen ++ [s]) = about s.view.bindingScope seen ++ [s] := by
  simp [about, List.filter_append]

theorem about_append_ne {scope : Option BindingScope} {s : Seen} (h : scope ≠ s.view.bindingScope)
    (seen : List Seen) : about scope (seen ++ [s]) = about scope seen := by
  simp [about, List.filter_append, h.symm]

theorem holds_step {c : AdmissionCache} {seen : List Seen} (a : Act) (ha : a.Kinded)
    (h : Holds c seen) : Holds (c.exec a) (since seen a) := by
  cases a with
  | clear =>
    intro scope _
    rfl
  | observe view now =>
    intro scope hscope
    change ((c.observe view now).views).lookup (scopeKey scope) =
      entryOf (about scope (seen ++ [⟨view, now⟩]))
    unfold AdmissionCache.observe
    dsimp only
    by_cases hs : scope = view.bindingScope
    · subst hs
      rw [AList.lookup_insert, about_append_self seen ⟨view, now⟩]
      unfold entryOf
      rw [List.getLast?_concat, deadline_append, h _ hscope, entryOf_bind]
      rfl
    · have hkey : scopeKey scope ≠ scopeKey view.bindingScope := fun heq =>
        hs (scopeKey_inj hscope ha heq)
      rw [AList.lookup_insert_ne hkey, about_append_ne (s := ⟨view, now⟩) hs]
      exact h scope hscope

theorem viewFor_of_holds {c : AdmissionCache} {seen : List Seen} (h : Holds c seen)
    (name : Option String) : c.viewFor name = entryOf (evidence seen name) := by
  have hproject : c.views.lookup "" = entryOf (about none seen) := h none nofun
  unfold AdmissionCache.viewFor evidence
  rw [hproject]
  cases name with
  | none => rfl
  | some n =>
    have hown : c.views.lookup ("name=" ++ n) = entryOf (about (callScope (some n)) seen) :=
      h _ (kinded_callScope (some n))
    simp only [Option.bind_some, Option.map_some, Option.getD_some, hown]
    cases hlast : (about (callScope (some n)) seen).getLast? with
    | none =>
      rw [List.getLast?_eq_none_iff.1 hlast, if_pos rfl]
      rfl
    | some s =>
      have hne : about (callScope (some n)) seen ≠ [] := by
        intro hnil
        rw [hnil] at hlast
        cases hlast
      rw [if_neg hne, entryOf, hlast]
      rfl

section Cases

variable {ttlMs : Int} {ev : List Seen} {eventId : Option String} {now : Int}

theorem Told.of_waiting {t : Int} (ht : t ∈ deadline ev) (hlt : now < t) :
    Told ttlMs ev eventId now
      { ok := false
        reason := some .retryAfter
        retryAfterSecs := some ⌈((t - now : Int) : ℚ) / 1000⌉.toNat } := by
  have hwaiting : Waiting ev now := ⟨t, ht, hlt⟩
  constructor
  · simp
  · intro r
    cases r with
    | retryAfter => exact iff_of_true rfl hwaiting
    | atCap => exact iff_of_false nofun fun h => h.1 hwaiting
    | shed => exact iff_of_false nofun fun h => h.1 hwaiting
  · intro n
    constructor
    · intro h
      exact ⟨t, ht, hlt, (Option.some.inj h).symm⟩
    · rintro ⟨t', ht', -, rfl⟩
      rw [Option.mem_unique ht ht']
  · exact iff_of_false nofun fun h => h.1 hwaiting

/-- Where nobody has to wait, the answer rests on the last view. -/
theorem Told.of_free (hfree : ¬ Waiting ev now) {a : Admit} (hok : a.ok = true ↔ a.reason = none)
    (hwait : a.retryAfterSecs = none)
    (hreason : ∀ r, a.reason = some r ↔ r ≠ .retryAfter ∧ Because ttlMs ev eventId now r)
    (hstale : a.stale = true ↔ ∃ s ∈ ev.getLast?, ttlMs < now - s.at_) :
    Told ttlMs ev eventId now a := by
  constructor
  · exact hok
  · intro r
    rw [hreason]
    cases r with
    | retryAfter => exact iff_of_false (fun h => h.1 rfl) hfree
    | atCap => exact and_iff_right nofun
    | shed => exact and_iff_right nofun
  · intro n
    rw [hwait]
    exact iff_of_false nofun fun ⟨t, ht, hlt, _⟩ => hfree ⟨t, ht, hlt⟩
  · rw [hstale]
    exact (and_iff_right hfree).symm

/-- Without a view that is evidence only a wait is a reason. -/
theorem not_because (hcurrent : current ttlMs ev now = none) (r : AdmitReason) :
    ¬ (r ≠ .retryAfter ∧ Because ttlMs ev eventId now r) := by
  rintro ⟨hne, hbecause⟩
  cases r with
  | retryAfter => exact hne rfl
  | atCap =>
    obtain ⟨-, s, hs, -⟩ := hbecause
    rw [hcurrent] at hs
    cases hs
  | shed =>
    obtain ⟨-, s, hs, -⟩ := hbecause
    rw [hcurrent] at hs
    cases hs

theorem because_atCap {s : Seen} (hfree : ¬ Waiting ev now) (hcurrent : current ttlMs ev now = some s) :
    Because ttlMs ev eventId now .atCap ↔
      s.view.usageRatio.any (fun r => decide (1 ≤ r)) = true := by
  simp [Because, hfree, hcurrent, Option.any_eq_true]

theorem because_shed {s : Seen} (hfree : ¬ Waiting ev now) (hcurrent : current ttlMs ev now = some s) :
    Because ttlMs ev eventId now .shed ↔
      s.view.usageRatio.any (fun r => decide (1 ≤ r)) = false ∧
        drawsShed s.view.shedFraction s.view.bindingRule eventId = true := by
  rw [drawsShed_iff]
  simp [Because, hfree, hcurrent, Option.any_eq_false]

/-- A view that is evidence: first the cap, then the lottery. -/
theorem Told.of_current {s : Seen} (hfree : ¬ Waiting ev now) (hlast : ev.getLast? = some s)
    (hfresh : ¬ ttlMs < now - s.at_) :
    Told ttlMs ev eventId now
      (if s.view.usageRatio.any fun r => decide (1 ≤ r) then { ok := false, reason := some .atCap }
      else if drawsShed s.view.shedFraction s.view.bindingRule eventId then
        { ok := false, reason := some .shed }
      else .admitted false) := by
  have hcurrent : current ttlMs ev now = some s := by
    rw [current, hlast, Option.filter_some, if_pos (decide_eq_true (not_lt.1 hfresh))]
  have hnot : ¬ ∃ s ∈ ev.getLast?, ttlMs < now - s.at_ := by
    rintro ⟨s', hs', hlt⟩
    rw [Option.mem_unique hs' hlast] at hlt
    exact hfresh hlt
  cases hcap : s.view.usageRatio.any fun r => decide (1 ≤ r) with
  | true =>
    refine Told.of_free hfree (iff_of_false nofun nofun) rfl ?_ (iff_of_false nofun hnot)
    intro r
    cases r with
    | retryAfter => exact iff_of_false nofun fun h => h.1 rfl
    | atCap => exact iff_of_true rfl ⟨nofun, (because_atCap hfree hcurrent).2 hcap⟩
    | shed =>
      refine iff_of_false nofun fun h => ?_
      rw [because_shed hfree hcurrent, hcap] at h
      cases h.2.1
  | false =>
    have hnocap : ¬ Because ttlMs ev eventId now .atCap := by
      rw [because_atCap hfree hcurrent, hcap]
      exact Bool.false_ne_true
    cases hdraw : drawsShed s.view.shedFraction s.view.bindingRule eventId with
    | true =>
      refine Told.of_free hfree (iff_of_false nofun nofun) rfl ?_ (iff_of_false nofun hnot)
      intro r
      cases r with
      | retryAfter => exact iff_of_false nofun fun h => h.1 rfl
      | atCap => exact iff_of_false nofun fun h => hnocap h.2
      | shed => exact iff_of_true rfl ⟨nofun, (because_shed hfree hcurrent).2 ⟨hcap, hdraw⟩⟩
    | false =>
      refine Told.of_free hfree (iff_of_true rfl rfl) rfl ?_ (iff_of_false nofun hnot)
      intro r
      cases r with
      | retryAfter => exact iff_of_false nofun fun h => h.1 rfl
      | atCap => exact iff_of_false nofun fun h => hnocap h.2
      | shed =>
        refine iff_of_false nofun fun h => ?_
        rw [because_shed hfree hcurrent, hdraw] at h
        cases h.2.2

end Cases

theorem told_of_holds {c : AdmissionCache} {seen : List Seen} (h : Holds c seen)
    (name eventId : Option String) (now : Int) :
    Told c.ttlMs (evidence seen name) eventId now (c.admitCall name eventId now) := by
  unfold AdmissionCache.admitCall
  rw [viewFor_of_holds h]
  generalize evidence seen name = ev
  unfold entryOf
  cases hlast : ev.getLast? with
  | none =>
    obtain rfl := List.getLast?_eq_none_iff.1 hlast
    have hfree : ¬ Waiting [] now := fun ⟨t, ht, _⟩ => nomatch ht
    refine Told.of_free hfree (iff_of_true rfl rfl) rfl ?_ (iff_of_false nofun nofun)
    intro r
    exact iff_of_false nofun (not_because rfl r)
  | some s =>
    simp only [Option.map_some]
    cases hwait : (deadline ev).filter fun t => decide (now < t) with
    | some t =>
      obtain ⟨ht, hlt⟩ := Option.filter_eq_some_iff.1 hwait
      exact Told.of_waiting ht (of_decide_eq_true hlt)
    | none =>
      have hfree : ¬ Waiting ev now := by
        rintro ⟨t, ht, hlt⟩
        rw [Option.mem_def.1 ht, Option.filter_some, if_pos (decide_eq_true hlt)] at hwait
        cases hwait
      dsimp only
      by_cases hstale : c.ttlMs < now - s.at_
      · rw [if_pos hstale]
        have hcurrent : current c.ttlMs ev now = none := by
          rw [current, hlast, Option.filter_some, if_neg fun hle =>
            not_le.2 hstale (of_decide_eq_true hle)]
        refine Told.of_free hfree (iff_of_true rfl rfl) rfl ?_ (iff_of_true rfl ⟨s, hlast, hstale⟩)
        intro r
        exact iff_of_false nofun (not_because hcurrent r)
      · rw [if_neg hstale]
        exact Told.of_current hfree hlast hstale

theorem AdmissionCache.after_concat (ttlMs : Int) (acts : List Act) (a : Act) :
    after ttlMs (acts ++ [a]) = (after ttlMs acts).exec a := List.foldl_concat ..

theorem seenIn_concat (acts : List Act) (a : Act) : seenIn (acts ++ [a]) = since (seenIn acts) a :=
  List.foldl_concat ..

theorem holds_after (ttlMs : Int) {acts : List Act} (hkinded : ∀ a ∈ acts, a.Kinded) :
    (AdmissionCache.after ttlMs acts).ttlMs = ttlMs ∧
      Holds (AdmissionCache.after ttlMs acts) (seenIn acts) := by
  induction acts using List.reverseRecOn with
  | nil => exact ⟨rfl, fun _ _ => rfl⟩
  | append_singleton acts a ih =>
    obtain ⟨httl, hholds⟩ := ih fun b hb => hkinded b (List.mem_append_left _ hb)
    rw [AdmissionCache.after_concat, seenIn_concat]
    refine ⟨?_, holds_step a (hkinded a (by simp)) hholds⟩
    cases a <;> exact httl

/-- **After any history of answers a client is told just what they say.** -/
theorem admit_told (ttlMs : Int) {acts : List Act} (hkinded : ∀ a ∈ acts, a.Kinded)
    (name eventId : Option String) (now : Int) :
    Told ttlMs (evidence (seenIn acts) name) eventId now
      ((AdmissionCache.after ttlMs acts).admitCall name eventId now) := by
  obtain ⟨httl, hholds⟩ := holds_after ttlMs hkinded
  have htold := told_of_holds hholds name eventId now
  rw [httl] at htold
  exact htold

/-- A cap on one use-case was reached, and the project was asked to wait for five seconds. -/
def sampleActs : List Act :=
  [.observe { accepted := true, rateLimited := false, usageRatio := some 1,
              bindingScope := callScope (some "summarize") } 0,
    .observe { accepted := false, rateLimited := true, retryAfterSecs := some 5 } 1000]

theorem sampleActs_kinded : ∀ a ∈ sampleActs, a.Kinded := by
  intro a ha
  rcases List.mem_cons.1 ha with rfl | ha
  · exact kinded_callScope (some "summarize")
  · rw [List.mem_singleton.1 ha]
    exact nofun

theorem admit_told_sample :
    Told 30000 (evidence (seenIn sampleActs) (some "summarize")) none 2000
      ((AdmissionCache.after 30000 sampleActs).admitCall (some "summarize") none 2000) :=
  admit_told 30000 sampleActs_kinded (some "summarize") none 2000

/-! ## What the server answers, and what is said from it -/

/-- The answer about its own scope is the last that a call is decided from. -/
theorem evidence_append (seen : List Seen) (x : Seen) {name : Option String}
    (hscope : x.view.bindingScope = callScope name) :
    ∃ before, evidence (seen ++ [x]) name = before ++ [x] := by
  cases name with
  | none =>
    refine ⟨about none seen, ?_⟩
    have h := about_append_self seen x
    rw [hscope] at h
    exact h
  | some n =>
    refine ⟨about (callScope (some n)) seen, ?_⟩
    have h := about_append_self seen x
    rw [hscope] at h
    unfold evidence
    simp only [Option.map_some, Option.getD_some]
    rw [h, if_neg (by simp)]

/-- After an answer about the scope of a call, it is the last that the call is decided from. -/
theorem told_observe (ttlMs : Int) {acts : List Act} (hkinded : ∀ a ∈ acts, a.Kinded)
    {view : LimitView} {name : Option String} (hscope : view.bindingScope = callScope name)
    (at_ : Int) (eventId : Option String) (now : Int) :
    ∃ before, Told ttlMs (before ++ [⟨view, at_⟩]) eventId now
      ((AdmissionCache.after ttlMs (acts ++ [.observe view at_])).admitCall name eventId now) := by
  have hkinded' : ∀ a ∈ acts ++ [.observe view at_], a.Kinded := by
    intro a ha
    rcases List.mem_append.1 ha with ha | ha
    · exact hkinded a ha
    · rw [List.mem_singleton.1 ha]
      change Kinded view.bindingScope
      rw [hscope]
      exact kinded_callScope name
  obtain ⟨httl, hholds⟩ := holds_after ttlMs hkinded'
  have htold := told_of_holds hholds name eventId now
  obtain ⟨before, hev⟩ := evidence_append (seenIn acts) ⟨view, at_⟩ hscope
  rw [httl, seenIn_concat, since, hev] at htold
  exact ⟨before, htold⟩

/-- What is said from an accepted event, while the answer is evidence. -/
structure Foretold (statuses : List LimitStatus) (eventId : Option String) (a : Admit) : Prop where
  atCap : a.reason = some .atCap ↔
    (∃ s ∈ statuses, s.breached = true) ∧ ∀ s ∈ statuses, s.ratio ≠ ⊤
  shed : a.reason = some .shed ↔
    ((∀ s ∈ statuses, s.breached = false) ∨ ∃ s ∈ statuses, s.ratio = ⊤) ∧
      ∃ b ∈ statuses.argmax LimitStatus.ratio, ∃ f ∈ (statuses.map LimitStatus.shedFraction).max?,
        ∃ id ∈ eventId, 0 < f ∧ shedTicket b.ruleId id < f
  wait : a.reason ≠ some .retryAfter
  fresh : a.stale = false

/-- A ratio tells whether its rule is breached: what evaluating a rule gives for usage that is not
negative. -/
def Measured (s : LimitStatus) : Prop := s.breached = true ↔ 1 ≤ s.ratio

theorem measured_evaluate {r : LimitRule} {u : ℚ} (hu : 0 ≤ u) (t : WithTop ℚ) (basis : ThresholdBasis)
    (e : Option CostEvidence) (now : Time) : Measured (r.evaluateResolvedAt u t basis e now) := by
  unfold Measured LimitRule.evaluateResolvedAt
  dsimp only
  rw [decide_eq_true_eq]
  cases t with
  | top => simp
  | coe v =>
    by_cases hv : 0 < v
    · simp only [if_pos hv]
      rw [WithTop.coe_le_coe, ← WithTop.coe_one, WithTop.coe_le_coe]
      exact (one_le_div hv).symm
    · simp only [if_neg hv]
      exact iff_of_true (WithTop.coe_le_coe.2 ((not_lt.1 hv).trans hu)) le_top

/-- The worst ratio is at the cap just if some rule is breached, unless there is a ratio that cannot
be written. -/
theorem capped_iff {statuses : List LimitStatus} (hmeasured : ∀ s ∈ statuses, Measured s) :
    (∃ r ∈ (Proximity.of statuses).usageRatio.bind finite, 1 ≤ r) ↔
      (∃ s ∈ statuses, s.breached = true) ∧ ∀ s ∈ statuses, s.ratio ≠ ⊤ := by
  rw [(Proximity.boundBy_of statuses).usageRatio]
  constructor
  · rintro ⟨r, hr, hle⟩
    obtain ⟨t, ht, hfinite⟩ := Option.bind_eq_some_iff.1 hr
    obtain ⟨b, hb, rfl⟩ := Option.map_eq_some_iff.1 ht
    have hmem := List.argmax_mem hb
    have hratio : b.ratio = (r : WithTop ℚ) := by
      cases h : b.ratio with
      | top =>
        rw [h] at hfinite
        cases hfinite
      | coe q =>
        rw [h] at hfinite
        rw [Option.some.inj hfinite]
    refine ⟨⟨b, hmem, (hmeasured b hmem).2 ?_⟩, ?_⟩
    · rw [hratio, ← WithTop.coe_one]
      exact WithTop.coe_le_coe.2 hle
    · intro s hs htop
      have hworst := List.le_of_mem_argmax hs hb
      rw [htop, hratio] at hworst
      exact WithTop.coe_ne_top (top_le_iff.1 hworst)
  · rintro ⟨⟨s, hs, hbreached⟩, hnone⟩
    cases hb : statuses.argmax LimitStatus.ratio with
    | none =>
      rw [List.argmax_eq_none.1 hb] at hs
      cases hs
    | some b =>
      obtain ⟨q, hq⟩ := WithTop.ne_top_iff_exists.1 (hnone b (List.argmax_mem hb))
      refine ⟨q, ?_, ?_⟩
      · simp [← hq, finite]
      · have hle := ((hmeasured s hs).1 hbreached).trans (List.le_of_mem_argmax hs hb)
        rw [← hq, ← WithTop.coe_one] at hle
        exact WithTop.coe_le_coe.1 hle

/-- The lottery of a position: the strongest share, on the rule with the worst ratio. -/
theorem draws_iff (statuses : List LimitStatus) (eventId : Option String) :
    drawsShed (Proximity.of statuses).shedFraction (Proximity.of statuses).bindingRule eventId = true ↔
      ∃ b ∈ statuses.argmax LimitStatus.ratio, ∃ f ∈ (statuses.map LimitStatus.shedFraction).max?,
        ∃ id ∈ eventId, 0 < f ∧ shedTicket b.ruleId id < f := by
  have hshed : (Proximity.of statuses).shedFraction =
      (statuses.map LimitStatus.shedFraction).max?.filter (0 < ·) := rfl
  rw [drawsShed_iff, (Proximity.boundBy_of statuses).rule, hshed]
  constructor
  · rintro ⟨f, hf, id, hid, hpos, hticket⟩
    obtain ⟨hmax, -⟩ := Option.filter_eq_some_iff.1 hf
    cases hb : statuses.argmax LimitStatus.ratio with
    | none =>
      rw [List.argmax_eq_none.1 hb] at hmax
      cases hmax
    | some b =>
      rw [hb] at hticket
      exact ⟨b, rfl, f, hmax, id, hid, hpos, hticket⟩
  · rintro ⟨b, hb, f, hf, id, hid, hpos, hticket⟩
    refine ⟨f, Option.filter_eq_some_iff.2 ⟨hf, decide_eq_true hpos⟩, id, hid, hpos, ?_⟩
    rw [Option.mem_def.1 hb]
    exact hticket

def sampleResponse : IngestResponse where
  id := "ev-1"
  projectId := "demo"
  costUsd := none
  ts := 0
  breached := []
  duplicate := false
  proximity := Proximity.of [sampleStatus]

/-- A wait that fits is counted from when the refusal came. -/
theorem waitUntil_eq {now : Int} {n : ℕ} (hnow : 0 ≤ now) (hfits : now + n * 1000 < i64Bound) :
    waitUntil now (UInt64.ofNat n) = now + n * 1000 := by
  have hn : n < 2 ^ 64 := by
    unfold i64Bound at hfits
    omega
  have hsecs : asI64 (UInt64.ofNat n) = n := by
    rw [asI64_of_lt, UInt64.toNat_ofNat_of_lt' hn]
    rw [UInt64.toNat_ofNat_of_lt' hn]
    omega
  have hwait : wrapI64 (n * 1000) = n * 1000 := wrapI64_of_inI64 (by unfold InI64 i64Bound at *; omega)
  unfold waitUntil
  rw [hsecs, hwait]
  exact wrapI64_of_inI64 (by unfold InI64 i64Bound at *; omega)

/-- What is said is settled by what was seen. -/
theorem Told.unique {ttlMs : Int} {ev : List Seen} {eventId : Option String} {now : Int} {a b : Admit}
    (ha : Told ttlMs ev eventId now a) (hb : Told ttlMs ev eventId now b) : a = b := by
  have hreason : a.reason = b.reason := Option.ext fun r => (ha.reason r).trans (hb.reason r).symm
  have hok : a.ok = b.ok := Bool.eq_iff_iff.2 (by rw [ha.ok, hb.ok, hreason])
  have hwait : a.retryAfterSecs = b.retryAfterSecs :=
    Option.ext fun n => (ha.wait n).trans (hb.wait n).symm
  have hstale : a.stale = b.stale := Bool.eq_iff_iff.2 (ha.stale.trans hb.stale.symm)
  cases a
  cases b
  simp only at hreason hok hwait hstale
  rw [hreason, hok, hwait, hstale]

/-- An answer about the whole project decides the calls that have no view of their own. -/
theorem evidence_others {seen : List Seen} {x : Seen} (hscope : x.view.bindingScope = none)
    {name : Option String} (hown : ∀ n ∈ name, about (callScope (some n)) seen = []) :
    evidence (seen ++ [x]) name = about none seen ++ [x] := by
  have hproject := about_append_self seen x
  rw [hscope] at hproject
  cases name with
  | none => exact hproject
  | some n =>
    have hne : callScope (some n) ≠ x.view.bindingScope := by
      rw [hscope]
      exact nofun
    have h : about (callScope (some n)) (seen ++ [x]) = [] := by
      rw [about_append_ne hne, hown n rfl]
    unfold evidence
    simp only [Option.map_some, Option.getD_some]
    rw [if_pos h, hproject]

/-- And it is nothing to the others. -/
theorem evidence_own {seen : List Seen} {x : Seen} (hscope : x.view.bindingScope = none) {n : String}
    (hown : about (callScope (some n)) seen ≠ []) :
    evidence (seen ++ [x]) (some n) = evidence seen (some n) := by
  have hne : callScope (some n) ≠ x.view.bindingScope := by
    rw [hscope]
    exact nofun
  have h : about (callScope (some n)) (seen ++ [x]) = about (callScope (some n)) seen :=
    about_append_ne hne seen
  unfold evidence
  simp only [Option.map_some, Option.getD_some]
  rw [h, if_neg hown, if_neg hown]

/-- What a refusal for a limit does to the calls after it. -/
structure Misplaced (ttlMs : Int) (acts : List Act) (view : LimitView) (at_ secs : Int) : Prop where
  /-- whoever has no view of its own waits, whichever scope the refusal was for -/
  others : ∀ name : Option String, (∀ n ∈ name, about (callScope (some n)) (seenIn acts) = []) →
    ∀ eventId now, now < at_ + secs * 1000 →
      (AdmissionCache.after ttlMs (acts ++ [.observe view at_])).admitCall name eventId now =
        { ok := false
          reason := some .retryAfter
          retryAfterSecs := some ⌈((at_ + secs * 1000 - now : Int) : ℚ) / 1000⌉.toNat }
  /-- who has one hears nothing of it -/
  own : ∀ n, about (callScope (some n)) (seenIn acts) ≠ [] → ∀ eventId now,
    (AdmissionCache.after ttlMs (acts ++ [.observe view at_])).admitCall (some n) eventId now =
      (AdmissionCache.after ttlMs acts).admitCall (some n) eventId now

/-- **A refusal is counted against the whole project**: a use-case that the client has a view of goes
on as before, also the one whose cap caused the refusal, and every other call waits. -/
theorem admit_of_refusal {w : Wire} {rd : Engine.JsonReader} {parseF64 : String → Option ℚ}
    (message : String) {p : Proximity} {secs : ℕ} (hsecs : p.retryAfterSecs = some secs)
    {ttlMs : Int} {acts : List Act} (hkinded : ∀ a ∈ acts, a.Kinded) {at_ : Int} (hat : 0 ≤ at_)
    (hfits : at_ + secs * 1000 < i64Bound) :
    Misplaced ttlMs acts (parseLimitView rd parseF64 429 (w.refusalHeaders p)
      (some (Wire.refusal "rate_limited" message))) at_ secs := by
  have hsmall : ∀ n ∈ p.retryAfterSecs, n < 2 ^ 64 := by
    intro n hn
    rw [hsecs] at hn
    rw [← Option.some.inj hn]
    unfold i64Bound at hfits
    omega
  rw [parseLimitView_refusal message hsmall]
  have hscope : (LimitView.ofRefusal parseF64 w p).bindingScope = none := rfl
  have hkinded' : ∀ a ∈ acts ++ [.observe (.ofRefusal parseF64 w p) at_], a.Kinded := by
    intro a ha
    rcases List.mem_append.1 ha with ha | ha
    · exact hkinded a ha
    · rw [List.mem_singleton.1 ha]
      exact nofun
  obtain ⟨httl, hholds⟩ := holds_after ttlMs hkinded
  obtain ⟨httl', hholds'⟩ := holds_after ttlMs hkinded'
  rw [seenIn_concat, since] at hholds'
  constructor
  · intro name hown eventId now hlt
    have htold := told_of_holds hholds' name eventId now
    rw [evidence_others hscope hown, httl'] at htold
    refine htold.unique (Told.of_waiting ?_ hlt)
    rw [deadline_append]
    simp only [LimitView.ofRefusal, hsecs, Option.map_some]
    rw [← waitUntil_eq hat hfits]
    rfl
  · intro n hown eventId now
    have htold := told_of_holds hholds' (some n) eventId now
    rw [evidence_own hscope hown, httl'] at htold
    have hbefore := told_of_holds hholds (some n) eventId now
    rw [httl] at hbefore
    exact htold.unique hbefore

theorem admit_of_refusal_sample :
    Misplaced 30000 sampleActs (parseLimitView sampleReader (fun _ => none) 429
      (sampleWire.refusalHeaders { retryAfterSecs := some 3600 })
      (some (Wire.refusal "rate_limited" "over the cap of summarize"))) 2000 3600 :=
  admit_of_refusal "over the cap of summarize" rfl sampleActs_kinded (by decide) (by decide)

end LightTrack.Client
