import LightTrack.Engine.Judge
import LightTrack.Lib.Answers
import Mathlib.Data.List.Rotate

/-! # Judging cases in batches

Several cases share a call.  The response is split by the id each entry echoes, never by position,
and what remains of it for a case is a sample like any other.

* `parseBatch`, `splitFor`, `batchWith` : a response split, a sample split, a batch judged,
* `parseBatch_lookup` : a response says of a case what its first readable entry says,
* `batchWith_verdict` : a case's verdict is what the entries with its id say, over all samples.
-/

namespace LightTrack.Engine

/-! ## Definitions -/

/-- `CASE_ID` -/
def CASE_ID : String := "case_id"

/-- `BatchCase` -/
structure BatchCase where
  input : String
  expected : Option String
  output : String

/-- `BatchDims`: the dimensions of each case a response answered. -/
abbrev BatchDims := List (String × SampleDims)

namespace BatchDims

/-- `get` -/
def get (m : BatchDims) (id : String) : Option SampleDims :=
  (m.find? fun e => decide (e.1 = id)).map Prod.snd

end BatchDims

/-- `case_id` -/
def caseId (index : ℕ) : String := "case-" ++ toString index

/-- The id an entry echoes. -/
def echoed (v : Json) : Option String := (v.get CASE_ID).bind Json.asStr

/-- One entry of a response: kept if it answers a case that is asked about and not answered yet. -/
def attributeEntry (rd : JsonReader) (rubric : Rubric) (want : List String) (out : BatchDims)
    (v : Json) : BatchDims :=
  match echoed v with
  | none => out
  | some id =>
    if id ∉ want ∨ (out.get id).isSome then out
    else match parseSampleValue rd rubric v with
      | .ok dims => out ++ [(id, dims)]
      | .error _ => out

/-- The entries of a response. -/
def verdictsOf (rd : JsonReader) (raw : String) : Option (List Json) :=
  ((extractJsonValue rd raw).get "verdicts").bind Json.asArray

/-- `parse_batch` -/
def parseBatch (rd : JsonReader) (rubric : Rubric) (want : List String) (raw : String) :
    Except EngineError BatchDims :=
  match verdictsOf rd raw with
  | none => .error (.parse ("batched judge output has no `verdicts` array: " ++ raw))
  | some arr =>
    let out := arr.foldl (attributeEntry rd rubric want) []
    if out = [] then
      .error (.parse ("batched judge output attributed no verdict to any of the " ++
        toString want.length ++ " cases: " ++ raw))
    else .ok out

/-- `rotated`: the order a sample presents `n` cases in. -/
def rotated (n sample : ℕ) : List ℕ := (List.range n).map fun i => (i + sample) % n

/-- `round()`, for what is not negative. -/
def roundDiv (a b : ℕ) : ℕ := (2 * a + b) / (2 * b)

/-- `split_for`: one case's part of a batched sample. -/
def splitFor (b : Parsed BatchDims) (id : String) (n : ℕ) : Parsed SampleDims :=
  let value := b.value.bind fun m => m.get id
  { value := value
    rawFailure := if value.isSome then none
      else some (b.rawFailure.getD ("batched judge response carried no verdict for " ++ id))
    injectionSuspected := b.injectionSuspected
    determinism := b.determinism
    costUsd := b.costUsd.map fun c => c / (max n 1 : ℕ)
    latencyMs := b.latencyMs
    inputTokens := roundDiv b.inputTokens (max n 1)
    outputTokens := roundDiv b.outputTokens (max n 1)
    model := b.model }

/-- What batched judging takes from elsewhere: texts read as JSON, prompts, and local scores. -/
structure BatchEnv where
  reader : JsonReader
  prompts : Prompts
  evaluate : BatchCase → RubricDimension → Except EngineError (Option Score × String)

/-- The ids of `n` cases. -/
def caseIds (n : ℕ) : List String := (List.range n).map caseId

/-- The prompt of a sample: the cases in its order, each under its own id. -/
def batchPrompt (env : BatchEnv) (rubric : Rubric) (cases : List BatchCase) (sample : ℕ) :
    Prompt :=
  env.prompts.buildBatchRubricPrompt rubric <|
    (rotated cases.length sample).filterMap fun i => cases[i]?.map fun c =>
      { id := caseId i, input := c.input, expected := c.expected, output := c.output }

/-- The samples of a batch. -/
def batchSamples (env : BatchEnv) (gen : Generator) (rubric : Rubric) (cases : List BatchCase)
    (samples : ℕ) : Except EngineError (List (Parsed BatchDims)) :=
  (List.range (sampleCount rubric samples)).mapM fun s =>
    sampleParsed (gen s) env.prompts.buildRepairPrompt (batchPrompt env rubric cases s).text
      (parseBatch env.reader rubric (caseIds cases.length))

/-- One case of a judged batch. -/
def batchCase (env : BatchEnv) (rubric : Rubric) (cases : List BatchCase) (model : String)
    (samples : ℕ) (batched : List (Parsed BatchDims)) (i : ℕ) (det : List DetScore) :
    Except EngineError RubricOutcome :=
  let perCase := batched.map fun b => splitFor b (caseId i) cases.length
  -- a suspicious document marks every case its call judged
  let suspected := (List.range (sampleCount rubric samples)).any fun s =>
    (batchPrompt env rubric cases s).injectionSuspected
  (aggregate perCase rubric model (sampleCount rubric samples) det).map fun out =>
    { out with
      injectionSuspected := suspected || perCase.any Parsed.injectionSuspected
      determinism := weakestOf perCase
      batchSize := some cases.length }

/-- `batch_with`: the outer result is the batch's, the inner ones are its cases'. -/
def batchWith (env : BatchEnv) (gen : Generator) (rubric : Rubric) (cases : List BatchCase)
    (model : String) (samples : ℕ) :
    Except EngineError (List (Except EngineError RubricOutcome)) :=
  match groundingDim rubric false with
  | .error e => .error e
  | .ok _ =>
    match cases.mapM fun c => evaluateAll (env.evaluate c) rubric with
    | .error e => .error e
    | .ok dets =>
      match batchSamples env gen rubric cases samples with
      | .error e => .error e
      | .ok batched =>
        .ok (dets.zipIdx.map fun x => batchCase env rubric cases model samples batched x.2 x.1)

/-! ## Ids -/

theorem caseId_injective : Function.Injective caseId := by
  intro i j h
  have hlist := congrArg String.toList h
  simp only [caseId, String.toList_append, List.append_cancel_left_eq] at hlist
  have hrepr : Nat.repr i = Nat.repr j := String.toList_injective hlist
  rw [Nat.repr_eq_ofList_toDigits, Nat.repr_eq_ofList_toDigits] at hrepr
  have hdigits : Nat.toDigits 10 i = Nat.toDigits 10 j := by
    simpa using congrArg String.toList hrepr
  rw [← Nat.ofDigitChars_ten_toDigits (n := i), hdigits, Nat.ofDigitChars_ten_toDigits]

theorem mem_caseIds {n i : ℕ} (h : i < n) : caseId i ∈ caseIds n :=
  List.mem_map.2 ⟨i, List.mem_range.2 h, rfl⟩

/-! ## A response -/

/-- What an entry says, if it can be read. -/
def readEntry (rd : JsonReader) (rubric : Rubric) (v : Json) : Option SampleDims :=
  (parseSampleValue rd rubric v).toOption

/-- The first entry that echoes `id` and can be read. -/
def firstEntry (rd : JsonReader) (rubric : Rubric) (id : String) (arr : List Json) :
    Option SampleDims :=
  Answers.first echoed (readEntry rd rubric) id arr

/-- What a response says of the case `id`. -/
def answeredIn (rd : JsonReader) (rubric : Rubric) (id : String) (raw : String) :
    Option SampleDims :=
  firstEntry rd rubric id ((verdictsOf rd raw).getD [])

section Response

variable {rd : JsonReader} {rubric : Rubric} {want : List String} {out : BatchDims} {v : Json}
  {id raw : String}

theorem get_append (out : BatchDims) (id' : String) (dims : SampleDims) (id : String) :
    BatchDims.get (out ++ [(id', dims)]) id =
      (out.get id).or (if id' = id then some dims else none) := by
  unfold BatchDims.get
  rw [List.find?_append]
  cases hfind : out.find? fun e => decide (e.1 = id) with
  | some e => simp
  | none => by_cases h : id' = id <;> simp [h]

/-- What a table says of a case after an entry: what it said, or what the entry says. -/
theorem attributeEntry_get (hid : id ∈ want) :
    (attributeEntry rd rubric want out v).get id =
      (out.get id).or (Answers.reply echoed (readEntry rd rubric) id v) := by
  unfold attributeEntry
  cases hecho : echoed v with
  | none =>
    rw [Answers.reply_of_ne (by simp [hecho])]
    simp
  | some id' =>
    dsimp only
    by_cases heq : id' = id
    · subst heq
      rw [Answers.reply_of_eq hecho, readEntry]
      by_cases hdrop : id' ∉ want ∨ (out.get id').isSome
      · -- it is asked about, so it must have been answered before
        rw [if_pos hdrop]
        rcases hdrop with hwant | hsome
        · exact absurd hid hwant
        · rcases Option.isSome_iff_exists.1 hsome with ⟨dims, hdims⟩
          rw [hdims, Option.some_or]
      · rw [if_neg hdrop]
        cases hparse : parseSampleValue rd rubric v with
        | ok dims => simp [get_append, Except.toOption]
        | error e => simp [Except.toOption]
    · have hne : echoed v ≠ some id := by
        rw [hecho]
        simpa using heq
      rw [Answers.reply_of_ne hne, Option.or_none]
      by_cases hdrop : id' ∉ want ∨ (out.get id').isSome
      · rw [if_pos hdrop]
      · rw [if_neg hdrop]
        cases hparse : parseSampleValue rd rubric v with
        | ok dims => simp [get_append, heq]
        | error e => simp

theorem foldl_attributeEntry_get (hid : id ∈ want) (arr : List Json) (out : BatchDims) :
    (arr.foldl (attributeEntry rd rubric want) out).get id =
      (out.get id).or (firstEntry rd rubric id arr) := by
  induction arr generalizing out with
  | nil => simp [firstEntry]
  | cons v arr ih =>
    rw [List.foldl_cons, ih, attributeEntry_get hid, Option.or_assoc, firstEntry, firstEntry,
      Answers.first_cons]

/-- Only cases asked about get into the table. -/
theorem attributeEntry_keys (h : ∀ e ∈ out, e.1 ∈ want) :
    ∀ e ∈ attributeEntry rd rubric want out v, e.1 ∈ want := by
  unfold attributeEntry
  cases echoed v with
  | none => exact h
  | some id' =>
    dsimp only
    by_cases hdrop : id' ∉ want ∨ (out.get id').isSome
    · rw [if_pos hdrop]
      exact h
    · rw [if_neg hdrop]
      cases parseSampleValue rd rubric v with
      | error e => exact h
      | ok dims =>
        intro e he
        rcases List.mem_append.1 he with he | he
        · exact h e he
        · rw [List.mem_singleton.1 he]
          exact not_not.1 (not_or.1 hdrop).1

theorem foldl_attributeEntry_keys (arr : List Json) (out : BatchDims)
    (h : ∀ e ∈ out, e.1 ∈ want) :
    ∀ e ∈ arr.foldl (attributeEntry rd rubric want) out, e.1 ∈ want := by
  induction arr generalizing out with
  | nil => exact h
  | cons v arr ih => exact ih _ (attributeEntry_keys h)

theorem get_isSome_of_mem {e : String × SampleDims} (h : e ∈ out) : (out.get e.1).isSome := by
  unfold BatchDims.get
  rw [Option.isSome_map, List.find?_isSome]
  exact ⟨e, h, by simp⟩

/-- **A response says of a case what the first readable entry with its id says.** -/
theorem parseBatch_lookup (hid : id ∈ want) :
    (parseBatch rd rubric want raw).toOption.bind (fun m => m.get id) =
      answeredIn rd rubric id raw := by
  unfold parseBatch answeredIn
  cases harr : verdictsOf rd raw with
  | none => simp [Except.toOption, firstEntry]
  | some arr =>
    have hget := @foldl_attributeEntry_get rd rubric _ _ hid arr []
    have hnil : BatchDims.get [] id = none := by simp [BatchDims.get]
    rw [hnil, Option.none_or] at hget
    dsimp only
    by_cases hout : arr.foldl (attributeEntry rd rubric want) [] = []
    · rw [hout, hnil] at hget
      rw [if_pos hout, Option.getD_some, ← hget]
      simp [Except.toOption]
    · rw [if_neg hout, Option.getD_some, ← hget]
      simp [Except.toOption]

/-- A response is unreadable when it says nothing of any case asked about. -/
theorem parseBatch_toOption_eq_none_iff : (parseBatch rd rubric want raw).toOption = none ↔
    ∀ id ∈ want, answeredIn rd rubric id raw = none := by
  constructor
  · intro h id hid
    rw [← parseBatch_lookup hid, h, Option.bind_none]
  · intro h
    unfold parseBatch
    cases harr : verdictsOf rd raw with
    | none => simp [Except.toOption]
    | some arr =>
      dsimp only
      have hout : arr.foldl (attributeEntry rd rubric want) [] = [] := by
        rw [List.eq_nil_iff_forall_not_mem]
        intro e he
        have hwant := @foldl_attributeEntry_keys rd rubric _ arr [] (by simp) e he
        have hnone := h e.1 hwant
        rw [answeredIn, harr, Option.getD_some] at hnone
        have hget := @foldl_attributeEntry_get rd rubric _ _ hwant arr []
        rw [hnone, Option.or_none] at hget
        have hsome := get_isSome_of_mem he
        rw [hget] at hsome
        simp [BatchDims.get] at hsome
      rw [if_pos hout]
      simp [Except.toOption]

end Response

/-! ## A batch -/

/-- The texts the sample `s` of a batch received. -/
def batchReceived (env : BatchEnv) (gen : Generator) (rubric : Rubric) (cases : List BatchCase)
    (s : ℕ) : List String :=
  received (gen s) env.prompts.buildRepairPrompt (batchPrompt env rubric cases s).text
    (parseBatch env.reader rubric (caseIds cases.length))

/-- What the samples of a batch say of the case `i`: for each the first entry with its id, in the
texts it received, that can be read. -/
def heard (env : BatchEnv) (gen : Generator) (rubric : Rubric) (cases : List BatchCase)
    (samples i : ℕ) : List SampleDims :=
  (List.range (sampleCount rubric samples)).filterMap fun s =>
    (batchReceived env gen rubric cases s).findSome? (answeredIn env.reader rubric (caseId i))

section Batch

variable {env : BatchEnv} {gen : Generator} {rubric : Rubric} {cases : List BatchCase}
  {model : String} {samples : ℕ} {outs : List (Except EngineError RubricOutcome)}

theorem parsedValues_splitFor {batched : List (Parsed BatchDims)}
    (h : batchSamples env gen rubric cases samples = .ok batched) {i : ℕ} (hi : i < cases.length) :
    parsedValues (batched.map fun b => splitFor b (caseId i) cases.length) =
      heard env gen rubric cases samples i := by
  have hvalues := parsedValues_of_mapM h fun m => m.get (caseId i)
  unfold parsedValues heard
  rw [List.filterMap_map]
  simp only [Function.comp_def, splitFor]
  rw [hvalues]
  simp only [parseBatch_lookup (mem_caseIds hi)]
  simp only [batchReceived]

theorem batchWith_ok (h : batchWith env gen rubric cases model samples = .ok outs) :
    groundingDim rubric false = .ok none ∧ ∃ dets batched,
      cases.mapM (fun c => evaluateAll (env.evaluate c) rubric) = .ok dets ∧
      batchSamples env gen rubric cases samples = .ok batched ∧
      outs = dets.zipIdx.map fun x => batchCase env rubric cases model samples batched x.2 x.1 := by
  unfold batchWith at h
  cases hdim : groundingDim rubric false with
  | error e =>
    rw [hdim] at h
    exact absurd h (by simp)
  | ok d =>
    rw [hdim] at h
    dsimp only at h
    -- without evidence a grounding dimension is refused
    have hnone : d = none := by
      unfold groundingDim at hdim
      cases hfilter : rubric.dimensions.filter fun d => d.kind.isGrounding with
      | nil =>
        rw [hfilter] at hdim
        injection hdim with hdim
        exact hdim.symm
      | cons d' ds =>
        rw [hfilter] at hdim
        cases ds <;> simp at hdim
    refine ⟨by rw [hnone], ?_⟩
    cases hdets : cases.mapM fun c => evaluateAll (env.evaluate c) rubric with
    | error e =>
      rw [hdets] at h
      exact absurd h (by simp)
    | ok dets =>
      rw [hdets] at h
      dsimp only at h
      cases hbatched : batchSamples env gen rubric cases samples with
      | error e =>
        rw [hbatched] at h
        exact absurd h (by simp)
      | ok batched =>
        rw [hbatched] at h
        injection h with h
        exact ⟨dets, batched, rfl, rfl, h.symm⟩

/-- **A case's verdict is what the entries with its id say.** -/
theorem batchWith_verdict (h : batchWith env gen rubric cases model samples = .ok outs) :
    outs.length = cases.length ∧ ∀ i x c, outs[i]? = some x → cases[i]? = some c →
      ∃ det, evaluateAll (env.evaluate c) rubric = .ok det ∧
        x.toOption.map RubricOutcome.verdict =
          caseVerdict rubric (heard env gen rubric cases samples i) det
            (sampleCount rubric samples) := by
  rcases batchWith_ok h with ⟨-, dets, batched, hdets, hbatched, rfl⟩
  have hall := Traverse.mapM_eq_ok_iff.1 hdets
  refine ⟨by rw [List.length_map, List.length_zipIdx, hall.length_eq], ?_⟩
  intro i x c hx hc
  rw [List.getElem?_map, List.getElem?_zipIdx] at hx
  rcases Option.map_eq_some_iff.1 hx with ⟨y, hy, rfl⟩
  rcases Option.map_eq_some_iff.1 hy with ⟨det, hdet, rfl⟩
  rcases List.getElem?_eq_some_iff.1 hc with ⟨hi, hci⟩
  rcases List.getElem?_eq_some_iff.1 hdet with ⟨hi', hdeti⟩
  refine ⟨det, ?_, ?_⟩
  · have heval := hall.get hi hi'
    simp only [List.get_eq_getElem] at heval
    rw [hci, hdeti] at heval
    exact heval
  · unfold batchCase
    dsimp only
    rw [map_toOption, Option.map_map, Nat.zero_add, ← parsedValues_splitFor hbatched hi,
      ← aggregate_verdict _ rubric model]
    congr 1

end Batch

/-! ## Responses that say the same -/

/-- Two responses say the same of every case of a batch of `n`. -/
def SameAnswers (rd : JsonReader) (rubric : Rubric) (n : ℕ) (raw raw' : String) : Prop :=
  ∀ i, i < n → answeredIn rd rubric (caseId i) raw = answeredIn rd rubric (caseId i) raw'

/-- A single verdict is the object a batched response has for its first case. -/
def SameObject (rd : JsonReader) (raw raw' : String) : Prop :=
  ∃ arr, verdictsOf rd raw' = some arr ∧
    arr.filter (fun v => decide (echoed v = some (caseId 0))) = [extractJsonValue rd raw]

section Same

variable {rd : JsonReader} {rubric : Rubric} {n : ℕ} {raw raw' : String} {arr arr' : List Json}

theorem answeredIn_congr {id : String} (h : verdictsOf rd raw = some arr)
    (h' : verdictsOf rd raw' = some arr')
    (hsame : arr.filter (fun v => decide (echoed v = some id)) =
      arr'.filter fun v => decide (echoed v = some id)) :
    answeredIn rd rubric id raw = answeredIn rd rubric id raw' := by
  unfold answeredIn firstEntry
  rw [h, h']
  exact Answers.first_congr hsame

theorem sameAnswers_perm (h : verdictsOf rd raw = some arr) (h' : verdictsOf rd raw' = some arr')
    (hperm : arr.Perm arr') (hnodup : (arr.filterMap echoed).Nodup) :
    SameAnswers rd rubric n raw raw' := by
  intro i _
  unfold answeredIn firstEntry
  rw [h, h']
  exact Answers.first_perm hperm hnodup

theorem sameAnswers_insert {l l' : List Json} {v : Json} (h : verdictsOf rd raw = some (l ++ l'))
    (h' : verdictsOf rd raw' = some (l ++ v :: l'))
    (hv : ∀ id, echoed v = some id → id ∉ caseIds n ∨ (firstEntry rd rubric id l).isSome) :
    SameAnswers rd rubric n raw raw' := by
  intro i hi
  unfold answeredIn firstEntry
  rw [h, h', Option.getD_some, Option.getD_some]
  symm
  by_cases hecho : echoed v = some (caseId i)
  · rcases hv _ hecho with hunknown | hanswered
    · exact absurd (mem_caseIds hi) hunknown
    · exact Answers.first_insert_of_answered hanswered
  · exact Answers.first_insert_of_ne hecho

/-- Responses that say the same are rejected together, or leave every case the same sample. -/
theorem sameAnswers_split (h : SameAnswers rd rubric n raw raw') :
    ((parseBatch rd rubric (caseIds n) raw).toOption = none ∧
      (parseBatch rd rubric (caseIds n) raw').toOption = none) ∨
    ∃ m m', parseBatch rd rubric (caseIds n) raw = .ok m ∧
      parseBatch rd rubric (caseIds n) raw' = .ok m' ∧
      ∀ (b : Parsed BatchDims) i, i < n →
        splitFor { b with value := some m } (caseId i) n =
          splitFor { b with value := some m' } (caseId i) n := by
  have hids : ∀ id ∈ caseIds n, answeredIn rd rubric id raw = answeredIn rd rubric id raw' := by
    intro id hid
    rcases List.mem_map.1 hid with ⟨i, hi, rfl⟩
    exact h i (List.mem_range.1 hi)
  -- rejection depends on the answers only
  have hiff : (parseBatch rd rubric (caseIds n) raw).toOption = none ↔
      (parseBatch rd rubric (caseIds n) raw').toOption = none := by
    rw [parseBatch_toOption_eq_none_iff, parseBatch_toOption_eq_none_iff]
    exact forall₂_congr fun id hid => by rw [hids id hid]
  -- and so does what a case is given
  have hlookup : ∀ id ∈ caseIds n,
      (parseBatch rd rubric (caseIds n) raw).toOption.bind (fun m => m.get id) =
        (parseBatch rd rubric (caseIds n) raw').toOption.bind fun m => m.get id := by
    intro id hid
    rw [parseBatch_lookup hid, parseBatch_lookup hid, hids id hid]
  cases hm : parseBatch rd rubric (caseIds n) raw with
  | error e =>
    left
    rw [hm] at hiff
    exact ⟨by simp [Except.toOption], hiff.1 (by simp [Except.toOption])⟩
  | ok m =>
    right
    cases hm' : parseBatch rd rubric (caseIds n) raw' with
    | error e =>
      rw [hm, hm'] at hiff
      simp [Except.toOption] at hiff
    | ok m' =>
      refine ⟨m, m', rfl, rfl, ?_⟩
      intro b i hi
      have hget := hlookup _ (mem_caseIds hi)
      rw [hm, hm'] at hget
      simp only [Except.toOption, Option.bind_some] at hget
      simp only [splitFor, Option.bind_some, hget]

theorem sameObject_answers (h : SameObject rd raw raw') :
    (parseSample rd rubric raw).toOption = answeredIn rd rubric (caseId 0) raw' := by
  rcases h with ⟨arr, harr, hfilter⟩
  have hmem : extractJsonValue rd raw ∈
      arr.filter fun v => decide (echoed v = some (caseId 0)) := by
    rw [hfilter]
    exact List.mem_singleton.2 rfl
  have hecho : echoed (extractJsonValue rd raw) = some (caseId 0) := by
    simpa using (List.mem_filter.1 hmem).2
  have hnull : (extractJsonValue rd raw).isNull = false := by
    -- a value with an id is an object
    cases hv : extractJsonValue rd raw <;> simp [hv, echoed, Json.get, Json.isNull] at hecho ⊢
  unfold answeredIn firstEntry
  rw [harr, Option.getD_some, ← Answers.first_filter, hfilter, Answers.first_cons,
    Answers.reply_of_eq hecho, Answers.first_nil, Option.or_none]
  unfold parseSample readEntry
  simp [hnull]

theorem findSome?_of_forall₂ {α β υ : Type*} {R : α → β → Prop} {f : α → Option υ}
    {g : β → Option υ} {l : List α} {l' : List β} (h : List.Forall₂ R l l')
    (hfg : ∀ a b, R a b → f a = g b) : l.findSome? f = l'.findSome? g := by
  induction h with
  | nil => simp
  | cons hab _ ih => rw [List.findSome?_cons, List.findSome?_cons, hfg _ _ hab, ih]

theorem filterMap_congr_of_lt {k : ℕ} {υ : Type*} {f g : ℕ → Option υ} (h : ∀ s, s < k → f s = g s) :
    (List.range k).filterMap f = (List.range k).filterMap g :=
  List.filterMap_congr fun s hs => h s (List.mem_range.1 hs)

/-- The shares of a call's cost add up to it. -/
theorem sum_shares (b : Parsed BatchDims) (hn : 0 < n) :
    ((List.range n).map fun i => (splitFor b (caseId i) n).costUsd.getD 0).sum =
      b.costUsd.getD 0 := by
  have hne : (n : ℚ) ≠ 0 := by exact_mod_cast hn.ne'
  have hmax : max n 1 = n := max_eq_left hn
  simp only [splitFor, hmax, List.map_const', List.length_range, List.sum_replicate]
  cases b.costUsd with
  | none => simp
  | some c =>
    rw [Option.map_some, Option.getD_some, Option.getD_some, nsmul_eq_mul]
    exact mul_div_cancel₀ c hne

end Same

/-! ## No verdict is misattributed -/

/-- Batched judging leaves every verdict with the case it was given for. -/
structure NeverMisattributes (env : BatchEnv) (rubric : Rubric) : Prop where
  /-- a case's verdict is what the first readable entry with its id says, in each sample -/
  attribution : ∀ gen cases model samples outs,
    batchWith env gen rubric cases model samples = .ok outs →
    outs.length = cases.length ∧ ∀ i x c, outs[i]? = some x → cases[i]? = some c →
      ∃ det, evaluateAll (env.evaluate c) rubric = .ok det ∧
        x.toOption.map RubricOutcome.verdict =
          caseVerdict rubric (heard env gen rubric cases samples i) det
            (sampleCount rubric samples)
  ids : Function.Injective caseId
  /-- entries with other ids do not matter -/
  others : ∀ id raw raw' arr arr', verdictsOf env.reader raw = some arr →
    verdictsOf env.reader raw' = some arr' →
    arr.filter (fun v => decide (echoed v = some id)) =
      arr'.filter (fun v => decide (echoed v = some id)) →
    answeredIn env.reader rubric id raw = answeredIn env.reader rubric id raw'
  /-- nor does the order of entries with distinct ids -/
  order : ∀ n raw raw' arr arr', verdictsOf env.reader raw = some arr →
    verdictsOf env.reader raw' = some arr' → arr.Perm arr' → (arr.filterMap echoed).Nodup →
    SameAnswers env.reader rubric n raw raw'
  /-- nor an entry with a missing, an unknown or an answered id -/
  additions : ∀ n raw raw' l v l', verdictsOf env.reader raw = some (l ++ l') →
    verdictsOf env.reader raw' = some (l ++ v :: l') →
    (∀ id, echoed v = some id →
      id ∉ caseIds n ∨ (firstEntry env.reader rubric id l).isSome) →
    SameAnswers env.reader rubric n raw raw'
  /-- responses that say the same are rejected together or leave each case the same sample -/
  responses : ∀ n raw raw', SameAnswers env.reader rubric n raw raw' →
    ((parseBatch env.reader rubric (caseIds n) raw).toOption = none ∧
      (parseBatch env.reader rubric (caseIds n) raw').toOption = none) ∨
    ∃ m m', parseBatch env.reader rubric (caseIds n) raw = .ok m ∧
      parseBatch env.reader rubric (caseIds n) raw' = .ok m' ∧
      ∀ (b : Parsed BatchDims) i, i < n →
        splitFor { b with value := some m } (caseId i) n =
          splitFor { b with value := some m' } (caseId i) n
  /-- and batches that receive such responses come to the same verdicts -/
  runs : ∀ gen gen' cases model samples outs outs',
    batchWith env gen rubric cases model samples = .ok outs →
    batchWith env gen' rubric cases model samples = .ok outs' →
    (∀ s, s < sampleCount rubric samples →
      List.Forall₂ (SameAnswers env.reader rubric cases.length)
        (batchReceived env gen rubric cases s) (batchReceived env gen' rubric cases s)) →
    outs.map (fun x => x.toOption.map RubricOutcome.verdict) =
      outs'.map fun x => x.toOption.map RubricOutcome.verdict
  /-- a batch of one is judged like the case alone -/
  single : ∀ gen gen' c prompt model samples det results outs,
    evaluateAll (env.evaluate c) rubric = .ok det →
    judgeSamples env.reader env.prompts gen' rubric prompt samples = .ok results →
    batchWith env gen rubric [c] model samples = .ok outs →
    (∀ s, s < sampleCount rubric samples →
      List.Forall₂ (SameObject env.reader)
        (received (gen' s) env.prompts.buildRepairPrompt prompt.text
          (parseSample env.reader rubric)) (batchReceived env gen rubric [c] s)) →
    outs.map (fun x => x.toOption.map RubricOutcome.verdict) =
      [(judgeWith env.reader env.prompts gen' rubric prompt model samples det).toOption.map
        RubricOutcome.verdict]
  /-- what the cases are charged is what the call cost -/
  shares : ∀ (b : Parsed BatchDims) n, 0 < n →
    ((List.range n).map fun i => (splitFor b (caseId i) n).costUsd.getD 0).sum =
      b.costUsd.getD 0

section Run

variable {env : BatchEnv} {gen gen' : Generator} {rubric : Rubric} {cases : List BatchCase}
  {model : String} {samples : ℕ} {outs outs' : List (Except EngineError RubricOutcome)}

theorem heard_congr (h : ∀ s, s < sampleCount rubric samples →
      List.Forall₂ (SameAnswers env.reader rubric cases.length)
        (batchReceived env gen rubric cases s) (batchReceived env gen' rubric cases s))
    {i : ℕ} (hi : i < cases.length) :
    heard env gen rubric cases samples i = heard env gen' rubric cases samples i := by
  apply filterMap_congr_of_lt
  intro s hs
  exact findSome?_of_forall₂ (h s hs) fun _ _ hab => hab i hi

theorem batchWith_congr (hok : batchWith env gen rubric cases model samples = .ok outs)
    (hok' : batchWith env gen' rubric cases model samples = .ok outs')
    (h : ∀ i, i < cases.length →
      heard env gen rubric cases samples i = heard env gen' rubric cases samples i) :
    outs.map (fun x => x.toOption.map RubricOutcome.verdict) =
      outs'.map fun x => x.toOption.map RubricOutcome.verdict := by
  rcases batchWith_verdict hok with ⟨hlen, hverdict⟩
  rcases batchWith_verdict hok' with ⟨hlen', hverdict'⟩
  apply List.ext_getElem
  · rw [List.length_map, List.length_map, hlen, hlen']
  · intro i hi hi'
    rw [List.length_map] at hi hi'
    have hc : i < cases.length := hlen ▸ hi
    rw [List.getElem_map, List.getElem_map]
    rcases hverdict i outs[i] cases[i] (List.getElem?_eq_getElem hi)
      (List.getElem?_eq_getElem hc) with ⟨det, hdet, hx⟩
    rcases hverdict' i outs'[i] cases[i] (List.getElem?_eq_getElem hi')
      (List.getElem?_eq_getElem hc) with ⟨det', hdet', hx'⟩
    -- local scores come from the case, not from the responses
    have hsame : det = det' := Except.ok.inj (hdet.symm.trans hdet')
    rw [hx, hx', h i hc, hsame]

theorem batchWith_single {c : BatchCase} {prompt : Prompt} {det : List DetScore}
    {results : List (Parsed SampleDims)}
    (hdet : evaluateAll (env.evaluate c) rubric = .ok det)
    (hresults : judgeSamples env.reader env.prompts gen' rubric prompt samples = .ok results)
    (hok : batchWith env gen rubric [c] model samples = .ok outs)
    (h : ∀ s, s < sampleCount rubric samples →
      List.Forall₂ (SameObject env.reader)
        (received (gen' s) env.prompts.buildRepairPrompt prompt.text
          (parseSample env.reader rubric)) (batchReceived env gen rubric [c] s)) :
    outs.map (fun x => x.toOption.map RubricOutcome.verdict) =
      [(judgeWith env.reader env.prompts gen' rubric prompt model samples det).toOption.map
        RubricOutcome.verdict] := by
  rcases batchWith_verdict hok with ⟨hlen, hverdict⟩
  rcases List.length_eq_one_iff.1 hlen with ⟨x, rfl⟩
  rcases hverdict 0 x c rfl rfl with ⟨det', hdet', hx⟩
  have hsame : det' = det := Except.ok.inj (hdet'.symm.trans hdet)
  have hvalues : judgedValues env.reader env.prompts gen' rubric prompt samples =
      heard env gen rubric [c] samples 0 := by
    apply filterMap_congr_of_lt
    intro s hs
    exact findSome?_of_forall₂ (h s hs) fun _ _ hab => sameObject_answers hab
  rw [List.map_singleton, hx, hsame, judgeWith_verdict (batchWith_ok hok).1 hresults, hvalues]

end Run

/-- **Batched judging never misattributes.** -/
theorem batch_never_misattributes (env : BatchEnv) (rubric : Rubric) :
    NeverMisattributes env rubric := by
  constructor
  · intro gen cases model samples outs h
    exact batchWith_verdict h
  · exact caseId_injective
  · intro id raw raw' arr arr' h h' hsame
    exact answeredIn_congr h h' hsame
  · intro n raw raw' arr arr' h h' hperm hnodup
    exact sameAnswers_perm h h' hperm hnodup
  · intro n raw raw' l v l' h h' hv
    exact sameAnswers_insert h h' hv
  · intro n raw raw' h
    exact sameAnswers_split h
  · intro gen gen' cases model samples outs outs' h h' hsame
    exact batchWith_congr h h' fun i hi => heard_congr hsame hi
  · intro gen gen' c prompt model samples det results outs hdet hresults hok h
    exact batchWith_single hdet hresults hok h
  · intro b n hn
    exact sum_shares b hn

/-! ## What a response decides besides verdicts -/

/-- Two responses without a verdict for the only case: an empty one, and one about another case. -/
def unansweredReader : JsonReader where
  fromStr s :=
    if s = "\x7b\"verdicts\":[]\x7d" then some (.obj [("verdicts", .arr [])])
    else if s = "\x7b\"verdicts\":[\x7b\"case_id\":\"case-9\"\x7d]\x7d" then
      some (.obj [("verdicts", .arr [.obj [("case_id", .str "case-9")]])])
    else none
  f64Of _ := 0

/-- Batched judging over these responses, with prompts of no content. -/
def unansweredEnv : BatchEnv where
  reader := unansweredReader
  prompts :=
    { buildRepairPrompt := fun _ _ => { text := "repair" }
      decomposePrompt := fun _ => { text := "cut" }
      verifyPrompt := fun _ _ => { text := "check" }
      buildBatchRubricPrompt := fun _ _ => { text := "judge" } }
  evaluate _ _ := .ok (none, "")

/-- A case without a verdict fails with the text of its response, so an entry about a case nobody
asked about shows there; and a call about no cases has nobody to charge. -/
theorem unattributed_text_quoted :
    (¬ ∀ (env : BatchEnv) (rubric : Rubric) (raw raw' : String) (l l' : List Json) (v : Json)
        (cases : List BatchCase) (model : String) (samples : ℕ)
        (outs outs' : List (Except EngineError RubricOutcome)),
        verdictsOf env.reader raw = some (l ++ l') →
        verdictsOf env.reader raw' = some (l ++ v :: l') →
        (∀ id, echoed v = some id →
          id ∉ caseIds cases.length ∨ (firstEntry env.reader rubric id l).isSome) →
        batchWith env (fun _ _ => .ok { output := raw }) rubric cases model samples = .ok outs →
        batchWith env (fun _ _ => .ok { output := raw' }) rubric cases model samples = .ok outs' →
        outs = outs') ∧
    ¬ ∀ (b : Parsed BatchDims) (n : ℕ),
      ((List.range n).map fun i => (splitFor b (caseId i) n).costUsd.getD 0).sum =
        b.costUsd.getD 0 := by
  constructor
  · intro h
    have heq := h unansweredEnv { dimensions := [{ key := "tone" }] } "\x7b\"verdicts\":[]\x7d"
      "\x7b\"verdicts\":[\x7b\"case_id\":\"case-9\"\x7d]\x7d" [] []
      (.obj [("case_id", .str "case-9")]) [⟨"", none, ""⟩] "judge" 1
      [.error (noParseableSample (some "\x7b\"verdicts\":[]\x7d"))]
      [.error (noParseableSample (some "\x7b\"verdicts\":[\x7b\"case_id\":\"case-9\"\x7d]\x7d"))]
      (by rfl) (by rfl) ?_ (by rfl) (by rfl)
    · simp [noParseableSample] at heq
    · intro id hid
      left
      have hnine : echoed (.obj [("case_id", .str "case-9")]) = some "case-9" := by rfl
      rw [hnine, Option.some.injEq] at hid
      subst hid
      decide +kernel
  · intro h
    have hzero := h { costUsd := some 1 } 0
    simp at hzero

end LightTrack.Engine
