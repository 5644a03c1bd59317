import LightTrack.Core.Limits

/-! # The parts of a model name

`canonicalize` takes one vendor prefix, one lane and one date off a name; what is left is its
family.  A family may carry such a part again, and then it has another family itself.

* `family_of_spells` : the family of a name is its core,
* `exists_spells` : every name has a core,
* `settles_iff` : exactly when a family is its own, and a cap on it covers the event it is of.
-/

namespace LightTrack

/-! ## Parts -/

/-- Only white space. -/
def Blank (cs : List Char) : Prop := ∀ c ∈ cs, isWhite c = true

/-- A vendor prefix: what is not blank, a slash, and white space. -/
def IsVendor (cs : List Char) : Prop :=
  ∃ vendor space, cs = vendor ++ '/' :: space ∧ '/' ∉ vendor ∧ ¬ Blank vendor ∧ Blank space

/-- A lane behind its mark. -/
def IsLane (cs : List Char) : Prop := ∃ lane, cs = '@' :: lane ∧ lane ≠ []

/-- A date behind a dash: `-YYYY-MM-DD` or `-YYYYMMDD`. -/
def IsDate (cs : List Char) : Prop :=
  (∃ year month day, cs = '-' :: (year ++ '-' :: (month ++ '-' :: day)) ∧ year.length = 4 ∧
    month.length = 2 ∧ day.length = 2 ∧ ∀ c ∈ year ++ (month ++ day), c.isDigit = true) ∨
  ∃ day, cs = '-' :: day ∧ day.length = 8 ∧ ∀ c ∈ day, c.isDigit = true

/-- No vendor prefix comes off. -/
def NoVendor (cs : List Char) : Prop :=
  ∀ vendor rest, cs = vendor ++ '/' :: rest → '/' ∉ vendor → Blank vendor ∨ Blank rest

/-- No lane comes off. -/
def NoLane (cs : List Char) : Prop :=
  ∀ head lane, cs = head ++ '@' :: lane → '@' ∉ head → head = [] ∨ lane = []

/-- No date comes off. -/
def NoDate (cs : List Char) : Prop := ∀ stem date, cs = stem ++ date → stem ≠ [] → ¬ IsDate date

/-- A name without white space around it, in lower case. -/
def nameChars (model : String) : List Char := (trimChars isWhite model.toList).map Char.toLower

/-- How a name is made up: a core with a vendor prefix before it, a date and a lane behind it, each
of them there if one comes off. -/
structure Spells (name vendor core date lane : List Char) : Prop where
  text : name = vendor ++ (core ++ date ++ lane)
  vendor : vendor = [] ∧ NoVendor name ∨ IsVendor vendor ∧ core ++ date ++ lane ≠ [] ∧
    trimChars isWhite (core ++ date ++ lane) = core ++ date ++ lane
  lane : lane = [] ∧ NoLane (core ++ date) ∨ IsLane lane ∧ '@' ∉ core ++ date ∧ core ++ date ≠ []
  date : date = [] ∧ NoDate core ∨ IsDate date ∧ core ≠ []

/-- No part comes off, nor white space. -/
structure PlainCore (core : List Char) : Prop where
  trimmed : trimChars isWhite core = core
  vendor : NoVendor core
  lane : NoLane core
  date : NoDate core

/-- A name with each part at most once: its core is plain. -/
def OneOfEach (model : String) : Prop :=
  ∃ vendor core date lane, Spells (nameChars model) vendor core date lane ∧ PlainCore core

/-- The family is its own family, and a model cap on it covers every event of the model. -/
def FamilySettles (provider model : String) : Prop :=
  (canonicalize provider (canonicalize provider model).family).family =
      (canonicalize provider model).family ∧
    ∀ d : ScopeDims, d.provider = provider → d.model = model →
      (LimitScope.model (canonicalize provider model).family).matches d = true

/-! ## Steps -/

/-- The family of a model does not depend on its provider. -/
theorem family_canonicalize (provider provider' model : String) :
    (canonicalize provider model).family = (canonicalize provider' model).family := by
  unfold canonicalize
  simp only

/-- A name without its vendor prefix. -/
def vendorRest (name : String) : String :=
  match splitOnce '/' name with
  | some (pre, rest) => if !isBlank pre && !isBlank rest then strTrim rest else name
  | none => name

/-- A name without its lane. -/
def laneHead (name : String) : String :=
  match splitOnce '@' name with
  | some (head, tail) => if head != "" && tail != "" then head else name
  | none => name

theorem family_eq (provider model : String) : (canonicalize provider model).family =
    (splitDateSuffix (laneHead (vendorRest (toAsciiLowercase (strTrim model))))).1 := by
  unfold canonicalize laneHead vendorRest
  simp only
  generalize toAsciiLowercase (strTrim model) = name
  generalize splitOnce '/' name = parts
  -- the lane comes off what the vendor prefix leaves, whichever that is
  have hlane : ∀ rest : String, (match splitOnce '@' rest with
      | some (head, tail) => if head != "" && tail != "" then (head, some tail) else (rest, none)
      | none => (rest, (none : Option String))).1 =
      match splitOnce '@' rest with
      | some (head, tail) => if head != "" && tail != "" then head else rest
      | none => rest := by
    intro rest
    rcases splitOnce '@' rest with - | ⟨head, tail⟩
    · rfl
    · simp only
      split_ifs
      · rfl
      · rfl
  rcases parts with - | ⟨pre, rest⟩
  · exact congrArg (fun name => (splitDateSuffix name).1) (hlane name)
  · simp only
    generalize (!isBlank pre && !isBlank rest) = proper
    generalize strTrim rest = body
    cases proper with
    | false => exact congrArg (fun name => (splitDateSuffix name).1) (hlane name)
    | true => exact congrArg (fun name => (splitDateSuffix name).1) (hlane body)

theorem trimChars_eq_nil_iff {p : Char → Bool} {cs : List Char} :
    trimChars p cs = [] ↔ ∀ c ∈ cs, p c = true := by
  constructor
  · intro hnil c hc
    by_contra hp
    have hmem := mem_trimChars hc (Bool.eq_false_of_not_eq_true hp)
    rw [hnil] at hmem
    exact absurd hmem List.not_mem_nil
  · intro hall
    have hdrop : cs.dropWhile p = [] := List.dropWhile_eq_nil_iff.2 hall
    unfold trimChars
    rw [hdrop]
    rfl

theorem isBlank_iff {s : String} : isBlank s = true ↔ Blank s.toList := by
  unfold isBlank strTrim Blank
  rw [beq_iff_eq, ← trimChars_eq_nil_iff (p := isWhite), ← String.toList_inj, String.toList_ofList]
  rfl

/-- A text is split at its first separator, and only there. -/
theorem splitOnce_eq_some_iff {sep : Char} {s a b : String} :
    splitOnce sep s = some (a, b) ↔ s.toList = a.toList ++ sep :: b.toList ∧ sep ∉ a.toList := by
  constructor
  · intro h
    refine ⟨splitOnce_toList h, ?_⟩
    unfold splitOnce at h
    simp only at h
    split_ifs at h
    simp only [Option.some.injEq, Prod.mk.injEq] at h
    rw [← h.1, String.toList_ofList]
    intro hmem
    have hne := List.mem_takeWhile_imp hmem
    simp at hne
  · rintro ⟨htext, hfree⟩
    rw [splitOnce_of_not_mem htext hfree, String.ofList_toList, String.ofList_toList]

section Vendor

variable {name : String} {vendor rest : List Char}

theorem vendorRest_of_noVendor (h : NoVendor name.toList) : vendorRest name = name := by
  unfold vendorRest
  cases hsplit : splitOnce '/' name with
  | none => rfl
  | some parts =>
    rcases parts with ⟨pre, rest⟩
    rcases splitOnce_eq_some_iff.1 hsplit with ⟨htext, hfree⟩
    have hproper : ¬ (!isBlank pre && !isBlank rest) = true := by
      rw [Bool.and_eq_true, Bool.not_eq_true', Bool.not_eq_true']
      rintro ⟨hpre, hrest⟩
      rcases h _ _ htext hfree with hblank | hblank
      · rw [isBlank_iff.2 hblank] at hpre
        exact nomatch hpre
      · rw [isBlank_iff.2 hblank] at hrest
        exact nomatch hrest
    exact if_neg hproper

theorem vendorRest_of_vendor (htext : name.toList = vendor ++ '/' :: rest) (hfree : '/' ∉ vendor)
    (hvendor : ¬ Blank vendor) (hrest : ¬ Blank rest) :
    (vendorRest name).toList = trimChars isWhite rest := by
  have hpre : isBlank (String.ofList vendor) = false := by
    refine Bool.eq_false_of_not_eq_true fun h => hvendor ?_
    rw [← String.toList_ofList (l := vendor)]
    exact isBlank_iff.1 h
  have hpost : isBlank (String.ofList rest) = false := by
    refine Bool.eq_false_of_not_eq_true fun h => hrest ?_
    rw [← String.toList_ofList (l := rest)]
    exact isBlank_iff.1 h
  unfold vendorRest
  rw [splitOnce_of_not_mem htext hfree]
  simp only [hpre, hpost, Bool.not_false, Bool.and_self, if_true]
  unfold strTrim
  rw [String.toList_ofList, String.toList_ofList]

end Vendor

section Lane

variable {name : String} {head lane : List Char}

theorem laneHead_of_noLane (h : NoLane name.toList) : laneHead name = name := by
  unfold laneHead
  cases hsplit : splitOnce '@' name with
  | none => rfl
  | some parts =>
    rcases parts with ⟨head, tail⟩
    rcases splitOnce_eq_some_iff.1 hsplit with ⟨htext, hfree⟩
    have hproper : ¬ (head != "" && tail != "") = true := by
      rw [Bool.and_eq_true, bne_iff_ne, bne_iff_ne]
      rintro ⟨hhead, htail⟩
      rcases h _ _ htext hfree with hnil | hnil
      · exact hhead (String.toList_eq_nil_iff.1 hnil)
      · exact htail (String.toList_eq_nil_iff.1 hnil)
    exact if_neg hproper

theorem laneHead_of_lane (htext : name.toList = head ++ '@' :: lane) (hfree : '@' ∉ head)
    (hhead : head ≠ []) (hlane : lane ≠ []) : (laneHead name).toList = head := by
  have hne : ∀ {cs : List Char}, cs ≠ [] → (String.ofList cs != "") = true := by
    intro cs hcs
    rw [bne_iff_ne]
    intro h
    rw [← String.toList_inj, String.toList_ofList] at h
    exact hcs h
  unfold laneHead
  rw [splitOnce_of_not_mem htext hfree]
  simp only [hne hhead, hne hlane, Bool.and_self, if_true]
  exact String.toList_ofList

end Lane

section Date

variable {name : String} {stem date : List Char}

/-- The test for `-YYYY-MM-DD`, on eleven characters. -/
def longDate (cs : List Char) : Bool :=
  cs[0]? == some '-' && cs[5]? == some '-' && cs[8]? == some '-' &&
    digitsAt cs ((List.range 4).map (1 + ·)) && digitsAt cs ((List.range 2).map (6 + ·)) &&
    digitsAt cs ((List.range 2).map (9 + ·))

/-- The test for `-YYYYMMDD`, on nine. -/
def shortDate (cs : List Char) : Bool :=
  cs[0]? == some '-' && digitsAt cs ((List.range 8).map (1 + ·))

theorem longDate_iff {cs : List Char} (hlen : cs.length = 11) : longDate cs = true ↔
    ∃ year month day, cs = '-' :: (year ++ '-' :: (month ++ '-' :: day)) ∧ year.length = 4 ∧
      month.length = 2 ∧ day.length = 2 ∧ ∀ c ∈ year ++ (month ++ day), c.isDigit = true := by
  constructor
  · intro h
    match cs, hlen with
    | [c₀, y₁, y₂, y₃, y₄, c₅, m₁, m₂, c₈, d₁, d₂], _ =>
      simp [longDate, digitsAt, List.range_succ] at h
      rcases h with ⟨⟨⟨⟨⟨rfl, rfl⟩, rfl⟩, hy⟩, hm⟩, hd⟩
      refine ⟨[y₁, y₂, y₃, y₄], [m₁, m₂], [d₁, d₂], rfl, rfl, rfl, rfl, ?_⟩
      simp [hy, hm, hd]
  · rintro ⟨year, month, day, rfl, hyear, hmonth, hday, hdigits⟩
    match year, hyear, month, hmonth, day, hday, hdigits with
    | [y₁, y₂, y₃, y₄], _, [m₁, m₂], _, [d₁, d₂], _, hdigits =>
      simp at hdigits
      simp [longDate, digitsAt, List.range_succ, hdigits]

theorem shortDate_iff {cs : List Char} (hlen : cs.length = 9) : shortDate cs = true ↔
    ∃ day, cs = '-' :: day ∧ day.length = 8 ∧ ∀ c ∈ day, c.isDigit = true := by
  constructor
  · intro h
    match cs, hlen with
    | [c₀, d₁, d₂, d₃, d₄, d₅, d₆, d₇, d₈], _ =>
      simp [shortDate, digitsAt, List.range_succ] at h
      rcases h with ⟨rfl, hd⟩
      refine ⟨[d₁, d₂, d₃, d₄, d₅, d₆, d₇, d₈], rfl, rfl, ?_⟩
      simp [hd]
  · rintro ⟨day, rfl, hday, hdigits⟩
    match day, hday, hdigits with
    | [d₁, d₂, d₃, d₄, d₅, d₆, d₇, d₈], _, hdigits =>
      simp at hdigits
      simp [shortDate, digitsAt, List.range_succ, hdigits]

/-- A date is one of the two. -/
theorem isDate_iff {cs : List Char} : IsDate cs ↔
    cs.length = 11 ∧ longDate cs = true ∨ cs.length = 9 ∧ shortDate cs = true := by
  constructor
  · rintro (hlong | hshort)
    · have hlen : cs.length = 11 := by
        rcases hlong with ⟨year, month, day, rfl, hyear, hmonth, hday, -⟩
        simp [hyear, hmonth, hday]
      exact .inl ⟨hlen, (longDate_iff hlen).2 hlong⟩
    · have hlen : cs.length = 9 := by
        rcases hshort with ⟨day, rfl, hday, -⟩
        simp [hday]
      exact .inr ⟨hlen, (shortDate_iff hlen).2 hshort⟩
  · rintro (⟨hlen, hlong⟩ | ⟨hlen, hshort⟩)
    · exact .inl ((longDate_iff hlen).1 hlong)
    · exact .inr ((shortDate_iff hlen).1 hshort)

/-- Characters behind a stem. -/
theorem digitsAt_drop (cs : List Char) (n i k : ℕ) :
    digitsAt cs ((List.range k).map (n + i + ·)) =
      digitsAt (cs.drop n) ((List.range k).map (i + ·)) := by
  unfold digitsAt
  rw [List.all_map, List.all_map]
  refine congrArg (fun f => (List.range k).all f) (funext fun j => ?_)
  simp only [Function.comp_apply, List.getElem?_drop, Nat.add_assoc]

/-- What the split tests, on the end of the name. -/
theorem splitDateSuffix_eq (name : String) : (splitDateSuffix name).1 =
    if 11 < name.toList.length ∧ longDate (name.toList.drop (name.toList.length - 11)) = true then
      String.ofList (name.toList.take (name.toList.length - 11))
    else if 9 < name.toList.length ∧ shortDate (name.toList.drop (name.toList.length - 9)) = true then
      String.ofList (name.toList.take (name.toList.length - 9))
    else name := by
  unfold splitDateSuffix
  simp only
  generalize name.toList = cs
  have hlong : (11 < cs.length && cs[cs.length - 11]? == some '-' &&
      cs[cs.length - 11 + 5]? == some '-' && cs[cs.length - 11 + 8]? == some '-' &&
      digitsAt cs ((List.range 4).map (cs.length - 11 + 1 + ·)) &&
      digitsAt cs ((List.range 2).map (cs.length - 11 + 6 + ·)) &&
      digitsAt cs ((List.range 2).map (cs.length - 11 + 9 + ·))) = true ↔
      11 < cs.length ∧ longDate (cs.drop (cs.length - 11)) = true := by
    unfold longDate
    rw [digitsAt_drop, digitsAt_drop, digitsAt_drop]
    simp only [List.getElem?_drop, Nat.add_zero, Bool.and_eq_true, decide_eq_true_eq, and_assoc]
  have hshort : (9 < cs.length && cs[cs.length - 9]? == some '-' &&
      digitsAt cs ((List.range 8).map (cs.length - 9 + 1 + ·))) = true ↔
      9 < cs.length ∧ shortDate (cs.drop (cs.length - 9)) = true := by
    unfold shortDate
    rw [digitsAt_drop]
    simp only [List.getElem?_drop, Nat.add_zero, Bool.and_eq_true, decide_eq_true_eq, and_assoc]
  simp only [hlong, hshort]
  split_ifs
  · rfl
  · rfl
  · rfl

theorem splitDateSuffix_of_date (htext : name.toList = stem ++ date) (hstem : stem ≠ [])
    (hdate : IsDate date) : (splitDateSuffix name).1.toList = stem := by
  have hpos : 0 < stem.length := List.length_pos_of_ne_nil hstem
  rw [splitDateSuffix_eq, htext]
  rcases isDate_iff.1 hdate with ⟨hlen, hlong⟩ | ⟨hlen, hshort⟩
  · have hcut : (stem ++ date).length - 11 = stem.length := by
      rw [List.length_append]
      omega
    rw [hcut, List.drop_left, List.take_left, if_pos ⟨by rw [List.length_append]; omega, hlong⟩,
      String.toList_ofList]
  · have hcut : (stem ++ date).length - 9 = stem.length := by
      rw [List.length_append]
      omega
    have hnot : ¬ (11 < (stem ++ date).length ∧
        longDate ((stem ++ date).drop ((stem ++ date).length - 11)) = true) := by
      rintro ⟨hlt, hlong⟩
      -- the dash of a long date would stand where the short one has a digit
      rcases (shortDate_iff hlen).1 hshort with ⟨day, rfl, hday, hdigits⟩
      unfold longDate at hlong
      simp only [Bool.and_eq_true, List.getElem?_drop, beq_iff_eq] at hlong
      have hdash := hlong.1.1.1.1.2
      rw [List.length_append] at hdash hlt
      rw [List.getElem?_append_right (by omega)] at hdash
      have hindex : stem.length + ('-' :: day).length - 11 + 5 - stem.length = 2 + 1 := by
        simp only [List.length_cons] at hlen hlt ⊢
        omega
      rw [hindex, List.getElem?_cons_succ] at hdash
      have hdigit := hdigits '-' (List.mem_of_getElem? hdash)
      exact absurd hdigit (by decide)
    rw [if_neg hnot, hcut, List.drop_left, List.take_left,
      if_pos ⟨by rw [List.length_append]; omega, hshort⟩, String.toList_ofList]

theorem splitDateSuffix_of_noDate (h : NoDate name.toList) : (splitDateSuffix name).1 = name := by
  have hnone : ∀ n, n < name.toList.length →
      ¬ (n < name.toList.length ∧ IsDate (name.toList.drop (name.toList.length - n))) := by
    rintro n hn ⟨hlt, hdate⟩
    refine h _ _ (List.take_append_drop _ _).symm ?_ hdate
    refine List.ne_nil_of_length_pos ?_
    rw [List.length_take]
    omega
  rw [splitDateSuffix_eq, if_neg, if_neg]
  · rintro ⟨hlt, hshort⟩
    refine hnone 9 hlt ⟨hlt, isDate_iff.2 (.inr ⟨?_, hshort⟩)⟩
    rw [List.length_drop]
    omega
  · rintro ⟨hlt, hlong⟩
    refine hnone 11 hlt ⟨hlt, isDate_iff.2 (.inl ⟨?_, hlong⟩)⟩
    rw [List.length_drop]
    omega

end Date

/-! ## The family is the core -/

theorem isWhite_toLower (c : Char) : isWhite c.toLower = isWhite c := by
  by_cases h : c.val ≥ 'A'.val ∧ c.val ≤ 'Z'.val
  · have hval : c.toLower.val = c.val + ('a'.val - 'A'.val) := congrArg Char.val (dif_pos h)
    have hnat : c.toLower.toNat = c.toNat + 32 ∧ 65 ≤ c.toNat ∧ c.toNat ≤ 90 := by
      change c.toLower.val.toNat = c.val.toNat + 32 ∧ 65 ≤ c.val.toNat ∧ c.val.toNat ≤ 90
      rw [hval]
      simp only [ge_iff_le, UInt32.le_iff_toNat_le, UInt32.toNat_add] at h ⊢
      have hbounds : 'A'.val.toNat = 65 ∧ 'Z'.val.toNat = 90 ∧
          ('a'.val - 'A'.val).toNat = 32 := by decide
      omega
    -- neither a capital nor a small letter is white space
    have hnone : ∀ c : Char, 65 ≤ c.toNat → c.toNat ≤ 122 → isWhite c = false := by
      intro c hlo hhi
      simp only [isWhite, Bool.or_eq_false_iff, Bool.and_eq_false_iff, decide_eq_false_iff_not,
        beq_eq_false_iff_ne, ne_eq]
      omega
    rw [hnone c (by omega) (by omega), hnone _ (by omega) (by omega)]
  · rw [show c.toLower = c from dif_neg h]

theorem trimChars_map_toLower (cs : List Char) :
    trimChars isWhite (cs.map Char.toLower) = (trimChars isWhite cs).map Char.toLower := by
  have hdrop : ∀ l : List Char, (l.map Char.toLower).dropWhile isWhite =
      (l.dropWhile isWhite).map Char.toLower := by
    intro l
    rw [List.dropWhile_map]
    exact congrArg (fun p => (l.dropWhile p).map Char.toLower) (funext isWhite_toLower)
  unfold trimChars
  rw [hdrop, ← List.map_reverse, hdrop, List.map_reverse]

theorem nameChars_trimmed (model : String) :
    trimChars isWhite (nameChars model) = nameChars model := by
  unfold nameChars
  rw [trimChars_map_toLower, trimChars_trimChars]

theorem toList_name (model : String) :
    (toAsciiLowercase (strTrim model)).toList = nameChars model := by
  unfold toAsciiLowercase strTrim nameChars
  rw [String.toList_ofList, String.toList_ofList]

theorem trimChars_blank_append {space cs : List Char} (h : Blank space) :
    trimChars isWhite (space ++ cs) = trimChars isWhite cs := by
  unfold trimChars
  rw [List.dropWhile_append_of_pos h]

/-- What is trimmed and not empty is not blank. -/
theorem not_blank_of_trimmed {cs : List Char} (h : trimChars isWhite cs = cs) (hne : cs ≠ []) :
    ¬ Blank cs := by
  intro hblank
  rw [← h] at hne
  exact hne (trimChars_eq_nil_iff.2 hblank)

section Spells

variable {name vendor core date lane : List Char}

/-- **The family of a name is its core.** -/
theorem family_of_spells {model : String} (h : Spells (nameChars model) vendor core date lane)
    (provider : String) : (canonicalize provider model).family.toList = core := by
  rw [family_eq]
  have hvendor : (vendorRest (toAsciiLowercase (strTrim model))).toList = core ++ date ++ lane := by
    rcases h.vendor with ⟨rfl, hnone⟩ | ⟨⟨pre, space, rfl, hfree, hpre, hspace⟩, hne, htrim⟩
    · rw [vendorRest_of_noVendor (by rwa [toList_name]), toList_name, h.text, List.nil_append]
    · have htext : (toAsciiLowercase (strTrim model)).toList =
          pre ++ '/' :: (space ++ (core ++ date ++ lane)) := by
        rw [toList_name, h.text, List.append_assoc, List.cons_append]
      have hrest : ¬ Blank (space ++ (core ++ date ++ lane)) := fun hblank =>
        not_blank_of_trimmed htrim hne fun c hc => hblank c (List.mem_append_right _ hc)
      rw [vendorRest_of_vendor htext hfree hpre hrest, trimChars_blank_append hspace, htrim]
  have hlane : (laneHead (vendorRest (toAsciiLowercase (strTrim model)))).toList = core ++ date := by
    rcases h.lane with ⟨rfl, hnone⟩ | ⟨⟨tail, rfl, htail⟩, hfree, hne⟩
    · rw [List.append_nil] at hvendor
      rw [laneHead_of_noLane (by rwa [hvendor]), hvendor]
    · exact laneHead_of_lane hvendor hfree hne htail
  rcases h.date with ⟨rfl, hnone⟩ | ⟨hdate, hne⟩
  · rw [List.append_nil] at hlane
    rw [splitDateSuffix_of_noDate (by rwa [hlane]), hlane]
  · exact splitDateSuffix_of_date hlane hne hdate

/-- A text that ends in no white space: neither does its end. -/
theorem reverse_dropWhile_of_append {cs rest : List Char}
    (h : (cs ++ rest).reverse.dropWhile isWhite = (cs ++ rest).reverse) (hrest : ¬ Blank rest) :
    rest.reverse.dropWhile isWhite = rest.reverse := by
  have hne : (rest.reverse.dropWhile isWhite).isEmpty = false := by
    rw [← Bool.not_eq_true, List.isEmpty_iff, List.dropWhile_eq_nil_iff]
    exact fun hall => hrest fun c hc => hall c (List.mem_reverse.2 hc)
  rw [List.reverse_append, List.dropWhile_append, hne] at h
  exact List.append_cancel_right h

/-- The end of a trimmed text is only trimmed in front. -/
theorem trimChars_of_suffix {cs rest : List Char} (h : trimChars isWhite (cs ++ rest) = cs ++ rest)
    (hrest : ¬ Blank rest) : rest = rest.takeWhile isWhite ++ trimChars isWhite rest := by
  have hend : (cs ++ rest).reverse.dropWhile isWhite = (cs ++ rest).reverse := by
    have hlen := congrArg List.length h
    have hfront := (List.dropWhile_suffix isWhite (l := cs ++ rest))
    have hback := (List.dropWhile_suffix isWhite (l := ((cs ++ rest).dropWhile isWhite).reverse))
    unfold trimChars at hlen h
    rw [List.length_reverse] at hlen
    have hback_le := hback.length_le
    rw [List.length_reverse] at hback_le
    have hsame : (cs ++ rest).dropWhile isWhite = cs ++ rest :=
      hfront.eq_of_length (le_antisymm hfront.length_le (hlen ▸ hback_le))
    rw [hsame] at h
    rw [← List.reverse_inj, List.reverse_reverse]
    exact h
  have hsplit : rest.takeWhile isWhite ++ rest.dropWhile isWhite = rest :=
    List.takeWhile_append_dropWhile
  have hne : ¬ Blank (rest.dropWhile isWhite) := by
    intro hblank
    refine hrest fun c hc => ?_
    rw [← hsplit] at hc
    rcases List.mem_append.1 hc with htake | hdrop
    · exact List.mem_takeWhile_imp htake
    · exact hblank c hdrop
  have hrest_end := reverse_dropWhile_of_append hend hrest
  rw [← hsplit] at hrest_end
  have hdrop := reverse_dropWhile_of_append hrest_end hne
  unfold trimChars
  rw [hdrop, List.reverse_reverse, hsplit]

/-- Every name has a core. -/
theorem exists_spells (htrim : trimChars isWhite name = name) :
    ∃ vendor core date lane, Spells name vendor core date lane := by
  -- the vendor prefix comes off first, then the lane, then the date
  obtain ⟨vendor, body, htext, hvendor⟩ : ∃ vendor body, name = vendor ++ body ∧
      (vendor = [] ∧ NoVendor name ∨ IsVendor vendor ∧ body ≠ [] ∧
        trimChars isWhite body = body) := by
    by_cases hnone : NoVendor name
    · exact ⟨[], name, rfl, .inl ⟨rfl, hnone⟩⟩
    · unfold NoVendor at hnone
      push Not at hnone
      rcases hnone with ⟨pre, rest, rfl, hfree, hpre, hrest⟩
      have hsplit : rest = rest.takeWhile isWhite ++ trimChars isWhite rest := by
        refine trimChars_of_suffix (?_ : trimChars isWhite ((pre ++ ['/']) ++ rest) = _) hrest
        rw [List.append_assoc]
        exact htrim
      refine ⟨pre ++ '/' :: rest.takeWhile isWhite, trimChars isWhite rest, ?_, .inr ⟨?_, ?_, ?_⟩⟩
      · conv_lhs => rw [hsplit]
        rw [List.append_assoc, List.cons_append]
      · exact ⟨pre, _, rfl, hfree, hpre, fun c hc => List.mem_takeWhile_imp hc⟩
      · exact fun hnil => hrest (trimChars_eq_nil_iff.1 hnil)
      · exact trimChars_trimChars _ _
  obtain ⟨head, lane, rfl, hlane⟩ : ∃ head lane, body = head ++ lane ∧
      (lane = [] ∧ NoLane head ∨ IsLane lane ∧ '@' ∉ head ∧ head ≠ []) := by
    by_cases hnone : NoLane body
    · exact ⟨body, [], (List.append_nil _).symm, .inl ⟨rfl, hnone⟩⟩
    · unfold NoLane at hnone
      push Not at hnone
      rcases hnone with ⟨head, tail, rfl, hfree, hhead, htail⟩
      exact ⟨head, '@' :: tail, rfl, .inr ⟨⟨tail, rfl, htail⟩, hfree, hhead⟩⟩
  obtain ⟨core, date, rfl, hdate⟩ : ∃ core date, head = core ++ date ∧
      (date = [] ∧ NoDate core ∨ IsDate date ∧ core ≠ []) := by
    by_cases hnone : NoDate head
    · exact ⟨head, [], (List.append_nil _).symm, .inl ⟨rfl, hnone⟩⟩
    · unfold NoDate at hnone
      push Not at hnone
      rcases hnone with ⟨stem, date, rfl, hstem, hdate⟩
      exact ⟨stem, date, rfl, .inr ⟨hdate, hstem⟩⟩
  exact ⟨vendor, core, date, lane, htext, hvendor, hlane, hdate⟩

end Spells

/-! ## When a family is its own -/

section Shorter

variable (name : String)

/-- White space, or nothing, comes off. -/
theorem strTrim_cases : trimChars isWhite name.toList = name.toList ∧ strTrim name = name ∨
    (strTrim name).toList.length < name.toList.length := by
  have hsub : (trimChars isWhite name.toList).Sublist name.toList := by
    unfold trimChars
    have hback := (List.dropWhile_sublist isWhite
      (l := (name.toList.dropWhile isWhite).reverse)).reverse
    rw [List.reverse_reverse] at hback
    exact hback.trans (List.dropWhile_sublist isWhite)
  have htext : (strTrim name).toList = trimChars isWhite name.toList := String.toList_ofList
  rcases hsub.length_le.lt_or_eq with hlt | heq
  · exact .inr (by rwa [htext])
  · have hsame := hsub.eq_of_length heq
    exact .inl ⟨hsame, by rw [← String.toList_inj, htext, hsame]⟩

/-- A vendor prefix, or nothing, comes off. -/
theorem vendorRest_cases : NoVendor name.toList ∧ vendorRest name = name ∨
    (vendorRest name).toList.length < name.toList.length := by
  by_cases hnone : NoVendor name.toList
  · exact .inl ⟨hnone, vendorRest_of_noVendor hnone⟩
  · unfold NoVendor at hnone
    push Not at hnone
    rcases hnone with ⟨pre, rest, htext, hfree, hpre, hrest⟩
    right
    rcases strTrim_cases (String.ofList rest) with ⟨htrim, -⟩ | hlt
    · rw [String.toList_ofList] at htrim
      rw [vendorRest_of_vendor htext hfree hpre hrest, htext, htrim, List.length_append,
        List.length_cons]
      omega
    · unfold strTrim at hlt
      rw [String.toList_ofList, String.toList_ofList] at hlt
      rw [vendorRest_of_vendor htext hfree hpre hrest, htext, List.length_append, List.length_cons]
      omega

/-- A lane, or nothing, comes off. -/
theorem laneHead_cases : NoLane name.toList ∧ laneHead name = name ∨
    (laneHead name).toList.length < name.toList.length := by
  by_cases hnone : NoLane name.toList
  · exact .inl ⟨hnone, laneHead_of_noLane hnone⟩
  · unfold NoLane at hnone
    push Not at hnone
    rcases hnone with ⟨head, tail, htext, hfree, hhead, htail⟩
    right
    rw [laneHead_of_lane htext hfree hhead htail, htext, List.length_append, List.length_cons]
    omega

/-- A date, or nothing, comes off. -/
theorem splitDateSuffix_cases : NoDate name.toList ∧ (splitDateSuffix name).1 = name ∨
    (splitDateSuffix name).1.toList.length < name.toList.length := by
  by_cases hnone : NoDate name.toList
  · exact .inl ⟨hnone, splitDateSuffix_of_noDate hnone⟩
  · unfold NoDate at hnone
    push Not at hnone
    rcases hnone with ⟨stem, date, htext, hstem, hdate⟩
    have hlen : 0 < date.length := by
      rcases isDate_iff.1 hdate with ⟨hlen, -⟩ | ⟨hlen, -⟩ <;> omega
    right
    rw [splitDateSuffix_of_date htext hstem hdate, htext, List.length_append]
    omega

end Shorter

theorem length_le_of_cases {P : Prop} {s name : String}
    (h : P ∧ s = name ∨ s.toList.length < name.toList.length) :
    s.toList.length ≤ name.toList.length := by
  rcases h with ⟨-, rfl⟩ | hlt
  · exact le_rfl
  · exact hlt.le

/-- A name in lower case is its own family exactly when it is plain. -/
theorem family_eq_self_iff {name : String} (hlower : name.toList.map Char.toLower = name.toList)
    (provider : String) : (canonicalize provider name).family = name ↔ PlainCore name.toList := by
  have hsame : ∀ {s : String}, s = name → toAsciiLowercase s = name := by
    rintro s rfl
    unfold toAsciiLowercase
    rw [hlower, String.ofList_toList]
  have hlen : ∀ s : String, (toAsciiLowercase s).toList.length = s.toList.length := by
    intro s
    unfold toAsciiLowercase
    rw [String.toList_ofList, List.length_map]
  rw [family_eq]
  constructor
  · intro h
    -- a step that is not the identity leaves a shorter name, and none makes it longer
    have hvendor := vendorRest_cases (toAsciiLowercase (strTrim name))
    have hlane := laneHead_cases (vendorRest (toAsciiLowercase (strTrim name)))
    have hdate := splitDateSuffix_cases (laneHead (vendorRest (toAsciiLowercase (strTrim name))))
    have hvendor_le := length_le_of_cases hvendor
    have hlane_le := length_le_of_cases hlane
    have hdate_le := length_le_of_cases hdate
    rw [hlen] at hvendor hvendor_le
    rw [h] at hdate hdate_le
    rcases strTrim_cases name with ⟨htrim, heq⟩ | hlt
    · rw [hsame heq] at hvendor hlane hdate hvendor_le hlane_le hdate_le
      rw [heq] at hvendor hvendor_le
      rcases hvendor with ⟨hvendor, heq⟩ | hlt
      · rw [heq] at hlane hdate hlane_le hdate_le
        rcases hlane with ⟨hlane, heq⟩ | hlt
        · rw [heq] at hdate
          rcases hdate with ⟨hdate, -⟩ | hlt
          · exact ⟨htrim, hvendor, hlane, hdate⟩
          · exact absurd hlt (lt_irrefl _)
        · omega
      · omega
    · omega
  · intro h
    have htrim : strTrim name = name := by
      unfold strTrim
      rw [h.trimmed, String.ofList_toList]
    rw [hsame htrim, vendorRest_of_noVendor h.vendor, laneHead_of_noLane h.lane,
      splitDateSuffix_of_noDate h.date]

/-- **A family is its own, and a cap on it covers the events it is of**, exactly when the name has
each part at most once. -/
theorem settles_iff (provider model : String) : FamilySettles provider model ↔ OneOfEach model := by
  have hfamily : ∀ {vendor core date lane}, Spells (nameChars model) vendor core date lane →
      ((canonicalize provider (canonicalize provider model).family).family =
        (canonicalize provider model).family ↔ PlainCore core) := by
    intro vendor core date lane hspells
    have hcore := family_of_spells hspells provider
    have hlower : (canonicalize provider model).family.toList.map Char.toLower =
        (canonicalize provider model).family.toList := by
      rw [hcore]
      refine (List.map_congr_left fun c hc => ?_).trans (List.map_id core)
      have hname : c ∈ nameChars model := by
        rw [hspells.text]
        exact List.mem_append_right _ (List.mem_append_left _ (List.mem_append_left _ hc))
      rcases List.mem_map.1 hname with ⟨c', -, rfl⟩
      exact toLower_toLower c'
    rw [family_eq_self_iff hlower, hcore]
  constructor
  · rintro ⟨hsame, -⟩
    rcases exists_spells (nameChars_trimmed model) with ⟨vendor, core, date, lane, hspells⟩
    exact ⟨vendor, core, date, lane, hspells, (hfamily hspells).1 hsame⟩
  · rintro ⟨vendor, core, date, lane, hspells, hplain⟩
    have hsame := (hfamily hspells).2 hplain
    refine ⟨hsame, ?_⟩
    rintro d rfl rfl
    unfold LimitScope.matches
    simp only [hsame, beq_self_eq_true, Bool.or_true]

/-- **A call through a router** names the router and the vendor: its family is not its own, and a
cap on the family does not cover the call. -/
theorem routed_family_unsettled :
    ¬ FamilySettles "openrouter" "openrouter/anthropic/claude-sonnet-5" ∧
      (LimitScope.model
          (canonicalize "openrouter" "openrouter/anthropic/claude-sonnet-5").family).matches
        (.new "openrouter" "openrouter/anthropic/claude-sonnet-5" none) = false := by
  have hcap : (LimitScope.model
      (canonicalize "openrouter" "openrouter/anthropic/claude-sonnet-5").family).matches
        (.new "openrouter" "openrouter/anthropic/claude-sonnet-5" none) = false := by
    decide +kernel
  refine ⟨?_, hcap⟩
  rintro ⟨-, hcovers⟩
  exact Bool.false_ne_true (hcap.symm.trans (hcovers _ rfl rfl))

end LightTrack
