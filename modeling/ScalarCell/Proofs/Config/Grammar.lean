import ScalarCell.Config
import ScalarCell.Proofs.Text.Trim

/-!
# The language of settings

What may stand between two separators, said without the reader: nothing but blanks, a setting
(`Writes`), or something faulty (`Faulty`). Every segment is one of the three
(`allBlank_or_writes_or_faulty`), and the reader treats each as it should
(`applySegment_of_allBlank`, `applySegment_of_writes`, `applySegment_of_faulty`). Segments that are
all blank or settings mean the list of their settings (`Means`), of which the last one of each kind
counts (`Config.overriddenBy`).
-/

namespace ScalarCell

inductive Setting where
  | policy (p : Policy)
  | trimming (b : Bool)

namespace Setting

def policy? : Setting → Option Policy
  | policy p => some p
  | trimming _ => none

def trimming? : Setting → Option Bool
  | policy _ => none
  | trimming b => some b

end Setting

namespace Config

open Text

/-- The last setting of each kind replaces what was there, and a kind without one keeps it. -/
def overriddenBy (config : Config) (settings : List Setting) : Config where
  policy := (settings.filterMap Setting.policy?).getLast?.getD config.policy
  trimsNumbers := (settings.filterMap Setting.trimming?).getLast?.getD config.trimsNumbers

theorem overriddenBy_append (config : Config) (xs ys : List Setting) :
    config.overriddenBy (xs ++ ys) = (config.overriddenBy xs).overriddenBy ys := by
  have hLast {α : Type} (x : α) (as bs : List α) :
      (as ++ bs).getLast?.getD x = bs.getLast?.getD (as.getLast?.getD x) := by
    rw [List.getLast?_append]
    cases bs.getLast? <;> rfl
  simp only [overriddenBy, List.filterMap_append, hLast]

theorem overriddenBy_cons (config : Config) (x : Setting) (xs : List Setting) :
    config.overriddenBy (x :: xs) = (config.overriddenBy [x]).overriddenBy xs :=
  overriddenBy_append config [x] xs

/-! ## Segments -/

/-- The segment is cut at its first `=` into a key and a value, each without the blanks around it. -/
def PairOf (segment key value : List Char) : Prop :=
  ∃ left right, segment = left ++ '=' :: right ∧ '=' ∉ left ∧ Trimmed left key ∧
    Trimmed right value

/-- The name of a policy counts in any case of its letters, a truth value in lower case only. -/
inductive Writes : List Char → Setting → Prop
  | policy {segment value : List Char} {p : Policy}
      (hPair : PairOf segment "boolCoercion".toList value)
      (hName : sameLetters value p.text.toList = true) : Writes segment (.policy p)
  | trimming {segment : List Char} {b : Bool}
      (hPair : PairOf segment "trimNumericText".toList (flagText b).toList) :
      Writes segment (.trimming b)

inductive Faulty : List Char → ConfigFault → Prop
  | notASetting {segment core : List Char} (hUncut : '=' ∉ segment)
      (hCore : Trimmed segment core) (hSome : core ≠ []) :
      Faulty segment (.notASetting (String.ofList core))
  | unknownKey {segment key value : List Char} (hPair : PairOf segment key value)
      (hPolicy : key ≠ "boolCoercion".toList) (hTrimming : key ≠ "trimNumericText".toList) :
      Faulty segment (.unknownKey (String.ofList key))
  | unknownPolicy {segment value : List Char}
      (hPair : PairOf segment "boolCoercion".toList value)
      (hName : ∀ p : Policy, sameLetters value p.text.toList = false) :
      Faulty segment (.unknownPolicy (String.ofList value))
  | badTrimming {segment value : List Char}
      (hPair : PairOf segment "trimNumericText".toList value)
      (hFlag : ∀ b, value ≠ (flagText b).toList) :
      Faulty segment (.badTrimming (String.ofList value))

theorem pairOf_words {key value : List Char} (hCut : '=' ∉ key) (hKey : key.any isBlank = false)
    (hValue : value.any isBlank = false) : PairOf (key ++ '=' :: value) key value :=
  ⟨key, value, rfl, hCut, trimmed_self hKey, trimmed_self hValue⟩

theorem exists_pairOf {segment : List Char} (h : '=' ∈ segment) :
    ∃ key value, PairOf segment key value := by
  obtain ⟨left, right, rfl, hLeft⟩ := List.eq_append_cons_of_mem h
  exact ⟨_, _, left, right, rfl, hLeft, trimmed_trim left, trimmed_trim right⟩

theorem allBlank_or_writes_or_faulty (segment : List Char) :
    AllBlank segment ∨ (∃ x, Writes segment x) ∨ ∃ fault, Faulty segment fault := by
  by_cases hBlank : AllBlank segment
  · exact Or.inl hBlank
  right
  by_cases hCut : '=' ∈ segment
  · obtain ⟨key, value, hPair⟩ := exists_pairOf hCut
    by_cases hPolicy : key = "boolCoercion".toList
    · subst hPolicy
      by_cases hName : ∃ p : Policy, sameLetters value p.text.toList = true
      · obtain ⟨p, hName⟩ := hName
        exact Or.inl ⟨_, .policy hPair hName⟩
      · refine Or.inr ⟨_, .unknownPolicy hPair fun p => ?_⟩
        exact Bool.eq_false_iff.mpr fun h => hName ⟨p, h⟩
    · by_cases hTrimming : key = "trimNumericText".toList
      · subst hTrimming
        by_cases hFlag : ∃ b, value = (flagText b).toList
        · obtain ⟨b, rfl⟩ := hFlag
          exact Or.inl ⟨_, .trimming hPair⟩
        · exact Or.inr ⟨_, .badTrimming hPair fun b h => hFlag ⟨b, h⟩⟩
      · exact Or.inr ⟨_, .unknownKey hPair hPolicy hTrimming⟩
  · have hTrimmed := trimmed_trim segment
    refine Or.inr ⟨_, .notASetting hCut hTrimmed fun hNothing => hBlank ?_⟩
    rw [hNothing] at hTrimmed
    exact trimmed_nil_iff.mp hTrimmed

/-! ## Names of values -/

theorem ofList_ne {cs : List Char} {s : String} (h : cs ≠ s.toList) : String.ofList cs ≠ s := by
  rintro rfl
  exact h String.toList_ofList.symm

theorem parsePolicy_of_sameLetters {value : List Char} {p : Policy}
    (h : sameLetters value p.text.toList = true) : Policy.parse (String.ofList value) = .ok p := by
  rw [Policy.parse, String.toList_ofList]
  cases p with
  | lenient => exact if_pos h
  | strict =>
    have hNot : ¬ sameLetters value "lenient".toList = true := by
      have hLetters := beq_iff_eq.mp h
      rw [sameLetters, hLetters]
      decide
    rw [if_neg hNot]
    exact if_pos h

theorem parsePolicy_of_unknown {value : List Char}
    (h : ∀ p : Policy, sameLetters value p.text.toList = false) :
    Policy.parse (String.ofList value) = .error (.unknownPolicy (String.ofList value)) := by
  rw [Policy.parse, String.toList_ofList]
  refine (if_neg ?_).trans (if_neg ?_)
  · exact Bool.eq_false_iff.mp (h .lenient)
  · exact Bool.eq_false_iff.mp (h .strict)

theorem parseTrimming_flagText (b : Bool) : parseTrimming (flagText b) = .ok b := by
  cases b <;> rfl

theorem parseTrimming_of_ne {value : String} (h : ∀ b, value ≠ flagText b) :
    parseTrimming value = .error (.badTrimming value) :=
  (if_neg (h true)).trans (if_neg (h false))

/-! ## The reader on one segment -/

variable (config : Config) {segment : List Char}

theorem set_policy (value : String) :
    config.set "boolCoercion" value =
      (Policy.parse value).map fun policy => { config with policy } :=
  if_pos rfl

theorem set_trimming (value : String) :
    config.set "trimNumericText" value =
      (parseTrimming value).map fun trimsNumbers => { config with trimsNumbers } :=
  (if_neg (by decide)).trans (if_pos rfl)

theorem applySegment_of_allBlank (h : AllBlank segment) :
    config.applySegment segment = .ok config := by
  have hNothing : trim (String.ofList segment) = "" :=
    String.toList_inj.mp (trim_ofList_eq_iff.mpr (trimmed_nil_iff.mpr h))
  unfold applySegment
  exact if_pos hNothing

theorem trim_ofList_eq {cs core : List Char} (h : Trimmed cs core) :
    trim (String.ofList cs) = String.ofList core := by
  apply String.toList_inj.mp
  rw [String.toList_ofList]
  exact trim_ofList_eq_iff.mpr h

theorem applySegment_of_uncut {core : List Char} (hUncut : '=' ∉ segment)
    (hCore : Trimmed segment core) (hSome : core ≠ []) :
    config.applySegment segment = .error (.notASetting (String.ofList core)) := by
  have hNonempty : String.ofList core ≠ "" := by
    intro h
    apply hSome
    rw [← String.toList_ofList (l := core), h]
    rfl
  have hInner : '=' ∉ core := by
    obtain ⟨⟨before, after, -, -, rfl⟩, -, -⟩ := hCore
    simp only [List.mem_append, not_or] at hUncut
    exact hUncut.2.1
  unfold applySegment
  dsimp only
  rw [trim_ofList_eq hCore, if_neg hNonempty, String.toList_ofList, cutAt?_eq_none_iff.mpr hInner]

/-- Blanks around the segment do not matter, since those around key and value do not. -/
theorem applySegment_of_pairOf {key value : List Char} (h : PairOf segment key value) :
    config.applySegment segment = config.set (String.ofList key) (String.ofList value) := by
  obtain ⟨left, right, rfl, hLeft, hKey, hValue⟩ := h
  have hCore := trimmed_trim (left ++ '=' :: right)
  generalize trimRight (trimLeft (left ++ '=' :: right)) = core at hCore
  obtain ⟨before, after, k, v, hBefore, hAfter, rfl, rfl, hCut⟩ :=
    cutAt?_of_trimmed rfl hCore (cutAt?_append hLeft right)
  have hNonempty : String.ofList core ≠ "" := by
    intro h
    have hNil : core = [] := by
      rw [← String.toList_ofList (l := core), h]
      rfl
    rw [hNil] at hCut
    cases hCut
  have hInnerKey : Trimmed k key := by
    rw [← List.append_nil k] at hKey
    exact hKey.of_pad hBefore (List.forall_mem_nil _)
  have hInnerValue : Trimmed v value := by
    rw [← List.nil_append (v ++ after)] at hValue
    exact hValue.of_pad (List.forall_mem_nil _) hAfter
  unfold applySegment
  dsimp only
  rw [trim_ofList_eq hCore, if_neg hNonempty, String.toList_ofList, hCut]
  dsimp only
  rw [trim_ofList_eq hInnerKey, trim_ofList_eq hInnerValue]

theorem applySegment_of_writes {x : Setting} (h : Writes segment x) :
    config.applySegment segment = .ok (config.overriddenBy [x]) := by
  cases h with
  | policy hPair hName =>
    rw [applySegment_of_pairOf config hPair, String.ofList_toList, set_policy,
      parsePolicy_of_sameLetters hName]
    rfl
  | trimming hPair =>
    rw [applySegment_of_pairOf config hPair, String.ofList_toList, String.ofList_toList,
      set_trimming, parseTrimming_flagText]
    rfl

theorem applySegment_of_faulty {fault : ConfigFault} (h : Faulty segment fault) :
    config.applySegment segment = .error fault := by
  cases h with
  | notASetting hUncut hCore hSome => exact applySegment_of_uncut config hUncut hCore hSome
  | unknownKey hPair hPolicy hTrimming =>
    rw [applySegment_of_pairOf config hPair]
    exact (if_neg (ofList_ne hPolicy)).trans (if_neg (ofList_ne hTrimming))
  | unknownPolicy hPair hName =>
    rw [applySegment_of_pairOf config hPair, String.ofList_toList, set_policy,
      parsePolicy_of_unknown hName]
    rfl
  | badTrimming hPair hFlag =>
    rw [applySegment_of_pairOf config hPair, String.ofList_toList, set_trimming,
      parseTrimming_of_ne fun b => ofList_ne (hFlag b)]
    rfl

/-! ## Lists of segments -/

/-- The segments are blank or settings, and these are the settings in their order. -/
inductive Means : List (List Char) → List Setting → Prop
  | nil : Means [] []
  | blank {segment : List Char} {segments : List (List Char)} {settings : List Setting}
      (hBlank : AllBlank segment) (hRest : Means segments settings) :
      Means (segment :: segments) settings
  | setting {segment : List Char} {x : Setting} {segments : List (List Char)}
      {settings : List Setting} (hWrites : Writes segment x) (hRest : Means segments settings) :
      Means (segment :: segments) (x :: settings)

theorem Means.append {s t : List (List Char)} {xs ys : List Setting} (hs : Means s xs)
    (ht : Means t ys) : Means (s ++ t) (xs ++ ys) := by
  induction hs with
  | nil => exact ht
  | blank hBlank _ ih => exact .blank hBlank ih
  | setting hWrites _ ih => exact .setting hWrites ih

theorem exists_means_iff {segments : List (List Char)} :
    (∃ settings, Means segments settings) ↔
      ∀ segment ∈ segments, AllBlank segment ∨ ∃ x, Writes segment x := by
  constructor
  · rintro ⟨settings, h⟩
    induction h with
    | nil => exact List.forall_mem_nil _
    | blank hBlank _ ih => exact List.forall_mem_cons.mpr ⟨Or.inl hBlank, ih⟩
    | setting hWrites _ ih => exact List.forall_mem_cons.mpr ⟨Or.inr ⟨_, hWrites⟩, ih⟩
  · intro h
    induction segments with
    | nil => exact ⟨[], .nil⟩
    | cons segment segments ih =>
      obtain ⟨hFirst, hRest⟩ := List.forall_mem_cons.mp h
      obtain ⟨settings, hMeans⟩ := ih hRest
      rcases hFirst with hBlank | ⟨x, hWrites⟩
      · exact ⟨settings, .blank hBlank hMeans⟩
      · exact ⟨x :: settings, .setting hWrites hMeans⟩

/-- Reading stops somewhere only at the first faulty segment. -/
theorem means_or_faulty (segments : List (List Char)) :
    (∃ settings, Means segments settings) ∨
      ∃ good bad rest settings fault, segments = good ++ bad :: rest ∧ Means good settings ∧
        Faulty bad fault := by
  induction segments with
  | nil => exact Or.inl ⟨[], .nil⟩
  | cons segment segments ih =>
    rcases allBlank_or_writes_or_faulty segment with hBlank | ⟨x, hWrites⟩ | ⟨fault, hFaulty⟩
    · rcases ih with ⟨settings, h⟩ | ⟨good, bad, rest, settings, fault, rfl, hGood, hBad⟩
      · exact Or.inl ⟨settings, .blank hBlank h⟩
      · exact Or.inr ⟨segment :: good, bad, rest, settings, fault, rfl, .blank hBlank hGood, hBad⟩
    · rcases ih with ⟨settings, h⟩ | ⟨good, bad, rest, settings, fault, rfl, hGood, hBad⟩
      · exact Or.inl ⟨x :: settings, .setting hWrites h⟩
      · exact Or.inr ⟨segment :: good, bad, rest, x :: settings, fault, rfl,
          .setting hWrites hGood, hBad⟩
    · exact Or.inr ⟨[], segment, segments, [], fault, rfl, .nil, hFaulty⟩

end Config

end ScalarCell
