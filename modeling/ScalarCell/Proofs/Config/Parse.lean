import ScalarCell.Proofs.Config.Grammar

/-!
# Settings as text

`Config.parse` accepts the texts all of whose segments are blank or settings, and no others; it
stops at the first faulty segment (`parse_eq_ok_iff`, `parse_eq_error_iff`). A separator between two
accepted texts gives an accepted text, in which the settings of the second come over those of the
first (`parse_append`), so the written form of a `Config` behind anything accepted counts alone
(`parse_append_text`).
-/

namespace ScalarCell.Config

open Text

/-! ## The reader on a list of segments -/

variable {segments good : List (List Char)} {settings : List Setting}

theorem bind_of_ok {α β ε : Type} {x : Except ε α} {a : α} (h : x = .ok a) (f : α → Except ε β) :
    x >>= f = f a := by
  rw [h]
  rfl

theorem bind_of_error {α β ε : Type} {x : Except ε α} {e : ε} (h : x = .error e)
    (f : α → Except ε β) : x >>= f = .error e := by
  rw [h]
  rfl

theorem foldlM_of_means (h : Means segments settings) (config : Config) :
    segments.foldlM applySegment config = .ok (config.overriddenBy settings) := by
  induction h generalizing config with
  | nil => rfl
  | blank hBlank _ ih =>
    rw [List.foldlM_cons, bind_of_ok (applySegment_of_allBlank config hBlank)]
    exact ih config
  | setting hWrites _ ih =>
    rw [List.foldlM_cons, bind_of_ok (applySegment_of_writes config hWrites), ih,
      ← overriddenBy_cons]

theorem foldlM_of_faulty {bad : List Char} {fault : ConfigFault} (hGood : Means good settings)
    (hBad : Faulty bad fault) (rest : List (List Char)) (config : Config) :
    (good ++ bad :: rest).foldlM applySegment config = .error fault := by
  rw [List.foldlM_append, bind_of_ok (foldlM_of_means hGood config), List.foldlM_cons,
    bind_of_error (applySegment_of_faulty _ hBad)]

/-! ## The reader on a text -/

/-- The texts between the separators. -/
def segmentsOf (s : String) : List (List Char) := s.toList.splitOnP fun c => c == '&' || c == ';'

theorem parse_eq (s : String) : parse s = (segmentsOf s).foldlM applySegment default :=
  congrArg (List.foldlM applySegment default) (segments_eq_splitOnP isSeparator s.toList)

theorem segmentsOf_append {sep : Char} (h : sep = '&' ∨ sep = ';') (s t : String) :
    segmentsOf (s ++ String.singleton sep ++ t) = segmentsOf s ++ segmentsOf t := by
  have hSeparates : isSeparator sep = true := by
    rcases h with rfl | rfl <;> rfl
  have hSplit := segments_append_cons hSeparates s.toList t.toList
  rw [segments_eq_splitOnP, segments_eq_splitOnP, segments_eq_splitOnP] at hSplit
  rw [segmentsOf, String.toList_append, String.toList_append, String.toList_singleton,
    List.append_assoc]
  exact hSplit

/-- A text without separators is one segment. -/
theorem segmentsOf_of_any_eq_false {s : String} (h : s.toList.any isSeparator = false) :
    segmentsOf s = [s.toList] := by
  rw [List.any_eq_false] at h
  exact List.splitOnP_eq_singleton fun c hc => Bool.eq_false_iff.mpr (h c hc)

theorem parse_eq_ok_iff {s : String} {config : Config} :
    parse s = .ok config ↔
      ∃ settings, Means (segmentsOf s) settings ∧ config = default.overriddenBy settings := by
  rw [parse_eq]
  constructor
  · intro h
    rcases means_or_faulty (segmentsOf s) with
      ⟨settings, hMeans⟩ | ⟨good, bad, rest, settings, fault, hSegments, hGood, hBad⟩
    · rw [foldlM_of_means hMeans] at h
      exact ⟨settings, hMeans, (Except.ok.inj h).symm⟩
    · rw [hSegments, foldlM_of_faulty hGood hBad] at h
      cases h
  · rintro ⟨settings, hMeans, rfl⟩
    exact foldlM_of_means hMeans default

theorem parse_eq_error_iff {s : String} {fault : ConfigFault} :
    parse s = .error fault ↔
      ∃ good bad rest settings, segmentsOf s = good ++ bad :: rest ∧ Means good settings ∧
        Faulty bad fault := by
  rw [parse_eq]
  constructor
  · intro h
    rcases means_or_faulty (segmentsOf s) with
      ⟨settings, hMeans⟩ | ⟨good, bad, rest, settings, first, hSegments, hGood, hBad⟩
    · rw [foldlM_of_means hMeans] at h
      cases h
    · rw [hSegments, foldlM_of_faulty hGood hBad] at h
      cases h
      exact ⟨good, bad, rest, settings, hSegments, hGood, hBad⟩
  · rintro ⟨good, bad, rest, settings, hSegments, hGood, hBad⟩
    rw [hSegments]
    exact foldlM_of_faulty hGood hBad rest default

theorem parse_isOk_iff {s : String} :
    (∃ config, parse s = .ok config) ↔
      ∀ segment ∈ segmentsOf s, AllBlank segment ∨ ∃ x, Writes segment x := by
  rw [← exists_means_iff]
  constructor
  · rintro ⟨config, h⟩
    obtain ⟨settings, hMeans, -⟩ := parse_eq_ok_iff.mp h
    exact ⟨settings, hMeans⟩
  · rintro ⟨settings, hMeans⟩
    exact ⟨_, parse_eq_ok_iff.mpr ⟨settings, hMeans, rfl⟩⟩

/-! ## Two texts -/

theorem parse_append {s t : String} {config : Config} {sep : Char} {settings : List Setting}
    (hSep : sep = '&' ∨ sep = ';') (hs : parse s = .ok config)
    (ht : Means (segmentsOf t) settings) :
    parse (s ++ String.singleton sep ++ t) = .ok (config.overriddenBy settings) := by
  obtain ⟨earlier, hMeans, rfl⟩ := parse_eq_ok_iff.mp hs
  refine parse_eq_ok_iff.mpr ⟨earlier ++ settings, ?_, (overriddenBy_append _ _ _).symm⟩
  rw [segmentsOf_append hSep]
  exact hMeans.append ht

theorem segmentsOf_text (config : Config) :
    segmentsOf config.text =
      [policyKey.toList ++ '=' :: config.policy.text.toList,
        trimmingKey.toList ++ '=' :: (flagText config.trimsNumbers).toList] := by
  obtain ⟨p, b⟩ := config
  have hText : text ⟨p, b⟩ = policyKey ++ "=" ++ p.text ++ String.singleton '&' ++
      (trimmingKey ++ "=" ++ flagText b) := by
    simp only [text, String.append_assoc]
    rfl
  have hPolicy : (policyKey ++ "=" ++ p.text).toList.any isSeparator = false := by
    cases p <;> decide
  have hTrimming : (trimmingKey ++ "=" ++ flagText b).toList.any isSeparator = false := by
    cases b <;> decide
  rw [hText, segmentsOf_append (Or.inl rfl), segmentsOf_of_any_eq_false hPolicy,
    segmentsOf_of_any_eq_false hTrimming]
  simp only [String.toList_append, List.append_assoc]
  rfl

theorem means_text (config : Config) :
    Means (segmentsOf config.text) [.policy config.policy, .trimming config.trimsNumbers] := by
  have hPolicy : config.policy.text.toList.any isBlank = false := by
    cases config.policy <;> rfl
  have hFlag : (flagText config.trimsNumbers).toList.any isBlank = false := by
    cases config.trimsNumbers <;> rfl
  rw [segmentsOf_text]
  refine .setting (.policy (pairOf_words ?_ ?_ hPolicy) (sameLetters_refl _))
    (.setting (.trimming (pairOf_words ?_ ?_ hFlag)) .nil)
  all_goals decide

theorem parse_append_text {s : String} {config : Config} (h : parse s = .ok config) (c : Config) :
    parse (s ++ "&" ++ c.text) = .ok c := by
  have hAmpersand : "&" = String.singleton '&' := by decide
  rw [hAmpersand, parse_append (Or.inl rfl) h (means_text c)]
  rfl

theorem mapError_eq_error_iff {α ε δ : Type} {f : ε → δ} {x : Except ε α} {e : δ} :
    x.mapError f = .error e ↔ ∃ fault, x = .error fault ∧ e = f fault := by
  cases x with
  | ok a => simp [Except.mapError]
  | error fault => simp [Except.mapError, eq_comm]

/-- Which texts are read, as what, why the others are not, and what a separator between two texts
does. -/
theorem parse_language (s : String) :
    ((∃ config, parse s = .ok config) ↔
        ∀ segment ∈ segmentsOf s, AllBlank segment ∨ ∃ x, Writes segment x) ∧
      (∀ config, parse s = .ok config ↔
        ∃ settings, Means (segmentsOf s) settings ∧
          config.policy = (settings.filterMap Setting.policy?).getLast?.getD .lenient ∧
          config.trimsNumbers = (settings.filterMap Setting.trimming?).getLast?.getD true) ∧
      (∀ e, (parse s).mapError ConfigFault.toError = .error e ↔
        ∃ good bad rest settings fault, segmentsOf s = good ++ bad :: rest ∧
          Means good settings ∧ Faulty bad fault ∧ e = .invalidConfig fault.message) ∧
      (∀ t sep config other, (sep = '&' ∨ sep = ';') → parse s = .ok config → parse t = .ok other →
        ∃ settings, Means (segmentsOf t) settings ∧ other = default.overriddenBy settings ∧
          parse (s ++ String.singleton sep ++ t) = .ok (config.overriddenBy settings)) ∧
      (∀ config c, parse s = .ok config → parse (s ++ "&" ++ c.text) = .ok c) := by
  refine ⟨parse_isOk_iff, fun config => ?_, fun e => ?_, ?_, fun config c h => parse_append_text h c⟩
  · rw [parse_eq_ok_iff]
    refine exists_congr fun settings => and_congr_right fun _ => ?_
    cases config
    exact iff_of_eq (Config.mk.injEq _ _ _ _)
  · rw [mapError_eq_error_iff]
    constructor
    · rintro ⟨fault, h, rfl⟩
      obtain ⟨good, bad, rest, settings, hSegments, hGood, hBad⟩ := parse_eq_error_iff.mp h
      exact ⟨good, bad, rest, settings, fault, hSegments, hGood, hBad, rfl⟩
    · rintro ⟨good, bad, rest, settings, fault, hSegments, hGood, hBad, rfl⟩
      exact ⟨fault, parse_eq_error_iff.mpr ⟨good, bad, rest, settings, hSegments, hGood, hBad⟩, rfl⟩
  · intro t sep config other hSep hs ht
    obtain ⟨settings, hMeans, hOther⟩ := parse_eq_ok_iff.mp ht
    exact ⟨settings, hMeans, hOther, parse_append hSep hs hMeans⟩

theorem parse_language_strict :
    (∀ segment ∈ segmentsOf " boolCoercion = STRICT ;",
        AllBlank segment ∨ ∃ x, Writes segment x) ∧
      (∃ settings, Means (segmentsOf "trimNumericText=false") settings ∧
        ⟨.lenient, false⟩ = default.overriddenBy settings ∧
        parse (" boolCoercion = STRICT ;" ++ String.singleton ';' ++ "trimNumericText=false") =
          .ok (overriddenBy ⟨.strict, true⟩ settings)) ∧
      parse (" boolCoercion = STRICT ;" ++ "&" ++ text ⟨.lenient, true⟩) = .ok ⟨.lenient, true⟩ := by
  obtain ⟨hAccepted, -, -, hAppend, hText⟩ := parse_language " boolCoercion = STRICT ;"
  have hFirst : parse " boolCoercion = STRICT ;" = .ok ⟨.strict, true⟩ := by decide
  have hSecond : parse "trimNumericText=false" = .ok ⟨.lenient, false⟩ := by decide
  refine ⟨hAccepted.mp ⟨_, hFirst⟩, ?_, ?_⟩
  · exact hAppend "trimNumericText=false" ';' ⟨.strict, true⟩ ⟨.lenient, false⟩ (Or.inr rfl) hFirst
      hSecond
  · exact hText ⟨.strict, true⟩ ⟨.lenient, true⟩ hFirst

end ScalarCell.Config
