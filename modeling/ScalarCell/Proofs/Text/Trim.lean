import Mathlib.Data.List.TakeWhile
import ScalarCell.Proofs.Text.Blank
import ScalarCell.Text.Segments

/-!
# Trimming and cutting

`Trimmed cs core` says that `core` is `cs` without the blanks at its two ends.

* `trim_ofList_eq_iff`: there is exactly one such text, and `trim` finds it.
* `segments_eq_splitOnP`: the segments of a text are those of the standard library.
* `cutAt?_eq_some_iff` and `cutAt?_eq_none_iff`: a cut is made at the first occurrence, if there is
  one. `cutAt?_of_trimmed`: it is made in the same place whether or not the text is trimmed before.
-/

namespace ScalarCell.Text

/-! ## Trimming -/

def AllBlank (cs : List Char) : Prop := ∀ c ∈ cs, isBlank c = true

theorem AllBlank.append {s t : List Char} (hs : AllBlank s) (ht : AllBlank t) :
    AllBlank (s ++ t) := by
  intro c hc
  exact (List.mem_append.mp hc).elim (hs c) (ht c)

theorem AllBlank.reverse {cs : List Char} (h : AllBlank cs) : AllBlank cs.reverse := by
  intro c hc
  exact h c (List.mem_reverse.mp hc)

/-- `core` without a blank at either end, and nothing but blanks around it. -/
structure Trimmed (cs core : List Char) : Prop where
  around : ∃ before after, AllBlank before ∧ AllBlank after ∧ cs = before ++ (core ++ after)
  first : ∀ c ∈ core.head?, isBlank c = false
  last : ∀ c ∈ core.getLast?, isBlank c = false

theorem isBlank_head_dropWhile (cs : List Char) :
    ∀ c ∈ (cs.dropWhile isBlank).head?, isBlank c = false := by
  intro c hc
  have hHead := List.head?_dropWhile_not isBlank cs
  rw [Option.mem_def.mp hc] at hHead
  exact hHead

theorem allBlank_takeWhile (cs : List Char) : AllBlank (cs.takeWhile isBlank) :=
  fun _ => List.mem_takeWhile_imp

theorem exists_trimRight (cs : List Char) : ∃ after, AllBlank after ∧ cs = trimRight cs ++ after := by
  refine ⟨(cs.reverse.takeWhile isBlank).reverse, (allBlank_takeWhile cs.reverse).reverse, ?_⟩
  rw [trimRight, ← List.reverse_append, List.takeWhile_append_dropWhile, List.reverse_reverse]

theorem trimmed_trim (cs : List Char) : Trimmed cs (trimRight (trimLeft cs)) := by
  obtain ⟨after, hAfter, hRight⟩ := exists_trimRight (trimLeft cs)
  refine ⟨⟨cs.takeWhile isBlank, after, allBlank_takeWhile cs, hAfter, ?_⟩, ?_, ?_⟩
  · rw [← hRight, trimLeft, List.takeWhile_append_dropWhile]
  · intro c hc
    apply isBlank_head_dropWhile cs
    have hStart : cs.dropWhile isBlank = trimRight (trimLeft cs) ++ after := hRight
    rw [hStart, List.head?_append, Option.mem_def.mp hc]
    rfl
  · intro c hc
    apply isBlank_head_dropWhile (trimLeft cs).reverse
    rwa [trimRight, List.getLast?_reverse] at hc

theorem trimLeft_append {before : List Char} (h : AllBlank before) (cs : List Char) :
    trimLeft (before ++ cs) = trimLeft cs := List.dropWhile_append_of_pos h

theorem trimRight_append {after : List Char} (h : AllBlank after) (cs : List Char) :
    trimRight (cs ++ after) = trimRight cs := by
  rw [trimRight, List.reverse_append, List.dropWhile_append_of_pos h.reverse]
  rfl

theorem Trimmed.trim_eq {cs core : List Char} (h : Trimmed cs core) :
    trimRight (trimLeft cs) = core := by
  obtain ⟨⟨before, after, hBefore, hAfter, rfl⟩, hFirst, hLast⟩ := h
  rw [trimLeft_append hBefore]
  cases core with
  | nil =>
    have hNothing : trimLeft after = [] := List.dropWhile_eq_nil_iff.mpr hAfter
    rw [List.nil_append, hNothing]
    rfl
  | cons c rest =>
    have hStart : trimLeft (c :: rest ++ after) = c :: rest ++ after := trimLeft_eq_self hFirst
    rw [hStart, trimRight_append hAfter, trimRight_eq_self hLast]

/-- Trimming finds the one text that is left without the blanks at the ends. -/
theorem trim_ofList_eq_iff {cs core : List Char} :
    (trim (String.ofList cs)).toList = core ↔ Trimmed cs core := by
  rw [trim_toList, String.toList_ofList]
  constructor
  · rintro rfl
    exact trimmed_trim cs
  · intro h
    exact h.trim_eq

theorem Trimmed.pad {before after cs core : List Char} (hBefore : AllBlank before)
    (hAfter : AllBlank after) (h : Trimmed cs core) : Trimmed (before ++ (cs ++ after)) core := by
  obtain ⟨⟨inner, outer, hInner, hOuter, rfl⟩, hFirst, hLast⟩ := h
  refine ⟨⟨before ++ inner, outer ++ after, hBefore.append hInner, hOuter.append hAfter, ?_⟩,
    hFirst, hLast⟩
  simp only [List.append_assoc]

theorem Trimmed.of_pad {before after cs core : List Char} (hBefore : AllBlank before)
    (hAfter : AllBlank after) (h : Trimmed (before ++ (cs ++ after)) core) : Trimmed cs core := by
  have hCore := ((trimmed_trim cs).pad hBefore hAfter).trim_eq
  rw [h.trim_eq] at hCore
  rw [hCore]
  exact trimmed_trim cs

theorem trimmed_self {cs : List Char} (h : cs.any isBlank = false) : Trimmed cs cs :=
  ⟨⟨[], [], List.forall_mem_nil _, List.forall_mem_nil _, (List.append_nil cs).symm⟩,
    fun _ hc => isBlank_of_any cs h (List.mem_of_mem_head? hc),
    fun _ hc => isBlank_of_any cs h (List.mem_of_mem_getLast? hc)⟩

theorem trimmed_nil_iff {cs : List Char} : Trimmed cs [] ↔ AllBlank cs := by
  constructor
  · rintro ⟨⟨before, after, hBefore, hAfter, rfl⟩, -, -⟩
    exact hBefore.append hAfter
  · intro h
    exact ⟨⟨cs, [], h, List.forall_mem_nil _, (List.append_nil cs).symm⟩, nofun, nofun⟩

/-! ## Cutting -/

theorem segments_eq_splitOnP (p : Char → Bool) (cs : List Char) :
    segments p cs = cs.splitOnP p := by
  induction cs with
  | nil => rw [segments, List.splitOnP_nil]
  | cons c cs ih =>
    rw [segments, List.splitOnP_cons_eq_if_modifyHead, ← ih]
    split
    · rfl
    · cases hSegments : segments p cs with
      | nil => exact absurd hSegments (segments_ne_nil p cs)
      | cons s rest => rfl

variable {c : Char} {cs : List Char}

theorem cutAt?_eq_none_iff : cutAt? c cs = none ↔ c ∉ cs := by
  have hNone : cutAt? c cs = none ↔ cs.dropWhile (· != c) = [] := by
    unfold cutAt?
    split
    · next h => simp only [h]
    · next h => simp only [h, reduceCtorEq]
  rw [hNone, List.dropWhile_eq_nil_iff]
  constructor
  · intro h hMem
    exact bne_iff_ne.mp (h c hMem) rfl
  · intro h d hMem
    refine bne_iff_ne.mpr ?_
    rintro rfl
    exact h hMem

theorem cutAt?_append {key : List Char} (hKey : c ∉ key) (value : List Char) :
    cutAt? c (key ++ c :: value) = some (key, value) := by
  have hPass : ∀ d ∈ key, (d != c) = true := by
    intro d hMem
    refine bne_iff_ne.mpr ?_
    rintro rfl
    exact hKey hMem
  rw [cutAt?, List.dropWhile_append_of_pos hPass, List.takeWhile_append_of_pos hPass]
  simp

/-- A cut is made at the first occurrence. -/
theorem cutAt?_eq_some_iff {key value : List Char} :
    cutAt? c cs = some (key, value) ↔ cs = key ++ c :: value ∧ c ∉ key := by
  constructor
  · intro h
    have hMem : c ∈ cs := by
      by_contra hNot
      rw [cutAt?_eq_none_iff.mpr hNot] at h
      cases h
    obtain ⟨first, rest, rfl, hFirst⟩ := List.eq_append_cons_of_mem hMem
    rw [cutAt?_append hFirst] at h
    cases h
    exact ⟨rfl, hFirst⟩
  · rintro ⟨rfl, hKey⟩
    exact cutAt?_append hKey value

/-- Trimming before a cut only takes blanks off the two parts. -/
theorem cutAt?_of_trimmed {core key value : List Char} (hc : isBlank c = false)
    (hTrimmed : Trimmed cs core) (h : cutAt? c cs = some (key, value)) :
    ∃ before after k v, AllBlank before ∧ AllBlank after ∧ key = before ++ k ∧
      value = v ++ after ∧ cutAt? c core = some (k, v) := by
  obtain ⟨⟨before, after, hBefore, hAfter, rfl⟩, -, -⟩ := hTrimmed
  have hNoBefore : c ∉ before := by
    intro hMem
    rw [hBefore c hMem] at hc
    cases hc
  have hNoAfter : c ∉ after := by
    intro hMem
    rw [hAfter c hMem] at hc
    cases hc
  cases hCut : cutAt? c core with
  | none =>
    have hNowhere : c ∉ before ++ (core ++ after) := by
      simp only [List.mem_append, not_or]
      exact ⟨hNoBefore, cutAt?_eq_none_iff.mp hCut, hNoAfter⟩
    rw [cutAt?_eq_none_iff.mpr hNowhere] at h
    cases h
  | some parts =>
    obtain ⟨k, v⟩ := parts
    obtain ⟨rfl, hk⟩ := cutAt?_eq_some_iff.mp hCut
    have hKey : c ∉ before ++ k := by
      simp only [List.mem_append, not_or]
      exact ⟨hNoBefore, hk⟩
    have hWhole : before ++ (k ++ c :: v ++ after) = (before ++ k) ++ c :: (v ++ after) := by
      simp only [List.append_assoc, List.cons_append]
    rw [hWhole, cutAt?_append hKey] at h
    cases h
    exact ⟨before, after, k, v, hBefore, hAfter, rfl, rfl, rfl⟩

end ScalarCell.Text
