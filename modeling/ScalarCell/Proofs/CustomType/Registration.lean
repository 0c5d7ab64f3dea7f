import Mathlib.Data.Finset.Card
import ScalarCell.CustomType.Sample
import ScalarCell.CustomType.TypeMap

/-!
# Histories of registrations

A history lists registrations, the first one first. `TypeMap.ofHistory` carries one out on the empty
map. What the map then shows is said of the history alone: `lastHandle?` is the handle that was
registered last under a name, and `firstNames` has the names in the order in which each came first.

* `TypeMap.names_register`, `TypeMap.get?_register` and `TypeMap.getElem?_register_of_ne` say what
  one registration does to the order, to look-ups and to the other entries, on any map.
* `TypeMap.Shows` ties a map to a history. `Shows.register` is the step, and `shows_ofHistory` the
  run.
* `TypeMap.ordered_by_history` has both views of the map, and each registration with its answer.
-/

namespace ScalarCell

variable {τ σ : Type} [Catalog τ]

namespace TypeMap

def names (m : TypeMap τ σ) : List String := m.toList.map Prod.fst

/-! ## One registration -/

theorem names_put (name : String) (h : Handle τ σ) (entries : List (String × Handle τ σ)) :
    (put name h entries).map Prod.fst =
      if name ∈ entries.map Prod.fst then entries.map Prod.fst
      else entries.map Prod.fst ++ [name] := by
  induction entries with
  | nil => rfl
  | cons entry rest ih =>
    unfold put
    by_cases e : entry.1 = name
    · simp [e]
    · rw [if_neg e, List.map_cons, ih, List.map_cons]
      by_cases hMem : name ∈ rest.map Prod.fst
      · rw [if_pos hMem, if_pos (List.mem_cons_of_mem _ hMem)]
      · rw [if_neg hMem, if_neg (List.not_mem_cons_of_ne_of_not_mem (Ne.symm e) hMem),
          List.cons_append]

theorem names_register (m : TypeMap τ σ) (name : String) (h : Handle τ σ) :
    (m.register name h).2.names = if name ∈ m.names then m.names else m.names ++ [name] := by
  rw [register_eq]
  exact names_put name h m.toList

theorem get?_register (m : TypeMap τ σ) (name : String) (h : Handle τ σ) (other : String) :
    (m.register name h).2.get? other = if other = name then some h else m.get? other := by
  rw [register_eq]
  split
  · next e => rw [e, get?_insert_self]
  · next ne => exact get?_insert_of_ne m ne h

theorem getElem?_put_of_ne {name other : String} (ne : other ≠ name) (h : Handle τ σ)
    (entries : List (String × Handle τ σ)) (i : Nat) (g : Handle τ σ) :
    (put name h entries)[i]? = some (other, g) ↔ entries[i]? = some (other, g) := by
  induction entries generalizing i with
  | nil => cases i <;> simp [put, ne.symm]
  | cons entry rest ih =>
    unfold put
    split
    · next e =>
      -- The place of the name itself: neither the old entry nor the new one is that of the other.
      cases i with
      | zero =>
        have hOld : entry ≠ (other, g) := fun same => ne (by rw [← e, same])
        simp [ne.symm, hOld]
      | succ i => rfl
    · cases i with
      | zero => rfl
      | succ i => exact ih i

theorem getElem?_register_of_ne (m : TypeMap τ σ) {name other : String} (ne : other ≠ name)
    (h : Handle τ σ) (i : Nat) (g : Handle τ σ) :
    (m.register name h).2.toList[i]? = some (other, g) ↔ m.toList[i]? = some (other, g) := by
  rw [register_eq]
  exact getElem?_put_of_ne ne h m.toList i g

/-! ## Look-ups and entries -/

theorem contains_iff (m : TypeMap τ σ) (name : String) :
    m.contains name = true ↔ name ∈ m.names := by
  simp [contains, names]

theorem get?_of_mem {m : TypeMap τ σ} (hNodup : m.names.Nodup) {entry : String × Handle τ σ}
    (hMem : entry ∈ m.toList) : m.get? entry.1 = some entry.2 := by
  obtain ⟨earlier, later, hSplit⟩ := List.append_of_mem hMem
  refine List.lookup_eq_some_iff.mpr ⟨earlier, later, hSplit, ?_⟩
  intro p hEarlier
  rw [names, hSplit, List.map_append, List.map_cons, List.nodup_middle, List.nodup_cons] at hNodup
  refine bne_iff_ne.mpr fun same => hNodup.1 ?_
  rw [same]
  exact List.mem_append_left _ (List.mem_map_of_mem hEarlier)

/-! ## Histories -/

def ofHistory (history : List (String × Handle τ σ)) : TypeMap τ σ :=
  history.foldl (fun m r => (m.register r.1 r.2).2) .empty

theorem ofHistory_concat (history : List (String × Handle τ σ)) (name : String)
    (h : Handle τ σ) :
    ofHistory (history ++ [(name, h)]) = ((ofHistory history).register name h).2 :=
  List.foldl_concat _ _ _ _

def lastHandle? (history : List (String × Handle τ σ)) (name : String) : Option (Handle τ σ) :=
  history.reverse.lookup name

theorem lastHandle?_concat (history : List (String × Handle τ σ)) (name : String)
    (h : Handle τ σ) (other : String) :
    lastHandle? (history ++ [(name, h)]) other =
      if other = name then some h else lastHandle? history other := by
  rw [lastHandle?, List.reverse_concat, List.lookup_cons]
  by_cases e : other = name
  · rw [beq_iff_eq.mpr e, if_pos e]
  · rw [beq_eq_false_iff_ne.mpr e, if_neg e, lastHandle?]

def firstNames (history : List (String × Handle τ σ)) : List String :=
  (history.map Prod.fst).eraseDups

theorem mem_firstNames {history : List (String × Handle τ σ)} {name : String} :
    name ∈ firstNames history ↔ ∃ h, (name, h) ∈ history := by
  simp [firstNames]

theorem firstNames_concat (history : List (String × Handle τ σ)) (name : String)
    (h : Handle τ σ) :
    firstNames (history ++ [(name, h)]) =
      if name ∈ firstNames history then firstNames history else firstNames history ++ [name] := by
  rw [firstNames, firstNames, List.map_append, List.eraseDups_append]
  simp only [List.map_cons, List.map_nil, List.removeAll, List.mem_eraseDups]
  split
  · next hOld => simp [hOld]
  · next hNew => simp [hNew, List.eraseDups_cons]

/-- The map shows the history in both of its views. -/
structure Shows (m : TypeMap τ σ) (history : List (String × Handle τ σ)) : Prop where
  names_eq : m.names = firstNames history
  nodup : m.names.Nodup
  get?_eq : ∀ name, m.get? name = lastHandle? history name

theorem Shows.register {m : TypeMap τ σ} {history : List (String × Handle τ σ)}
    (hShows : m.Shows history) (name : String) (h : Handle τ σ) :
    (m.register name h).2.Shows (history ++ [(name, h)]) where
  names_eq := by rw [names_register, firstNames_concat, hShows.names_eq]
  nodup := by
    rw [names_register]
    split
    · exact hShows.nodup
    · next hNew => exact List.nodup_append_comm.mp (List.nodup_cons.mpr ⟨hNew, hShows.nodup⟩)
  get?_eq other := by rw [get?_register, lastHandle?_concat, hShows.get?_eq]

theorem shows_ofHistory (history : List (String × Handle τ σ)) :
    (ofHistory history).Shows history := by
  -- From the end: the registration that stands last is the one that is carried out last.
  induction history using List.reverseRecOn with
  | nil => exact ⟨rfl, List.nodup_nil, fun name => rfl⟩
  | append_singleton earlier last ih =>
    rw [ofHistory_concat]
    exact ih.register last.1 last.2

theorem size_ofHistory (history : List (String × Handle τ σ)) :
    (ofHistory history).size = (history.map Prod.fst).toFinset.card := by
  have hShows := shows_ofHistory history
  have hSame : (ofHistory history).names.toFinset = (history.map Prod.fst).toFinset := by
    ext name
    rw [List.mem_toFinset, List.mem_toFinset, hShows.names_eq, firstNames, List.mem_eraseDups]
  rw [← hSame, List.toFinset_card_of_nodup hShows.nodup, names, List.length_map, size]

theorem isEmpty_ofHistory_iff (history : List (String × Handle τ σ)) :
    (ofHistory history).isEmpty = true ↔ history = [] := by
  rw [isEmpty, List.isEmpty_iff, ← List.length_eq_zero_iff, ← size, size_ofHistory,
    Finset.card_eq_zero, List.toFinset_eq_empty_iff, List.map_eq_nil_iff]

/-- After any registrations on the empty map, a look-up gives the handle that was registered last
under the very same name, and the entries have each registered name once, in the order in which the
names came first, with that handle. One more registration answers with what a look-up has given just
before, and leaves the handles and the places of all other names. -/
theorem ordered_by_history (history : List (String × Handle τ σ)) :
    let m := ofHistory history
    (∀ name, m.get? name = lastHandle? history name ∧
        (m.contains name = true ↔ ∃ h, (name, h) ∈ history)) ∧
      (m.names = firstNames history ∧ m.names.Nodup ∧
        ∀ entry ∈ m.toList, lastHandle? history entry.1 = some entry.2) ∧
      (m.size = (history.map Prod.fst).toFinset.card ∧ (m.isEmpty = true ↔ history = [])) ∧
      ∀ (name : String) (h : Handle τ σ),
        let run := m.register name h
        run.1 = m.get? name ∧ run.2 = ofHistory (history ++ [(name, h)]) ∧
          run.2.names = (if name ∈ m.names then m.names else m.names ++ [name]) ∧
          ∀ other, other ≠ name → run.2.get? other = m.get? other ∧
            ∀ (i : Nat) (g : Handle τ σ),
              run.2.toList[i]? = some (other, g) ↔ m.toList[i]? = some (other, g) := by
  intro m
  have hShows : m.Shows history := shows_ofHistory history
  refine ⟨?_, ⟨hShows.names_eq, hShows.nodup, ?_⟩,
    ⟨size_ofHistory history, isEmpty_ofHistory_iff history⟩, ?_⟩
  · intro name
    refine ⟨hShows.get?_eq name, ?_⟩
    rw [contains_iff, hShows.names_eq, mem_firstNames]
  · intro entry hMem
    rw [← hShows.get?_eq]
    exact get?_of_mem hShows.nodup hMem
  · intro name h run
    refine ⟨?_, (ofHistory_concat history name h).symm, names_register m name h, ?_⟩
    · simp only [run, register_eq]
    · intro other ne
      refine ⟨?_, getElem?_register_of_ne m ne h⟩
      simp only [run, get?_register, if_neg ne]

/-- A name is registered again, and a third time. -/
theorem ordered_by_history_of_replaced :
    let email : Handle Sample Nat := .ofDefault .email ""
    let port : Handle Sample Nat := .ofDefault .number (Integer.zero .int)
    let pair : Handle Sample Nat := .structured "app::Pair"
    let m := ofHistory [("public.email", email), ("\"Port\"", port), ("public.email", pair)]
    let run := m.register "public.email" email
    ("public.email", pair) ∈ m.toList ∧ "\"Port\"" ≠ "public.email" ∧
      m.get? "public.email" = some pair ∧ m.get? "email" = none ∧ m.get? "\"port\"" = none ∧
      m.names = ["public.email", "\"Port\""] ∧ m.size = 2 ∧ m.isEmpty = false ∧
      run.1 = some pair ∧ run.2.names = m.names ∧ run.2.get? "\"Port\"" = some port ∧
      run.2.toList[1]? = some ("\"Port\"", port) := by
  intro email port pair m run
  obtain ⟨hLook, ⟨hNames, -, hPaired⟩, ⟨hSize, hEmpty⟩, hNext⟩ := ordered_by_history
    [("public.email", email), ("\"Port\"", port), ("public.email", pair)]
  obtain ⟨hReplaced, -, hOrder, hOthers⟩ := hNext "public.email" email
  have hMem : ("public.email", pair) ∈ m.toList := List.mem_cons_self
  have ne : "\"Port\"" ≠ "public.email" := by decide
  obtain ⟨hKept, hPlace⟩ := hOthers "\"Port\"" ne
  have hPair : m.get? "public.email" = some pair := (hLook _).1.trans (hPaired _ hMem)
  refine ⟨hMem, ne, hPair, (hLook "email").1, (hLook "\"port\"").1, hNames, hSize, ?_,
    hReplaced.trans hPair, hOrder, hKept, (hPlace 1 port).mpr rfl⟩
  exact Bool.eq_false_iff.mpr (mt hEmpty.mp (List.cons_ne_nil _ _))

end TypeMap

end ScalarCell
