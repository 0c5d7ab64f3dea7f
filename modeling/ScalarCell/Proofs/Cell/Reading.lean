import ScalarCell.Cell

/-!
# Reading a cell

A cell that is not NULL reads as its value does, in every kind: the same successes
(`get_eq_present_iff`) and the same failures (`get_eq_error_iff`). NULL reads as the default of the
kind (`get_of_isNull`, `Kind.isDefault_default`). No reading hides a NULL or makes one up
(`isNull_of_get`).
-/

namespace ScalarCell

/-- The default of a kind, by what it is made of. -/
def Kind.IsDefault : (k : Kind) → k.Carrier → Prop
  | string, (s : String) => s = ""
  | boolean, (b : Bool) => b = false
  | integral _, n => n.val = 0
  | float, (x : Binary.Single) => x.toBits = 0
  | double, (x : Binary.Double) => x.toBits = 0
  | decimal, (d : Decimal) => d.negative = false ∧ d.mantissa = 0 ∧ d.scale = 0
  | object, (v : Option Scalar) => v = none

theorem Kind.isDefault_default (k : Kind) : k.IsDefault k.default := by
  cases k with
  | float => exact (by decide : (Binary.zero .single false).toBits = 0)
  | double => exact (by decide : (Binary.zero .double false).toBits = 0)
  | decimal => exact ⟨rfl, rfl, rfl⟩
  | _ => rfl

theorem map_eq_error_iff {α β : Type} {f : α → β} {outcome : Except Error α} {e : Error} :
    outcome.map f = .error e ↔ outcome = .error e := by
  cases outcome with
  | error raised => rw [Except.map, Except.error.injEq, Except.error.injEq]
  | ok a => exact iff_of_false nofun nofun

namespace Cell

section

variable {o : Oid} {v : Scalar} {config : Config} {k : Kind}

theorem get_some : (⟨o, some v, config⟩ : Cell).get k = (v.get config k).map .present := rfl

theorem get_congr {o' : Oid} {v' : Scalar} {config' : Config}
    (h : v.get config k = v'.get config' k) :
    (⟨o, some v, config⟩ : Cell).get k = (⟨o', some v', config'⟩ : Cell).get k :=
  congrArg (Except.map Nullable.present) h

theorem get_eq_present_iff {a : k.Carrier} :
    (⟨o, some v, config⟩ : Cell).get k = .ok (.present a) ↔ v.get config k = .ok a := by
  rw [get_some]
  cases v.get config k with
  | error e => exact iff_of_false nofun nofun
  | ok b =>
    rw [Except.map, Except.ok.injEq, Except.ok.injEq]
    exact ⟨congrArg Nullable.value, congrArg Nullable.present⟩

theorem exists_of_get_eq_ok {r : Nullable k.Carrier}
    (h : (⟨o, some v, config⟩ : Cell).get k = .ok r) :
    ∃ a, r = .present a ∧ v.get config k = .ok a := by
  rw [get_some] at h
  cases hValue : v.get config k with
  | error e =>
    rw [hValue] at h
    cases h
  | ok a =>
    rw [hValue] at h
    exact ⟨a, (Except.ok.inj h).symm, rfl⟩

theorem get_eq_error_iff {e : Error} :
    (⟨o, some v, config⟩ : Cell).get k = .error e ↔ v.get config k = .error e :=
  map_eq_error_iff

end

variable {c : Cell}

theorem get_of_isNull (h : c.isNull = true) (k : Kind) : c.get k = .ok k.null := by
  have hValue : c.value = none := Option.isNone_iff_eq_none.mp h
  rw [get, hValue]

theorem isNull_of_get {k : Kind} {r : Nullable k.Carrier} (h : c.get k = .ok r) :
    r.isNull = c.isNull := by
  obtain ⟨o, value, config⟩ := c
  cases value with
  | none =>
    cases h
    rfl
  | some v =>
    obtain ⟨a, rfl, -⟩ := exists_of_get_eq_ok h
    rfl

end Cell

end ScalarCell
