import Mathlib.Data.List.Nodup
import LowThrust.Proofs.Json.RoundTrip
import LowThrust.Tensor

/-!
Objects with named members and arrays of numbers, as they come back from a text.
-/

namespace LowThrust.Json

variable {α : Type}

theorem lookup_of_mem {members : List (List Nat × Json α)} (h : (members.map Prod.fst).Nodup)
    {name : String} {j : Json α} (mem : (codePoints name, j) ∈ members) :
    lookup members name = some j := by
  induction members with
  | nil => cases mem
  | cons m members ih =>
    obtain ⟨key, value⟩ := m
    rw [List.map_cons, List.nodup_cons] at h
    rw [List.mem_cons] at mem
    by_cases eq : key = codePoints name
    · obtain mem | mem := mem
      · cases mem
        simp [lookup]
      · exact absurd (List.mem_map_of_mem (f := Prod.fst) mem) (eq ▸ h.1)
    · obtain mem | mem := mem
      · exact absurd (congrArg Prod.fst mem).symm eq
      · simp only [lookup, List.find?_cons, eq, decide_false]
        exact ih h.2 mem

theorem codePoints_injective : Function.Injective codePoints := by
  intro s t h
  refine String.toList_inj.mp (List.map_injective_iff.mpr ?_ h)
  intro c d eq
  exact Char.toNat_inj.mp eq

theorem nodup_codePoints {members : List (String × Json α)} (h : (members.map Prod.fst).Nodup) :
    (members.map fun m => codePoints m.1).Nodup := by
  have keys : members.map (fun m => codePoints m.1) = (members.map Prod.fst).map codePoints := by
    rw [List.map_map]
    rfl
  rw [keys]
  exact h.map codePoints_injective

theorem arranged_object (st : Style) (members : List (String × Json α)) :
    (object members).arranged st =
      obj (st.order (members.map fun m => (codePoints m.1, m.2.arranged st))) := by
  rw [object, arranged_obj, ← Style.order_map, List.map_map]
  rfl

/-- Members are found in any order. -/
theorem lookup_arranged {st : Style} {members : List (String × Json α)}
    (h : (members.map Prod.fst).Nodup) {name : String} {j : Json α} (mem : (name, j) ∈ members) :
    lookup (st.order (members.map fun m => (codePoints m.1, m.2.arranged st))) name =
      some (j.arranged st) := by
  have perm := st.order_perm (members.map fun m => (codePoints m.1, m.2.arranged st))
  refine lookup_of_mem ?_ ?_
  · rw [(perm.map Prod.fst).nodup_iff, List.map_map]
    exact nodup_codePoints h
  · rw [perm.mem_iff, List.mem_map]
    exact ⟨(name, j), mem, rfl⟩

theorem arranged_reals (st : Style) (xs : List α) :
    (arr (xs.map real)).arranged st = arr (xs.map real) := by
  rw [arranged, arrangedItems_eq_map, List.map_map]
  rfl

theorem readable_object {members : List (String × Json α)}
    (plain : ∀ name ∈ members.map Prod.fst, IsPlain (codePoints name))
    (distinct : (members.map Prod.fst).Nodup)
    (readable : ∀ m ∈ members, m.2.Readable) : (object members).Readable := by
  refine .obj _ ?_ ?_ ?_
  · rintro _ hm
    obtain ⟨m, mem, rfl⟩ := List.mem_map.mp hm
    exact plain m.1 (List.mem_map_of_mem mem)
  · rw [List.map_map]
    exact nodup_codePoints distinct
  · rintro _ hm
    obtain ⟨m, mem, rfl⟩ := List.mem_map.mp hm
    exact readable m mem

theorem readable_reals (xs : List α) : (arr (xs.map real)).Readable := by
  refine .arr _ ?_
  intro j hj
  obtain ⟨x, -, rfl⟩ := List.mem_map.mp hj
  exact .real x

variable [Scalar α] [DecimalText α]

theorem toTensor_reals (xs : List α) : (arr (xs.map real)).toTensor = .ok ⟨[xs.length], xs⟩ := by
  have shape : rowShape? (xs.map real) = some [] := by
    induction xs with
    | nil => rfl
    | cons x xs ih =>
      cases xs with
      | nil => rfl
      | cons y xs =>
        rw [List.map_cons, List.map_cons, rowShape?, ← List.map_cons, ih]
        · rfl
        · simp
  have values : itemEntries (xs.map real) = .ok xs := by
    clear shape
    induction xs with
    | nil => rfl
    | cons x xs ih =>
      rw [List.map_cons, itemEntries, ih]
      rfl
  rw [toTensor, shape?, shape, entries, values, Option.map_some, List.length_map]
  rfl

end LowThrust.Json
