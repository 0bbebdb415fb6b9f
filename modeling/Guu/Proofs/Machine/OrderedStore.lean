import Guu.Machine.Store
import Mathlib.Data.String.Basic

/-!
# Stores in order

The entries of a store stand in the strict order of their names, and setting a
variable keeps them so.  Therefore every name stands there once, and a store is
determined by the values that are found in it.
-/

namespace Guu.Store

variable {entries others : List (String × Int64)} {name : String} {value : Int64}

def codePoints (name : String) : List Nat :=
  name.toList.map Char.toNat

/-- Names are ordered as the rows of their code points are. -/
theorem codePoints_lt {left right : String} (less : left < right) :
    codePoints left < codePoints right :=
  List.map_lt (fun _ _ smaller => smaller) (String.lt_iff_toList_lt.mp less)

def Ordered (entries : List (String × Int64)) : Prop :=
  entries.Pairwise fun left right => left.1 < right.1

/-- Putting a value among entries adds no name but its own. -/
theorem mem_of_mem_put {entry : String × Int64} (member : entry ∈ put name value entries) :
    entry.1 = name ∨ entry ∈ entries := by
  induction entries with
  | nil => simp_all [put]
  | cons first rest ih =>
      rw [put] at member
      split at member
      · rcases List.mem_cons.mp member with rfl | behind
        · exact .inl rfl
        · exact .inr behind
      · split at member
        · rcases List.mem_cons.mp member with rfl | behind
          · exact .inl rfl
          · exact .inr (List.mem_cons_of_mem _ behind)
        · rcases List.mem_cons.mp member with rfl | behind
          · exact .inr List.mem_cons_self
          · exact (ih behind).imp_right (List.mem_cons_of_mem _)

theorem Ordered.put (ordered : Ordered entries) (name : String) (value : Int64) :
    Ordered (put name value entries) := by
  induction entries with
  | nil => exact List.pairwise_singleton _ _
  | cons first rest ih =>
      obtain ⟨behind, others⟩ := List.pairwise_cons.mp ordered
      rw [Store.put]
      split
      · rename_i before
        refine List.pairwise_cons.mpr ⟨fun entry member => ?_, ordered⟩
        rcases List.mem_cons.mp member with rfl | later
        · exact before
        · exact String.lt_trans before (behind entry later)
      · rename_i notBefore
        split
        · rename_i same
          subst same
          exact List.pairwise_cons.mpr ⟨behind, others⟩
        · rename_i different
          refine List.pairwise_cons.mpr ⟨fun entry member => ?_, ih others⟩
          rcases mem_of_mem_put member with same | later
          · rw [same]
            exact lt_of_le_of_ne (String.not_lt.mp notBefore) (Ne.symm different)
          · exact behind entry later

/-- Among ordered entries, those of a name are what is found under it. -/
theorem Ordered.mem_iff (ordered : Ordered entries) :
    (name, value) ∈ entries ↔ entries.lookup name = some value := by
  induction entries with
  | nil => simp
  | cons first rest ih =>
      obtain ⟨other, held⟩ := first
      obtain ⟨behind, others⟩ := List.pairwise_cons.mp ordered
      rw [List.mem_cons, ih others, Prod.mk.injEq]
      by_cases same : name = other
      · subst same
        have once : rest.lookup name ≠ some value := fun found =>
          String.lt_irrefl name (behind (name, value) ((ih others).mpr found))
        simp [once, eq_comm]
      · simp [List.lookup_cons, beq_eq_false_iff_ne.mpr same, same]

/-- Ordered entries in which the same is found are the same. -/
theorem Ordered.eq_of_lookup (ordered : Ordered entries) (orderedToo : Ordered others)
    (same : ∀ name, entries.lookup name = others.lookup name) : entries = others := by
  have distinct {row : List (String × Int64)} (increasing : Ordered row) : row.Nodup := by
    refine increasing.imp fun less equal => ?_
    rw [equal] at less
    exact String.lt_irrefl _ less
  have perm : entries.Perm others := by
    refine (List.perm_ext_iff_of_nodup (distinct ordered) (distinct orderedToo)).mpr ?_
    rintro ⟨name, value⟩
    rw [ordered.mem_iff, orderedToo.mem_iff, same]
  exact perm.eq_of_pairwise
    (fun _ _ _ _ less greater => absurd greater (String.lt_asymm less)) ordered orderedToo

end Guu.Store
