import Osl.Base.TreeMap

/-!
# Maps of maps

A table in two levels of keys, with no empty inner map kept: what a lookup finds after
an insertion (`find_insertAt`) and after dropping the values a predicate refuses
(`find_retain`).
-/

namespace Base

open Std

variable {κ ι β : Type} [Ord κ] [Ord ι]

abbrev Nested (κ ι β : Type) [Ord κ] [Ord ι] := ExtTreeMap κ (ExtTreeMap ι β)

namespace Nested

variable [TransOrd κ] [TransOrd ι]

def find (t : Nested κ ι β) (k : κ) (i : ι) : Option β := t[k]?.bind (·[i]?)

/-- `t.entry(k).or_default().insert(i, v)`. -/
def insertAt (t : Nested κ ι β) (k : κ) (i : ι) (v : β) : Nested κ ι β := t.insert k ((t[k]?.getD ∅).insert i v)

def retain (keep : β → Bool) (t : Nested κ ι β) : Nested κ ι β :=
  t.filterMap fun _ inner => if (inner.filter fun _ v => keep v).isEmpty then none else some (inner.filter fun _ v => keep v)

/-- All values, in the order of the keys. -/
def values (t : Nested κ ι β) : List β := t.toList.flatMap fun entry => entry.2.toList.map Prod.snd

variable [LawfulEqOrd κ] [LawfulEqOrd ι] {t : Nested κ ι β}

theorem find_insertAt [DecidableEq κ] [DecidableEq ι] (k k' : κ) (i i' : ι) (v : β) :
    find (insertAt t k i v) k' i' = if k' = k ∧ i' = i then some v else find t k' i' := by
  unfold find insertAt
  rw [ExtTreeMap.getElem?_insert]
  simp only [Std.compare_eq_iff_eq]
  by_cases outer : k' = k
  · subst outer
    rw [if_pos rfl, Option.bind_some, ExtTreeMap.getElem?_insert]
    simp only [Std.compare_eq_iff_eq, true_and]
    by_cases inner : i' = i
    · rw [if_pos inner.symm, if_pos inner]
    · rw [if_neg (Ne.symm inner), if_neg inner]
      cases t[k']? with
      | none => simp
      | some m => rfl
  · rw [if_neg (Ne.symm outer), if_neg fun same => outer same.1]

theorem find_retain (keep : β → Bool) (k : κ) (i : ι) : find (retain keep t) k i = (find t k i).filter keep := by
  unfold find retain
  rw [ExtTreeMap.getElem?_filterMap']
  cases t[k]? with
  | none => rfl
  | some inner =>
    rw [Option.bind_some, Option.bind_some]
    have looked : (inner.filter fun _ v => keep v)[i]? = inner[i]?.filter keep := ExtTreeMap.getElem?_filter'
    split
    case isTrue empty =>
      rw [Option.bind_none, ← looked, ExtTreeMap.isEmpty_iff.1 empty, ExtTreeMap.getElem?_empty]
    case isFalse => rw [Option.bind_some, looked]

theorem mem_values {v : β} : v ∈ t.values ↔ ∃ k i, find t k i = some v := by
  unfold values find
  simp only [List.mem_flatMap, List.mem_map, Prod.exists, ExtTreeMap.mem_toList_iff_getElem?_eq_some, Option.bind_eq_some_iff,
    exists_eq_right]
  constructor
  · rintro ⟨k, inner, outer, i, there⟩
    exact ⟨k, i, inner, outer, there⟩
  · rintro ⟨k, i, inner, outer, there⟩
    exact ⟨k, inner, outer, i, there⟩

end Nested

end Base
