import Mathlib.Algebra.Order.Ring.Nat
import Mathlib.Data.List.Sort
import Mathlib.Data.List.Nodup
import Mathlib.Data.Finset.Card

/-!
# Ordered maps

What bounded tables need of `Std.ExtTreeMap`: what one insertion does to a sum
over the values (`sumValues_insert`) and to the size (`size_insert_le`), and a bound
on the size by where the keys lie (`size_le_card`).
-/

namespace Base

open Std

variable {κ β : Type*} {cmp : κ → κ → Ordering} [TransCmp cmp] [LawfulEqCmp cmp]
  {t : ExtTreeMap κ β cmp} {k : κ} {v : β}

theorem toList_nodup : t.toList.Nodup := by
  refine ExtTreeMap.distinct_keys_toList.imp ?_
  rintro a b ne rfl
  exact ne ReflCmp.compare_self

/-- A binding taken out of the listing leaves the map without its key. -/
theorem toList_perm_cons (h : t[k]? = some v) : t.toList.Perm ((k, v) :: (t.erase k).toList) := by
  have fresh : (k, v) ∉ (t.erase k).toList := by
    simp [ExtTreeMap.mem_toList_iff_getElem?_eq_some]
  refine (List.perm_ext_iff_of_nodup toList_nodup (List.nodup_cons.2 ⟨fresh, toList_nodup⟩)).2 ?_
  rintro ⟨k', v'⟩
  rw [List.mem_cons, ExtTreeMap.mem_toList_iff_getElem?_eq_some,
    ExtTreeMap.mem_toList_iff_getElem?_eq_some, ExtTreeMap.getElem?_erase]
  by_cases eq : k' = k
  · subst eq
    rw [if_pos ReflCmp.compare_self, h]
    simp [eq_comm]
  · have ne : cmp k k' ≠ .eq := fun c => eq (LawfulEqCmp.eq_of_compare c).symm
    rw [if_neg ne]
    simp [eq]

theorem erase_eq_self (h : t[k]? = none) : t.erase k = t := by
  refine ExtTreeMap.ext_getElem? fun {k'} => ?_
  rw [ExtTreeMap.getElem?_erase]
  split
  · rename_i eq
    rw [← LawfulEqCmp.eq_of_compare eq, h]
  · rfl

theorem erase_insert : (t.insert k v).erase k = t.erase k := by
  refine ExtTreeMap.ext_getElem? fun {k'} => ?_
  rw [ExtTreeMap.getElem?_erase, ExtTreeMap.getElem?_erase, ExtTreeMap.getElem?_insert]
  split <;> rfl

/-- The sum of `f` over the values of a map. -/
def sumValues (f : β → Nat) (t : ExtTreeMap κ β cmp) : Nat := (t.toList.map fun p => f p.2).sum

theorem sumValues_erase (f : β → Nat) (k : κ) : sumValues f t = sumValues f (t.erase k) + (t[k]?.map f).getD 0 := by
  cases h : t[k]? with
  | none => simp [erase_eq_self h]
  | some v =>
    unfold sumValues
    rw [((toList_perm_cons h).map _).sum_nat]
    simp [Nat.add_comm]

/-- Inserting replaces the old value's summand by the new one's. -/
theorem sumValues_insert (f : β → Nat) (k : κ) (v : β) :
    sumValues f (t.insert k v) + (t[k]?.map f).getD 0 = sumValues f t + f v := by
  rw [sumValues_erase f k, erase_insert, sumValues_erase (t := t) f k,
    ExtTreeMap.getElem?_insert_self]
  simp only [Option.map_some, Option.getD_some]
  omega

omit [LawfulEqCmp cmp] in
theorem size_insert_le (k : κ) (v : β) : (t.insert k v).size ≤ t.size + 1 := by
  rw [ExtTreeMap.size_insert]
  split <;> omega

/-- A map is no larger than a set its keys lie in. -/
theorem size_le_card [DecidableEq κ] {s : Finset κ} (inside : ∀ {k v}, t[k]? = some v → k ∈ s) : t.size ≤ s.card := by
  have keys : t.toList.map Prod.fst ⊆ s.toList := by
    intro k mem
    obtain ⟨⟨k', v⟩, listed, rfl⟩ := List.mem_map.1 mem
    exact Finset.mem_toList.2 (inside (ExtTreeMap.mem_toList_iff_getElem?_eq_some.1 listed))
  have distinct : (t.toList.map Prod.fst).Nodup := by
    refine List.Pairwise.map _ ?_ (ExtTreeMap.distinct_keys_toList (t := t))
    intro a b ne same
    rw [same] at ne
    exact ne ReflCmp.compare_self
  have le := (List.subperm_of_subset distinct keys).length_le
  rwa [List.length_map, ExtTreeMap.length_toList, Finset.length_toList] at le

/-- A map is its listing inserted key by key. -/
theorem foldl_insert_toList (t : ExtTreeMap κ β cmp) : t.toList.foldl (fun m p => m.insert p.1 p.2) ∅ = t := by
  have listed : ExtTreeMap.ofList t.toList cmp = t.toList.foldl (fun m p => m.insert p.1 p.2) ∅ := ExtTreeMap.ofList_eq_foldl
  rw [← listed]
  refine ExtTreeMap.ext_getElem? fun {k} => ?_
  cases get : t[k]? with
  | none =>
    let _ : BEq κ := ⟨fun a b => cmp a b == .eq⟩
    have _ : LawfulBEqCmp cmp := ⟨fun {a b} => (beq_iff_eq (a := cmp a b) (b := .eq)).symm⟩
    refine ExtTreeMap.getElem?_ofList_of_contains_eq_false ?_
    rw [← Bool.not_eq_true, List.contains_iff_exists_mem_beq]
    rintro ⟨k', mem, same⟩
    obtain ⟨⟨k', v⟩, listed, rfl⟩ := List.mem_map.1 mem
    have equal : cmp k k' = .eq := beq_iff_eq.1 same
    obtain rfl := LawfulEqCmp.eq_of_compare equal
    rw [ExtTreeMap.mem_toList_iff_getElem?_eq_some.1 listed] at get
    cases get
  | some v =>
    have mem := ExtTreeMap.mem_toList_iff_getElem?_eq_some.2 get
    exact ExtTreeMap.getElem?_ofList_of_mem ReflCmp.compare_self ExtTreeMap.distinct_keys_toList mem

end Base
