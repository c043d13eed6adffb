import Mathlib.Algebra.Order.Ring.Nat
import Mathlib.Data.List.Sort
import Mathlib.Logic.Equiv.List

/-!
# Keyed tables

A table is a list of rows with distinct primary keys. `put` is an insert that
replaces the row of the same key, `update` and `delete` are the statements of
that name with a `WHERE`, `orderBy` is `ORDER BY`. Each is characterised by the
rows it leaves; nothing else about the list is used.
-/

namespace Base

structure Table {κ ρ : Type} (key : ρ → κ) where
  rows : List ρ
  distinct : (rows.map key).Nodup

namespace Table

variable {κ ρ : Type} {key : ρ → κ} {t : Table key} {r r' : ρ} {p : ρ → Bool}

instance : Membership ρ (Table key) := ⟨fun t r => r ∈ t.rows⟩

instance [Encodable ρ] [DecidableEq κ] : Encodable (Table key) :=
  Encodable.ofLeftInjection rows (fun rows => if h : (rows.map key).Nodup then some ⟨rows, h⟩ else none)
    fun t => dif_pos t.distinct

theorem mem_rows : r ∈ t.rows ↔ r ∈ t := Iff.rfl

def empty : Table key := ⟨[], by simp⟩

@[simp] theorem not_mem_empty (r : ρ) : r ∉ (empty : Table key) := by
  intro mem
  cases mem

theorem nodup (t : Table key) : t.rows.Nodup := t.distinct.of_map key

/-- The primary key. -/
theorem eq_of_key (mem : r ∈ t) (mem' : r' ∈ t) (same : key r = key r') : r = r' :=
  List.inj_on_of_nodup_map t.distinct mem mem' same

def update (t : Table key) (p : ρ → Bool) (f : ρ → ρ) (same : ∀ r, key (f r) = key r) : Table key where
  rows := t.rows.map fun r => if p r then f r else r
  distinct := by
    have keys : (t.rows.map fun r => if p r then f r else r).map key = t.rows.map key := by
      rw [List.map_map]
      refine List.map_congr_left fun r _ => ?_
      rw [Function.comp]
      split
      · exact same r
      · rfl
    rw [keys]
    exact t.distinct

theorem mem_update {f : ρ → ρ} {same : ∀ r, key (f r) = key r} {r : ρ} :
    r ∈ t.update p f same ↔ (∃ r' ∈ t, p r' = true ∧ r = f r') ∨ r ∈ t ∧ p r = false := by
  show r ∈ (t.rows.map fun r => if p r then f r else r) ↔ _
  rw [List.mem_map]
  constructor
  · rintro ⟨r', mem, rfl⟩
    cases holds : p r' with
    | true => exact .inl ⟨r', mem, holds, rfl⟩
    | false => exact .inr ⟨mem, holds⟩
  · rintro (⟨r', mem, holds, rfl⟩ | ⟨mem, fails⟩)
    · exact ⟨r', mem, by rw [holds]; rfl⟩
    · exact ⟨r, mem, by rw [fails]; rfl⟩

def delete (t : Table key) (p : ρ → Bool) : Table key where
  rows := t.rows.filter fun r => !p r
  distinct := (List.filter_sublist.map key).nodup t.distinct

theorem mem_delete : r ∈ t.delete p ↔ r ∈ t ∧ p r = false := by
  show r ∈ t.rows.filter _ ↔ _
  rw [List.mem_filter, Bool.not_eq_true']
  rfl

theorem delete_eq_empty (all : ∀ r ∈ t, p r = true) : t.delete p = empty := by
  have rows : (t.rows.filter fun r => !p r) = [] := by
    rw [List.filter_eq_nil_iff]
    intro r mem
    simp [all r mem]
  simp only [delete, empty, rows]

variable [DecidableEq κ] {k : κ} {t : Table key} {x : ρ}

def find (t : Table key) (k : κ) : Option ρ := t.rows.find? fun r => key r = k

theorem find_eq_some : t.find k = some r ↔ r ∈ t ∧ key r = k := by
  constructor
  · intro found
    exact ⟨List.mem_of_find?_eq_some found, by simpa using List.find?_some found⟩
  · rintro ⟨mem, rfl⟩
    cases found : t.find (key r) with
    | none => exact absurd (List.find?_eq_none.1 found r mem) (by simp)
    | some r' =>
      have same : key r' = key r := by simpa using List.find?_some found
      rw [eq_of_key (List.mem_of_find?_eq_some found) mem same]

theorem find_eq_none : t.find k = none ↔ ∀ r ∈ t, key r ≠ k := by
  rw [find, List.find?_eq_none]
  simp only [decide_eq_true_eq]
  rfl

/-- The rows of other keys stay; a row of the same key is replaced. -/
def put (t : Table key) (r : ρ) : Table key where
  rows := (t.delete fun x => key x = key r).rows ++ [r]
  distinct := by
    rw [List.map_append, List.nodup_append]
    refine ⟨(t.delete _).distinct, by simp, ?_⟩
    intro k mem k' mem'
    obtain ⟨x, kept, rfl⟩ := List.mem_map.1 mem
    obtain rfl : k' = key r := by simpa using mem'
    simpa using (mem_delete.1 kept).2

theorem mem_put : x ∈ t.put r ↔ x = r ∨ x ∈ t ∧ key x ≠ key r := by
  show x ∈ (t.delete _).rows ++ [r] ↔ _
  rw [List.mem_append, List.mem_singleton, mem_rows, mem_delete, decide_eq_false_iff_not, or_comm]

theorem mem_put_self : r ∈ t.put r := mem_put.2 (.inl rfl)

theorem mem_put_of_ne (other : key x ≠ key r) : x ∈ t.put r ↔ x ∈ t := by
  rw [mem_put]
  constructor
  · rintro (rfl | ⟨mem, -⟩)
    · exact absurd rfl other
    · exact mem
  · intro mem
    exact .inr ⟨mem, other⟩

/-- What holds of the row and of the rows before holds of all. -/
theorem forall_put {P : ρ → Prop} (own : P r) (others : ∀ x ∈ t, P x) : ∀ x ∈ t.put r, P x := by
  intro x mem
  rcases mem_put.1 mem with rfl | ⟨mem, -⟩
  · exact own
  · exact others x mem

theorem find_put_self : (t.put r).find (key r) = some r :=
  find_eq_some.2 ⟨mem_put_self, rfl⟩

theorem find_put_of_ne (other : k ≠ key r) : (t.put r).find k = t.find k := by
  cases found : t.find k with
  | none =>
    rw [find_eq_none] at found ⊢
    intro x mem
    rcases mem_put.1 mem with rfl | ⟨mem, -⟩
    · exact other.symm
    · exact found x mem
  | some x =>
    obtain ⟨mem, rfl⟩ := find_eq_some.1 found
    exact find_eq_some.2 ⟨mem_put.2 (.inr ⟨mem, other⟩), rfl⟩

theorem find_delete (spared : ∀ r ∈ t, key r = k → p r = false) : (t.delete p).find k = t.find k := by
  cases found : t.find k with
  | none =>
    rw [find_eq_none] at found ⊢
    intro x mem
    exact found x (mem_delete.1 mem).1
  | some x =>
    obtain ⟨mem, rfl⟩ := find_eq_some.1 found
    exact find_eq_some.2 ⟨mem_delete.2 ⟨mem, spared x mem rfl⟩, rfl⟩

end Table

/-! ## Ordered selections -/

section OrderBy

variable {ρ ρ' ω : Type} [LinearOrder ω] {l l' : List ρ} {w : ρ → ω} {f : ρ → ρ'} {r : ρ}

/-- `ORDER BY w`. -/
def orderBy (w : ρ → ω) (l : List ρ) : List ρ := l.mergeSort fun a b => decide (w a ≤ w b)

theorem orderBy_perm (w : ρ → ω) (l : List ρ) : (orderBy w l).Perm l := List.mergeSort_perm _ _

@[simp] theorem mem_orderBy : r ∈ orderBy w l ↔ r ∈ l :=
  (orderBy_perm w l).mem_iff

theorem orderBy_pairwise : (orderBy w l).Pairwise fun a b => w a ≤ w b := by
  have sorted := @List.pairwise_mergeSort ρ (fun a b => decide (w a ≤ w b))
    (fun a b c ab bc => by
      rw [decide_eq_true_eq] at ab bc ⊢
      exact le_trans ab bc)
    (fun a b => by
      rw [Bool.or_eq_true, decide_eq_true_eq, decide_eq_true_eq]
      exact le_total (w a) (w b)) l
  exact sorted.imp fun h => of_decide_eq_true h

/-- The order of the rows before does not matter when no two rank alike. -/
theorem orderBy_congr (perm : l.Perm l')
    (strict : ∀ a ∈ l, ∀ b ∈ l, w a = w b → a = b) : orderBy w l = orderBy w l' := by
  refine List.Perm.eq_of_pairwise ?_ (orderBy_pairwise) (orderBy_pairwise)
    ((orderBy_perm w l).trans (perm.trans (orderBy_perm w l').symm))
  intro a b mem mem' ab ba
  exact strict a (mem_orderBy.1 mem) b (perm.mem_iff.2 (mem_orderBy.1 mem')) (le_antisymm ab ba)

theorem map_orderBy {w' : ρ' → ω} (rank : ∀ r ∈ l, w' (f r) = w r) : (orderBy w l).map f = orderBy w' (l.map f) :=
  List.map_mergeSort fun a memA b memB => by rw [rank a memA, rank b memB]

theorem orderBy_strict (nodup : l.Nodup)
    (strict : ∀ a ∈ l, ∀ b ∈ l, w a = w b → a = b) : (orderBy w l).Pairwise fun a b => w a < w b := by
  have distinct : (orderBy w l).Nodup := (orderBy_perm w l).nodup_iff.2 nodup
  refine ((orderBy_pairwise).and distinct).imp_of_mem ?_
  rintro a b mem mem' ⟨le, ne⟩
  exact lt_of_le_of_ne le fun same => ne (strict a (mem_orderBy.1 mem) b (mem_orderBy.1 mem') same)

/-- Selecting before or after ordering is the same. -/
theorem orderBy_filter (strict : ∀ a ∈ l, ∀ b ∈ l, w a = w b → a = b) (p : ρ → Bool) :
    orderBy w (l.filter p) = (orderBy w l).filter p := by
  have sorted : ((orderBy w l).filter p).Pairwise fun a b => w a ≤ w b :=
    (orderBy_pairwise).sublist List.filter_sublist
  rw [← List.mergeSort_of_pairwise (sorted.imp fun le => decide_eq_true le)]
  apply orderBy_congr
  · exact ((orderBy_perm w l).filter p).symm
  · intro a memA b memB
    exact strict a (List.mem_of_mem_filter memA) b (List.mem_of_mem_filter memB)

end OrderBy

/-! ## Replacing in a list -/

section Place

variable {κ ρ ρ' : Type} {p : ρ → Bool} {f : ρ → ρ'} {l : List ρ}

/-- Overwrite the first element with `p`, or add at the end. -/
def place (p : ρ → Bool) (r : ρ) (l : List ρ) : List ρ :=
  match l.findIdx? p with
  | some i => l.set i r
  | none => l ++ [r]

theorem place_cons {r x : ρ} :
    place p r (x :: l) = if p x then r :: l else x :: place p r l := by
  unfold place
  rw [List.findIdx?_cons]
  cases p x with
  | true => rfl
  | false => cases l.findIdx? p <;> rfl

theorem map_place {q : ρ' → Bool} (same : ∀ x ∈ l, q (f x) = p x) (r : ρ) :
    (place p r l).map f = place q (f r) (l.map f) := by
  induction l with
  | nil => rfl
  | cons x l ih =>
    rw [List.map_cons, place_cons, place_cons, same x (by simp)]
    cases p x with
    | true => rfl
    | false =>
      have rest := ih fun y mem => same y (List.mem_cons_of_mem _ mem)
      simp [rest]

variable [DecidableEq κ]

/-- With distinct keys it is an upsert. -/
theorem place_perm {key : ρ → κ} (distinct : (l.map key).Nodup) (r : ρ) :
    (place (fun x => key x = key r) r l).Perm (l.filter (fun x => key x ≠ key r) ++ [r]) := by
  induction l with
  | nil => exact List.Perm.refl _
  | cons x l ih =>
    rw [List.map_cons, List.nodup_cons] at distinct
    rw [place_cons]
    by_cases same : key x = key r
    · have rest : l.filter (fun x => key x ≠ key r) = l := by
        rw [List.filter_eq_self]
        intro y mem
        refine decide_eq_true fun again => distinct.1 ?_
        rw [same, ← again]
        exact List.mem_map_of_mem mem
      simp only [same, decide_true, if_true, ne_eq, not_true, decide_false, Bool.false_eq_true, not_false_iff,
        List.filter_cons_of_neg]
      rw [rest]
      exact (List.perm_append_singleton r l).symm
    · simp only [same, decide_false, Bool.false_eq_true, if_false, ne_eq, not_false_iff, decide_true,
        List.filter_cons_of_pos, List.cons_append]
      exact (ih distinct.2).cons x

end Place

end Base
