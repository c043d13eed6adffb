import Mathlib.Data.List.TakeWhile
import Osl.Hub.IdentitySlots

/-!
# A migration that is cut off

Where the next start finds an account depends on how far a migration came. Until the first
artifact is moved the account lies flat, and once the staging directory has its final name
it lies in the slot; in between no start looks where it is. A rollback goes through the
same gap.
-/

namespace Osl.Hub.IdentitySlots

open Base Process Std Function

variable {d d' s : Disk} {slot stage x : Text} {f : Faults} {m m' : Markers} {js l : List Artifact} {a : Artifact}
  {r q pid n k : Nat} {op : Op}

/-! ## What a start selects -/

/-- The account to be migrated into `slot` is the one this start selected: the marker does not
name the slot, and the sealed identity is in no slot. -/
structure FlatAccount (d : Disk) (slot : Text) : Prop where
  selected : selectSlotFromDisk d = none
  own : ∀ (slot : Text) (folder : Folder), d.dirs[slot]? = some folder → d.flat .identity ≠ none → folder .identity ≠ d.flat .identity
  unnamed : readActiveMarker d.marker ≠ some slot

/-- The next start selects a directory with everything that was in the account `d`. -/
def Found (d d' : Disk) : Prop := ∀ a v, d.flat a = some v → (selectActiveIdentityBeforeBootstrap d').1 a = some v

theorem not_found (identity : d.flat .identity ≠ none) (gone : (selectActiveIdentityBeforeBootstrap d').1 .identity = none) :
    ¬Found d d' := by
  intro found
  obtain ⟨v, held⟩ := Option.ne_none_iff_exists'.1 identity
  rw [found .identity v held] at gone
  cases gone

/-- No slot holds an identity. -/
def Lone (d : Disk) : Prop := ∀ slot, validateSlotId slot = true → d.complete slot = false

theorem complete_iff : d.complete x = true ↔ ∃ folder, d.dirs[x]? = some folder ∧ folder .identity ≠ none := by
  unfold Disk.complete
  cases d.dirs[x]? with
  | none => simp
  | some folder => simp [Option.isSome_iff_ne_none]

theorem complete_congr (same : d'.dirs[x]? = d.dirs[x]?) : d'.complete x = d.complete x := by
  unfold Disk.complete
  rw [same]

theorem mem_candidates : x ∈ (d.dirs.keys.filter fun slot => validateSlotId slot && d.complete slot) ↔
    validateSlotId x = true ∧ d.complete x = true := by
  rw [List.mem_filter, Bool.and_eq_true, ExtTreeMap.mem_keys]
  refine and_iff_right_of_imp fun both => ?_
  obtain ⟨folder, there, -⟩ := complete_iff.1 both.2
  rw [ExtTreeMap.mem_iff_isSome_getElem?, there]
  rfl

theorem nodup_candidates : (d.dirs.keys.filter fun slot => validateSlotId slot && d.complete slot).Nodup := by
  refine List.Nodup.filter _ (ExtTreeMap.distinct_keys.imp ?_)
  rintro a b ne rfl
  exact ne ReflCmp.compare_self

theorem singleRecoverableSlot_eq_some : singleRecoverableSlot d = some x ↔
    d.flat .identity = none ∧ validateSlotId x = true ∧ d.complete x = true ∧
      ∀ y, validateSlotId y = true → d.complete y = true → y = x := by
  unfold singleRecoverableSlot
  cases flat : d.flat .identity with
  | some v => simp
  | none =>
    rw [if_neg (by simp)]
    have mem := @mem_candidates d
    have nodup := @nodup_candidates d
    generalize d.dirs.keys.filter (fun slot => validateSlotId slot && d.complete slot) = l at mem nodup
    rcases l with _ | ⟨a, _ | ⟨b, rest⟩⟩
    · refine iff_of_false (by simp) ?_
      rintro ⟨-, valid, complete, -⟩
      exact absurd (mem.2 ⟨valid, complete⟩) List.not_mem_nil
    · dsimp only
      have meets := mem.1 List.mem_cons_self
      constructor
      · intro same
        cases same
        exact ⟨rfl, meets.1, meets.2, fun y valid complete => List.mem_singleton.1 (mem.2 ⟨valid, complete⟩)⟩
      · rintro ⟨-, -, -, unique⟩
        rw [unique a meets.1 meets.2]
    · refine iff_of_false (by simp) ?_
      rintro ⟨-, -, -, unique⟩
      have first := mem.1 List.mem_cons_self
      have second := mem.1 (List.mem_cons_of_mem _ List.mem_cons_self)
      have same : a = b := (unique a first.1 first.2).trans (unique b second.1 second.2).symm
      exact (List.nodup_cons.1 nodup).1 (same ▸ List.mem_cons_self)

theorem selectSlot_of_marked (marked : readActiveMarker d.marker = some x) (complete : d.complete x = true) :
    selectSlotFromDisk d = some x := by
  unfold selectSlotFromDisk
  rw [marked, Option.filter_some_pos complete]
  rfl

/-- A marker to a slot without an identity is passed over. -/
theorem selectSlot_of_unmarked (unmarked : ∀ x, readActiveMarker d.marker = some x → d.complete x = false) :
    selectSlotFromDisk d = singleRecoverableSlot d := by
  unfold selectSlotFromDisk
  cases marked : readActiveMarker d.marker with
  | none => rfl
  | some x =>
    rw [Option.filter_some_neg (by simp [unmarked x marked])]
    rfl

theorem FlatAccount.unmarked (account : FlatAccount d slot) (marked : readActiveMarker d.marker = some x) : d.complete x = false := by
  by_contra complete
  have selected := selectSlot_of_marked marked (by simpa using complete)
  rw [account.selected] at selected
  cases selected

theorem FlatAccount.single (account : FlatAccount d slot) : singleRecoverableSlot d = none := by
  rw [← selectSlot_of_unmarked fun x => account.unmarked]
  exact account.selected

theorem selectActive_none (selected : selectSlotFromDisk d = none) : (selectActiveIdentityBeforeBootstrap d).1 = d.flat := by
  unfold selectActiveIdentityBeforeBootstrap
  rw [selected]

theorem selectActive_some {folder : Folder} (selected : selectSlotFromDisk d = some x) (there : d.dirs[x]? = some folder) :
    (selectActiveIdentityBeforeBootstrap d).1 = folder := by
  unfold selectActiveIdentityBeforeBootstrap
  rw [selected]
  dsimp only
  rw [there]
  rfl

/-- A start changes the marker only to what it has read from it. -/
theorem readActiveMarker_restore : readActiveMarker (restoreMarker m) = readActiveMarker m := by
  unfold restoreMarker
  split
  case isFalse => rfl
  rename_i cond
  obtain ⟨noPath, backup⟩ := Bool.and_eq_true_iff.1 cond
  rw [Option.isNone_iff_eq_none] at noPath
  unfold readActiveMarker
  rw [noPath]
  obtain ⟨x, found⟩ := Option.isSome_iff_exists.1 backup
  rw [found]
  rfl

/-- Later starts select what the first one does. -/
theorem selectActive_again :
    (selectActiveIdentityBeforeBootstrap (selectActiveIdentityBeforeBootstrap d).2).1 = (selectActiveIdentityBeforeBootstrap d).1 := by
  have same : selectSlotFromDisk { d with marker := restoreMarker d.marker } = selectSlotFromDisk d := by
    unfold selectSlotFromDisk
    rw [readActiveMarker_restore]
    rfl
  unfold selectActiveIdentityBeforeBootstrap
  rw [same]

/-! ## Where the account is -/

/-- The marker names no slot of `d` that has an identity. -/
def Harmless (d : Disk) (m : Markers) : Prop := ∀ x, readActiveMarker m = some x → d.complete x = false

/-- The artifacts `js` are missing from the base directory, and the slots are those of `d`. -/
structure Away (d : Disk) (js : List Artifact) (d' : Disk) : Prop where
  flat : ∀ a, d'.flat a = if a ∈ js then none else d.flat a
  slots : ∀ x, validateSlotId x = true → d'.dirs[x]? = d.dirs[x]?
  harmless : Harmless d d'.marker

theorem readMarkerFile_valid {file : Option Text} (read : readMarkerFile file = some x) : validateSlotId x = true := by
  cases file with
  | none => cases read
  | some value =>
    change (if validateSlotId (trim value) then some (trim value) else none) = some x at read
    split at read
    case isTrue valid =>
      cases read
      exact valid
    case isFalse => cases read

theorem readActiveMarker_valid (read : readActiveMarker m = some x) : validateSlotId x = true := by
  unfold readActiveMarker at read
  rw [Option.or_eq_some_iff] at read
  rcases read with read | ⟨-, read⟩ <;> exact readMarkerFile_valid read

theorem Away.select (away : Away d js d') : selectSlotFromDisk d' = singleRecoverableSlot d' := by
  refine selectSlot_of_unmarked fun x marked => ?_
  rw [complete_congr (away.slots x (readActiveMarker_valid marked))]
  exact away.harmless x marked

/-- Such an account is found only if nothing is missing. -/
theorem Away.found_iff (away : Away d js d') (account : FlatAccount d slot) (there : ∀ a ∈ js, d.flat a ≠ none) :
    Found d d' ↔ js = [] := by
  have missing : selectSlotFromDisk d' = none → (Found d d' ↔ js = []) := by
    intro selected
    unfold Found
    rw [selectActive_none selected]
    constructor
    · intro found
      refine List.eq_nil_iff_forall_not_mem.2 fun a mem => ?_
      obtain ⟨v, held⟩ := Option.ne_none_iff_exists'.1 (there a mem)
      have kept := found a v held
      rw [away.flat, if_pos mem] at kept
      cases kept
    · rintro rfl a v held
      rw [away.flat, if_neg List.not_mem_nil]
      exact held
  cases single : singleRecoverableSlot d' with
  | none => exact missing (away.select.trans single)
  | some x =>
    obtain ⟨noFlat, valid, complete, unique⟩ := singleRecoverableSlot_eq_some.1 single
    obtain ⟨folder, held, -⟩ := complete_iff.1 complete
    cases identity : d.flat .identity with
    | none =>
      -- the slots are as before, and before none was selected
      have before : singleRecoverableSlot d = some x := by
        refine singleRecoverableSlot_eq_some.2 ⟨identity, valid, ?_, fun y valid' complete' => unique y valid' ?_⟩
        · rw [← complete_congr (away.slots x valid)]
          exact complete
        · rw [complete_congr (away.slots y valid')]
          exact complete'
      rw [account.single] at before
      cases before
    | some sealed =>
      refine iff_of_false (fun found => ?_) ?_
      · have other := found .identity sealed identity
        rw [selectActive_some (away.select.trans single) held] at other
        rw [away.slots x valid] at held
        exact account.own x folder held (by simp [identity]) (other.trans identity.symm)
      · rintro rfl
        rw [away.flat, if_neg List.not_mem_nil, identity] at noFlat
        cases noFlat

theorem FlatAccount.found (account : FlatAccount d slot) : Found d d := by
  have away : Away d [] d := ⟨fun a => (if_neg List.not_mem_nil).symm, fun _ _ => rfl, fun x read => account.unmarked read⟩
  exact (away.found_iff account fun a mem => absurd mem List.not_mem_nil).2 rfl

/-- The whole account is in the slot. -/
structure Settled (d : Disk) (slot : Text) (d' : Disk) : Prop where
  flat : ∀ a, d'.flat a = none
  whole : d'.dirs[slot]? = some d.flat
  others : ∀ x, x ≠ slot → d'.dirs[x]? = d.dirs[x]?

theorem Settled.found_iff (settled : Settled d slot d') (valid : validateSlotId slot = true) (fresh : d.dirs[slot]? = none)
    (identity : d.flat .identity ≠ none) (marker : readActiveMarker d'.marker = some slot ∨ Harmless d d'.marker) :
    Found d d' ↔ readActiveMarker d'.marker = some slot ∨ Lone d := by
  have complete : d'.complete slot = true := complete_iff.2 ⟨d.flat, settled.whole, identity⟩
  have selects : selectSlotFromDisk d' = some slot → Found d d' := by
    intro selected a v held
    rw [selectActive_some selected settled.whole]
    exact held
  by_cases marked : readActiveMarker d'.marker = some slot
  · exact iff_of_true (selects (selectSlot_of_marked marked complete)) (.inl marked)
  have harmless := marker.resolve_left marked
  have select : selectSlotFromDisk d' = singleRecoverableSlot d' := by
    refine selectSlot_of_unmarked fun x read => ?_
    rw [complete_congr (settled.others x fun same => marked (same ▸ read))]
    exact harmless x read
  constructor
  · intro found
    refine .inr fun y validY => ?_
    by_contra completeY
    rw [Bool.not_eq_false] at completeY
    have other : y ≠ slot := by
      rintro rfl
      obtain ⟨folder, held, -⟩ := complete_iff.1 completeY
      rw [fresh] at held
      cases held
    have none : selectSlotFromDisk d' = none := by
      rw [select]
      cases single : singleRecoverableSlot d' with
      | none => rfl
      | some x =>
        obtain ⟨-, -, -, unique⟩ := singleRecoverableSlot_eq_some.1 single
        have same := unique y validY ((complete_congr (settled.others y other)).trans completeY)
        exact absurd (same.trans (unique slot valid complete).symm) other
    exact not_found identity (by rw [selectActive_none none, settled.flat]) found
  · rintro (now | lone)
    · exact absurd now marked
    · refine selects (select.trans (singleRecoverableSlot_eq_some.2 ⟨settled.flat .identity, valid, complete, ?_⟩))
      intro y validY completeY
      by_contra other
      rw [complete_congr (settled.others y other), lone y validY] at completeY
      cases completeY

/-! ## In the staging directory -/

/-- The artifacts `js` are in the staging directory. -/
structure Staged (d : Disk) (stage : Text) (js : List Artifact) (d' : Disk) : Prop where
  flat : ∀ a, d'.flat a = if a ∈ js then none else d.flat a
  staged : d'.dirs[stage]? = some fun a => if a ∈ js then d.flat a else none
  others : ∀ x, x ≠ stage → d'.dirs[x]? = d.dirs[x]?
  harmless : Harmless d d'.marker

@[simp] theorem getElem?_insert (t : ExtTreeMap Text Folder) (x y : Text) (folder : Folder) :
    (t.insert x folder)[y]? = if y = x then some folder else t[y]? := by
  simp [ExtTreeMap.getElem?_insert, eq_comm (a := y)]

@[simp] theorem getElem?_erase (t : ExtTreeMap Text Folder) (x y : Text) :
    (t.erase x)[y]? = if y = x then none else t[y]? := by
  simp [ExtTreeMap.getElem?_erase, eq_comm (a := y)]

/-- The artifacts of `d` that are among `js`. -/
def part (d : Disk) (js : List Artifact) : Folder := fun a => if a ∈ js then d.flat a else none

theorem part_all {moved : List Artifact} (all : ∀ a, a ∉ moved → d.flat a = none) : part d moved = d.flat := by
  funext a
  by_cases mem : a ∈ moved
  · simp [part, mem]
  · simp [part, mem, all a mem]

theorem Staged.away (staged : Staged d stage js d') (hidden : validateSlotId stage = false) : Away d js d' where
  flat := staged.flat
  slots x valid := staged.others x fun same => by rw [same, hidden] at valid; cases valid
  harmless := staged.harmless

theorem Staged.create (slot : Text) (harmless : Harmless d d.marker) : Staged d stage [] (apply slot stage .createStage d) where
  flat _ := (if_neg List.not_mem_nil).symm
  staged := by simp [apply]
  others _ other := by simp [apply, other]
  harmless := harmless

theorem Staged.stash (slot : Text) (staged : Staged d stage js d') (fresh : a ∉ js) :
    Staged d stage (js ++ [a]) (apply slot stage (.stash a) d') := by
  have after : apply slot stage (.stash a) d' = { d' with
      flat := update d'.flat a none
      dirs := d'.dirs.insert stage (update (part d js) a (d'.flat a)) } := by
    simp [apply, staged.staged]
    rfl
  rw [after]
  refine ⟨fun b => ?_, ?_, fun x other => by simp [other, staged.others x other], staged.harmless⟩
  · by_cases same : b = a <;> simp [same, staged.flat]
  · simp only [getElem?_insert, if_true]
    congr 1
    funext b
    by_cases same : b = a <;> simp [same, part, staged.flat, fresh]

theorem Staged.unstash (slot : Text) (staged : Staged d stage js d') (mem : a ∈ js) (there : d.flat a ≠ none) :
    Staged d stage (js.filter (· ≠ a)) (apply slot stage (.unstash a) d') := by
  have after : apply slot stage (.unstash a) d' = { d' with
      flat := update d'.flat a (d.flat a)
      dirs := d'.dirs.insert stage (update (part d js) a none) } := by
    simp [apply, staged.staged, mem, Option.isSome_iff_ne_none.2 there]
    rfl
  rw [after]
  refine ⟨fun b => ?_, ?_, fun x other => by simp [other, staged.others x other], staged.harmless⟩
  · by_cases same : b = a <;> simp [same, staged.flat]
  · simp only [getElem?_insert, if_true]
    congr 1
    funext b
    by_cases same : b = a <;> simp [same, part]

theorem Staged.stashAll (staged : Staged d stage js d') (nodup : (js ++ l).Nodup) :
    Staged d stage (js ++ l) (afterWrites (apply slot stage) d' (l.map .stash)) := by
  induction l generalizing js d' with
  | nil => simpa using staged
  | cons a l ih =>
    have fresh : a ∉ js := fun mem => (List.nodup_append.1 nodup).2.2 a mem a List.mem_cons_self rfl
    have regroup : js ++ a :: l = js ++ [a] ++ l := by simp
    rw [regroup] at nodup ⊢
    exact ih (staged.stash slot fresh) nodup

theorem Staged.unstashAll (slot : Text) (staged : Staged d stage js d') (nodup : l.Nodup) (inside : ∀ a ∈ l, a ∈ js)
    (there : ∀ a ∈ js, d.flat a ≠ none) :
    Staged d stage (js.filter (· ∉ l)) (afterWrites (apply slot stage) d' (l.map .unstash)) := by
  induction l generalizing js d' with
  | nil => simpa using staged
  | cons a l ih =>
    have mem := inside a List.mem_cons_self
    obtain ⟨fresh, nodup'⟩ := List.nodup_cons.1 nodup
    have rest := ih (staged.unstash slot mem (there a mem)) nodup'
      (fun b memB => List.mem_filter.2 ⟨inside b (List.mem_cons_of_mem _ memB), by
        rw [decide_eq_true_eq]
        rintro rfl
        exact fresh memB⟩)
      fun b memB => there b (List.mem_filter.1 memB).1
    rw [List.filter_filter] at rest
    have same : js.filter (· ∉ a :: l) = js.filter fun b => decide (b ∉ l) && decide (b ≠ a) :=
      List.filter_congr fun b _ => by simp only [List.mem_cons, not_or, Bool.decide_and, Bool.and_comm]
    rw [same]
    exact rest

theorem Staged.removeStage (slot : Text) (staged : Staged d stage js d') (hidden : validateSlotId stage = false) :
    Away d js (apply slot stage .removeStage d') where
  flat := staged.flat
  slots x valid := by
    have other : x ≠ stage := fun same => by rw [same, hidden] at valid; cases valid
    simp [apply, other, staged.others x other]
  harmless := staged.harmless

/-! ## Rolling back -/

/-- Those of the moved artifacts whose rename back is not refused, last moved first. -/
def returned (f : Faults) (moved : List Artifact) : List Artifact := moved.reverse.filter fun a => !f.back a

def rollOps (f : Faults) (moved : List Artifact) : List Op := (returned f moved).map .unstash ++ [.removeStage]

theorem mem_returned {moved : List Artifact} : a ∈ returned f moved ↔ a ∈ moved ∧ f.back a = false := by
  simp [returned]

theorem Staged.rollBack (slot : Text) {moved : List Artifact} (staged : Staged d stage moved d') (hidden : validateSlotId stage = false)
    (nodup : moved.Nodup) (there : ∀ a ∈ moved, d.flat a ≠ none) (r : Nat) :
    Away d (moved.filter (· ∉ (returned f moved).take r)) (afterWrites (apply slot stage) d' ((rollOps f moved).take r)) := by
  have inside : ∀ k, ∀ a ∈ (returned f moved).take k, a ∈ moved := fun k a mem =>
    (mem_returned.1 (List.mem_of_mem_take mem)).1
  have distinct : (returned f moved).Nodup := (List.nodup_reverse.2 nodup).filter _
  have part := fun k => staged.unstashAll slot (distinct.sublist (List.take_sublist k _)) (inside k) there
  unfold rollOps
  rcases Nat.lt_or_ge (returned f moved).length r with late | early
  · have whole := part r
    rw [List.take_of_length_le late.le] at whole ⊢
    rw [List.take_of_length_le (by simpa using Nat.succ_le_of_lt late), afterWrites_append]
    exact whole.removeStage slot hidden
  · rw [List.take_append_of_le_length (by simpa using early), ← List.map_take]
    exact (part r).away hidden

/-- Everything is back once as many renames are made as before, and none is refused. -/
theorem returned_all_iff {moved : List Artifact} (nodup : moved.Nodup) :
    moved.filter (· ∉ (returned f moved).take r) = [] ↔
      moved = [] ∨ moved.length ≤ r ∧ ∀ a ∈ moved, f.back a = false := by
  rw [List.filter_eq_nil_iff]
  simp only [decide_eq_true_eq, not_not]
  constructor
  · intro all
    refine .inr ⟨?_, fun a mem => (mem_returned.1 (List.mem_of_mem_take (all a mem))).2⟩
    have bound := nodup.subperm all |>.length_le
    exact bound.trans (List.length_take_le _ _)
  · rintro (rfl | ⟨enough, free⟩) a mem
    · cases mem
    · have all : returned f moved = moved.reverse :=
        List.filter_eq_self.2 fun b memB => by simp [free b (List.mem_reverse.1 memB)]
      rw [all, List.take_of_length_le (by simpa using enough)]
      exact List.mem_reverse.2 mem

theorem Staged.rollBack_found {moved : List Artifact} (staged : Staged d stage moved d') (account : FlatAccount d slot)
    (hidden : validateSlotId stage = false) (nodup : moved.Nodup) (there : ∀ a ∈ moved, d.flat a ≠ none) :
    Found d (afterWrites (apply slot stage) d' ((rollOps f moved).take r)) ↔
      moved = [] ∨ moved.length ≤ r ∧ ∀ a ∈ moved, f.back a = false := by
  rw [← returned_all_iff nodup]
  exact (staged.rollBack slot hidden nodup there r).found_iff account fun a mem => there a (List.mem_filter.1 mem).1

/-! ## The marker -/

theorem isWhitespace_of_alphanum {c : Char} (plain : (c.isAlphanum || c = '-' || c = '_') = true) : isWhitespace c = false := by
  have range : 45 ≤ c.toNat ∧ c.toNat ≤ 122 := by
    change ((decide (c.val ≥ 'A'.val ∧ c.val ≤ 'Z'.val) || (decide (c.val ≥ 'a'.val) && decide (c.val ≤ 'z'.val))
      || (decide (c.val ≥ '0'.val) && decide (c.val ≤ '9'.val)) || c = '-' || c = '_') : Bool) = true at plain
    simp only [Bool.or_eq_true, Bool.and_eq_true, decide_eq_true_eq, UInt32.le_iff_toNat_le, ge_iff_le] at plain
    rcases plain with (((upper | lower) | digit) | rfl) | rfl
    · exact ⟨Nat.le_trans (by decide) upper.1, Nat.le_trans upper.2 (by decide)⟩
    · exact ⟨Nat.le_trans (by decide) lower.1, Nat.le_trans lower.2 (by decide)⟩
    · exact ⟨Nat.le_trans (by decide) digit.1, Nat.le_trans digit.2 (by decide)⟩
    · decide
    · decide
  unfold isWhitespace
  simp
  omega

theorem trim_valid (valid : validateSlotId slot = true) : trim slot = slot := by
  have plain : ∀ c ∈ slot, isWhitespace c = false := fun c mem =>
    isWhitespace_of_alphanum (List.all_eq_true.1 (Bool.and_eq_true_iff.1 valid).2 c mem)
  have keeps : ∀ l : Text, (∀ c ∈ l, isWhitespace c = false) → l.dropWhile isWhitespace = l := by
    intro l all
    cases l with
    | nil => rfl
    | cons c l => exact List.dropWhile_cons_of_neg (by simp [all c List.mem_cons_self])
  unfold trim
  rw [keeps slot plain, keeps slot.reverse fun c mem => plain c (List.mem_reverse.1 mem), List.reverse_reverse]

theorem readActiveMarker_of_path (valid : validateSlotId slot = true) (path : m.path = some slot) :
    readActiveMarker m = some slot := by
  have read : readMarkerFile (some slot) = some slot := by
    show (if validateSlotId (trim slot) then some (trim slot) else none) = some slot
    rw [trim_valid valid, if_pos valid]
  unfold readActiveMarker
  rw [path, read]
  rfl

/-- The file operations of `write_active_marker`, as far as it gets. -/
def markerOps : Option MarkerFault → List Op
  | some .create => []
  | some .write => [.createTmp]
  | some .sync => [.createTmp, .writeTmp]
  | some .removeBackup => [.createTmp, .writeTmp]
  | some .moveAside => [.createTmp, .writeTmp, .removeBackup]
  | some .install => [.createTmp, .writeTmp, .removeBackup, .moveAside, .restoreBackup, .removeTmp]
  | none => [.createTmp, .writeTmp, .removeBackup, .moveAside, .install, .removeBackup]

/-- Those of `remove_active_marker`. -/
def unmarkOps (f : Faults) : List Op := if f.unmark then [] else [.removePath, .removeTmp, .removeBackup]

/-- From the commit to the undoing of it, or to the end. -/
def markingOps (f : Faults) : List Op :=
  markerOps f.marker ++ if f.marker = none ∧ f.reload = true then unmarkOps f else []

/-- The new marker is in its place after `q` operations past the commit. -/
def Marked (f : Faults) (q : Nat) : Prop :=
  f.marker = none ∧ 5 ≤ q ∧ (f.reload = true → f.unmark = true ∨ q ≤ 6)

def applyMarkers (slot : Text) (m : Markers) (ops : List Op) : Markers := ops.foldl (Markers.apply slot) m

/-- The marker files are those of `m`, at most with the backup gone or the path moved aside. -/
def Older (m m' : Markers) : Prop :=
  m'.path = m.path ∧ (m'.backup = m.backup ∨ m'.backup = none) ∨ m'.path = none ∧ (m'.backup = m.path ∨ m'.backup = none)

theorem Older.read (older : Older m m') (read : readActiveMarker m' = some x) : readActiveMarker m = some x := by
  have empty : readMarkerFile none = none := rfl
  unfold readActiveMarker at read ⊢
  rcases older with ⟨path, backup | backup⟩ | ⟨path, backup | backup⟩
  · rwa [path, backup] at read
  · rw [path, backup, empty, Option.or_none] at read
    rw [read]
    rfl
  · rw [path, backup, empty, Option.none_or] at read
    rw [read]
    rfl
  · rw [path, backup] at read
    cases read

/-- As far as it gets, a marker that is not completed leaves what was to be read. -/
theorem older_of_fault {fault : MarkerFault} :
    Older m (applyMarkers slot m ((markerOps (some fault)).take q)) := by
  obtain ⟨path, tmp, backup⟩ := m
  cases path <;> cases fault <;> rcases q with _ | _ | _ | _ | _ | _ | q <;>
    simp [markerOps, applyMarkers, Markers.apply, Older]

theorem marking_cases :
    (¬Marked f q ∧ Older m (applyMarkers slot m ((markingOps f).take q))) ∨
      (Marked f q ∧ (applyMarkers slot m ((markingOps f).take q)).path = some slot) := by
  unfold markingOps
  cases fault : f.marker with
  | some fault' =>
    left
    rw [if_neg (by simp), List.append_nil]
    refine ⟨fun marked => ?_, older_of_fault⟩
    rw [Marked, fault] at marked
    cases marked.1
  | none =>
    unfold unmarkOps Marked
    obtain ⟨path, tmp, backup⟩ := m
    rw [fault]
    cases path <;> cases f.reload <;> cases f.unmark <;> rcases q with _ | _ | _ | _ | _ | _ | _ | _ | _ | q <;>
      simp [markerOps, applyMarkers, Markers.apply, Older]

/-! ## In the slot -/

def Op.onMarker : Op → Bool
  | .createTmp | .writeTmp | .removeBackup | .moveAside | .install | .restoreBackup | .removeTmp | .removePath => true
  | _ => false

theorem apply_onMarker (marker : op.onMarker = true) :
    apply slot stage op d = { d with marker := d.marker.apply slot op } := by
  cases op <;> first | rfl | cases marker

theorem afterWrites_onMarker {ops : List Op} (marker : ∀ op ∈ ops, op.onMarker = true) :
    afterWrites (apply slot stage) d ops = { d with marker := applyMarkers slot d.marker ops } := by
  induction ops generalizing d with
  | nil => rfl
  | cons op ops ih =>
    rw [afterWrites_cons, apply_onMarker (marker op List.mem_cons_self), ih fun op' mem => marker op' (List.mem_cons_of_mem _ mem)]
    rfl

theorem renameDir_marker {source target : Text} : (d.renameDir source target).marker = d.marker := by
  unfold Disk.renameDir
  split <;> rfl

theorem apply_marker (other : op.onMarker = false) : (apply slot stage op d).marker = d.marker := by
  cases op with
  | stash a =>
    unfold apply
    dsimp only
    split <;> rfl
  | unstash a =>
    unfold apply
    dsimp only
    split
    · split <;> rfl
    · rfl
  | commit => exact renameDir_marker ..
  | uncommit => exact renameDir_marker ..
  | createStage | removeStage => rfl
  | createTmp | writeTmp | removeBackup | moveAside | install | restoreBackup | removeTmp | removePath => cases other

theorem stashing_marker (d : Disk) (l : List Artifact) : (afterWrites (apply slot stage) d (l.map .stash)).marker = d.marker := by
  induction l generalizing d with
  | nil => rfl
  | cons a l ih => exact (ih _).trans (apply_marker rfl)

theorem markingOps_onMarker : ∀ op ∈ markingOps f, op.onMarker = true := by
  unfold markingOps unmarkOps
  cases f.marker with
  | none => cases f.reload <;> cases f.unmark <;> decide
  | some fault =>
    rw [if_neg (by simp), List.append_nil]
    cases fault <;> decide

theorem Settled.marking (settled : Settled d slot d') (account : FlatAccount d slot) (valid : validateSlotId slot = true)
    (same : d'.marker = d.marker) (stage : Text) (q : Nat) :
    Settled d slot (afterWrites (apply slot stage) d' ((markingOps f).take q)) ∧
      let m := (afterWrites (apply slot stage) d' ((markingOps f).take q)).marker
      (¬Marked f q ∧ Harmless d m ∧ readActiveMarker m ≠ some slot ∨ Marked f q ∧ readActiveMarker m = some slot) := by
  rw [afterWrites_onMarker fun op mem => markingOps_onMarker op (List.mem_of_mem_take mem), same]
  refine ⟨⟨settled.flat, settled.whole, settled.others⟩, ?_⟩
  rcases marking_cases with ⟨unmarked, older⟩ | ⟨marked, path⟩
  · exact .inl ⟨unmarked, fun x read => account.unmarked (older.read read), fun read => account.unnamed (older.read read)⟩
  · exact .inr ⟨marked, readActiveMarker_of_path valid path⟩

theorem Staged.commit (slot : Text) {moved : List Artifact} (staged : Staged d stage moved d') (all : ∀ a, a ∉ moved → d.flat a = none)
    (free : d.dirs[stage]? = none) : Settled d slot (apply slot stage .commit d') := by
  have after : apply slot stage .commit d' = { d' with dirs := (d'.dirs.erase stage).insert slot d.flat } := by
    rw [← part_all all]
    simp [apply, Disk.renameDir, staged.staged]
    rfl
  rw [after]
  refine ⟨fun a => ?_, by simp, fun x other => ?_⟩
  · by_cases mem : a ∈ moved <;> simp [staged.flat, mem, all]
  · by_cases here : x = stage
    · subst here
      simp [other, free]
    · simp [other, here, staged.others x here]

theorem Settled.uncommit (stage : Text) {moved : List Artifact} (settled : Settled d slot d') (all : ∀ a, a ∉ moved → d.flat a = none)
    (free : d.dirs[slot]? = none) (harmless : Harmless d d'.marker) :
    Staged d stage moved (apply slot stage .uncommit d') := by
  have after : apply slot stage .uncommit d' = { d' with dirs := (d'.dirs.erase slot).insert stage d.flat } := by
    simp [apply, Disk.renameDir, settled.whole]
  rw [after]
  refine ⟨fun a => ?_, ?_, fun x other => ?_, harmless⟩
  · by_cases mem : a ∈ moved <;> simp [settled.flat, mem, all]
  · rw [getElem?_insert, if_pos rfl]
    exact congrArg some (part_all all).symm
  · by_cases here : x = slot
    · subst here
      simp [other, free]
    · simp [other, here, settled.others x here]

/-- With nothing staged there is nothing to roll back. -/
theorem rollOps_unstaged {moved : List Artifact} (free : d.dirs[stage]? = none) :
    afterWrites (apply slot stage) d ((rollOps f moved).take r) = d := by
  have idle : ∀ op ∈ rollOps f moved, apply slot stage op d = d := by
    intro op mem
    rcases List.mem_append.1 mem with back | last
    · obtain ⟨a, -, rfl⟩ := List.mem_map.1 back
      unfold apply
      rw [free]
    · cases List.mem_singleton.1 last
      unfold apply
      rw [erase_eq_self free]
  have skip : ∀ ops : List Op, (∀ op ∈ ops, apply slot stage op d = d) → afterWrites (apply slot stage) d ops = d := by
    intro ops all
    induction ops with
    | nil => rfl
    | cons op ops ih =>
      rw [afterWrites_cons, all op List.mem_cons_self]
      exact ih fun op' mem => all op' (List.mem_cons_of_mem _ mem)
  exact skip _ fun op mem => idle op (List.mem_of_mem_take mem)

def undoOps (f : Faults) (moved : List Artifact) : List Op :=
  if f.restage then rollOps f moved else .uncommit :: rollOps f moved

/-- What follows the commit. -/
def afterCommit (f : Faults) (moved : List Artifact) : List Op :=
  markingOps f ++ if f.marker ≠ none ∨ f.reload = true then undoOps f moved else []

/-- The slot is given up again. -/
def Undoes (f : Faults) : Prop := (f.marker ≠ none ∨ f.reload = true) ∧ f.restage = false

theorem Settled.found_after {moved : List Artifact} (settled : Settled d slot d') (account : FlatAccount d slot)
    (valid : validateSlotId slot = true) (hidden : validateSlotId stage = false) (free : d.dirs[slot]? = none)
    (freeStage : d.dirs[stage]? = none) (same : d'.marker = d.marker) (identity : d.flat .identity ≠ none)
    (nodup : moved.Nodup) (there : ∀ a ∈ moved, d.flat a ≠ none) (all : ∀ a, a ∉ moved → d.flat a = none) :
    Found d (afterWrites (apply slot stage) d' ((afterCommit f moved).take q)) ↔
      (Undoes f → q ≤ (markingOps f).length) ∧ (Marked f q ∨ Lone d) ∨
        Undoes f ∧ (markingOps f).length + 1 + moved.length ≤ q ∧ ∀ a ∈ moved, f.back a = false := by
  have apart : stage ≠ slot := fun eq => by rw [eq, valid] at hidden; cases hidden
  have marking := settled.marking (f := f) account valid same stage
  -- as long as the slot is kept, it is a matter of the marker
  have kept : Found d (afterWrites (apply slot stage) d' ((markingOps f).take q)) ↔ Marked f q ∨ Lone d := by
    obtain ⟨settled', marker⟩ := marking q
    rcases marker with ⟨unmarked, harmless, unnamed⟩ | ⟨marked, read⟩
    · rw [settled'.found_iff valid free identity (.inr harmless)]
      exact or_congr_left (iff_of_false unnamed unmarked)
    · rw [settled'.found_iff valid free identity (.inl read)]
      exact iff_of_true (.inl read) (.inl marked)
  unfold afterCommit
  rcases Nat.lt_or_ge (markingOps f).length q with late | early
  · by_cases undone : f.marker ≠ none ∨ f.reload = true
    · rw [if_pos undone, List.take_append, afterWrites_append]
      unfold undoOps
      cases restage : f.restage with
      | true =>
        have stays : ¬Undoes f := fun undoes => by rw [undoes.2] at restage; cases restage
        have gone : (afterWrites (apply slot stage) d' ((markingOps f).take q)).dirs[stage]? = none := by
          rw [(marking q).1.others stage apart, freeStage]
        rw [if_pos rfl, rollOps_unstaged gone, kept]
        simp [stays]
      | false =>
        have undoes : Undoes f := ⟨undone, restage⟩
        obtain ⟨r, rfl⟩ := Nat.exists_eq_add_of_lt late
        have harmless : Harmless d (afterWrites (apply slot stage) d' ((markingOps f).take ((markingOps f).length + r + 1))).marker := by
          rcases (marking ((markingOps f).length + r + 1)).2 with ⟨-, harmless, -⟩ | ⟨-, read⟩
          · exact harmless
          · intro x read'
            rw [read] at read'
            cases read'
            exact (Disk.complete.eq_def d slot).trans (by rw [free]; rfl)
        have staged := (marking ((markingOps f).length + r + 1)).1.uncommit stage all free harmless
        have left : (markingOps f).length + r + 1 - (markingOps f).length = r + 1 := by omega
        have some : moved ≠ [] := fun empty => identity (all .identity (by simp [empty]))
        rw [if_neg (by simp), left, List.take_succ_cons, afterWrites_cons,
          staged.rollBack_found account hidden nodup there]
        simp only [undoes, some, true_and, true_imp_iff, false_or]
        constructor
        · rintro ⟨enough, free'⟩
          exact .inr ⟨by omega, free'⟩
        · rintro (⟨early, -⟩ | ⟨enough, free'⟩)
          · omega
          · exact ⟨by omega, free'⟩
    · have stays : ¬Undoes f := fun undoes => undone undoes.1
      rw [if_neg undone, List.append_nil, kept]
      simp [stays]
  · rw [List.take_append_of_le_length early, kept]
    have short : ¬((markingOps f).length + 1 + moved.length ≤ q) := by omega
    simp [early, short]

/-! ## The operations of a migration -/

/-- The artifacts of the account, in the order they are moved. -/
def present (d : Disk) : List Artifact := accountArtifacts.filter fun a => (d.flat a).isSome

/-- Those that are moved: all before the first whose rename is refused. -/
def moved (d : Disk) (f : Faults) : List Artifact := (present d).takeWhile fun a => (f.move a).isNone

/-- A rename is refused, or there is no identity, or the commit is refused. -/
def Breaks (d : Disk) (f : Faults) : Prop := (∃ a ∈ present d, f.move a ≠ none) ∨ d.flat .identity = none ∨ f.commit ≠ none

theorem mem_present : a ∈ present d ↔ d.flat a ≠ none := by
  simp [present, mem_accountArtifacts, Option.isSome_iff_ne_none]

theorem moved_nodup : (moved d f).Nodup :=
  (accountArtifacts_nodup.filter _).sublist (List.takeWhile_sublist _)

theorem moved_all (clean : ¬∃ a ∈ present d, f.move a ≠ none) : moved d f = present d := by
  refine List.takeWhile_eq_self_iff.2 fun a mem => ?_
  rw [Option.isNone_iff_eq_none]
  by_contra refused
  exact clean ⟨a, mem, refused⟩

theorem rollBack_makes {moved : List Artifact} :
    Makes (apply slot stage) (rollBack slot stage f moved) s (rollOps f moved) (.ok ()) := by
  refine Makes.bind (Makes.forM (p := fun a => !f.back a) (fun a kept => ?_) (fun a kept => ?_) moved.reverse s) Makes.durable
  · rw [Bool.not_eq_false'] at kept
    rw [if_pos kept]
  · rw [Bool.not_eq_true'] at kept
    rw [if_neg (by simp [kept])]
    rfl

theorem stash_flat {a b : Artifact} (other : b ≠ a) : (apply slot stage (.stash a) s).flat b = s.flat b := by
  unfold apply
  dsimp only
  split
  · exact update_of_ne other ..
  · rfl

section Turn

variable {rest acc : List Artifact} {ops : List Op} {r : Except String (List Artifact)}

theorem moveArtifacts_absent (absent : s.flat a = none)
    (goes : Makes (apply slot stage) (moveArtifacts slot stage f rest acc) s ops r) :
    Makes (apply slot stage) (moveArtifacts slot stage f (a :: rest) acc) s ops r := by
  rw [moveArtifacts]
  refine Makes.observe_bind ?_
  rw [absent, Option.isNone_none, if_pos rfl]
  exact goes

theorem moveArtifacts_refused {e : String} (there : s.flat a ≠ none) (refused : f.move a = some e) :
    Makes (apply slot stage) (moveArtifacts slot stage f (a :: rest) acc) s (rollOps f acc) (.error e) := by
  rw [moveArtifacts]
  refine Makes.observe_bind ?_
  rw [Option.isNone_eq_false_iff.2 (Option.isSome_iff_ne_none.2 there), if_neg Bool.false_ne_true, refused]
  exact (rollBack_makes).then_fail

theorem moveArtifacts_moved (there : s.flat a ≠ none) (moves : f.move a = none)
    (goes : Makes (apply slot stage) (moveArtifacts slot stage f rest (acc ++ [a])) (apply slot stage (.stash a) s) ops r) :
    Makes (apply slot stage) (moveArtifacts slot stage f (a :: rest) acc) s (.stash a :: ops) r := by
  rw [moveArtifacts]
  refine Makes.observe_bind ?_
  rw [Option.isNone_eq_false_iff.2 (Option.isSome_iff_ne_none.2 there), if_neg Bool.false_ne_true, moves]
  exact Makes.durable_bind goes

end Turn

/-- The loop moves what it finds up to the first refusal, and rolls back on one. -/
theorem moveArtifacts_makes (rest acc : List Artifact) (s : Disk) (nodup : rest.Nodup) (same : ∀ a ∈ rest, s.flat a = d.flat a) :
    let there := rest.filter fun a => (d.flat a).isSome
    let here := there.takeWhile fun a => (f.move a).isNone
    ((∀ a ∈ there, f.move a = none) →
      Makes (apply slot stage) (moveArtifacts slot stage f rest acc) s (here.map .stash) (.ok (acc ++ here))) ∧
    ((∃ a ∈ there, f.move a ≠ none) → ∃ e,
      Makes (apply slot stage) (moveArtifacts slot stage f rest acc) s (here.map .stash ++ rollOps f (acc ++ here)) (.error e)) := by
  induction rest generalizing acc s with
  | nil =>
    refine ⟨fun _ => ?_, fun ⟨a, mem, _⟩ => absurd mem List.not_mem_nil⟩
    show Makes _ (pure acc) s [] (.ok (acc ++ []))
    rw [List.append_nil]
    exact Makes.pure
  | cons a rest ih =>
    obtain ⟨fresh, nodup'⟩ := List.nodup_cons.1 nodup
    have here := same a List.mem_cons_self
    dsimp only
    cases held : d.flat a with
    | none =>
      obtain ⟨clean, broken⟩ := ih acc s nodup' fun b mem => same b (List.mem_cons_of_mem _ mem)
      rw [List.filter_cons_of_neg (by simp [held])]
      refine ⟨fun all => moveArtifacts_absent (here.trans held) (clean all), fun some => ?_⟩
      obtain ⟨e, makes⟩ := broken some
      exact ⟨e, moveArtifacts_absent (here.trans held) makes⟩
    | some v =>
      have there : s.flat a ≠ none := by simp [here, held]
      rw [List.filter_cons_of_pos (by simp [held])]
      cases moves : f.move a with
      | some e =>
        rw [List.takeWhile_cons_of_neg (by simp [moves]), List.map_nil, List.append_nil, List.nil_append]
        refine ⟨fun all => absurd (all a List.mem_cons_self) (by simp [moves]), fun _ => ⟨e, ?_⟩⟩
        exact moveArtifacts_refused there moves
      | none =>
        have same' : ∀ b ∈ rest, (apply slot stage (.stash a) s).flat b = d.flat b := fun b mem =>
          (stash_flat fun eq : b = a => fresh (eq ▸ mem)).trans (same b (List.mem_cons_of_mem _ mem))
        obtain ⟨clean, broken⟩ := ih (acc ++ [a]) (apply slot stage (.stash a) s) nodup' same'
        rw [List.takeWhile_cons_of_pos (by simp [moves]), List.append_cons]
        refine ⟨fun all => ?_, ?_⟩
        · exact moveArtifacts_moved there moves (clean fun b mem => all b (List.mem_cons_of_mem _ mem))
        · rintro ⟨b, mem, refused⟩
          rcases List.mem_cons.1 mem with rfl | mem
          · exact absurd moves refused
          · obtain ⟨e, makes⟩ := broken ⟨b, mem, refused⟩
            exact ⟨e, moveArtifacts_moved there moves makes⟩

/-- What `write_active_marker` answers. -/
def markerAnswer : Option MarkerFault → Except String Unit
  | none => .ok ()
  | some fault => .error fault.message

theorem writeActiveMarker_makes (slot stage : Text) (fault : Option MarkerFault) (s : Disk) :
    Makes (apply slot stage) (writeActiveMarker slot stage fault) s (markerOps fault) (.ok (markerAnswer fault)) := by
  intro n
  cases fault with
  | none => rcases n with _ | _ | _ | _ | _ | _ | n <;> rfl
  | some fault => cases fault <;> rcases n with _ | _ | _ | _ | _ | _ | n <;> rfl

theorem undo_makes {moved : List Artifact} :
    Makes (apply slot stage) (undo slot stage f moved) s (undoOps f moved) (.ok ()) := by
  unfold undo undoOps
  cases f.restage with
  | true => exact rollBack_makes
  | false => exact Makes.durable_bind (rollBack_makes)

theorem removeActiveMarker_makes :
    Makes (apply slot stage) (removeActiveMarker slot stage f) s (unmarkOps f) (.ok ()) := by
  intro n
  unfold removeActiveMarker unmarkOps
  cases f.unmark with
  | true => rfl
  | false => rcases n with _ | _ | _ | n <;> rfl

theorem settle_makes {moved : List Artifact} :
    ∃ r, Makes (apply slot stage) (settle slot stage f moved) s (.commit :: afterCommit f moved) r := by
  unfold settle
  have marks := writeActiveMarker_makes slot stage f.marker (apply slot stage .commit s)
  cases fault : f.marker with
  | some fault' =>
    have ops : afterCommit f moved = markerOps (some fault') ++ undoOps f moved := by
      simp [afterCommit, markingOps, fault]
    rw [fault] at marks
    rw [ops]
    exact ⟨_, Makes.durable_bind (marks.bind (undo_makes).then_fail)⟩
  | none =>
    rw [fault] at marks
    cases reload : f.reload with
    | false =>
      have ops : afterCommit f moved = markerOps none ++ [] := by simp [afterCommit, markingOps, fault, reload]
      rw [ops]
      exact ⟨_, Makes.durable_bind (marks.bind Makes.pure)⟩
    | true =>
      have ops : afterCommit f moved = markerOps none ++ (unmarkOps f ++ undoOps f moved) := by
        simp [afterCommit, markingOps, fault, reload]
      rw [ops]
      exact ⟨_, Makes.durable_bind (marks.bind ((removeActiveMarker_makes).bind (undo_makes).then_fail))⟩

instance : Decidable (Breaks d f) := inferInstanceAs (Decidable (_ ∨ _))

/-- All the operations of a migration that is not refused at the start. -/
def migrateOps (d : Disk) (f : Faults) : List Op :=
  .createStage :: ((moved d f).map .stash ++
    if Breaks d f then rollOps f (moved d f) else .commit :: afterCommit f (moved d f))

theorem staged_part (slot stage : Text) (harmless : Harmless d d.marker) (j : Nat) :
    Staged d stage ((moved d f).take j)
      (afterWrites (apply slot stage) (apply slot stage .createStage d) (((moved d f).take j).map .stash)) :=
  (Staged.create slot harmless).stashAll (moved_nodup.sublist (List.take_sublist j _))

theorem staged_whole (slot stage : Text) (harmless : Harmless d d.marker) :
    Staged d stage (moved d f) (afterWrites (apply slot stage) (apply slot stage .createStage d) ((moved d f).map .stash)) := by
  have whole := staged_part (f := f) slot stage harmless (moved d f).length
  rwa [List.take_length] at whole

theorem commitStage_makes (slot stage : Text) (s : Disk) (moved : List Artifact) : ∃ r,
    Makes (apply slot stage) (commitStage slot stage f moved) s
      (if (s.dirs[stage]?.bind (· .identity)).isNone = true ∨ f.commit ≠ none then rollOps f moved
        else .commit :: afterCommit f moved) r := by
  unfold commitStage
  cases looked : (s.dirs[stage]?.bind (· .identity)).isNone with
  | true =>
    refine ⟨.error "OSL identity migration found no sealed identity", Makes.observe_bind ?_⟩
    rw [looked, if_pos rfl]
    exact (rollBack_makes).then_fail
  | false =>
    cases refused : f.commit with
    | some e =>
      refine ⟨.error e, Makes.observe_bind ?_⟩
      rw [looked, if_neg Bool.false_ne_true]
      exact (rollBack_makes).then_fail
    | none =>
      obtain ⟨r, settles⟩ := settle_makes
      refine ⟨r, Makes.observe_bind ?_⟩
      rw [looked, if_neg Bool.false_ne_true]
      exact settles

theorem migrate_makes (slot stage : Text) (harmless : Harmless d d.marker) :
    ∃ r, Makes (apply slot stage) (migrate slot stage f) d (migrateOps d f) r := by
  obtain ⟨clean, broken⟩ := moveArtifacts_makes (d := d) (f := f) accountArtifacts [] (apply slot stage .createStage d)
    accountArtifacts_nodup fun a _ => rfl
  by_cases refused : ∃ a ∈ present d, f.move a ≠ none
  · obtain ⟨e, makes⟩ := broken refused
    have breaks : Breaks d f := .inl refused
    unfold migrateOps
    rw [if_pos breaks]
    exact ⟨_, Makes.durable_bind makes.bind_error⟩
  · have makes := clean fun a mem => not_not.1 fun moves => refused ⟨a, mem, moves⟩
    obtain ⟨r, rest⟩ := commitStage_makes (f := f) slot stage
      (afterWrites (apply slot stage) (apply slot stage .createStage d) ((moved d f).map .stash)) (moved d f)
    refine ⟨r, ?_⟩
    -- the identity is in the staging directory exactly if it was in the account
    have looked : ((afterWrites (apply slot stage) (apply slot stage .createStage d)
        ((moved d f).map .stash)).dirs[stage]?.bind (· .identity)).isNone = true ↔ d.flat .identity = none := by
      rw [(staged_whole slot stage harmless).staged, Option.bind_some, Option.isNone_iff_eq_none]
      dsimp only
      split
      · rfl
      · rename_i absent
        rw [moved_all refused, mem_present, not_not] at absent
        simp [absent]
    have same : Breaks d f ↔ d.flat .identity = none ∨ f.commit ≠ none := or_iff_right refused
    simp only [looked, ← same] at rest
    exact Makes.durable_bind (makes.bind rest)

/-! ## Where the next start finds the account -/

/-- The migration does not begin. -/
def Refused (d : Disk) (slot : Text) (pid : Nat) (f : Faults) : Prop :=
  validateSlotId slot = false ∨ d.dirs.contains slot = true ∨ d.dirs.contains (stageName slot pid) = true ∨ f.create = true

/-- After `n` operations no artifact has been moved yet, or all are back, or the account lies in
the slot and nothing keeps a start from taking the slot. -/
def Whole (d : Disk) (slot : Text) (pid : Nat) (f : Faults) (n : Nat) : Prop :=
  let m := (moved d f).length
  let undoing := 2 + m + (markingOps f).length
  let back := ∀ a ∈ moved d f, f.back a = false
  Refused d slot pid f ∨ n ≤ 1 ∨ moved d f = [] ∨
    (Breaks d f ∧ 1 + m + m ≤ n ∧ back) ∨
    (¬Breaks d f ∧ 2 + m ≤ n ∧ (Undoes f → n ≤ undoing) ∧ (Marked f (n - (2 + m)) ∨ Lone d)) ∨
    (¬Breaks d f ∧ Undoes f ∧ undoing + 1 + m ≤ n ∧ back)

theorem getElem?_of_not_contains (absent : ¬d.dirs.contains x = true) : d.dirs[x]? = none := by
  rw [ExtTreeMap.contains_iff_mem] at absent
  exact ExtTreeMap.getElem?_eq_none absent

theorem found_migrating (account : FlatAccount d slot) (begins : ¬Refused d slot pid f) :
    Found d (afterWrites (apply slot (stageName slot pid)) d ((migrateOps d f).take n)) ↔ Whole d slot pid f n := by
  obtain ⟨valid, absent, absentStage, -⟩ : validateSlotId slot = true ∧ ¬d.dirs.contains slot = true ∧
      ¬d.dirs.contains (stageName slot pid) = true ∧ ¬f.create = true := by
    simpa [Refused] using begins
  have free := getElem?_of_not_contains absent
  have freeStage := getElem?_of_not_contains absentStage
  have hidden : validateSlotId (stageName slot pid) = false := rfl
  refine Iff.trans ?_ (or_iff_right begins).symm
  clear begins absentStage
  generalize stageName slot pid = stage at *
  have harmless : Harmless d d.marker := fun x read => account.unmarked read
  have there : ∀ a ∈ moved d f, d.flat a ≠ none := fun a mem =>
    mem_present.1 ((List.takeWhile_sublist _).subset mem)
  unfold migrateOps
  rcases n with _ | j
  · exact iff_of_true account.found (.inl (Nat.zero_le 1))
  rw [List.take_succ_cons, afterWrites_cons]
  rcases Nat.lt_or_ge (moved d f).length j with late | early
  · obtain ⟨r, rfl⟩ := Nat.exists_eq_add_of_lt late
    have left : (moved d f).length + r + 1 - ((moved d f).map Op.stash).length = r + 1 := by
      rw [List.length_map]
      omega
    rw [List.take_append, List.take_of_length_le (by rw [List.length_map]; omega), afterWrites_append, left]
    by_cases breaks : Breaks d f
    · rw [if_pos breaks, (staged_whole slot stage harmless).rollBack_found account hidden moved_nodup there]
      simp only [breaks, not_true, false_and, true_and, or_false]
      constructor
      · rintro (none | ⟨enough, back⟩)
        · exact .inr (.inl none)
        · exact .inr (.inr ⟨by omega, back⟩)
      · rintro (first | none | ⟨enough, back⟩)
        · exact .inl (List.length_eq_zero_iff.1 (by omega))
        · exact .inl none
        · exact .inr ⟨by omega, back⟩
    · have all : ∀ a, a ∉ moved d f → d.flat a = none := fun a absent => by
        rw [moved_all fun refused => breaks (.inl refused), mem_present, not_not] at absent
        exact absent
      have identity : d.flat .identity ≠ none := fun none => breaks (.inr (.inl none))
      have some : moved d f ≠ [] := fun empty => identity (all .identity (by simp [empty]))
      have settled := (staged_whole (f := f) slot stage harmless).commit slot all freeStage
      have marker : (apply slot stage .commit (afterWrites (apply slot stage) (apply slot stage .createStage d)
          ((moved d f).map .stash))).marker = d.marker := (apply_marker rfl).trans (stashing_marker _ _)
      rw [if_neg breaks, List.take_succ_cons, afterWrites_cons,
        settled.found_after account valid hidden free freeStage marker identity moved_nodup there all]
      have past : (moved d f).length + r + 1 + 1 - (2 + (moved d f).length) = r := by omega
      simp only [breaks, some, past, false_and, not_false_eq_true, true_and, false_or]
      constructor
      · rintro (⟨keeps, marked⟩ | ⟨undoes, enough, back⟩)
        · exact .inr (.inl ⟨by omega, fun undoes => by have := keeps undoes; omega, marked⟩)
        · exact .inr (.inr ⟨undoes, by omega, back⟩)
      · rintro (first | ⟨-, keeps, marked⟩ | ⟨undoes, enough, back⟩)
        · omega
        · exact .inl ⟨fun undoes => by have := keeps undoes; omega, marked⟩
        · exact .inr ⟨undoes, by omega, back⟩
  · rw [List.take_append_of_le_length (by rw [List.length_map]; exact early), ← List.map_take,
      ((staged_part slot stage harmless j).away hidden).found_iff account fun a mem => there a (List.mem_of_mem_take mem)]
    rw [List.take_eq_nil_iff]
    constructor
    · rintro (none | none)
      · exact .inl (by omega)
      · exact .inr (.inl none)
    · rintro (first | none | ⟨-, enough, -⟩ | ⟨-, enough, -⟩ | ⟨-, -, enough, -⟩)
      · exact .inl (by omega)
      · exact .inr none
      · exact .inr (List.length_eq_zero_iff.1 (by omega))
      · omega
      · omega

theorem migrate_begins :
    (Refused d slot pid f ∧ ∃ e, migrateFlatAccountToSlot slot pid f d n = (.error (.failed e), d, n)) ∨
      (¬Refused d slot pid f ∧ migrateFlatAccountToSlot slot pid f d n = migrate slot (stageName slot pid) f d n) := by
  have look : ∀ {α : Type} (p : Disk → Bool) (g : Bool → Io α), (observe p >>= g) d n = g (p d) d n := fun _ _ => rfl
  unfold migrateFlatAccountToSlot Refused
  by_cases invalid : validateSlotId slot = false
  · rw [if_pos invalid]
    exact .inl ⟨.inl invalid, _, rfl⟩
  rw [if_neg invalid, look]
  by_cases taken : d.dirs.contains slot = true
  · rw [if_pos taken]
    exact .inl ⟨.inr (.inl taken), _, rfl⟩
  rw [if_neg taken, look]
  by_cases unfinished : d.dirs.contains (stageName slot pid) = true
  · rw [if_pos unfinished]
    exact .inl ⟨.inr (.inr (.inl unfinished)), _, rfl⟩
  rw [if_neg unfinished]
  by_cases create : f.create = true
  · rw [if_pos create]
    exact .inl ⟨.inr (.inr (.inr create)), _, rfl⟩
  · rw [if_neg create]
    exact .inr ⟨by tauto, rfl⟩

/-- Cut off after `n` operations, a migration leaves the account where the next start finds
it, with all of its artifacts, exactly in the cases of `Whole`. -/
theorem migrated_account_found_iff (d : Disk) (slot : Text) (pid : Nat) (f : Faults) (n : Nat) (account : FlatAccount d slot) :
    Found d (migrateFlatAccountToSlot slot pid f d n).2.1 ↔ Whole d slot pid f n := by
  rcases migrate_begins with ⟨refused, e, idle⟩ | ⟨begins, same⟩
  · rw [idle]
    exact iff_of_true account.found (.inl refused)
  obtain ⟨r, makes⟩ := migrate_makes (f := f) slot (stageName slot pid) fun x read => account.unmarked read
  rw [same, makes.state]
  exact found_migrating account begins

/-! ## An account of two files -/

def sampleSlot : Text := "id-AAAAAAAAAAAAAAAAAAAAAAAA".toList

def otherSlot : Text := "id-BBBBBBBBBBBBBBBBBBBBBBBB".toList

/-- A sealed identity and a message store. -/
def sampleFolder : Folder
  | .identity => some [1]
  | .store => some [2]
  | _ => none

def sampleDisk : Disk := ⟨sampleFolder, ∅, ⟨none, none, none⟩⟩

/-- The same account beside a slot with another identity. -/
def sharedDisk : Disk := ⟨sampleFolder, (∅ : ExtTreeMap Text Folder).insert otherSlot fun _ => some [3], ⟨none, none, none⟩⟩

/-- Nothing is refused. -/
def noFaults : Faults := ⟨false, fun _ => none, fun _ => false, none, none, false, false, false⟩

theorem sampleAccount : FlatAccount sampleDisk sampleSlot where
  selected := by decide +kernel
  own slot folder there := by
    cases there
  unnamed := by decide +kernel

theorem migrated_account_found_sample : Found sampleDisk (migrateFlatAccountToSlot sampleSlot 7 noFaults sampleDisk 4).2.1 := by
  have lone : Lone sampleDisk := fun slot _ => by
    rfl
  refine (migrated_account_found_iff sampleDisk sampleSlot 7 noFaults 4 sampleAccount).2 (.inr (.inr (.inr (.inr (.inl ⟨?_, ?_, ?_, .inr lone⟩)))))
  · decide +kernel
  · decide +kernel
  · rintro ⟨failed | reload, -⟩
    · exact absurd rfl failed
    · cases reload

/-- Later starts, any number of them, select the same directory. -/
theorem selectActive_iterate :
    (selectActiveIdentityBeforeBootstrap ((fun d => (selectActiveIdentityBeforeBootstrap d).2)^[k] d)).1 =
      (selectActiveIdentityBeforeBootstrap d).1 := by
  induction k generalizing d with
  | zero => rfl
  | succ k ih =>
    rw [iterate_succ_apply, ih]
    exact selectActive_again

/-- Stopped after the identity is moved, the account is not found by any later start; stopped
after the commit, not beside another slot. -/
theorem identity_left_behind :
    (¬Found sampleDisk (migrateFlatAccountToSlot sampleSlot 7 noFaults sampleDisk 2).2.1 ∧
      ∀ k, (selectActiveIdentityBeforeBootstrap ((fun d => (selectActiveIdentityBeforeBootstrap d).2)^[k]
        (migrateFlatAccountToSlot sampleSlot 7 noFaults sampleDisk 2).2.1)).1 .identity = none) ∧
    ¬Found sharedDisk (migrateFlatAccountToSlot sampleSlot 7 noFaults sharedDisk 4).2.1 := by
  have gone : (selectActiveIdentityBeforeBootstrap (migrateFlatAccountToSlot sampleSlot 7 noFaults sampleDisk 2).2.1).1 .identity =
      none := by
    decide +kernel
  have shared : (selectActiveIdentityBeforeBootstrap (migrateFlatAccountToSlot sampleSlot 7 noFaults sharedDisk 4).2.1).1 .identity =
      none := by
    decide +kernel
  refine ⟨⟨not_found (by decide) gone, fun k => ?_⟩, not_found (by decide) shared⟩
  rw [selectActive_iterate]
  exact gone

end Osl.Hub.IdentitySlots
