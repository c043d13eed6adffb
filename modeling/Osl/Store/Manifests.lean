import Osl.Store.Seal

/-!
# When a manifest validates and a store opens

A manifest validates when it opens and lists the entries of the live attachment
rows of its message, in their order. A store opens when this holds for every
message with something live, and every other manifest belongs to a burned
message.
-/

namespace Osl.Store

open Base Table

variable {C : Crypto} {K : Keys} {db next : Db} {midBi : Bytes} {a : AttachmentRow} {m : AttachmentManifest}

/-! ## Live attachments of one message -/

theorem mem_liveAttachments :
    a ∈ db.liveAttachments midBi ↔ a ∈ db.attachments ∧ a.midBi = midBi ∧ a.burned = false := by
  simp [Db.liveAttachments, List.mem_filter, mem_rows]

theorem liveAttachments_nodup : (db.liveAttachments midBi).Nodup :=
  List.filter_sublist.nodup db.attachments.nodup

/-- The order of the live rows leaves no choice. -/
theorem liveAttachments_strict :
    ∀ a ∈ db.liveAttachments midBi, ∀ b ∈ db.liveAttachments midBi, a.rank = b.rank → a = b := by
  intro a memA b memB same
  exact eq_of_key (mem_liveAttachments.1 memA).1 (mem_liveAttachments.1 memB).1 (Prod.mk.inj same).2

/-- The rows of one message in the order of its manifest. -/
def Db.ordered (db : Db) (midBi : Bytes) : List AttachmentRow := orderBy AttachmentRow.rank (db.liveAttachments midBi)

theorem mem_ordered : a ∈ db.ordered midBi ↔ a ∈ db.attachments ∧ a.midBi = midBi ∧ a.burned = false := by
  rw [Db.ordered, mem_orderBy, mem_liveAttachments]

theorem ordered_congr (live : ∀ a, a.midBi = midBi → a.burned = false →
    (a ∈ next.attachments ↔ a ∈ db.attachments)) : next.ordered midBi = db.ordered midBi := by
  apply orderBy_congr _ (liveAttachments_strict)
  rw [List.perm_ext_iff_of_nodup (liveAttachments_nodup) (liveAttachments_nodup)]
  intro a
  rw [mem_liveAttachments, mem_liveAttachments]
  constructor
  · rintro ⟨mem, own, alive⟩
    exact ⟨(live a own alive).1 mem, own, alive⟩
  · rintro ⟨mem, own, alive⟩
    exact ⟨(live a own alive).2 mem, own, alive⟩

theorem ordered_eq_nil : db.ordered midBi = [] ↔ ∀ a ∈ db.attachments, a.midBi = midBi → a.burned = true := by
  rw [List.eq_nil_iff_forall_not_mem]
  constructor
  · intro none a mem own
    cases live : a.burned with
    | true => rfl
    | false => exact absurd (mem_ordered.2 ⟨mem, own, live⟩) (none a)
  · intro all a mem
    obtain ⟨mem, own, live⟩ := mem_ordered.1 mem
    rw [all a mem own] at live
    cases live

/-! ## Validation -/

/-- The entries are those of the rows. -/
def Describes (C : Crypto) (K : Keys) (rows : List AttachmentRow) (entries : List AttachmentManifestEntry) : Prop :=
  List.Forall₂ (fun row e => authenticateAttachmentRow C K row = .ok e) rows entries

/-- The check of the order never fails on rows that come ordered. -/
theorem validateRows_ok {rows : List AttachmentRow} {entries : List AttachmentManifestEntry}
    {previous : Option AttachmentRow} (sorted : rows.Pairwise fun a b => a.rank < b.rank)
    (before : ∀ p ∈ previous, ∀ row ∈ rows, p.rank < row.rank) (count : rows.length = entries.length) :
    validateRows C K previous (rows.zip entries) = .ok () ↔ Describes C K rows entries := by
  induction rows generalizing entries previous with
  | nil =>
    cases entries with
    | nil => exact ⟨fun _ => .nil, fun _ => rfl⟩
    | cons e entries => cases count
  | cons row rows ih =>
    cases entries with
    | nil => cases count
    | cons e entries =>
      rw [List.pairwise_cons] at sorted
      have canonical : ¬(previous.any fun p => row.seq.1 < p.seq.1 || (row.seq = p.seq && row.ckBi ≤ p.ckBi)) = true := by
        rw [Option.any_eq_true]
        rintro ⟨p, some, wrong⟩
        have less := Prod.Lex.toLex_lt_toLex.1 (before p some row (by simp))
        rw [Bool.or_eq_true, Bool.and_eq_true, decide_eq_true_eq, decide_eq_true_eq, decide_eq_true_eq] at wrong
        rcases wrong with lower | ⟨equal, lower⟩
        · rcases less with less | ⟨same, -⟩
          · exact absurd (lt_trans (show p.seq.1 < row.seq.1 from less) lower) (lt_irrefl _)
          · rw [show p.seq = row.seq from same] at lower
            exact lt_irrefl _ lower
        · rcases less with less | ⟨-, less⟩
          · rw [equal] at less
            exact lt_irrefl _ less
          · exact absurd less (not_lt.2 lower)
      have after : ∀ p ∈ some row, ∀ row' ∈ rows, p.rank < row'.rank := by
        rintro p ⟨⟩
        exact sorted.1
      have rest := ih sorted.2 after (Nat.succ.inj count)
      rw [List.zip_cons_cons, validateRows, if_neg canonical, bind_ok, Describes, List.forall₂_cons, ← Describes, ← rest]
      constructor
      · rintro ⟨actual, authentic, done⟩
        split at done
        · cases done
        · rename_i same
          rw [← not_not.1 same]
          exact ⟨authentic, done⟩
      · rintro ⟨authentic, done⟩
        exact ⟨e, authentic, by rw [if_neg (by simp)]; exact done⟩

theorem validate_ok :
    validateAttachmentManifest C K db midBi = .ok m ↔
      readAttachmentManifest C K db midBi = .ok (some m) ∧ Describes C K (db.ordered midBi) m.entries := by
  have sorted : (db.ordered midBi).Pairwise fun a b => a.rank < b.rank :=
    orderBy_strict (liveAttachments_nodup) (liveAttachments_strict)
  constructor
  · intro done
    obtain ⟨manifest, read, done⟩ := bind_ok.1 done
    obtain ⟨found, present, done⟩ := bind_ok.1 done
    simp only [] at done
    split at done
    · cases done
    · rename_i count
      obtain ⟨⟨⟩, rows, done⟩ := bind_ok.1 done
      cases done
      rw [required_ok.1 present] at read
      exact ⟨read, (validateRows_ok sorted (by rintro p ⟨⟩) (not_not.1 count)).1 rows⟩
  · rintro ⟨read, described⟩
    have count : (db.ordered midBi).length = m.entries.length := described.length_eq
    refine bind_ok.2 ⟨some m, read, bind_ok.2 ⟨m, rfl, ?_⟩⟩
    show (if (db.ordered midBi).length ≠ m.entries.length then _ else _) = _
    rw [if_neg (not_not.2 count)]
    exact bind_ok.2 ⟨(), (validateRows_ok sorted (by rintro p ⟨⟩) count).2 described, rfl⟩

theorem readAttachmentManifest_congr (manifest : next.manifests.find midBi = db.manifests.find midBi) :
    readAttachmentManifest C K next midBi = readAttachmentManifest C K db midBi := by
  rw [readAttachmentManifest, readAttachmentManifest, manifest]

theorem readAttachmentManifest_none :
    readAttachmentManifest C K db midBi = .ok none ↔ db.manifests.find midBi = none := by
  unfold readAttachmentManifest
  cases db.manifests.find midBi with
  | none => simp
  | some row =>
    simp only [reduceCtorEq, iff_false]
    intro read
    obtain ⟨m, -, wrong⟩ := map_ok.1 read
    cases wrong

theorem found_of_read (read : readAttachmentManifest C K db midBi = .ok (some m)) :
    db.manifests.find midBi ≠ none := by
  intro absent
  rw [readAttachmentManifest_none.2 absent] at read
  cases read

/-- Some manifest of the message validates. -/
def Valid (C : Crypto) (K : Keys) (db : Db) (midBi : Bytes) : Prop :=
  ∃ m, validateAttachmentManifest C K db midBi = .ok m

theorem Valid.congr (valid : Valid C K db midBi)
    (live : ∀ a, a.midBi = midBi → a.burned = false → (a ∈ next.attachments ↔ a ∈ db.attachments))
    (manifest : next.manifests.find midBi = db.manifests.find midBi) : Valid C K next midBi := by
  obtain ⟨m, done⟩ := valid
  obtain ⟨read, described⟩ := validate_ok.1 done
  refine ⟨m, validate_ok.2 ⟨?_, ?_⟩⟩
  · rw [readAttachmentManifest_congr manifest]
    exact read
  · rw [ordered_congr live]
    exact described

theorem Valid.manifest (valid : Valid C K db midBi) : db.manifests.find midBi ≠ none := by
  obtain ⟨m, done⟩ := valid
  exact found_of_read (validate_ok.1 done).1

/-! ## Opening -/

theorem owned_iff : db.owned midBi = true ↔
    (∃ r ∈ db.messages, r.midBi = midBi ∧ r.burned = false) ∨ ∃ a ∈ db.attachments, a.midBi = midBi ∧ a.burned = false := by
  simp [Db.owned, mem_rows]

/-- What opening asks of one message. -/
structure Covered (C : Crypto) (K : Keys) (db : Db) (midBi : Bytes) : Prop where
  valid : db.owned midBi = true → Valid C K db midBi
  stale : db.owned midBi = false → db.manifests.find midBi ≠ none →
    ∃ r ∈ db.messages, r.midBi = midBi ∧ r.burned = true

theorem mem_selectors : midBi ∈ db.selectors ↔ db.owned midBi = true ∨ db.manifests.find midBi ≠ none := by
  have manifest : db.manifests.find midBi ≠ none ↔ ∃ x ∈ db.manifests, x.midBi = midBi := by
    rw [ne_eq, find_eq_none]
    simp only [ne_eq, not_forall, not_not, exists_prop]
  rw [manifest, owned_iff, Db.selectors, mem_orderBy, List.mem_dedup]
  simp only [List.mem_append, List.mem_map, List.mem_filter, mem_rows, Bool.not_eq_true']
  constructor
  · rintro ((⟨r, ⟨mem, live⟩, own⟩ | ⟨a, ⟨mem, live⟩, own⟩) | found)
    · exact .inl (.inl ⟨r, mem, own, live⟩)
    · exact .inl (.inr ⟨a, mem, own, live⟩)
    · exact .inr found
  · rintro ((⟨r, mem, own, live⟩ | ⟨a, mem, own, live⟩) | found)
    · exact .inl (.inl ⟨r, ⟨mem, live⟩, own⟩)
    · exact .inl (.inr ⟨a, ⟨mem, live⟩, own⟩)
    · exact .inr found

theorem validateSelector_ok : validateSelector C K db midBi = .ok () ↔ (db.owned midBi = true → Valid C K db midBi) ∧
      (db.owned midBi = false → ∃ r ∈ db.messages, r.midBi = midBi ∧ r.burned = true) := by
  unfold validateSelector
  cases db.owned midBi with
  | true =>
    simp only [Bool.not_true, Bool.false_eq_true, if_false, forall_true_left, reduceCtorEq, IsEmpty.forall_iff,
      and_true]
    rw [bind_ok]
    constructor
    · rintro ⟨m, done, -⟩
      exact ⟨m, done⟩
    · rintro ⟨m, done⟩
      exact ⟨m, done, rfl⟩
  | false =>
    have burned : (db.messages.rows.any fun r => r.midBi = midBi && r.burned) = true ↔
        ∃ r ∈ db.messages, r.midBi = midBi ∧ r.burned = true := by
      simp [mem_rows]
    simp only [Bool.not_false, if_true, Bool.false_eq_true, IsEmpty.forall_iff, true_and, forall_true_left, ← burned]
    split
    · rename_i holds
      exact ⟨fun _ => holds, fun _ => rfl⟩
    · rename_i fails
      refine ⟨fun wrong => ?_, fun holds => absurd holds fails⟩
      cases wrong

theorem opens_iff : db.opens C K ↔ ∀ midBi, Covered C K db midBi := by
  rw [Db.opens, validateAllAttachmentManifests, forM_ok]
  constructor
  · intro all midBi
    constructor
    · intro owned
      exact (validateSelector_ok.1 (all midBi (mem_selectors.2 (.inl owned)))).1 owned
    · intro unowned manifest
      exact (validateSelector_ok.1 (all midBi (mem_selectors.2 (.inr manifest)))).2 unowned
  · intro all midBi mem
    refine validateSelector_ok.2 ⟨(all midBi).valid, ?_⟩
    intro unowned
    rcases mem_selectors.1 mem with owned | manifest
    · rw [unowned] at owned
      cases owned
    · exact (all midBi).stale unowned manifest

/-- Nothing of the message changed. -/
theorem Covered.congr (covered : Covered C K db midBi)
    (messages : ∀ r : MessageRow, r.midBi = midBi → (r ∈ next.messages ↔ r ∈ db.messages))
    (live : ∀ a : AttachmentRow, a.midBi = midBi → a.burned = false → (a ∈ next.attachments ↔ a ∈ db.attachments))
    (manifest : next.manifests.find midBi = db.manifests.find midBi) : Covered C K next midBi := by
  have owned : next.owned midBi = db.owned midBi := by
    rw [Bool.eq_iff_iff, owned_iff, owned_iff]
    constructor
    · rintro (⟨r, mem, own, alive⟩ | ⟨a, mem, own, alive⟩)
      · exact .inl ⟨r, (messages r own).1 mem, own, alive⟩
      · exact .inr ⟨a, (live a own alive).1 mem, own, alive⟩
    · rintro (⟨r, mem, own, alive⟩ | ⟨a, mem, own, alive⟩)
      · exact .inl ⟨r, (messages r own).2 mem, own, alive⟩
      · exact .inr ⟨a, (live a own alive).2 mem, own, alive⟩
  constructor
  · intro here
    rw [owned] at here
    exact (covered.valid here).congr live manifest
  · intro here found
    rw [owned] at here
    rw [manifest] at found
    obtain ⟨r, mem, own, burned⟩ := covered.stale here found
    exact ⟨r, (messages r own).2 mem, own, burned⟩

/-- Nothing live is left of the message, and no manifest. -/
theorem covered_of_removed (messages : ∀ r ∈ db.messages, r.midBi = midBi → r.burned = true)
    (attachments : ∀ a ∈ db.attachments, a.midBi = midBi → a.burned = true)
    (manifest : db.manifests.find midBi = none) : Covered C K db midBi := by
  constructor
  · intro owned
    rcases owned_iff.1 owned with ⟨r, mem, own, live⟩ | ⟨a, mem, own, live⟩
    · rw [messages r mem own] at live
      cases live
    · rw [attachments a mem own] at live
      cases live
  · intro _ found
    exact absurd manifest found

/-- A message whose manifest validates is covered if it has a row or a live attachment. -/
theorem covered_iff_of_valid (valid : Valid C K db midBi) : Covered C K db midBi ↔
    (∃ r ∈ db.messages, r.midBi = midBi) ∨ ∃ a ∈ db.attachments, a.midBi = midBi ∧ a.burned = false := by
  constructor
  · intro covered
    cases owned : db.owned midBi with
    | true =>
      rcases owned_iff.1 owned with ⟨r, mem, own, -⟩ | live
      · exact .inl ⟨r, mem, own⟩
      · exact .inr live
    | false =>
      obtain ⟨r, mem, own, -⟩ := covered.stale owned valid.manifest
      exact .inl ⟨r, mem, own⟩
  · intro present
    refine ⟨fun _ => valid, ?_⟩
    intro unowned _
    have dead : ¬db.owned midBi = true := by
      rw [unowned]
      exact Bool.false_ne_true
    rw [owned_iff, not_or] at dead
    rcases present with ⟨r, mem, own⟩ | live
    · cases burned : r.burned with
      | true => exact ⟨r, mem, own, burned⟩
      | false => exact absurd ⟨r, mem, own, burned⟩ dead.1
    · exact absurd live dead.2

end Osl.Store
