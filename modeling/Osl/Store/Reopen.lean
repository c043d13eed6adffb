import Mathlib.Data.List.Range
import Osl.Store.Burn
import Osl.Store.Manifests

/-!
# Which runs leave a store that opens

Opening is kept by every call but three. A `put` with the burned flag removes the
manifest of attachments it does not shred; deleting the attachments of a message
and trimming leave an empty manifest where no message row exists.
-/

namespace Osl.Store

open Base Table Db

variable {C : Crypto} {K : Keys} {db next emptied : Db} {seq version generation : I64} {a : AttachmentArgs} {msg : StoredMessage}
  {d : PutDraws} {row v : AttachmentRow} {e : AttachmentManifestEntry} {rows victims : List AttachmentRow}
  {entries : List AttachmentManifestEntry} {m : AttachmentManifest} {nonce other midBi ckBi mid : Bytes}
  {p : MessageRow → Bool} {r : MessageRow} {id scopeId cacheKey : String} {n keep : Nat} {onlySender : Option String}
  {mids : List Bytes} {nonces : Nonces}

/-! ## Sequence numbers -/

/-- Attachments have distinct positive sequence numbers, so their number fits a `u64`. -/
structure Numbered (db : Db) : Prop where
  positive : ∀ a ∈ db.attachments, 1 ≤ a.seq.1
  distinct : ∀ a ∈ db.attachments, ∀ b ∈ db.attachments, a.seq = b.seq → a.ckBi = b.ckBi

theorem numbered_fresh : Numbered fresh where
  positive a mem := absurd mem (not_mem_empty a)
  distinct a mem := absurd mem (not_mem_empty a)

theorem Shrinks.numbered (shrinks : Shrinks db next) (numbered : Numbered db) : Numbered next := by
  have origin : ∀ a ∈ next.attachments, ∃ a' ∈ db.attachments, a'.seq = a.seq ∧ a'.ckBi = a.ckBi := by
    intro a mem
    rcases shrinks.attachment a mem with was | ⟨a', was, rfl⟩
    · exact ⟨a, was, rfl, rfl⟩
    · exact ⟨a', was, rfl, rfl⟩
  constructor
  · intro a mem
    obtain ⟨a', was, seq, -⟩ := origin a mem
    rw [← seq]
    exact numbered.positive a' was
  · intro a memA b memB same
    obtain ⟨a', wasA, seqA, ckA⟩ := origin a memA
    obtain ⟨b', wasB, seqB, ckB⟩ := origin b memB
    rw [← ckA, ← ckB]
    exact numbered.distinct a' wasA b' wasB (seqA.trans (same.trans seqB.symm))

theorem Numbered.congr (numbered : Numbered db) (attachments : next.attachments = db.attachments) : Numbered next where
  positive := by
    rw [attachments]
    exact numbered.positive
  distinct := by
    rw [attachments]
    exact numbered.distinct

theorem nextSeq_ok {seqs : List I64} (done : nextSeq seqs = .ok seq) (positive : ∀ s ∈ seqs, 1 ≤ s.1) :
    1 ≤ seq.1 ∧ ∀ s ∈ seqs, s.1 < seq.1 := by
  unfold nextSeq at done
  cases found : (seqs.max?.getD I64.zero).next? with
  | none =>
    rw [found] at done
    cases done
  | some next =>
    rw [found] at done
    cases done
    have value := I64.next?_val found
    cases most : seqs.max? with
    | none =>
      rw [most, Option.getD_none] at value
      rw [List.max?_eq_none_iff.1 most]
      exact ⟨le_of_eq value.symm, by simp⟩
    | some top =>
      rw [most, Option.getD_some] at value
      obtain ⟨mem, largest⟩ := List.max?_eq_some_iff.1 most
      have atop := positive top mem
      refine ⟨by omega, ?_⟩
      intro s memS
      have below : s.1 ≤ top.1 := largest s memS
      omega

/-- Where `put_attachment` puts its row. -/
theorem nextAttachment_ok (numbered : Numbered db)
    (done : nextAttachment C K db cacheKey (db.attachments.find ckBi) = .ok (seq, version)) :
    1 ≤ version.1 ∧ 1 ≤ seq.1 ∧ ∀ a ∈ db.attachments, a.seq = seq → a.ckBi = ckBi := by
  cases found : db.attachments.find ckBi with
  | none =>
    rw [found] at done
    obtain ⟨next, next', done⟩ := bind_ok.1 done
    cases done
    obtain ⟨positive, above⟩ := nextSeq_ok next' (by
      intro s mem
      obtain ⟨a, memA, rfl⟩ := List.mem_map.1 mem
      exact numbered.positive a memA)
    refine ⟨le_refl 1, positive, ?_⟩
    intro a mem same
    have less := above a.seq (List.mem_map_of_mem mem)
    rw [same] at less
    exact absurd less (lt_irrefl _)
  | some old =>
    obtain ⟨mem, own⟩ := find_eq_some.1 found
    rw [found] at done
    unfold nextAttachment at done
    simp only [] at done
    split at done
    · cases done
    obtain ⟨metadata, -, done⟩ := bind_ok.1 done
    obtain ⟨m, -, done⟩ := bind_ok.1 done
    split at done
    · cases done
    split at done
    · cases done
    obtain ⟨wrapperNonce, -, done⟩ := bind_ok.1 done
    obtain ⟨wrapper, -, done⟩ := bind_ok.1 done
    obtain ⟨plaintext, -, done⟩ := bind_ok.1 done
    cases next : old.contentVersion.next? with
    | none =>
      rw [next] at done
      cases done
    | some version =>
      rw [next] at done
      cases done
      have value := I64.next?_val next
      refine ⟨by omega, numbered.positive old mem, ?_⟩
      intro a memA same
      exact (numbered.distinct a memA old mem same).trans own

theorem putAttachment_numbered {d : AttachmentDraws} (numbered : Numbered db)
    (done : putAttachment C K a d db = .ok next) : Numbered next := by
  rcases putAttachment_ok done with rfl | ⟨m, advanced, seq, version, ran⟩
  · exact numbered
  obtain ⟨-, attachments⟩ := putAttachment_rows ran
  obtain ⟨-, positive, free⟩ := nextAttachment_ok numbered ran.place
  constructor
  · rw [attachments]
    exact forall_put positive numbered.positive
  · intro x memX y memY same
    rw [attachments] at memX memY
    rcases mem_put.1 memX with rfl | ⟨memX, -⟩
    · rcases mem_put.1 memY with rfl | ⟨memY, -⟩
      · rfl
      · exact (free y memY same.symm).symm
    · rcases mem_put.1 memY with rfl | ⟨memY, -⟩
      · exact free x memX same
      · exact numbered.distinct x memX y memY same

theorem put_attachments (done : put C K msg d db = .ok next) :
    next.attachments = db.attachments := by
  rcases put_ok done with ⟨-, rfl⟩ | ⟨version, seq, -, ⟨-, rfl⟩ | ⟨-, live⟩⟩
  · rfl
  · exact putBurned_attachments
  · exact (putLive_rows live).2

theorem step_numbered (db : Db) (op : Op) (numbered : Numbered db) : Numbered (step C K db op) := by
  rcases step_cases (C := C) (K := K) db op with same | done
  · rw [same]
    exact numbered
  · cases op with
    | put msg short d => exact numbered.congr (put_attachments done)
    | putAttachment a short d => exact putAttachment_numbered numbered done
    | _ => exact (call_shrinks done (by simp) (by simp)).numbered numbered

/-- Their number fits the count field of a manifest. -/
theorem Numbered.count (numbered : Numbered db) (midBi : Bytes) : (db.ordered midBi).length < 256 ^ 8 := by
  have same : (db.ordered midBi).length = (db.liveAttachments midBi).length := (orderBy_perm _ _).length_eq
  have distinct : ((db.liveAttachments midBi).map fun a => a.seq.1.toNat).Nodup := by
    refine (liveAttachments_nodup).map_on ?_
    intro a memA b memB equal
    have memA := (mem_liveAttachments.1 memA).1
    have memB := (mem_liveAttachments.1 memB).1
    have lowA := numbered.positive a memA
    exact eq_of_key memA memB (numbered.distinct a memA b memB (Subtype.ext (by omega)))
  have bounded : ((db.liveAttachments midBi).map fun a => a.seq.1.toNat) ⊆ List.range (2 ^ 63) := by
    intro n mem
    obtain ⟨a, memA, rfl⟩ := List.mem_map.1 mem
    have high := a.seq.2.2
    rw [List.mem_range]
    omega
  have most := (distinct.subperm bounded).length_le
  rw [List.length_map, List.length_range] at most
  omega

/-! ## Manifests after a write -/

/-- The entry a row should have. -/
def entryOf (C : Crypto) (K : Keys) (row : AttachmentRow) : AttachmentManifestEntry :=
  match authenticateAttachmentRow C K row with
  | .ok e => e
  | .error _ => ⟨[], row.seq, row.contentVersion, [], [], []⟩

theorem entryOf_eq (authentic : authenticateAttachmentRow C K row = .ok e) : entryOf C K row = e := by
  rw [entryOf, authentic]

theorem describes_iff :
    Describes C K rows entries ↔
      entries = rows.map (entryOf C K) ∧ ∀ row ∈ rows, authenticateAttachmentRow C K row = .ok (entryOf C K row) := by
  induction rows generalizing entries with
  | nil =>
    rw [Describes, List.forall₂_nil_left_iff]
    simp
  | cons row rows ih =>
    constructor
    · rintro (_ | ⟨authentic, rest⟩)
      obtain ⟨rfl, all⟩ := ih.1 rest
      have first := entryOf_eq authentic
      refine ⟨by rw [List.map_cons, first], ?_⟩
      rw [List.forall_mem_cons, first]
      exact ⟨authentic, all⟩
    · rintro ⟨rfl, all⟩
      rw [List.forall_mem_cons] at all
      exact .cons all.1 (ih.2 ⟨rfl, all.2⟩)

theorem Describes.sized (ideal : C.Ideal)
    (described : Describes C K rows m.entries) (count : rows.length < 256 ^ 8) : m.Sized := by
  obtain ⟨entries, all⟩ := describes_iff.1 described
  constructor
  · intro e mem
    rw [entries] at mem
    obtain ⟨row, memRow, rfl⟩ := List.mem_map.1 mem
    exact authenticate_sized ideal (all row memRow)
  · rw [entries, List.length_map]
    exact count

theorem Wrote.find (wrote : Wrote C K db midBi m nonce next) (ne : other ≠ midBi) :
    next.manifests.find other = db.manifests.find other := by
  rw [wrote.after]
  exact find_put_of_ne ne

theorem Wrote.found
    (wrote : Wrote C K db midBi m nonce next) : next.manifests.find midBi = some ⟨midBi, m.complete, m.generation, nonce,
      sealWith C K.key (attachmentManifestAad midBi m.complete m.generation) nonce (encodeAttachmentManifest m)⟩ := by
  rw [wrote.after]
  exact find_put_self

section
variable (ideal : C.Ideal) (wrote : Wrote C K db midBi m nonce next) (size : nonce.length = nonceSize)
include ideal wrote size

theorem Wrote.read (sized : m.Sized) : readAttachmentManifest C K next midBi = .ok (some m) := by
  rw [readAttachmentManifest, wrote.found]
  exact map_ok.2 ⟨m, unsealAttachmentManifest_seal ideal size wrote.positive sized, rfl⟩

/-- A manifest that describes the rows now there validates once written. -/
theorem Wrote.valid (numbered : Numbered next)
    (described : Describes C K (next.ordered midBi) m.entries) : Valid C K next midBi :=
  ⟨m, validate_ok.2 ⟨wrote.read ideal size (described.sized ideal (numbered.count midBi)), described⟩⟩

end

/-! ## Rows of a message that a statement spares -/

theorem mem_shredMessages_of_spared
    (spared : ∀ r ∈ db.messages, r.midBi = midBi → p r = false) (own : r.midBi = midBi) :
    r ∈ (db.shredMessages p).messages ↔ r ∈ db.messages := by
  rw [mem_shredMessages]
  constructor
  · rintro (⟨r', mem, holds, rfl⟩ | ⟨mem, -⟩)
    · rw [spared r' mem own] at holds
      cases holds
    · exact mem
  · intro mem
    exact .inr ⟨mem, spared r mem own⟩

theorem mem_shredAttachments_of_spared {p : AttachmentRow → Bool}
    (spared : ∀ a ∈ db.attachments, a.midBi = midBi → p a = false) {a : AttachmentRow} (own : a.midBi = midBi) :
    a ∈ (db.shredAttachments p).attachments ↔ a ∈ db.attachments := by
  rw [mem_shredAttachments]
  constructor
  · rintro (⟨a', mem, holds, rfl⟩ | ⟨mem, -⟩)
    · rw [spared a' mem own] at holds
      cases holds
    · exact mem
  · intro mem
    exact .inr ⟨mem, spared a mem own⟩

theorem shredMessages_burned (all : ∀ r ∈ db.messages, r.midBi = midBi → r.burned = false → p r = true) :
    ∀ r ∈ (db.shredMessages p).messages, r.midBi = midBi → r.burned = true := by
  intro r mem own
  rcases mem_shredMessages.1 mem with ⟨r', -, -, rfl⟩ | ⟨mem, fails⟩
  · rfl
  · cases live : r.burned with
    | true => rfl
    | false =>
      rw [all r mem own live] at fails
      cases fails

theorem shredAttachments_burned {p : AttachmentRow → Bool}
    (all : ∀ a ∈ db.attachments, a.midBi = midBi → a.burned = false → p a = true) :
    ∀ a ∈ (db.shredAttachments p).attachments, a.midBi = midBi → a.burned = true := by
  intro a mem own
  rcases mem_shredAttachments.1 mem with ⟨a', -, -, rfl⟩ | ⟨mem, fails⟩
  · rfl
  · cases live : a.burned with
    | true => rfl
    | false =>
      rw [all a mem own live] at fails
      cases fails

theorem find_delete_none {t : Table ManifestRow.midBi} {p : ManifestRow → Bool}
    (all : ∀ x ∈ t, x.midBi = midBi → p x = true) : (t.delete p).find midBi = none := by
  rw [find_eq_none]
  intro x mem own
  obtain ⟨mem, fails⟩ := mem_delete.1 mem
  rw [all x mem own] at fails
  cases fails

/-! ## Calls that remove -/

/-- The call took away everything of the messages in `gone` and touched no other. -/
structure Removes (db next : Db) (gone : Bytes → Prop) : Prop where
  messages : ∀ r ∈ next.messages, gone r.midBi → r.burned = true
  attachments : ∀ a ∈ next.attachments, gone a.midBi → a.burned = true
  manifests : ∀ midBi, gone midBi → next.manifests.find midBi = none
  message : ∀ r : MessageRow, ¬gone r.midBi → (r ∈ next.messages ↔ r ∈ db.messages)
  attachment : ∀ a : AttachmentRow, ¬gone a.midBi → (a ∈ next.attachments ↔ a ∈ db.attachments)
  manifest : ∀ midBi, ¬gone midBi → next.manifests.find midBi = db.manifests.find midBi

theorem Removes.opens {gone : Bytes → Prop} (removes : Removes db next gone) (opens : db.opens C K) :
    next.opens C K := by
  rw [opens_iff] at opens ⊢
  intro midBi
  by_cases hit : gone midBi
  · apply covered_of_removed
    · intro r mem own
      exact removes.messages r mem (own ▸ hit)
    · intro a mem own
      exact removes.attachments a mem (own ▸ hit)
    · exact removes.manifests midBi hit
  · apply (opens midBi).congr
    · intro r own
      exact removes.message r (own ▸ hit)
    · intro a own _
      exact removes.attachment a (own ▸ hit)
    · exact removes.manifest midBi hit

/-- Shredding the live messages in `gone`, with their attachments and manifests. -/
theorem removes_of_shred (gone : Bytes → Bool) (own : ∀ r ∈ db.messages, p r = true → gone r.midBi = true)
    (all : ∀ r ∈ db.messages, gone r.midBi = true → r.burned = false → p r = true) :
    Removes db (((db.shredMessages p).shredAttachments (gone ·.midBi)).deleteManifests (gone ·.midBi)) (gone · = true) where
  messages r mem hit := shredMessages_burned (fun r' mem' same => all r' mem' (same ▸ hit)) r mem rfl
  attachments a mem hit := @shredAttachments_burned (db.shredMessages p) a.midBi _ (fun _ _ same _ => same ▸ hit) a mem rfl
  manifests mid hit := find_delete_none fun _ _ same => same ▸ hit
  message r other := by
    refine mem_shredMessages_of_spared ?_ rfl
    intro r' mem' same
    cases holds : p r' with
    | false => rfl
    | true => exact absurd (same ▸ own r' mem' holds) other
  attachment a other := by
    refine @mem_shredAttachments_of_spared (db.shredMessages p) a.midBi _ ?_ a rfl
    intro a' _ same
    rw [same]
    exact Bool.eq_false_iff.2 other
  manifest mid other := by
    apply find_delete
    intro x _ same
    rw [same]
    exact Bool.eq_false_iff.2 other

theorem shredExpiredMessages_opens {ids : List String} (opens : db.opens C K)
    (done : shredExpiredMessages C K ids db = .ok (n, next)) : next.opens C K := by
  refine shredExpiredMessages_rule (I := fun db => db.opens C K) ?_ opens done
  intro between midBi before
  refine (removes_of_shred (· = midBi) ?_ ?_).opens before
  · intro r _ holds
    exact (Bool.and_eq_true_iff.1 holds).1
  · intro r _ own live
    rw [own, live]
    rfl

/-- A message row in the scope is the row of its id. -/
theorem ofMessages_row (p : MessageRow → Bool) (mem : r ∈ db.messages) : db.ofMessages p r.midBi = p r := by
  rw [Bool.eq_iff_iff, mem_ofMessages]
  constructor
  · rintro ⟨r', mem', same, holds⟩
    rwa [← eq_of_key mem' mem same]
  · intro holds
    exact ⟨r, mem, rfl, holds⟩

section
variable (opens : db.opens C K)
include opens

theorem wipeWrappedKeysInScope_opens (done : wipeWrappedKeysInScope C K scopeId onlySender db = .ok (n, next)) :
    next.opens C K := by
  rw [wipeWrappedKeysInScope_ok done]
  set scope := inScope C K scopeId onlySender
  have removes : Removes db (((db.shredMessages scope).shredAttachments (db.ofMessages scope ·.midBi)).deleteManifests
      (db.ofMessages scope ·.midBi)) (db.ofMessages scope · = true) := by
    apply removes_of_shred
    · intro r mem holds
      rw [ofMessages_row scope mem]
      exact holds
    · intro r mem hit _
      rw [← ofMessages_row scope mem]
      exact hit
  exact removes.opens opens

theorem deleteMessagesInChannel_opens {channelId : String}
    (done : deleteMessagesInChannel C K channelId db = .ok (n, next)) : next.opens C K := by
  rw [deleteMessagesInChannel_ok done]
  set channel := inScope C K channelId none
  refine @Removes.opens C K db _ (fun midBi => db.ofMessages channel midBi = true) ?_ opens
  constructor
  · intro r mem hit
    obtain ⟨mem, fails⟩ := mem_delete.1 mem
    rw [ofMessages_row channel mem, fails] at hit
    cases hit
  · intro a mem hit
    rw [(mem_delete.1 mem).2] at hit
    cases hit
  · intro midBi hit
    apply find_delete_none
    intro x _ same
    rw [same]
    exact hit
  · intro r other
    rw [mem_delete]
    refine ⟨fun kept => kept.1, fun mem => ⟨mem, ?_⟩⟩
    rw [← ofMessages_row channel mem]
    exact Bool.eq_false_iff.2 other
  · intro a other
    rw [mem_delete]
    exact ⟨fun kept => kept.1, fun mem => ⟨mem, Bool.eq_false_iff.2 other⟩⟩
  · intro midBi other
    apply find_delete
    intro x _ same
    rw [same]
    exact Bool.eq_false_iff.2 other

/-! ## Storing a message -/

/-- No manifest means nothing live. -/
theorem ordered_nil_of_no_manifest (absent : db.manifests.find midBi = none) : db.ordered midBi = [] := by
  rw [ordered_eq_nil]
  intro a mem own
  cases live : a.burned with
  | true => rfl
  | false =>
    have owned := owned_iff.2 (.inr ⟨a, mem, own, live⟩)
    exact absurd absent ((opens_iff.1 opens midBi).valid owned).manifest

/-- A manifest of a message that is not burned validates. -/
theorem valid_of_manifest
    (unburned : ∀ r ∈ db.messages, r.midBi = midBi → r.burned = false) (found : db.manifests.find midBi ≠ none) :
    Valid C K db midBi := by
  have covered := opens_iff.1 opens midBi
  cases owned : db.owned midBi with
  | true => exact covered.valid owned
  | false =>
    obtain ⟨r, mem, own, burned⟩ := covered.stale owned found
    rw [unburned r mem own] at burned
    cases burned

end

theorem putLive_opens (ideal : C.Ideal) (numbered : Numbered db) (opens : db.opens C K)
    (unburned : ∀ r ∈ db.messages, r.midBi = midBi → r.burned = false)
    (done : putLive C K db msg midBi version seq d = .ok next) : next.opens C K := by
  obtain ⟨⟨seq', messages⟩, attachments⟩ := putLive_rows done
  have row : sealedRow C K msg midBi version seq' d ∈ next.messages := by
    rw [messages]
    exact mem_put_self
  have others : ∀ mid, mid ≠ midBi → next.manifests.find mid = db.manifests.find mid := by
    obtain ⟨seq₀, stored, rfl, ⟨-, rfl⟩ | ⟨-, wrote⟩⟩ := putLive_ok done
    · intro mid _
      rfl
    · intro mid ne
      exact wrote.find ne
  have valid : Valid C K next midBi := by
    obtain ⟨seq₀, stored, rfl, ⟨⟨m, read⟩, rfl⟩ | ⟨read, wrote⟩⟩ := putLive_ok done
    · exact (valid_of_manifest opens unburned (found_of_read read)).congr (fun _ _ _ => Iff.rfl) rfl
    · have empty : next.ordered midBi = [] := by
        have same : next.ordered midBi = db.ordered midBi := by
          apply ordered_congr
          rw [attachments]
          exact fun _ _ _ => Iff.rfl
        rw [same]
        exact ordered_nil_of_no_manifest opens (readAttachmentManifest_none.1 read)
      refine wrote.valid ideal d.manifestNonce_length (numbered.congr attachments) ?_
      rw [empty]
      exact .nil
  rw [opens_iff]
  intro mid
  by_cases same : mid = midBi
  · rw [same]
    exact (covered_iff_of_valid valid).2 (.inl ⟨_, row, rfl⟩)
  · refine (opens_iff.1 opens mid).congr ?_ ?_ (others mid same)
    · intro r own
      rw [messages]
      exact mem_put_of_ne fun equal => same (own.symm.trans equal)
    · rw [attachments]
      exact fun _ _ _ => Iff.rfl

/-- The flag deletes the manifest; whatever attachment is live then has none. -/
theorem putBurned_opens_iff (opens : db.opens C K) : (putBurned C K db msg midBi version seq d).opens C K ↔
      ∀ a ∈ db.attachments, a.midBi = midBi → a.burned = true := by
  have gone : (putBurned C K db msg midBi version seq d).manifests.find midBi = none := by
    exact find_delete_none fun _ _ same => decide_eq_true same
  constructor
  · intro next
    have empty := ordered_nil_of_no_manifest next gone
    rw [ordered_eq_nil, putBurned_attachments] at empty
    exact empty
  · intro dead
    rw [opens_iff]
    intro mid
    by_cases same : mid = midBi
    · subst same
      apply covered_of_removed _ _ gone
      · intro r mem own
        rcases mem_putBurned mem with ⟨-, other⟩ | ⟨r', rfl, -⟩
        · exact absurd own other
        · rfl
      · rw [putBurned_attachments]
        exact dead
    · apply (opens_iff.1 opens mid).congr
      · intro r own
        constructor
        · intro mem
          rcases mem_putBurned mem with ⟨mem, -⟩ | ⟨r', rfl, own', -⟩
          · exact mem
          · exact absurd (own.symm.trans own') same
        · intro mem
          exact putBurned_kept mem fun equal => same (own.symm.trans equal)
      · rw [putBurned_attachments]
        exact fun _ _ _ => Iff.rfl
      · have manifests : (putBurned C K db msg midBi version seq d).manifests = db.manifests.delete (·.midBi = midBi) := by
          unfold putBurned
          cases db.messages.find midBi <;> rfl
        rw [manifests]
        apply find_delete
        intro x _ own
        exact decide_eq_false fun equal => same (own.symm.trans equal)

/-! ## Storing an attachment -/

theorem ordered_distinct (db : Db) (midBi : Bytes) : ((db.ordered midBi).map (·.ckBi)).Nodup := by
  have perm := (orderBy_perm AttachmentRow.rank (db.liveAttachments midBi)).map (·.ckBi)
  exact perm.nodup_iff.2 ((List.filter_sublist.map _).nodup db.attachments.distinct)

/-- The manifest `put_attachment` starts from describes the live rows. -/
theorem currentManifest_ok (opens : db.opens C K)
    (done : currentManifest C K db midBi = .ok m) : Describes C K (db.ordered midBi) m.entries := by
  obtain ⟨manifest, read, done⟩ := bind_ok.1 done
  cases manifest with
  | some found => exact (validate_ok.1 done).2
  | none =>
    cases done
    rw [ordered_nil_of_no_manifest opens (readAttachmentManifest_none.1 read)]
    exact .nil

/-- Placing a row among the live ones and its entry in the manifest keeps the description. -/
theorem describes_replaceEntry (described : Describes C K (db.ordered midBi) entries)
    (authentic : authenticateAttachmentRow C K row = .ok e) (own : row.midBi = midBi) (live : row.burned = false)
    (rows : next.attachments = db.attachments.put row) :
    Describes C K (next.ordered midBi) (replaceEntry entries e) := by
  obtain ⟨rfl, all⟩ := describes_iff.1 described
  obtain rfl : entryOf C K row = e := entryOf_eq authentic
  set placed := place (fun x : AttachmentRow => x.ckBi = row.ckBi) row (db.ordered midBi) with def_placed
  have perm := place_perm (ordered_distinct db midBi) row
  have mem_placed : ∀ x, x ∈ placed ↔ x = row ∨ x ∈ db.ordered midBi ∧ x.ckBi ≠ row.ckBi := by
    intro x
    rw [def_placed, perm.mem_iff, List.mem_append, List.mem_filter, List.mem_singleton, decide_eq_true_eq, or_comm]
  have nodup : placed.Nodup := by
    rw [def_placed, perm.nodup_iff, List.nodup_append]
    refine ⟨List.filter_sublist.nodup (List.Nodup.of_map _ (ordered_distinct db midBi)), by simp, ?_⟩
    intro x memX y memY
    rw [List.mem_singleton] at memY
    rintro rfl
    have ne := of_decide_eq_true (List.mem_filter.1 memX).2
    exact ne (by rw [memY])
  have authenticAll : ∀ x ∈ placed, authenticateAttachmentRow C K x = .ok (entryOf C K x) := by
    intro x mem
    rcases (mem_placed x).1 mem with rfl | ⟨mem, -⟩
    · exact authentic
    · exact all x mem
  have ordered : next.ordered midBi = orderBy AttachmentRow.rank placed := by
    apply orderBy_congr _ (liveAttachments_strict)
    rw [List.perm_ext_iff_of_nodup (liveAttachments_nodup) nodup]
    intro x
    rw [mem_liveAttachments, mem_placed, mem_ordered, rows, mem_put]
    constructor
    · rintro ⟨rfl | ⟨mem, ne⟩, mid, alive⟩
      · exact .inl rfl
      · exact .inr ⟨⟨mem, mid, alive⟩, ne⟩
    · rintro (rfl | ⟨⟨mem, mid, alive⟩, ne⟩)
      · exact ⟨.inl rfl, own, live⟩
      · exact ⟨.inr ⟨mem, ne⟩, mid, alive⟩
  have entries : replaceEntry ((db.ordered midBi).map (entryOf C K)) (entryOf C K row) =
      (next.ordered midBi).map (entryOf C K) := by
    rw [ordered, map_orderBy fun x mem => (authenticate_rank (authenticAll x mem)).2, replaceEntry, def_placed]
    congr 1
    symm
    apply map_place
    intro x mem
    rw [(authenticate_rank (all x mem)).1, (authenticate_rank authentic).1]
  rw [entries, describes_iff]
  refine ⟨rfl, ?_⟩
  intro x mem
  rw [ordered, mem_orderBy] at mem
  exact authenticAll x mem

theorem putAttachment_opens (ideal : C.Ideal) (short : a.Short) {d : AttachmentDraws}
    (sound : Sound C K db) (numbered : Numbered db) (opens : db.opens C K)
    (done : putAttachment C K a d db = .ok next) : next.opens C K := by
  have numbered' := putAttachment_numbered numbered done
  rcases putAttachment_ok done with rfl | ⟨m, advanced, seq, version, ran⟩
  · exact opens
  obtain ⟨messages, attachments⟩ := putAttachment_rows ran
  obtain ⟨positive, -, -⟩ := nextAttachment_ok numbered ran.place
  have authentic := @authenticate_sealedAttachment C K a ideal short seq version d positive
  set row := sealedAttachment C K a (bi C K biCacheKey a.cacheKey) (bi C K biMessageId a.discordMessageId) seq version d
    with def_row
  have described : Describes C K (next.ordered row.midBi) advanced.entries := by
    rw [(advance_ok ran.advance).1]
    exact describes_replaceEntry (currentManifest_ok opens ran.current) authentic rfl rfl attachments
  have valid := ran.wrote.valid ideal d.manifestNonce_length numbered' described
  have row_mem : row ∈ next.attachments := by
    rw [attachments]
    exact mem_put_self
  rw [opens_iff]
  intro mid
  by_cases same : mid = bi C K biMessageId a.discordMessageId
  · rw [same]
    exact (covered_iff_of_valid valid).2 (.inr ⟨row, row_mem, rfl, rfl⟩)
  · refine (opens_iff.1 opens mid).congr ?_ ?_ (ran.wrote.find same)
    · rw [messages]
      exact fun _ _ => Iff.rfl
    · intro x own _
      rw [attachments, mem_put]
      constructor
      · rintro (rfl | ⟨mem, -⟩)
        · exact absurd own.symm same
        · exact mem
      · intro mem
        -- a row of the same cache key belongs to this message
        refine .inr ⟨mem, fun equal => same ?_⟩
        rw [← own]
        exact sound.owner ideal mem equal

/-! ## Emptying manifests -/

theorem sized_of_empty (empty : m.entries = []) : m.Sized := by
  constructor
  · rw [empty]
    intro e mem
    cases mem
  · rw [empty]
    decide

/-- Deleting a message's attachments leaves a manifest, so a message row must be there. -/
theorem deleteAttachments_opens_iff (ideal : C.Ideal) (size : nonce.length = nonceSize)
    (opens : db.opens C K) (done : transitionManifestToEmpty C K db midBi nonce = .ok emptied) :
    (emptied.shredAttachments (·.midBi = midBi)).opens C K ↔ ∃ r ∈ db.messages, r.midBi = midBi := by
  obtain ⟨m, empty, -, none, wrote⟩ := transitionManifestToEmpty_ok done
  set next := emptied.shredAttachments (·.midBi = midBi) with def_next
  have messages : next.messages = db.messages := by
    rw [def_next, wrote.after]
    rfl
  have attachments : emptied.attachments = db.attachments := by rw [wrote.after]
  have dead : ∀ a ∈ next.attachments, a.midBi = midBi → a.burned = true :=
    shredAttachments_burned fun _ _ same _ => decide_eq_true same
  have valid : Valid C K next midBi := by
    have read := wrote.read ideal size (sized_of_empty none)
    refine ⟨empty, validate_ok.2 ⟨read, ?_⟩⟩
    rw [ordered_eq_nil.2 dead, none]
    exact .nil
  constructor
  · intro opensNext
    rcases (covered_iff_of_valid valid).1 (opens_iff.1 opensNext midBi) with row | ⟨a, mem, own, live⟩
    · rwa [messages] at row
    · rw [dead a mem own] at live
      cases live
  · intro row
    rw [opens_iff]
    intro mid
    by_cases same : mid = midBi
    · rw [same]
      refine (covered_iff_of_valid valid).2 (.inl ?_)
      rwa [messages]
    · refine (opens_iff.1 opens mid).congr ?_ ?_ (wrote.find same)
      · rw [messages]
        exact fun _ _ => Iff.rfl
      · intro a own _
        rw [← attachments]
        refine mem_shredAttachments_of_spared ?_ own
        intro a' _ own'
        exact decide_eq_false fun equal => same (own'.symm.trans equal)

theorem Rewrote.read (ideal : C.Ideal) {nonce : Bytes → Bytes} (size : ∀ mid, (nonce mid).length = nonceSize)
    {P : Db → Bytes → AttachmentManifest → Prop} {Q : Bytes → AttachmentManifest → Prop}
    (rewrote : Rewrote C K nonce P mids db next)
    (good : ∀ db' mid m, db'.attachments = db.attachments → P db' mid m → m.Sized ∧ Q mid m) :
    (∀ mid ∈ mids, ∃ m, readAttachmentManifest C K next mid = .ok (some m) ∧ Q mid m) ∧
      ∀ mid ∉ mids, next.manifests.find mid = db.manifests.find mid := by
  induction rewrote with
  | nil => exact ⟨fun mid mem => absurd mem (List.not_mem_nil), fun _ _ => rfl⟩
  | @cons first mids m db between next holds wrote rest ih =>
    have rows : between.attachments = db.attachments := by rw [wrote.after]
    obtain ⟨hit, spared⟩ := ih fun db' mid m same => good db' mid m (same.trans rows)
    constructor
    · intro mid mem
      by_cases later : mid ∈ mids
      · exact hit mid later
      · obtain rfl : mid = first := (List.mem_cons.1 mem).resolve_right later
        obtain ⟨sized, own⟩ := good db mid m rfl holds
        refine ⟨m, ?_, own⟩
        rw [readAttachmentManifest_congr (spared mid later)]
        exact wrote.read ideal (size mid) sized
    · intro mid other
      rw [List.mem_cons, not_or] at other
      rw [spared mid other.2, wrote.find other.1]

theorem wipeAttachmentsInScope_opens (ideal : C.Ideal) (opens : db.opens C K)
    (done : wipeAttachmentsInScope C K scopeId onlySender nonces.nonce db = .ok (n, next)) : next.opens C K := by
  obtain ⟨emptied, empty, rfl⟩ := wipeAttachmentsInScope_ok done
  set scope := inScope C K scopeId onlySender
  obtain ⟨messages, attachments⟩ := (emptyManifests_ok empty).rows
  obtain ⟨hit, spared⟩ := (emptyManifests_ok empty).read ideal nonces.length fun _ _ m _ none => ⟨sized_of_empty none, none⟩
  set next := emptied.shredAttachments fun a => !a.burned && db.ofMessages scope a.midBi with def_next
  have rows : next.messages = db.messages := messages
  rw [opens_iff]
  intro mid
  by_cases inside : db.ofMessages scope mid = true
  · obtain ⟨r, mem, rfl, holds⟩ := mem_ofMessages.1 inside
    have dead : ∀ a ∈ next.attachments, a.midBi = r.midBi → a.burned = true := by
      apply shredAttachments_burned
      intro a _ own live
      rw [live, own, inside]
      rfl
    cases burned : r.burned with
    | false =>
      have target : r.midBi ∈ (db.messages.rows.filter fun r => scope r && !r.burned).map (·.midBi) := by
        refine List.mem_map_of_mem (List.mem_filter.2 ⟨mem, ?_⟩)
        rw [holds, burned]
        rfl
      obtain ⟨m, read, none⟩ := hit r.midBi target
      have valid : Valid C K next r.midBi := by
        refine ⟨m, validate_ok.2 ⟨read, ?_⟩⟩
        rw [ordered_eq_nil.2 dead, none]
        exact .nil
      exact (covered_iff_of_valid valid).2 (.inl ⟨r, rows ▸ mem, rfl⟩)
    | true =>
      -- a burned message excuses its manifest
      refine ⟨?_, fun _ _ => ⟨r, rows ▸ mem, rfl, burned⟩⟩
      intro owned
      rcases owned_iff.1 owned with ⟨r', mem', same, live⟩ | ⟨a, memA, own, live⟩
      · rw [rows] at mem'
        rw [eq_of_key mem' mem same, burned] at live
        cases live
      · rw [dead a memA own] at live
        cases live
  · have outside : mid ∉ (db.messages.rows.filter fun r => scope r && !r.burned).map (·.midBi) := by
      intro listed
      obtain ⟨r, memR, rfl⟩ := List.mem_map.1 listed
      obtain ⟨memR, holds⟩ := List.mem_filter.1 memR
      rw [Bool.and_eq_true] at holds
      exact inside (mem_ofMessages.2 ⟨r, memR, rfl, holds.1⟩)
    refine (opens_iff.1 opens mid).congr ?_ ?_ (spared mid outside)
    · rw [rows]
      exact fun _ _ => Iff.rfl
    · intro a own _
      rw [← attachments]
      refine mem_shredAttachments_of_spared ?_ own
      intro a' _ own'
      rw [own', Bool.eq_false_iff.2 inside, Bool.and_false]

/-! ## Trimming -/

theorem mem_trimVictims (mem : v ∈ db.trimVictims keep) :
    v ∈ db.attachments ∧ v.burned = false := by
  obtain ⟨live, -⟩ := List.mem_filter.1 mem
  obtain ⟨mem, live⟩ := List.mem_filter.1 live
  exact ⟨mem, by simpa using live⟩

theorem Describes.filter (described : Describes C K rows entries) (p : Bytes → Bool) :
    Describes C K (rows.filter fun row => p row.ckBi) (entries.filter fun e => p e.ckBi) := by
  obtain ⟨rfl, all⟩ := describes_iff.1 described
  rw [describes_iff, List.filter_map]
  constructor
  · congr 1
    apply List.filter_congr
    intro row mem
    rw [Function.comp, (authenticate_rank (all row mem)).1]
  · intro row mem
    exact all row (List.mem_of_mem_filter mem)

/-- No victim of this message has the cache key. -/
def spares (victims : List AttachmentRow) (midBi ckBi : Bytes) : Bool :=
  !victims.any fun v => v.midBi = midBi && v.ckBi = ckBi

theorem trimManifests_read (ideal : C.Ideal) {nonce : Bytes → Bytes}
    (size : ∀ mid, (nonce mid).length = nonceSize) (numbered : Numbered db)
    (done : trimManifests C K victims nonce mids db = .ok next) :
    (∀ mid ∈ mids, ∃ m, readAttachmentManifest C K next mid = .ok (some m) ∧
        Describes C K ((db.ordered mid).filter fun row => spares victims mid row.ckBi) m.entries) ∧
      ∀ mid ∉ mids, next.manifests.find mid = db.manifests.find mid := by
  refine (trimManifests_ok done).read ideal size fun db' mid m rows ⟨old, valid, entries⟩ => ?_
  have same : db'.ordered mid = db.ordered mid := by
    apply ordered_congr
    rw [rows]
    exact fun _ _ _ => Iff.rfl
  have described : Describes C K ((db.ordered mid).filter fun row => spares victims mid row.ckBi) m.entries := by
    rw [entries, ← same]
    exact (validate_ok.1 valid).2.filter (spares victims mid)
  have count := lt_of_le_of_lt (List.length_filter_le (fun row => spares victims mid row.ckBi) (db.ordered mid))
    (numbered.count mid)
  exact ⟨described.sized ideal count, described⟩

/-- The rows a trim leaves are the others. -/
theorem mem_trimmed {a : AttachmentRow} :
    a ∈ db.attachments.delete (fun a => (db.trimVictims keep).any (·.ckBi = a.ckBi)) ↔
      a ∈ db.attachments ∧ a ∉ db.trimVictims keep := by
  rw [mem_delete]
  refine and_congr_right fun mem => ?_
  rw [← Bool.not_eq_true, not_iff_not, List.any_eq_true]
  constructor
  · rintro ⟨v, victim, same⟩
    rwa [← eq_of_key (mem_trimVictims victim).1 mem (of_decide_eq_true same)]
  · intro victim
    exact ⟨a, victim, decide_eq_true rfl⟩

theorem ordered_trimmed (rows : next.attachments =
    db.attachments.delete fun a => (db.trimVictims keep).any (·.ckBi = a.ckBi)) :
    next.ordered mid = (db.ordered mid).filter fun row => spares (db.trimVictims keep) mid row.ckBi := by
  rw [ordered, ordered, ← orderBy_filter (liveAttachments_strict)]
  apply orderBy_congr _ (liveAttachments_strict)
  rw [List.perm_ext_iff_of_nodup (liveAttachments_nodup)
    (List.filter_sublist.nodup (liveAttachments_nodup))]
  intro a
  rw [List.mem_filter, mem_liveAttachments, mem_liveAttachments, rows, mem_trimmed]
  have spared : a ∈ db.attachments → a.midBi = mid →
      (spares (db.trimVictims keep) mid a.ckBi = true ↔ a ∉ db.trimVictims keep) := by
    intro mem own
    rw [spares, Bool.not_eq_true', ← Bool.not_eq_true, not_iff_not, List.any_eq_true]
    constructor
    · rintro ⟨v, victim, same⟩
      rw [Bool.and_eq_true, decide_eq_true_eq, decide_eq_true_eq] at same
      rwa [← eq_of_key (mem_trimVictims victim).1 mem same.2]
    · intro victim
      exact ⟨a, victim, by simp [own]⟩
  constructor
  · rintro ⟨⟨mem, kept⟩, own, live⟩
    exact ⟨⟨mem, own, live⟩, (spared mem own).2 kept⟩
  · rintro ⟨⟨mem, own, live⟩, kept⟩
    exact ⟨⟨mem, (spared mem own).1 kept⟩, own, live⟩

/-- The message of the row keeps a row of its own or another live attachment. -/
def Anchored (db : Db) (victims : List AttachmentRow) (v : AttachmentRow) : Prop :=
  (∃ r ∈ db.messages, r.midBi = v.midBi) ∨
    ∃ a ∈ db.attachments, a.midBi = v.midBi ∧ a.burned = false ∧ a ∉ victims

theorem trimAttachments_opens_iff (ideal : C.Ideal)
    (numbered : Numbered db) (opens : db.opens C K) (done : trimAttachments C K keep nonces.nonce db = .ok (n, next)) :
    next.opens C K ↔ ∀ v ∈ db.trimVictims keep, Anchored db (db.trimVictims keep) v := by
  obtain ⟨trimmed, trim, rfl⟩ := trimAttachments_ok done
  obtain ⟨messages, attachments⟩ := (trimManifests_ok trim).rows
  obtain ⟨hit, spared⟩ := trimManifests_read ideal nonces.length numbered trim
  set victims := db.trimVictims keep with def_victims
  set next : Db := { trimmed with attachments := trimmed.attachments.delete fun a => victims.any (·.ckBi = a.ckBi) }
    with def_next
  have rows : next.attachments = db.attachments.delete fun a => victims.any (·.ckBi = a.ckBi) := by
    rw [def_next, ← attachments]
  have rowsM : next.messages = db.messages := messages
  have listed : ∀ mid, mid ∈ orderBy id (victims.map (·.midBi)).dedup ↔ ∃ v ∈ victims, v.midBi = mid := by
    intro mid
    rw [mem_orderBy, List.mem_dedup, List.mem_map]
  have valid : ∀ v ∈ victims, Valid C K next v.midBi := by
    intro v mem
    obtain ⟨m, read, described⟩ := hit v.midBi ((listed _).2 ⟨v, mem, rfl⟩)
    refine ⟨m, validate_ok.2 ⟨read, ?_⟩⟩
    rw [ordered_trimmed rows]
    exact described
  have covered : ∀ v ∈ victims, (Covered C K next v.midBi ↔ Anchored db victims v) := by
    intro v mem
    rw [covered_iff_of_valid (valid v mem), rowsM, rows]
    refine or_congr Iff.rfl ?_
    constructor
    · rintro ⟨a, memA, own, live⟩
      obtain ⟨memA, kept⟩ := mem_trimmed.1 memA
      exact ⟨a, memA, own, live, kept⟩
    · rintro ⟨a, memA, own, live, kept⟩
      exact ⟨a, mem_trimmed.2 ⟨memA, kept⟩, own, live⟩
  constructor
  · intro opensNext v mem
    exact (covered v mem).1 (opens_iff.1 opensNext v.midBi)
  · intro anchored
    rw [opens_iff]
    intro mid
    by_cases touched : ∃ v ∈ victims, v.midBi = mid
    · obtain ⟨v, mem, rfl⟩ := touched
      exact (covered v mem).2 (anchored v mem)
    · refine (opens_iff.1 opens mid).congr ?_ ?_ (spared mid fun mem => touched ((listed mid).1 mem))
      · rw [rowsM]
        exact fun _ _ => Iff.rfl
      · intro a own _
        rw [rows, mem_trimmed]
        exact ⟨fun kept => kept.1, fun mem => ⟨mem, fun victim => touched ⟨a, victim, own⟩⟩⟩

/-! ## Whole runs -/

/-- The side condition of the three calls that can leave a store that does not open. -/
def SafeCall (C : Crypto) (K : Keys) (db : Db) : Op → Prop
  | .put msg _ _ => msg.burned = true →
    (∀ r ∈ db.messages, r.midBi = bi C K biMessageId msg.discordMessageId → r.burned = false) →
    ∀ a ∈ db.attachments, a.midBi = bi C K biMessageId msg.discordMessageId → a.burned = true
  | .deleteAttachmentsForMessage id _ => db.manifests.find (bi C K biMessageId id) ≠ none →
    ∃ r ∈ db.messages, r.midBi = bi C K biMessageId id
  | .trimAttachments keep _ => ∀ v ∈ db.trimVictims keep, Anchored db (db.trimVictims keep) v
  | _ => True

/-- A call that fails rolls back and keeps the store as it is. -/
def KeepsOpen (C : Crypto) (K : Keys) (db : Db) (op : Op) : Prop :=
  (∃ next, call C K db op = .ok next) → SafeCall C K db op

theorem put_opens_iff (ideal : C.Ideal) (numbered : Numbered db)
    (opens : db.opens C K) (done : put C K msg d db = .ok next) : next.opens C K ↔ (msg.burned = true →
      (∀ r ∈ db.messages, r.midBi = bi C K biMessageId msg.discordMessageId → r.burned = false) →
      ∀ a ∈ db.attachments, a.midBi = bi C K biMessageId msg.discordMessageId → a.burned = true) := by
  rcases put_ok done with ⟨⟨r, mem, own, burned⟩, rfl⟩ | ⟨version, seq, checks, ⟨flag, rfl⟩ | ⟨flag, live⟩⟩
  · refine ⟨fun _ _ unburned => ?_, fun _ => opens⟩
    rw [unburned r mem own] at burned
    cases burned
  · rw [putBurned_opens_iff opens]
    exact ⟨fun dead _ _ => dead, fun safe => safe flag checks.live⟩
  · refine ⟨fun _ set => ?_, fun _ => putLive_opens ideal numbered opens checks.live live⟩
    rw [flag] at set
    cases set

theorem deleteAttachmentsForMessage_opens_iff (ideal : C.Ideal)
    (size : nonce.length = nonceSize) (opens : db.opens C K)
    (done : deleteAttachmentsForMessage C K id nonce db = .ok (n, next)) : next.opens C K ↔
      (db.manifests.find (bi C K biMessageId id) ≠ none → ∃ r ∈ db.messages, r.midBi = bi C K biMessageId id) := by
  obtain ⟨manifest, read, done⟩ := bind_ok.1 done
  cases manifest with
  | none =>
    have absent := readAttachmentManifest_none.1 read
    simp only [] at done
    split at done
    · cases done
    · cases done
      exact ⟨fun _ found => absurd absent found, fun _ => opens⟩
  | some m =>
    obtain ⟨emptied, empty, done⟩ := bind_ok.1 done
    cases done
    rw [deleteAttachments_opens_iff ideal size opens empty]
    exact ⟨fun row _ => row, fun row => row (found_of_read read)⟩

theorem call_opens_iff (ideal : C.Ideal) {op : Op} (sound : Sound C K db) (numbered : Numbered db)
    (opens : db.opens C K) (done : call C K db op = .ok next) : next.opens C K ↔ SafeCall C K db op := by
  cases op with
  | put msg short d => exact put_opens_iff ideal numbered opens done
  | putAttachment a short d =>
    exact iff_of_true (putAttachment_opens ideal short sound numbered opens done) trivial
  | markBurned id =>
    rw [(markBurned_ok done).2]
    exact iff_of_true ((removes_of_shred (· = bi C K biMessageId id) (fun _ _ own => own) fun _ _ own _ => own).opens opens) trivial
  | wipeWrappedKeysInScope scopeId onlySender =>
    obtain ⟨⟨n, db'⟩, ran, rfl⟩ := map_ok.1 done
    exact iff_of_true (wipeWrappedKeysInScope_opens opens ran) trivial
  | wipeAttachmentsInScope scopeId onlySender nonces =>
    obtain ⟨⟨n, db'⟩, ran, rfl⟩ := map_ok.1 done
    exact iff_of_true (wipeAttachmentsInScope_opens ideal opens ran) trivial
  | deleteMessagesInChannel channelId =>
    obtain ⟨⟨n, db'⟩, ran, rfl⟩ := map_ok.1 done
    exact iff_of_true (deleteMessagesInChannel_opens opens ran) trivial
  | trimAttachments keep nonces =>
    obtain ⟨⟨n, db'⟩, ran, rfl⟩ := map_ok.1 done
    exact trimAttachments_opens_iff ideal numbered opens ran
  | deleteAttachmentsForMessage id nonces =>
    obtain ⟨⟨n, db'⟩, ran, rfl⟩ := map_ok.1 done
    exact deleteAttachmentsForMessage_opens_iff ideal (nonces.length _) opens ran
  | shredExpiredMessages ids =>
    obtain ⟨⟨n, db'⟩, ran, rfl⟩ := map_ok.1 done
    exact iff_of_true (shredExpiredMessages_opens opens ran) trivial

theorem step_opens_iff (ideal : C.Ideal) (db : Db) (op : Op) (inv : Sound C K db ∧ Numbered db)
    (opens : db.opens C K) : (step C K db op).opens C K ↔ KeepsOpen C K db op := by
  cases done : call C K db op with
  | ok next =>
    have after : step C K db op = next := by rw [step, done]
    have commits : ∃ next, call C K db op = .ok next := ⟨next, done⟩
    rw [after, KeepsOpen, forall_prop_of_true commits]
    exact call_opens_iff ideal inv.1 inv.2 opens done
  | error e =>
    have after : step C K db op = db := by rw [step, done]
    rw [after]
    refine iff_of_true opens ?_
    rintro ⟨next, committed⟩
    rw [done] at committed
    cases committed

theorem opens_fresh : fresh.opens C K := by
  rw [opens_iff]
  intro midBi
  apply covered_of_removed
  · intro r mem
    exact absurd mem (not_mem_empty r)
  · intro a mem
    exact absurd mem (not_mem_empty a)
  · rfl

/-- Every state of a run opens exactly when no call of it removes a manifest's
rows or owner from under it. -/
theorem run_opens_iff (ideal : C.Ideal) (ops : List Op) :
    (∀ pre, pre <+: ops → (run (step C K) fresh pre).opens C K) ↔
      AllSteps (step C K) (KeepsOpen C K) fresh ops := by
  apply run_prefix_iff (I := fun db => Sound C K db ∧ Numbered db) (P := fun db => db.opens C K)
  · rintro db op ⟨sound, numbered⟩ -
    exact ⟨step_sound db op sound, step_numbered db op numbered⟩
  · exact step_opens_iff ideal
  · exact ⟨sound_fresh, numbered_fresh⟩
  · exact opens_fresh

/-- A message with an attachment, burned and swept. -/
theorem burned_message_reopens : symbolicCrypto.Ideal ∧ ∀ pre,
    pre <+: [sampleStore false, sampleAttach, .markBurned "1", .shredExpiredMessages ["1"]] →
      (run (step symbolicCrypto ⟨[], []⟩) fresh pre).opens symbolicCrypto ⟨[], []⟩ := by
  refine ⟨symbolicCrypto_ideal, (run_opens_iff symbolicCrypto_ideal _).2 (allSteps_of_forall ?_)⟩
  intro op mem db _
  simp only [List.mem_cons, List.not_mem_nil, or_false] at mem
  rcases mem with rfl | rfl | rfl | rfl
  · rintro ⟨⟩
  · trivial
  · trivial
  · trivial

/-- The generation column is authenticated. -/
theorem read_generation {row : ManifestRow}
    (found : db.manifests.find midBi = some row) (read : readAttachmentManifest C K db midBi = .ok (some m)) :
    m.generation = row.generation := by
  rw [readAttachmentManifest, found] at read
  obtain ⟨m', opened, same⟩ := map_ok.1 read
  cases same
  unfold unsealAttachmentManifest at opened
  split at opened
  · cases opened
  obtain ⟨plaintext, -, opened⟩ := bind_ok.1 opened
  obtain ⟨m', -, opened⟩ := bind_ok.1 opened
  split at opened
  · cases opened
  rename_i columns
  cases opened
  exact not_not.1 (not_or.1 columns).2

/-- A manifest that validates and can still be advanced is emptied on request. -/
theorem deleteAttachments_commits (nonces : Nonces)
    (valid : validateAttachmentManifest C K db (bi C K biMessageId id) = .ok m)
    (next : m.generation.next? = some generation) (positive : 1 ≤ generation.1) :
    ∃ after, call C K db (.deleteAttachmentsForMessage id nonces) = .ok after := by
  have advanced : m.advance [] = .ok ⟨m.complete, generation, []⟩ := by
    rw [AttachmentManifest.advance, next]
  have sealed : ∃ ciphertext, sealAttachmentManifest C K.key (bi C K biMessageId id) ⟨m.complete, generation, []⟩
      (nonces.nonce (bi C K biMessageId id)) = .ok ciphertext :=
    ⟨_, if_neg (show ¬generation.1 < 1 by omega)⟩
  obtain ⟨ciphertext, sealed⟩ := sealed
  obtain ⟨emptied, written⟩ : ∃ emptied, writeAttachmentManifest C K db (bi C K biMessageId id)
      ⟨m.complete, generation, []⟩ (nonces.nonce (bi C K biMessageId id)) = .ok emptied :=
    ⟨_, bind_ok.2 ⟨ciphertext, sealed, rfl⟩⟩
  have empty : transitionManifestToEmpty C K db (bi C K biMessageId id) (nonces.nonce (bi C K biMessageId id)) =
      .ok emptied :=
    bind_ok.2 ⟨m, valid, bind_ok.2 ⟨_, advanced, written⟩⟩
  exact ⟨_, map_ok.2 ⟨_, bind_ok.2 ⟨some m, (validate_ok.1 valid).1, bind_ok.2 ⟨emptied, empty, rfl⟩⟩, rfl⟩⟩

/-- The sample attachment has a manifest of generation 1, and no message row. -/
theorem validate_sampleAttach (ideal : C.Ideal) (done : call C K fresh sampleAttach = .ok db)
    (attachments : db.attachments.rows ≠ []) : db.opens C K ∧ ∃ m,
      validateAttachmentManifest C K db (bi C K biMessageId "1") = .ok m ∧ m.generation = I64.one := by
  have opens := putAttachment_opens ideal sampleAttachment_short sound_fresh numbered_fresh opens_fresh done
  refine ⟨opens, ?_⟩
  rcases putAttachment_ok done with rfl | ⟨m, advanced, seq, version, ran⟩
  · exact absurd rfl attachments
  have row : sealedAttachment C K sampleAttachment (bi C K biCacheKey sampleAttachment.cacheKey)
      (bi C K biMessageId "1") seq version sampleAttachmentDraws ∈ db.attachments := by
    rw [(putAttachment_rows ran).2]
    exact mem_put_self
  obtain ⟨m', valid⟩ := (opens_iff.1 opens (bi C K biMessageId "1")).valid (owned_iff.2 (.inr ⟨_, row, rfl, rfl⟩))
  refine ⟨m', valid, ?_⟩
  rw [read_generation ran.wrote.found (validate_ok.1 valid).1]
  have start := ran.current
  cases start
  apply Subtype.ext
  exact (advance_ok ran.advance).2.2

/-- The manifest of a flagged message goes; its attachments stay. -/
theorem not_opens_flagged :
    ¬(run (step C K) fresh [sampleAttach, sampleStore true]).opens C K := by
  obtain ⟨db, attached, messages, attachments, after⟩ := run_attach_flagged C K
  intro opens
  rw [after] at opens
  have gone : (putBurned C K db (sampleMessage true) (bi C K biMessageId "1") I64.one I64.one
      samplePut).manifests.find (bi C K biMessageId "1") = none := by
    exact find_delete_none fun _ _ same => decide_eq_true same
  have dead := ordered_eq_nil.1 (ordered_nil_of_no_manifest opens gone)
  rw [putBurned_attachments, attachments] at dead
  cases dead _ (mem_put_self) rfl

/-- Two stores that do not open: an attachment whose message is burned by the
flag, and one whose message was never stored and that is deleted. -/
theorem orphaned_manifest_blocks_open :
    ¬(run (step symbolicCrypto ⟨[], []⟩) fresh [sampleAttach, sampleStore true]).opens symbolicCrypto ⟨[], []⟩ ∧
    ¬(run (step symbolicCrypto ⟨[], []⟩) fresh
      [sampleAttach, .deleteAttachmentsForMessage "1" sampleNonces]).opens symbolicCrypto ⟨[], []⟩ := by
  obtain ⟨db, attached, messages, attachments, after⟩ := run_attach_flagged symbolicCrypto ⟨[], []⟩
  constructor
  · exact not_opens_flagged
  · intro opens
    have first : step symbolicCrypto ⟨[], []⟩ fresh sampleAttach = db := by rw [step, attached]
    obtain ⟨before, m, valid, generation⟩ := validate_sampleAttach symbolicCrypto_ideal attached (by
      rw [attachments]
      exact List.cons_ne_nil _ _)
    have inv : Sound symbolicCrypto ⟨[], []⟩ db ∧ Numbered db :=
      ⟨putAttachment_sound sound_fresh attached, putAttachment_numbered numbered_fresh attached⟩
    rw [run_cons, run_cons, run_nil, first, step_opens_iff symbolicCrypto_ideal db _ inv before] at opens
    have commits := deleteAttachments_commits sampleNonces valid (by rw [generation]; rfl) (by decide)
    obtain ⟨r, mem, -⟩ := opens commits (Valid.manifest ⟨m, valid⟩)
    rw [messages] at mem
    exact not_mem_empty r mem

end Osl.Store
