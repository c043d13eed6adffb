import Osl.Store.Anchor

/-!
# Rollback of an anchored store

`History` relates the anchor to the contents the store recorded: the anchored one
is among them, not before the last that was reported, and only later ones have the
next generation. Every durable write of every process keeps it. Reconciliation
accepts the anchored record or its successor, so a file that was ever on disk is
accepted only if it is recent.
-/

namespace Osl.Store

open Base Process

/-- The digest is collision free over an injective encoding, and the migrations
before schema 7 leave the record fields alone. -/
structure Env.Ideal (E : Env) : Prop where
  crypto : E.crypto.Ideal
  encode : ∀ f g, E.encode f = E.encode g ↔ f.content = g.content
  legacy : ∀ f files, E.legacy f = .ok files → ∀ g ∈ files, g.rawRecord = f.rawRecord

variable {E : Env} {f c g : File} {d : Bytes} {written : List (File × AnchorRecord)} {reported k : Nat}
  {next l r : AnchorRecord} {w t : World} {expected held anchor : Option AnchorRecord}

/-! ## Records in a file -/

namespace File

theorem content_content (f : File) : f.content.content = f.content := by
  obtain ⟨m, tables⟩ := f
  cases m <;> rfl

theorem content_writeRecord (f : File) (r : AnchorRecord) : (f.writeRecord r).content = f.content := by
  obtain ⟨m, tables⟩ := f
  cases m <;> rfl

theorem readRecord_some {generation digest : Bytes} {l : AnchorRecord} :
    readRecord (some generation) (some digest) = .ok (some l) ↔
      generation.length = 8 ∧ digest.length = 32 ∧ ⟨ofLe generation % 2 ^ 64, digest⟩ = l := by
  rw [readRecord]
  split
  · simp_all
  split
  · simp_all
  · simp_all

variable {r : AnchorRecord} {f : File}

/-- The record read is the one written. -/
theorem eq_of_rawRecord_writeRecord {l : AnchorRecord} (fits : r.generation < 2 ^ 64)
    (read : (f.writeRecord r).rawRecord = .ok (some l)) : l = r := by
  obtain ⟨m, tables⟩ := f
  cases m with
  | none => cases read
  | some m =>
    obtain ⟨_, _, same⟩ := (@readRecord_some (toLe 8 r.generation) r.digest l).1 read
    rw [ofLe_toLe (n := 8) fits, Nat.mod_eq_of_lt fits] at same
    exact same.symm

theorem rawRecord_writeRecord (table : f.metaTable.isSome) (fits : r.generation < 2 ^ 64)
    (size : r.digest.length = 32) : (f.writeRecord r).rawRecord = .ok (some r) := by
  obtain ⟨m, tables⟩ := f
  cases m with
  | none => cases table
  | some m =>
    apply (@readRecord_some (toLe 8 r.generation) r.digest r).2
    rw [ofLe_toLe (n := 8) fits, Nat.mod_eq_of_lt fits]
    exact ⟨length_toLe 8 _, size, rfl⟩

theorem metaTable_of_rawRecord (read : f.rawRecord = .ok (some r)) : f.metaTable.isSome := by
  obtain ⟨m, tables⟩ := f
  cases m with
  | none => cases read
  | some m => rfl

end File

theorem record_ok :
    E.record f = .ok (some l) ↔ f.rawRecord = .ok (some l) ∧ E.digest f = .ok l.digest := by
  constructor
  · intro ok
    obtain ⟨raw, read, ok⟩ := bind_ok.1 ok
    cases raw with
    | none => cases ok
    | some r =>
      obtain ⟨expected, digest, ok⟩ := bind_ok.1 ok
      split at ok
      · cases ok
      · rename_i same
        cases ok
        rw [not_not] at same
        exact ⟨read, same ▸ digest⟩
  · rintro ⟨read, digest⟩
    refine bind_ok.2 ⟨some l, read, bind_ok.2 ⟨l.digest, digest, ?_⟩⟩
    exact if_neg (not_not.2 rfl)

theorem record_none : E.record f = .ok none ↔ f.rawRecord = .ok none := by
  constructor
  · intro ok
    obtain ⟨raw, read, ok⟩ := bind_ok.1 ok
    cases raw with
    | none => exact read
    | some r =>
      obtain ⟨expected, digest, ok⟩ := bind_ok.1 ok
      split at ok
      · cases ok
      · cases ok
  · intro read
    exact bind_ok.2 ⟨none, read, rfl⟩

theorem digest_content (ideal : E.Ideal) : E.digest f.content = E.digest f := by
  have same : E.encode f.content = E.encode f := (ideal.encode _ _).2 f.content_content
  have tables : f.content.tables = f.tables := rfl
  rw [Env.digest, Env.digest, same, tables]

theorem content_of_digest (ideal : E.Ideal) (digest : E.digest f = .ok d)
    (digest' : E.digest g = .ok d) : f.content = g.content := by
  rw [Env.digest] at digest digest'
  split at digest
  · split at digest'
    · cases digest
      injection digest' with same
      apply (ideal.encode f g).1
      have blocks := congrArg (block 0) same.symm
      exact (ideal.crypto.hkdf.inj (by decide) (by decide) blocks).2.1
    · cases digest'
  · cases digest

theorem length_digest (ideal : E.Ideal) (digest : E.digest f = .ok d) : d.length = 32 := by
  rw [Env.digest] at digest
  split at digest
  · cases digest
    exact ideal.crypto.hkdf.length _ _ _ _
  · cases digest

/-! ## The history of a store -/

/-- Where the anchored record stands among those written. -/
structure Held (written : List (File × AnchorRecord)) (reported : Nat) (r : AnchorRecord) (k : Nat) : Prop where
  found : ∃ c, written[k]? = some (c, r)
  reported : reported ≤ k + 1
  /-- No record is more than one ahead, and those that are were made later. -/
  next : ∀ i x, written[i]? = some x → x.2.generation ≤ r.generation + 1 ∧ (x.2.generation = r.generation + 1 → k < i)

structure History (E : Env) (w : World) : Prop where
  bound : ∀ x ∈ w.written, x.1.content = x.1 ∧ E.digest x.1 = .ok x.2.digest
  seen : ∀ f ∈ w.disks, ∀ l, E.record f = .ok (some l) → (f.content, l) ∈ w.written
  placed : ∀ f ∈ w.disk, f ∈ w.disks
  unanchored : w.anchor = none → w.reported = 0 ∧ ∀ x ∈ w.written, x.2.generation = 1
  anchored : ∀ r, w.anchor = some r → ∃ k, Held w.written w.reported r k
  binding : ∀ cur, w.current = some cur → ∃ r, w.anchor = some r ∧ (cur = r ∨ cur.generation < r.generation)

/-- Nothing is anchored yet, or the content was recorded, not before the last
commit that was reported. -/
def Recent (w : World) (f : File) : Prop :=
  w.anchor = none ∨ ∃ i r, w.written[i]? = some (f.content, r) ∧ w.reported ≤ i + 1

theorem Held.lt (anchored : Held written reported r k) : k < written.length := by
  obtain ⟨c, found⟩ := anchored.found
  exact (List.getElem?_eq_some_iff.1 found).1

/-- The record just written is the anchored one. -/
theorem held_last (le : reported ≤ written.length + 1) (most : ∀ x ∈ written, x.2.generation ≤ r.generation) :
    Held (written ++ [(c, r)]) reported r written.length where
  found := ⟨c, List.getElem?_concat_length⟩
  reported := le
  next := by
    intro i x found
    have mem : x ∈ written ++ [(c, r)] := List.mem_of_getElem? found
    have small : x.2.generation ≤ r.generation := by
      rcases List.mem_append.1 mem with old | new
      · exact most x old
      · rw [List.mem_singleton.1 new]
    omega

theorem Held.append (anchored : Held written reported r k) (step : next.generation ≤ r.generation + 1) :
    Held (written ++ [(c, next)]) reported r k where
  found := by
    obtain ⟨c, found⟩ := anchored.found
    exact ⟨c, by rw [List.getElem?_append_left anchored.lt, found]⟩
  reported := anchored.reported
  next := by
    intro i x found
    rcases Nat.lt_or_ge i written.length with old | new
    · rw [List.getElem?_append_left old] at found
      exact anchored.next i x found
    · have last : x = (c, next) := by
        rw [List.getElem?_append_right new] at found
        exact List.mem_singleton.1 (List.mem_of_getElem? found)
      rw [last]
      exact ⟨step, fun _ => Nat.lt_of_lt_of_le anchored.lt new⟩

section
variable (history : History E w)
include history

/-- Every record is at most one ahead of the anchor; before there is one, it is 1. -/
theorem History.most {x : File × AnchorRecord} (mem : x ∈ w.written) :
    (w.anchor = none ∧ x.2.generation = 1) ∨ ∃ r, w.anchor = some r ∧ x.2.generation ≤ r.generation + 1 := by
  cases anchor : w.anchor with
  | none => exact .inl ⟨rfl, (history.unanchored anchor).2 x mem⟩
  | some r =>
    obtain ⟨k, anchored⟩ := history.anchored r anchor
    obtain ⟨i, found⟩ := List.getElem?_of_mem mem
    exact .inr ⟨r, rfl, (anchored.next i x found).1⟩

theorem History.reported_le : w.reported ≤ w.written.length := by
  cases anchor : w.anchor with
  | none =>
    rw [(history.unanchored anchor).1]
    exact Nat.zero_le _
  | some r =>
    obtain ⟨k, anchored⟩ := history.anchored r anchor
    have lt := anchored.lt
    have le := anchored.reported
    omega

theorem History.close : History E w.close :=
  { history with binding := by rintro cur ⟨⟩ }

/-- A file without a record may be saved. -/
theorem History.save (bare : f.rawRecord = .ok none) : History E (w.save f) :=
  { history with
    seen := by
      intro g mem l read
      rcases List.mem_cons.1 mem with rfl | old
      · rw [(record_ok.1 read).1] at bare
        cases bare
      · exact history.seen g old l read
    placed := by
      rintro g ⟨⟩
      exact List.mem_cons_self }

end

/-- The gap a commit or an enrolment opens: the first record, or one at most one
past the anchor. -/
def Follows (anchor : Option AnchorRecord) (next : AnchorRecord) : Prop :=
  (anchor = none ∧ next.generation = 1) ∨ ∃ r, anchor = some r ∧ next.generation ≤ r.generation + 1

theorem Follows.unanchored (follows : Follows w.anchor next) (history : History E w) (anchor : w.anchor = none) :
    w.reported = 0 ∧ ∀ x ∈ w.written ++ [(c, next)], x.2.generation = 1 := by
  refine ⟨(history.unanchored anchor).1, fun x mem => ?_⟩
  rcases List.mem_append.1 mem with old | new
  · exact (history.unanchored anchor).2 x old
  · rw [List.mem_singleton.1 new]
    rcases follows with ⟨_, first⟩ | ⟨r, held, _⟩
    · exact first
    · exact absurd (anchor.symm.trans held) (by simp)

theorem Follows.anchored (follows : Follows w.anchor next) (history : History E w) (anchor : w.anchor = some r) :
    ∃ k, Held (w.written ++ [(c, next)]) w.reported r k := by
  obtain ⟨k, anchored⟩ := history.anchored r anchor
  refine ⟨k, anchored.append ?_⟩
  rcases follows with ⟨held, _⟩ | ⟨q, held, step⟩
  · exact absurd (held.symm.trans anchor) (by simp)
  · obtain rfl : r = q := Option.some.inj (anchor.symm.trans held)
    exact step

theorem History.bound_append (ideal : E.Ideal) (history : History E w) (digest : E.digest f = .ok next.digest) :
    ∀ x ∈ w.written ++ [(f.content, next)], x.1.content = x.1 ∧ E.digest x.1 = .ok x.2.digest := by
  intro x mem
  rcases List.mem_append.1 mem with old | new
  · exact history.bound x old
  · rw [List.mem_singleton.1 new]
    exact ⟨f.content_content, (digest_content ideal).trans digest⟩

theorem History.attest (ideal : E.Ideal) (history : History E w)
    (follows : Follows w.anchor next) (fits : next.generation < 2 ^ 64) (digest : E.digest f = .ok next.digest) :
    History E (w.attest f next) where
  bound := history.bound_append ideal digest
  seen := by
    intro g mem l read
    apply List.mem_append.2
    rcases List.mem_cons.1 mem with rfl | old
    · rw [File.eq_of_rawRecord_writeRecord fits (record_ok.1 read).1, File.content_writeRecord]
      exact .inr List.mem_cons_self
    · exact .inl (history.seen g old l read)
  placed := by
    rintro g ⟨⟩
    exact List.mem_cons_self
  unanchored := follows.unanchored history
  anchored := fun _ => follows.anchored history
  binding := history.binding

/-- The anchor takes the last record. -/
theorem History.advance (history : History E w) (last : w.written = written ++ [(c, next)])
    (most : ∀ x ∈ written, x.2.generation ≤ next.generation)
    (held : ∀ r, w.anchor = some r → r.generation < next.generation) : History E (w.advance next) :=
  { history with
    unanchored := by rintro ⟨⟩
    anchored := by
      rintro r ⟨⟩
      refine ⟨written.length, ?_⟩
      have le := history.reported_le
      rw [last, List.length_append] at le
      change Held w.written w.reported next _
      rw [last]
      exact held_last le most
    binding := by
      intro cur current
      obtain ⟨r, anchor, stands⟩ := history.binding cur current
      refine ⟨next, rfl, .inr ?_⟩
      have lt := held r anchor
      rcases stands with rfl | behind
      · exact lt
      · exact behind.trans lt }

theorem History.bind (history : History E w) (anchor : w.anchor = some r) : History E (w.bind r) :=
  { history with
    binding := by
      rintro cur ⟨⟩
      exact ⟨r, anchor, .inl rfl⟩ }

/-- Success is reported once the anchor holds the last record. -/
theorem History.report (history : History E w) (last : w.written = written ++ [(c, r)]) (anchor : w.anchor = some r)
    (most : ∀ x ∈ written, x.2.generation ≤ r.generation) : History E (w.report r) :=
  { history with
    unanchored := fun absent => absurd (anchor.symm.trans absent) (by simp)
    anchored := by
      intro r' anchor'
      obtain rfl : r = r' := Option.some.inj (anchor.symm.trans anchor')
      refine ⟨written.length, ?_⟩
      change Held w.written w.written.length r _
      rw [last, List.length_append]
      exact held_last le_rfl most
    binding := by
      rintro cur ⟨⟩
      exact ⟨r, anchor, .inl rfl⟩ }

/-! ## Reconciliation -/

theorem checkAdvance_ok (ok : checkAdvance expected held next = .ok ()) :
    held = expected ∧ ∀ e ∈ expected, e.generation < next.generation := by
  rw [checkAdvance] at ok
  split at ok
  · cases ok
  rename_i advances
  split at ok
  · cases ok
  split at ok
  · cases ok
  rename_i same
  refine ⟨not_not.1 same, fun e mem => ?_⟩
  by_contra behind
  exact advances ⟨e, mem, not_lt.1 behind⟩

theorem compareAndAdvance_triple :
    Triple (fun s => s = t) (compareAndAdvance expected next)
      (fun _ s => s = t.advance next ∧ t.anchor = expected ∧ ∀ e ∈ expected, e.generation < next.generation)
      fun s => s = t := by
  apply Triple.observe_bind
  rintro _ rfl
  refine Triple.attempt_bind (fun _ ok => ?_) fun _ same => same
  apply Triple.durable
  · rintro s rfl
    exact ⟨rfl, checkAdvance_ok ok⟩
  · exact fun s same => same

/-- The gap reconciliation closes. -/
def Gap (anchor : Option AnchorRecord) (r : AnchorRecord) : Prop :=
  (anchor = none ∧ r.generation = 1) ∨ ∃ q, anchor = some q ∧ r.generation = q.generation + 1

theorem Gap.follows (gap : Gap anchor r) : Follows anchor r := by
  rcases gap with first | ⟨q, held, step⟩
  · exact .inl first
  · exact .inr ⟨q, held, step.le⟩

/-- How `reconcile_existing` returns from `t`. -/
inductive Reconciled (E : Env) (t : World) : Option AnchorRecord → World → Prop where
  | unanchored (read : E.record t.file = .ok none) (anchor : t.anchor = none) : Reconciled E t none t
  | agreed (r : AnchorRecord) (read : E.record t.file = .ok (some r)) (anchor : t.anchor = some r) :
    Reconciled E t (some r) t
  | adopted (r : AnchorRecord) (read : E.record t.file = .ok (some r)) (gap : Gap t.anchor r) :
    Reconciled E t (some r) ((t.advance r).adopt r)

/-- What `settle` is left to do. -/
inductive Stands (E : Env) (t : World) : Standing → Prop where
  | unanchored (read : E.record t.file = .ok none) (anchor : t.anchor = none) : Stands E t .unanchored
  | agreed (r : AnchorRecord) (read : E.record t.file = .ok (some r)) (anchor : t.anchor = some r) :
    Stands E t (.agreed r)
  | ahead (remote : Option AnchorRecord) (r : AnchorRecord) (read : E.record t.file = .ok (some r))
    (anchor : t.anchor = remote)
    (gap : ∀ e ∈ remote, r.generation = min (e.generation + 1) (2 ^ 64 - 1)) (first : remote = none → r.generation = 1) :
    Stands E t (.ahead remote r)

variable {found : Option AnchorRecord} {s : World} {standing : Standing} {opened : Option AnchorRecord × Option Nat}
  {d : OpenDraws} {cur : AnchorRecord}

theorem reconcile_ok
    (read : E.record t.file = .ok found) (ok : reconcile found t.anchor = .ok standing) : Stands E t standing := by
  cases found with
  | none =>
    cases anchor : t.anchor with
    | none =>
      rw [anchor] at ok
      cases ok
      exact .unanchored read anchor
    | some r =>
      rw [anchor] at ok
      cases ok
  | some l =>
    cases anchor : t.anchor with
    | none =>
      rw [anchor, reconcile] at ok
      split at ok
      · cases ok
      · rename_i first
        cases ok
        refine .ahead none l read anchor ?_ fun _ => not_not.1 first
        rintro e ⟨⟩
    | some r =>
      rw [anchor, reconcile] at ok
      split at ok
      · rename_i same
        cases ok
        obtain rfl : l = r := by
          obtain ⟨generation, digest⟩ := same
          exact congrArg₂ AnchorRecord.mk generation digest
        exact .agreed l read anchor
      split at ok
      · rename_i gap
        cases ok
        refine .ahead (some r) l read anchor ?_ (by rintro ⟨⟩)
        rintro e ⟨⟩
        exact gap
      split at ok
      · cases ok
      · cases ok

theorem settle_triple (stands : Stands E t standing) :
    Triple (fun s => s = t) (settle standing) (Reconciled E t) fun s => s = t := by
  cases stands with
  | unanchored read anchor =>
    apply Triple.pure
    rintro s rfl
    exact .unanchored read anchor
  | agreed r read anchor =>
    apply Triple.pure
    rintro s rfl
    exact .agreed r read anchor
  | ahead remote r read anchor gap first =>
    apply Triple.bind (compareAndAdvance_triple)
    intro _
    apply Triple.bind (Q := fun _ s => Reconciled E t (some r) s)
    · apply Triple.note
      rintro s ⟨rfl, _, advances⟩
      refine .adopted r read ?_
      cases remote with
      | none => exact .inl ⟨anchor, first rfl⟩
      | some q =>
        have bump := gap q rfl
        have more := advances q rfl
        exact .inr ⟨q, anchor, by omega⟩
    · intro _
      exact Triple.pure fun s done => done

theorem reconcileExisting_triple :
    Triple (fun s => s = t) (reconcileExisting E) (Reconciled E t) fun s => s = t := by
  apply Triple.observe_bind
  rintro _ rfl
  refine Triple.attempt_bind (fun found read => ?_) fun _ same => same
  refine Triple.attempt_bind (fun standing ok => ?_) fun _ same => same
  exact settle_triple (reconcile_ok read ok)

theorem History.adopt (ideal : E.Ideal) (history : History E w)
    (read : E.record w.file = .ok (some r)) (follows : Follows w.anchor r) : History E (w.adopt r) :=
  { history with
    bound := history.bound_append ideal (record_ok.1 read).2
    seen := fun g mem l read => List.mem_append_left _ (history.seen g mem l read)
    unanchored := follows.unanchored history
    anchored := fun _ => follows.anchored history }

/-- Across a gap every record made so far is at most as far as the new one. -/
theorem History.most_of_gap (history : History E w) (gap : Gap w.anchor r) :
    (∀ x ∈ w.written, x.2.generation ≤ r.generation) ∧ ∀ q, w.anchor = some q → q.generation < r.generation := by
  constructor
  · intro x mem
    rcases gap with ⟨anchor, first⟩ | ⟨q, anchor, step⟩
    · rw [(history.unanchored anchor).2 x mem, first]
    · rcases history.most mem with ⟨absent, _⟩ | ⟨q', held, le⟩
      · exact absurd (absent.symm.trans anchor) (by simp)
      · obtain rfl : q = q' := Option.some.inj (anchor.symm.trans held)
        omega
  · intro q held
    rcases gap with ⟨anchor, _⟩ | ⟨q', anchor, step⟩
    · exact absurd (anchor.symm.trans held) (by simp)
    · obtain rfl : q = q' := Option.some.inj (held.symm.trans anchor)
      omega

theorem Reconciled.history (ideal : E.Ideal) (history : History E t)
    (reconciled : Reconciled E t found s) : History E s := by
  cases reconciled with
  | unanchored read anchor => exact history
  | agreed r read anchor => exact history
  | adopted r read gap =>
    obtain ⟨most, held⟩ := history.most_of_gap gap
    have adopted := history.adopt ideal read gap.follows
    have last : (t.adopt r).written = t.written ++ [(t.file.content, r)] := rfl
    exact adopted.advance last most held

/-- **What reconciliation accepts is recent.** -/
theorem Reconciled.recent (ideal : E.Ideal) (history : History E t)
    (reconciled : Reconciled E t found s) : Recent t t.file := by
  cases reconciled with
  | unanchored read anchor => exact .inl anchor
  | agreed r read anchor =>
    obtain ⟨k, anchored⟩ := history.anchored r anchor
    obtain ⟨c, found⟩ := anchored.found
    obtain ⟨own, digest⟩ := history.bound _ (List.mem_of_getElem? found)
    have same : c.content = t.file.content := content_of_digest ideal digest (record_ok.1 read).2
    have content : c = t.file.content := own.symm.trans same
    exact .inr ⟨k, r, content ▸ found, anchored.reported⟩
  | adopted r read gap =>
    rcases gap with ⟨anchor, _⟩ | ⟨q, anchor, step⟩
    · exact .inl anchor
    · -- The file was on disk, so its record was made, and after the anchored one.
      obtain ⟨k, anchored⟩ := history.anchored q anchor
      have mem : (t.file.content, r) ∈ t.written := by
        cases disk : t.disk with
        | none =>
          rw [World.file, disk] at read
          cases read
        | some f =>
          have file : t.file = f := by rw [World.file, disk]; rfl
          rw [file] at read ⊢
          exact history.seen f (history.placed f disk) r read
      obtain ⟨i, found⟩ := List.getElem?_of_mem mem
      have later := (anchored.next i _ found).2 step
      have reported := anchored.reported
      exact .inr ⟨i, r, found, by omega⟩

/-! ## Commits -/

theorem successor_ok {current : AnchorRecord} (ok : successor E current f = .ok next) :
    f.rawRecord = .ok (some current) ∧ next.generation = current.generation + 1 ∧ next.generation < 2 ^ 64 ∧
      E.digest f = .ok next.digest := by
  obtain ⟨raw, read, ok⟩ := bind_ok.1 ok
  split at ok
  · cases ok
  rename_i same
  split at ok
  · cases ok
  rename_i fits
  obtain ⟨digest, bound, ok⟩ := bind_ok.1 ok
  cases ok
  rw [not_not] at same
  exact ⟨same ▸ read, rfl, not_le.1 fits, bound⟩

/-- Writing a record and then advancing the anchor from the state before, as
commits and enrolment do. -/
theorem attest_triple (ideal : E.Ideal) (history : History E t)
    (follows : Follows t.anchor next) (fits : next.generation < 2 ^ 64)
    (digest : E.digest f = .ok next.digest) (gap : t.anchor = expected → Gap t.anchor next) :
    Triple (fun s => s = t) (do
        durable (World.attest f next)
        compareAndAdvance expected next
        note (World.report next))
      (fun _ s => History E s ∧ s.current.isSome) (History E) := by
  have attested := history.attest ideal follows fits digest
  have last : (t.attest f next).written = t.written ++ [(f.content, next)] := rfl
  apply Triple.bind (Q := fun _ s => s = t.attest f next)
  · apply Triple.durable
    · rintro s rfl
      rfl
    · rintro s rfl
      exact history
  intro _
  refine Triple.bind ((compareAndAdvance_triple).mono (fun _ same => same) (fun _ _ done => done) ?_) ?_
  · rintro s rfl
    exact attested
  intro _
  apply Triple.note
  rintro s ⟨rfl, held, _⟩
  obtain ⟨most, behind⟩ := history.most_of_gap (gap held)
  exact ⟨(attested.advance last most behind).report last rfl most, rfl⟩

theorem anchorCommit_triple (ideal : E.Ideal) (history : History E t) (current : t.current = some cur) :
    Triple (fun s => s = t) (anchorCommit E cur f) (fun _ s => History E s ∧ s.current.isSome) (History E) := by
  refine Triple.attempt_bind (fun next ok => ?_) ?_
  · obtain ⟨_, generation, fits, digest⟩ := successor_ok ok
    obtain ⟨r, anchor, stands⟩ := history.binding cur current
    apply attest_triple ideal history _ fits digest
    · intro held
      exact .inr ⟨cur, held, generation⟩
    · refine .inr ⟨r, anchor, ?_⟩
      rcases stands with rfl | behind
      · exact generation.le
      · omega
  · rintro s rfl
    exact history

/-- The store is open. -/
def Opened (E : Env) (w : World) : Prop := History E w ∧ w.current.isSome

theorem Opened.history (w : World) (opened : Opened E w) : History E w := opened.1

section
variable (ideal : E.Ideal) {nonce : Bytes}
include ideal

theorem commit_keeps {f : File} : Keeps (Opened E) (History E) (commit E f) := by
  apply Triple.observe_bind
  rintro t ⟨history, bound⟩
  obtain ⟨cur, current⟩ := Option.isSome_iff_exists.1 bound
  rw [current]
  exact anchorCommit_triple ideal history current

theorem prepareMigration_keeps : Keeps (Opened E) (History E) (prepareMigration E nonce) := by
  apply Keeps.bind Keeps.observe
  intro f
  apply Keeps.bind (Keeps.attempt Opened.history)
  intro found
  cases found with
  | none =>
    apply Keeps.bind (Keeps.attempt Opened.history)
    intro _
    exact Keeps.bind (commit_keeps ideal) fun _ => Keeps.pure
  | some j => exact Keeps.bind (Keeps.attempt Opened.history) fun _ => Keeps.pure

theorem applyMigration_keeps {j : MigrationJournal} : Keeps (Opened E) (History E) (applyMigration E j) := by
  rw [applyMigration]
  split
  · exact Keeps.pure
  · apply Keeps.bind Keeps.observe
    intro f
    apply Keeps.bind (Keeps.attempt Opened.history)
    intro _
    exact Keeps.bind (Keeps.attempt Opened.history) fun g => commit_keeps ideal

theorem migrateAnchored_keeps : Keeps (Opened E) (History E) (migrateAnchored E nonce) := by
  apply Keeps.bind (prepareMigration_keeps ideal)
  intro j
  apply Keeps.bind (applyMigration_keeps ideal)
  intro _
  apply Keeps.bind Keeps.observe
  intro f
  exact Keeps.bind (Keeps.attempt Opened.history) fun _ => commit_keeps ideal

theorem callAnchored_keeps {op : Op} : Keeps (Opened E) (History E) (callAnchored E op) := by
  apply Keeps.bind Keeps.observe
  intro f
  cases f.db? with
  | none => exact Keeps.fail Opened.history
  | some db =>
    apply Keeps.bind (Keeps.attempt Opened.history)
    intro transaction
    cases transaction with
    | none => exact Keeps.pure
    | some t =>
      apply Keeps.bind (commit_keeps ideal)
      intro _
      split
      · exact Keeps.bind Keeps.observe fun g => commit_keeps ideal
      · exact Keeps.pure

end

/-! ## Enrolment -/

/-- Before a store is bound: nothing is anchored and the file has no record. -/
structure Unbound (E : Env) (w : World) : Prop where
  history : History E w
  anchor : w.anchor = none
  bare : w.file.rawRecord = .ok none

theorem Unbound.save (unbound : Unbound E w) (bare : f.rawRecord = .ok none) : Unbound E (w.save f) :=
  ⟨unbound.history.save bare, unbound.anchor, bare⟩

/-- A file that keeps the record fields may be saved. -/
theorem save_keeps (unbound : Unbound E t) (same : f.rawRecord = t.file.rawRecord) :
    Triple (fun s => s = t) (durable (World.save f) : Proc Unit) (fun _ => Unbound E) (History E) := by
  apply Triple.durable
  · rintro s rfl
    exact unbound.save (same.trans unbound.bare)
  · rintro s rfl
    exact unbound.history

theorem enrollOrReconcile_triple (ideal : E.Ideal) :
    Triple (Unbound E) (enrollOrReconcile E) (fun _ => Opened E) (History E) := by
  apply Triple.intro
  intro t unbound
  refine Triple.bind ((reconcileExisting_triple).mono (fun _ same => same) (fun _ _ done => done) ?_) ?_
  · rintro s rfl
    exact unbound.history
  intro binding
  cases binding with
  | some r =>
    apply Triple.note
    intro s reconciled
    have history := reconciled.history ideal unbound.history
    refine ⟨history.bind ?_, rfl⟩
    cases reconciled with
    | agreed r read anchor => exact anchor
    | adopted r read gap => rfl
  | none =>
    apply Triple.observe_bind
    rintro _ ⟨_, _⟩
    refine Triple.attempt_bind (fun digest bound => ?_) ?_
    · apply attest_triple ideal unbound.history (.inl ⟨unbound.anchor, rfl⟩) (Nat.one_lt_two_pow (by decide)) bound
      intro held
      exact .inl ⟨held, rfl⟩
    · rintro s rfl
      exact unbound.history

theorem rawRecord_mapMeta {change : Meta → Meta}
    (same : ∀ m, (change m).anchorGeneration = m.anchorGeneration ∧ (change m).anchorDigest = m.anchorDigest) :
    (f.mapMeta change).rawRecord = f.rawRecord := by
  obtain ⟨m, tables⟩ := f
  cases m with
  | none => rfl
  | some m =>
    change File.readRecord (change m).anchorGeneration (change m).anchorDigest = _
    rw [(same m).1, (same m).2]
    rfl

theorem runPendingVacuum_keeps : Keeps (Unbound E) (History E) runPendingVacuum := by
  apply Triple.observe_bind
  intro t unbound
  split
  · exact save_keeps unbound (rawRecord_mapMeta fun m => ⟨rfl, rfl⟩)
  · exact Triple.pure fun s same => same ▸ unbound

theorem applyV7ToV8_ok (ok : f.applyV7ToV8 = .ok g) : g.rawRecord = f.rawRecord := by
  rw [File.applyV7ToV8] at ok
  split at ok
  · cases ok
    exact rawRecord_mapMeta fun m => ⟨rfl, rfl⟩
  · cases ok

theorem migrateV7ToV8_keeps : Keeps (Unbound E) (History E) migrateV7ToV8 := by
  apply Triple.observe_bind
  intro t unbound
  refine Triple.attempt_bind (fun g ok => ?_) fun s same => same ▸ unbound.history
  exact Triple.bind (save_keeps unbound (applyV7ToV8_ok ok)) fun _ => runPendingVacuum_keeps

theorem saveEach_keeps {files : List File} (bare : ∀ g ∈ files, g.rawRecord = .ok none) :
    Keeps (Unbound E) (History E) (saveEach files) := by
  induction files with
  | nil => exact Keeps.pure
  | cons f files ih =>
    apply Keeps.bind
    · apply Triple.intro
      intro t unbound
      apply save_keeps unbound
      rw [bare f List.mem_cons_self, unbound.bare]
    · intro _
      exact ih fun g mem => bare g (List.mem_cons_of_mem f mem)

theorem migrate_keeps (ideal : E.Ideal) : Keeps (Unbound E) (History E) (migrate E) := by
  apply Triple.observe_bind
  intro t unbound
  have bad : ∀ s, s = t → History E s := fun s same => same ▸ unbound.history
  refine Triple.attempt_bind (fun path _ => ?_) bad
  cases path with
  | new => exact save_keeps unbound (rawRecord_mapMeta fun m => ⟨rfl, rfl⟩)
  | upToDate =>
    refine Triple.attempt_bind (fun _ _ => ?_) bad
    exact Triple.start runPendingVacuum_keeps unbound
  | fromV7 => exact Triple.start migrateV7ToV8_keeps unbound
  | older =>
    refine Triple.attempt_bind (fun files ok => ?_) bad
    have bare := fun g mem => (ideal.legacy _ files ok g mem).trans unbound.bare
    exact Triple.bind (Triple.start (saveEach_keeps bare) unbound) fun _ => migrateV7ToV8_keeps

/-! ## Opening -/

theorem createFile_keeps : Keeps (History E) (History E) createFile := by
  apply Keeps.bind Keeps.observe
  intro w
  cases w.disk with
  | some f => exact Keeps.pure
  | none =>
    cases w.anchor with
    | some r => exact Keeps.fail fun _ history => history
    | none => exact Triple.durable (fun s history => history.save rfl) fun _ history => history

/-- After the reconciliation the store is enrolled, with a schema that can be
migrated under the anchor, or it is not yet bound. -/
def Begun (E : Env) : Option AnchorRecord × Option Nat → World → Prop
  | (none, _), s => Unbound E s
  | (some _, version), s => Opened E s ∧ s.file.metaTable.isSome ∧ s.file.inspectSchemaVersion = .ok version ∧
      version.isSome

theorem Begun.history (s : World) (begun : Begun E opened s) :
    History E s := by
  obtain ⟨binding, version⟩ := opened
  cases binding with
  | none => exact Unbound.history begun
  | some r => exact begun.1.1

theorem reconcileFirst_triple (ideal : E.Ideal) : Triple (History E) (reconcileFirst E) (Begun E) (History E) := by
  apply Triple.observe_bind
  intro t history
  have bad : ∀ s, s = t → History E s := fun s same => same ▸ history
  refine Triple.attempt_bind (fun _ _ => ?_) bad
  refine Triple.attempt_bind (fun version stamped => ?_) bad
  apply Triple.bind ((reconcileExisting_triple).mono (fun _ same => same) (fun _ _ done => done) bad)
  intro binding
  cases binding with
  | none =>
    apply Triple.pure
    rintro s ⟨read, anchor⟩
    exact ⟨history, anchor, record_none.1 read⟩
  | some r =>
    have same : ∀ s, Reconciled E t (some r) s →
        s.file = t.file ∧ E.record t.file = .ok (some r) ∧ s.anchor = some r := by
      intro s reconciled
      cases reconciled with
      | agreed r read anchor => exact ⟨rfl, read, anchor⟩
      | adopted r read gap => exact ⟨rfl, read, rfl⟩
    dsimp only
    split
    · rename_i supported
      apply Triple.bind (Q := fun _ s => Begun E (some r, version) s)
      · apply Triple.note
        intro s reconciled
        obtain ⟨file, read, anchor⟩ := same s reconciled
        have file' : (s.bind r).file = t.file := file
        refine ⟨⟨(reconciled.history ideal history).bind anchor, rfl⟩, ?_, ?_, ?_⟩
        · rw [file']
          exact File.metaTable_of_rawRecord (record_ok.1 read).1
        · rw [file']
          exact stamped
        · rcases supported with rfl | rfl
          · rfl
          · rfl
      · intro _
        exact Triple.pure fun _ begun => begun
    · exact Triple.fail fun s reconciled => reconciled.history ideal history

theorem ensureMetaTable_keeps :
    Keeps (Begun E opened) (History E) ensureMetaTable := by
  apply Triple.observe_bind
  intro t begun
  obtain ⟨binding, version⟩ := opened
  cases table : t.file.metaTable with
  | some m => exact Triple.pure fun s same => same ▸ begun
  | none =>
    cases binding with
    | none =>
      apply save_keeps begun
      rw [File.rawRecord, File.rawRecord, table]
      rfl
    | some r =>
      obtain ⟨_, present, _⟩ := begun
      rw [table] at present
      cases present

theorem checkCanary_keeps {nonce : Bytes} :
    Keeps (Begun E opened) (History E) (checkCanary E nonce) := by
  apply Triple.observe_bind
  intro t begun
  have bad : ∀ s, s = t → History E s := fun s same => same ▸ begun.history
  split
  · -- No canary: only a file without a version may get one.
    refine Triple.attempt_bind (fun _ ok => ?_) bad
    obtain ⟨binding, version⟩ := opened
    cases binding with
    | none => exact save_keeps begun (rawRecord_mapMeta fun m => ⟨rfl, rfl⟩)
    | some r =>
      obtain ⟨_, _, stamped, versioned⟩ := begun
      obtain ⟨found, read, ok⟩ := bind_ok.1 ok
      rw [stamped] at read
      cases read
      split at ok
      · cases versioned
      · cases ok
  · exact Triple.attempt (fun _ _ _ same => same ▸ begun) bad
  · exact Triple.fail bad

theorem migrateOpened_triple (ideal : E.Ideal) :
    Triple (Begun E opened) (migrateOpened E d opened.1 opened.2) (fun _ => Opened E) (History E) := by
  obtain ⟨binding, version⟩ := opened
  cases binding with
  | none => exact Triple.bind (migrate_keeps ideal) fun _ => enrollOrReconcile_triple ideal
  | some r =>
    have keeps : Keeps (Opened E) (History E) (migrateOpened E d (some r) version) := by
      apply Keeps.bind Keeps.observe
      intro f
      split
      · exact migrateAnchored_keeps ideal
      · apply Keeps.bind (Keeps.attempt Opened.history)
        intro journal
        split
        · exact migrateAnchored_keeps ideal
        · exact Keeps.pure
    exact keeps.mono (fun s begun => begun.1) (fun _ _ post => post) fun _ bad => bad

theorem bindStore_triple (ideal : E.Ideal) :
    Triple (History E) (bindStore E d) (fun _ => Opened E) (History E) := by
  apply Triple.bind createFile_keeps
  intro _
  apply Triple.bind (reconcileFirst_triple ideal)
  intro opened
  apply Triple.bind (ensureMetaTable_keeps)
  intro _
  apply Triple.bind (checkCanary_keeps)
  intro _
  exact migrateOpened_triple ideal

theorem openAnchored_triple (ideal : E.Ideal) :
    Triple (History E) (openAnchored E d) (fun _ => Opened E) (History E) := by
  apply Triple.bind (bindStore_triple ideal)
  intro _
  apply Keeps.bind
  · apply Keeps.bind Keeps.observe
    intro f
    cases f.db? with
    | none => exact Keeps.fail Opened.history
    | some db => exact Keeps.attempt Opened.history
  · intro _
    apply Keeps.bind Keeps.observe
    intro f
    split
    · exact commit_keeps ideal
    · exact Keeps.pure

/-! ## Runs -/

/-- The attacker restores an earlier file, or removes it. -/
def Restores (w : World) : Action → Prop
  | .replace (some f) => f ∈ w.disks
  | _ => True

theorem anchoredStep_history (ideal : E.Ideal) {a : Action} (history : History E w) (restores : Restores w a) :
    History E (anchoredStep E w a) := by
  cases a with
  | «open» d writes =>
    rw [anchoredStep]
    split
    · exact history
    · obtain ⟨ok, stop⟩ := openAnchored_triple ideal w writes history
      rcases ran : openAnchored E d w writes with ⟨e | u, w', n⟩
      · exact (stop e w' n ran).close
      · exact (ok u w' n ran).1
  | call op writes =>
    rw [anchoredStep]
    split
    · rename_i current
      obtain ⟨ok, stop⟩ := callAnchored_keeps ideal w writes ⟨history, current⟩
      rcases ran : callAnchored E op w writes with ⟨⟨_ | e⟩ | u, w', n⟩
      · exact (stop _ w' n ran).close
      · exact stop _ w' n ran
      · exact (ok u w' n ran).1
    · exact history
  | close => exact history.close
  | replace f =>
    rw [anchoredStep]
    split
    · exact history
    · refine ⟨history.bound, history.seen, ?_, history.unanchored, history.anchored, history.binding⟩
      intro g placed
      cases placed
      exact restores

/-- The store opens on what is on disk. -/
def Accepts (E : Env) (w : World) : Prop := ∃ d n w' m, openAnchored E d w n = (.ok (), w', m)

/-- **A file the store opens on is recent.** -/
theorem recent_of_accepts (ideal : E.Ideal) (history : History E w) (accepts : Accepts E w) : Recent w w.file := by
  obtain ⟨d, n, w', m, opened⟩ := accepts
  have triple : Triple (fun s => s = w) (openAnchored E d) (fun _ _ => Recent w w.file) fun _ => True := by
    refine Triple.bind (Q := fun _ _ => Recent w w.file) ?_ fun _ => Triple.known _
    -- A file that had to be created was not anchored.
    apply Triple.bind (Q := fun _ s => s = w ∨ w.anchor = none)
    · apply Triple.observe_bind
      rintro t rfl
      split
      · exact Triple.pure fun _ => .inl
      · exact Triple.fail fun _ _ => trivial
      · rename_i absent
        exact Triple.durable (fun _ _ => .inr absent) fun _ _ => trivial
    intro _
    refine Triple.bind (Q := fun _ _ => Recent w w.file) ?_ fun _ => Triple.known _
    apply Triple.intro
    rintro t (rfl | absent)
    · apply Triple.observe_bind
      rintro t rfl
      refine Triple.attempt_bind (fun _ _ => ?_) fun _ _ => trivial
      refine Triple.attempt_bind (fun _ _ => ?_) fun _ _ => trivial
      refine Triple.bind (Q := fun _ _ => Recent t t.file) ?_ fun _ => Triple.known _
      exact (reconcileExisting_triple).mono (fun _ same => same)
        (fun _ _ reconciled => reconciled.recent ideal history) fun _ _ => trivial
    · exact (Triple.known (Recent w w.file)).mono (fun _ _ => .inl absent) (fun _ _ known => known) fun _ bad => bad
  exact (triple w n rfl).1 () w' m opened

end Osl.Store
