import Osl.Store.Reopen
import Osl.Store.Rollback

/-!
# Reopening an anchored store after a crash

In an honest run the file is the one the last write left, and its record is the
anchored one or the next. From every such world opening binds the store again,
through whatever phase the enrolment or the migration was cut off in, and what is
left to decide is whether the manifests validate.
-/

namespace Osl.Store

open Base Process File World

variable {E : Env} {r l next : AnchorRecord} {f g : File} {j : MigrationJournal} {db : Db} {b b' : Nat}
  {w t w' : World} {expected : Option AnchorRecord} {nonce ct : Bytes} {opened : Option AnchorRecord × Option Nat}
  {d : OpenDraws} {change : Meta → Meta}

/-! ## Parts of a file -/

namespace File

variable {change : Meta → Meta}

theorem inspectSchemaVersion_mapMeta (same : ∀ m, (change m).schemaVersion = m.schemaVersion) :
    (f.mapMeta change).inspectSchemaVersion = f.inspectSchemaVersion := by
  obtain ⟨m, tables⟩ := f
  cases m with
  | none => rfl
  | some m => exact congrArg readMetaU32 (same m)

theorem bind_mapMeta {α : Type} {field : Meta → Option α} (same : ∀ m, field (change m) = field m) :
    (f.mapMeta change).metaTable.bind field = f.metaTable.bind field := by
  obtain ⟨m, tables⟩ := f
  cases m with
  | none => rfl
  | some m => exact same m

theorem readJournal_mapMeta (same : ∀ m, (change m).anchorMigration = m.anchorMigration) :
    (f.mapMeta change).readJournal = f.readJournal := by
  rw [readJournal, bind_mapMeta same, readJournal]

end File

theorem digest_writeRecord (ideal : E.Ideal) : E.digest (f.writeRecord r) = E.digest f := by
  rw [← digest_content ideal, content_writeRecord, digest_content ideal]

/-- A file records what was just written to it. -/
theorem record_writeRecord (ideal : E.Ideal) (table : f.metaTable.isSome)
    (fits : r.generation < 2 ^ 64) (digest : E.digest f = .ok r.digest) : E.record (f.writeRecord r) = .ok (some r) :=
  record_ok.2 ⟨rawRecord_writeRecord table fits (length_digest ideal digest),
    (digest_writeRecord ideal).trans digest⟩

/-! ## The journal reads back -/

/-- The parts of a journal that have a fixed size. -/
structure MigrationJournal.Sized (j : MigrationJournal) : Prop where
  storeId : j.storeId.length = 32
  source : j.source < 2 ^ 32
  target : j.target < 2 ^ 32
  plan : j.plan.length = 32
  nonce : j.nonce.length = 32

theorem readPhase_byte {phase : MigrationPhase} : readPhase [phase.byte] = .ok phase := by
  cases phase <;> rfl

theorem length_magic : (label "AMJ1").length = 4 := by decide

theorem decodeJournal_encodeJournal (sized : j.Sized) : decodeJournal (encodeJournal j) = .ok j := by
  have magic : slice 0 4 (encodeJournal j) = label "AMJ1" := slice_field length_magic
  -- What is left of the journal after each field.
  have from4 (n k : Nat) : slice (n + 4) k (encodeJournal j) = slice n k _ := slice_skip length_magic
  have from5 (n k : Nat) : slice (n + 5) k (encodeJournal j) = slice n k _ :=
    (from4 (n + 1) k).trans (slice_skip List.length_singleton)
  have from37 (n k : Nat) : slice (n + 37) k (encodeJournal j) = slice n k _ :=
    (from5 (n + 32) k).trans (slice_skip sized.storeId)
  have from41 (n k : Nat) : slice (n + 41) k (encodeJournal j) = slice n k _ :=
    (from37 (n + 4) k).trans (slice_skip (length_toLe 4 _))
  have from45 (n k : Nat) : slice (n + 45) k (encodeJournal j) = slice n k _ :=
    (from41 (n + 4) k).trans (slice_skip (length_toLe 4 _))
  have from77 (n k : Nat) : slice (n + 77) k (encodeJournal j) = slice n k _ :=
    (from45 (n + 32) k).trans (slice_skip sized.plan)
  have from109 (n k : Nat) : slice (n + 109) k (encodeJournal j) = slice n k _ :=
    (from77 (n + 32) k).trans (slice_skip sized.nonce)
  have format : slice 4 1 (encodeJournal j) = [1] := (from4 0 1).trans (slice_field List.length_singleton)
  have storeId : slice 5 32 (encodeJournal j) = j.storeId := (from5 0 32).trans (slice_field sized.storeId)
  have source : slice 37 4 (encodeJournal j) = toLe 4 j.source := (from37 0 4).trans (slice_field (length_toLe 4 _))
  have target : slice 41 4 (encodeJournal j) = toLe 4 j.target := (from41 0 4).trans (slice_field (length_toLe 4 _))
  have plan : slice 45 32 (encodeJournal j) = j.plan := (from45 0 32).trans (slice_field sized.plan)
  have nonce : slice 77 32 (encodeJournal j) = j.nonce := (from77 0 32).trans (slice_field sized.nonce)
  have phase : slice 109 1 (encodeJournal j) = [j.phase.byte] := (from109 0 1).trans (slice_self List.length_singleton)
  have length : (encodeJournal j).length = 110 := by
    simp only [encodeJournal, List.length_append, length_magic, sized.storeId, sized.plan, sized.nonce, length_toLe,
      List.length_cons, List.length_nil]
  rw [decodeJournal, if_neg (by rw [length, magic, format]; simp), phase, readPhase_byte, storeId, source, target, plan,
    nonce, ofLe_toLe (n := 4) sized.source, ofLe_toLe (n := 4) sized.target]
  rfl

/-! ## Worlds of an honest run -/

/-- The files agree in all but the record and the pending marks. -/
structure Alike (f g : File) : Prop where
  tables : f.tables = g.tables
  version : f.inspectSchemaVersion = g.inspectSchemaVersion
  journal : f.readJournal = g.readJournal
  canaryNonce : f.metaTable.bind (·.canaryNonce) = g.metaTable.bind (·.canaryNonce)
  canaryCt : f.metaTable.bind (·.canaryCt) = g.metaTable.bind (·.canaryCt)

/-- `_meta` keeps what a later open reads. -/
structure Meta.Alike (m n : Meta) : Prop where
  schemaVersion : m.schemaVersion = n.schemaVersion
  anchorMigration : m.anchorMigration = n.anchorMigration
  canaryNonce : m.canaryNonce = n.canaryNonce
  canaryCt : m.canaryCt = n.canaryCt

theorem alike_mapMeta (same : ∀ m, (change m).Alike m) : Alike (f.mapMeta change) f where
  tables := rfl
  version := inspectSchemaVersion_mapMeta fun m => (same m).schemaVersion
  journal := readJournal_mapMeta fun m => (same m).anchorMigration
  canaryNonce := bind_mapMeta fun m => (same m).canaryNonce
  canaryCt := bind_mapMeta fun m => (same m).canaryCt

theorem alike_writeRecord : Alike (f.writeRecord r) f :=
  alike_mapMeta fun _ => ⟨rfl, rfl, rfl, rfl⟩

def HasCanary (E : Env) (f : File) : Prop :=
  ∃ nonce ct, f.metaTable.bind (·.canaryNonce) = some nonce ∧ f.metaTable.bind (·.canaryCt) = some ct ∧
    verifyCanary E nonce ct = .ok ()

theorem HasCanary.table (canary : HasCanary E f) : f.metaTable.isSome := by
  obtain ⟨nonce, ct, stored, _⟩ := canary
  obtain ⟨m, tables⟩ := f
  cases m with
  | none => cases stored
  | some m => rfl

/-- A file with the present tables. -/
structure Healthy (E : Env) (db : Db) (f : File) : Prop where
  tables : f.tables = .current db
  canary : HasCanary E f

theorem Healthy.alike (healthy : Healthy E db g) (alike : Alike f g) : Healthy E db f where
  tables := alike.tables.trans healthy.tables
  canary := by
    obtain ⟨nonce, ct, stored, sealed, verified⟩ := healthy.canary
    exact ⟨nonce, ct, alike.canaryNonce.trans stored, alike.canaryCt.trans sealed, verified⟩

theorem Healthy.digest (healthy : Healthy E db f) : ∃ digest, E.digest f = .ok digest := by
  rw [Env.digest, healthy.tables]
  exact ⟨_, rfl⟩

/-- No migration is under way. -/
def Plain (version : Nat) (f : File) : Prop :=
  f.inspectSchemaVersion = .ok (some version) ∧ f.readJournal = .ok none

def vacuumJournal (E : Env) (nonce : Bytes) : MigrationJournal := { newJournal E nonce with phase := .vacuumV8 }

/-- A migration is under way, with its journal. -/
inductive Journaled (E : Env) : MigrationJournal → File → Prop where
  | prepared {f : File} (nonce : Bytes) (size : nonce.length = 32) (version : f.inspectSchemaVersion = .ok (some 7))
    (journal : f.readJournal = .ok (some (newJournal E nonce))) : Journaled E (newJournal E nonce) f
  | vacuum {f : File} (nonce : Bytes) (size : nonce.length = 32) (version : f.inspectSchemaVersion = .ok (some 8))
    (journal : f.readJournal = .ok (some (vacuumJournal E nonce))) : Journaled E (vacuumJournal E nonce) f

/-- Where the migration of an anchored store can be. -/
inductive Phase (E : Env) (f : File) : Prop where
  | v7 (plain : Plain 7 f)
  | journaled (j : MigrationJournal) (journaled : Journaled E j f)
  | v8 (plain : Plain 8 f)

theorem Plain.alike {version : Nat} (plain : Plain version g) (alike : Alike f g) : Plain version f :=
  ⟨alike.version.trans plain.1, alike.journal.trans plain.2⟩

theorem Journaled.alike (journaled : Journaled E j g) (alike : Alike f g) : Journaled E j f := by
  cases journaled with
  | prepared nonce size version journal =>
    exact .prepared nonce size (alike.version.trans version) (alike.journal.trans journal)
  | vacuum nonce size version journal =>
    exact .vacuum nonce size (alike.version.trans version) (alike.journal.trans journal)

theorem Phase.alike (phase : Phase E g) (alike : Alike f g) : Phase E f := by
  cases phase with
  | v7 plain => exact .v7 (plain.alike alike)
  | journaled j journaled => exact .journaled j (journaled.alike alike)
  | v8 plain => exact .v8 (plain.alike alike)

/-- A file before its tables are created. -/
structure Blank (E : Env) (f : File) : Prop where
  tables : f.tables = .absent
  version : f.inspectSchemaVersion = .ok none
  journal : f.readJournal = .ok none
  canary : HasCanary E f ∨ (f.metaTable.bind (·.canaryNonce) = none ∧ f.metaTable.bind (·.canaryCt) = none)

/-- Nothing is anchored. -/
structure Bare (E : Env) (db : Db) (w : World) : Prop where
  anchor : w.anchor = none
  raw : w.file.rawRecord = .ok none
  file : (db = .fresh ∧ Blank E w.file) ∨ (Healthy E db w.file ∧ (Plain 7 w.file ∨ Plain 8 w.file))

/-- The file holds `db` under the record `l`. -/
structure Filed (E : Env) (db : Db) (b : Nat) (w : World) (l : AnchorRecord) : Prop where
  healthy : Healthy E db w.file
  record : E.record w.file = .ok (some l)
  bounded : l.generation ≤ b

/-- The world a process may leave behind, with generations up to `b`. -/
def Live (E : Env) (db : Db) (b : Nat) (w : World) : Prop :=
  Bare E db w ∨ ∃ l, Filed E db b w l ∧ Phase E w.file ∧ (w.anchor = some l ∨ Gap w.anchor l)

/-- The store is bound to the record on disk and in the anchor. -/
def Attached (E : Env) (db : Db) (b : Nat) (w : World) : Prop :=
  ∃ l, Filed E db b w l ∧ w.anchor = some l ∧ w.current = some l

theorem Filed.mono (filed : Filed E db b w l) (le : b ≤ b') : Filed E db b' w l :=
  ⟨filed.healthy, filed.record, filed.bounded.trans le⟩

theorem Attached.mono (attached : Attached E db b w) (le : b ≤ b') : Attached E db b' w := by
  obtain ⟨l, filed, rest⟩ := attached
  exact ⟨l, filed.mono le, rest⟩

theorem Live.mono (live : Live E db b w) (le : b ≤ b') : Live E db b' w := by
  rcases live with bare | ⟨l, filed, rest⟩
  · exact .inl bare
  · exact .inr ⟨l, filed.mono le, rest⟩

theorem Live.congr (live : Live E db b w) (file : w'.file = w.file)
    (anchor : w'.anchor = w.anchor) : Live E db b w' := by
  rcases live with ⟨absent, raw, stage⟩ | ⟨l, ⟨healthy, record, bounded⟩, phase, stands⟩
  · rw [← file] at raw stage
    exact .inl ⟨anchor.trans absent, raw, stage⟩
  · rw [← file] at healthy record phase
    rw [← anchor] at stands
    exact .inr ⟨l, ⟨healthy, record, bounded⟩, phase, stands⟩

theorem Live.close (live : Live E db b w) : Live E db b w.close := live.congr rfl rfl

theorem Attached.live (attached : Attached E db b w) (phase : Phase E w.file) : Live E db b w := by
  obtain ⟨l, filed, anchor, _⟩ := attached
  exact .inr ⟨l, filed, phase, .inl anchor⟩

/-! ## Commits go through -/

section

variable (held : t.anchor = expected) (advances : ∀ e ∈ expected, e.generation < next.generation)
  (positive : 0 < next.generation)
include held advances positive

theorem compareAndAdvance_sure :
    Sure (fun s => s = t) (compareAndAdvance expected next) (fun _ s => s = t.advance next) fun s => s = t := by
  have ok : checkAdvance expected t.anchor next = .ok () := by
    rw [checkAdvance, if_neg, if_neg, if_neg]
    · exact not_not.2 held
    · rintro ⟨_, zero⟩
      omega
    · rintro ⟨e, mem, behind⟩
      exact absurd (advances e mem) (not_lt.2 behind)
  apply Sure.observe_bind
  rintro _ rfl
  exact Sure.attempt_bind ok (Sure.writes rfl rfl)

/-- What a commit or an enrolment does once the record is written. -/
theorem confirm_sure :
    Sure (fun s => s = t) (do
        compareAndAdvance expected next
        note (report next))
      (fun _ s => s = (t.advance next).report next) fun s => s = t := by
  apply Sure.bind (compareAndAdvance_sure held advances positive)
  intro _
  apply Sure.note
  rintro s rfl
  rfl

/-- Writing a record and advancing the anchor from the state before. -/
theorem attest_sure :
    Sure (fun s => s = t) (do
        durable (attest f next)
        compareAndAdvance expected next
        note (report next))
      (fun _ s => s = ((t.attest f next).advance next).report next) fun s => s = t ∨ s = t.attest f next := by
  apply Sure.bind (Q := fun _ s => s = t.attest f next) (Sure.writes rfl (.inl rfl))
  intro _
  exact (confirm_sure (t := t.attest f next) held advances positive).weaken fun _ => .inr

end

/-- The world a commit of `f` leaves, and the one between its two writes. -/
theorem attest_filed (ideal : E.Ideal) (healthy : Healthy E db f)
    (digest : E.digest f = .ok next.digest) (bounded : next.generation ≤ b) (room : b < 2 ^ 64)
    (file : w.file = f.writeRecord next) : Filed E db b w next where
  healthy := by
    rw [file]
    exact healthy.alike (alike_writeRecord)
  record := by
    rw [file]
    exact record_writeRecord ideal healthy.canary.table (bounded.trans_lt room) digest
  bounded := bounded

section

variable {db' : Db} (ideal : E.Ideal) (attached : Attached E db b t) (room : b + 1 < 2 ^ 64)
  (healthy : Healthy E db' f)
include ideal attached room healthy

section
variable (raw : f.rawRecord = t.file.rawRecord)
include raw

/-- The successor of the record in `f`. -/
theorem Attached.successor :
    ∃ l next, t.anchor = some l ∧ t.current = some l ∧ next.generation = l.generation + 1 ∧
      successor E l f = .ok next ∧
      ∀ w : World, w.file = f.writeRecord next → Filed E db' (b + 1) w next ∧ Alike w.file f := by
  obtain ⟨l, filed, anchor, current⟩ := attached
  obtain ⟨digest, bound⟩ := healthy.digest
  have bounded := filed.bounded
  have read : f.rawRecord = .ok (some l) := raw.trans (record_ok.1 filed.record).1
  refine ⟨l, ⟨l.generation + 1, digest⟩, anchor, current, rfl, ?_, ?_⟩
  · refine bind_ok.2 ⟨some l, read, ?_⟩
    rw [if_neg (not_not.2 rfl), if_neg (by omega)]
    exact bind_ok.2 ⟨digest, bound, rfl⟩
  · intro w file
    refine ⟨attest_filed ideal healthy bound (Nat.succ_le_succ bounded) room file, ?_⟩
    rw [file]
    exact alike_writeRecord

/-- Once its first write is made, a commit is in the file: cut off or not, what is
left is the new state. -/
theorem commit_begun (phase : Phase E f) :
    commit E f t 0 = (.error .crash, t, 0) ∧ ∃ (m : Proc Unit) (t' : World),
      (∀ n, commit E f t (n + 1) = m t' n) ∧ Sure (fun s => s = t') m
        (fun _ s => Attached E db' (b + 1) s ∧ Alike s.file f) (Live E db' (b + 1)) := by
  obtain ⟨l, next, anchor, current, generation, succeeds, made⟩ := attached.successor ideal room healthy raw
  have begun : ∀ n, commit E f t n = (attempt (successor E l f) >>= fun next => do
      durable (attest f next)
      compareAndAdvance (some l) next
      note (report next)) t n := by
    intro n
    have looked : commit E f t n = commitBound E f t.current t n := rfl
    rw [looked, current]
    rfl
  rw [succeeds] at begun
  refine ⟨begun 0, do compareAndAdvance (some l) next; note (report next), t.attest f next, ?_, ?_⟩
  · intro n
    exact begun (n + 1)
  · apply (confirm_sure (t := t.attest f next) anchor _ (by omega)).mono (fun _ same => same)
    · intro _ s done
      obtain ⟨filed', alike⟩ := made s (by rw [done]; rfl)
      exact ⟨⟨_, filed', by rw [done]; rfl, by rw [done]; rfl⟩, alike⟩
    · intro s cut
      obtain ⟨filed', alike⟩ := made s (by rw [cut]; rfl)
      exact .inr ⟨_, filed', phase.alike alike, .inr (.inr ⟨l, by rw [cut]; exact anchor, generation⟩)⟩
    · rintro e ⟨⟩
      omega

theorem commit_sure (phase : Phase E f) :
    Sure (fun s => s = t) (commit E f) (fun _ s => Attached E db' (b + 1) s ∧ Alike s.file f)
      fun s => s = t ∨ Live E db' (b + 1) s := by
  obtain ⟨none, m, t', begun, rest⟩ := commit_begun ideal attached room healthy raw phase
  exact Sure.of_begun none begun rest

end

end

/-! ## The anchored migration goes through -/

theorem newJournal_sized (ideal : E.Ideal) (size : nonce.length = 32) : (newJournal E nonce).Sized where
  storeId := ideal.crypto.hkdf.length _ _ _ _
  source := show 7 < 2 ^ 32 by decide
  target := show 8 < 2 ^ 32 by decide
  plan := ideal.crypto.hkdf.length _ _ _ _
  nonce := size

theorem vacuumJournal_sized (ideal : E.Ideal) (size : nonce.length = 32) : (vacuumJournal E nonce).Sized :=
  have sized := newJournal_sized ideal size
  ⟨sized.storeId, sized.source, sized.target, sized.plan, sized.nonce⟩

theorem Journaled.valid (journaled : Journaled E j f) :
    f.readJournal = .ok (some j) ∧ validateJournal E j = .ok () := by
  cases journaled with
  | prepared nonce size version journal => exact ⟨journal, by simp [validateJournal, newJournal]⟩
  | vacuum nonce size version journal => exact ⟨journal, by simp [validateJournal, vacuumJournal, newJournal]⟩

theorem readJournal_writeJournal (table : f.metaTable.isSome) (sized : j.Sized) :
    (f.writeJournal j).readJournal = .ok (some j) := by
  obtain ⟨m, tables⟩ := f
  cases m with
  | none => cases table
  | some m =>
    change (decodeJournal (encodeJournal j)).map some = _
    rw [decodeJournal_encodeJournal sized]
    rfl

theorem inspectSchemaVersion_writeJournal :
    (f.writeJournal j).inspectSchemaVersion = f.inspectSchemaVersion :=
  inspectSchemaVersion_mapMeta fun _ => rfl

theorem rawRecord_writeJournal : (f.writeJournal j).rawRecord = f.rawRecord :=
  rawRecord_mapMeta fun _ => ⟨rfl, rfl⟩

theorem readJournal_clearMigration : f.clearMigration.readJournal = .ok none := by
  obtain ⟨m, tables⟩ := f
  cases m <;> rfl

theorem expectVersion_ok {version : Nat} {msg : String} (read : f.inspectSchemaVersion = .ok (some version)) :
    f.expectVersion version msg = .ok () :=
  bind_ok.2 ⟨some version, read, if_pos rfl⟩

/-- A change of `_meta` that keeps the canary. -/
theorem Healthy.mapMeta (healthy : Healthy E db f)
    (same : ∀ m, (change m).canaryNonce = m.canaryNonce ∧ (change m).canaryCt = m.canaryCt) :
    Healthy E db (f.mapMeta change) where
  tables := healthy.tables
  canary := by
    obtain ⟨nonce, ct, stored, sealed, verified⟩ := healthy.canary
    exact ⟨nonce, ct, (bind_mapMeta fun m => (same m).1).trans stored,
      (bind_mapMeta fun m => (same m).2).trans sealed, verified⟩

theorem Healthy.writeJournal (healthy : Healthy E db f) (j : MigrationJournal) : Healthy E db (f.writeJournal j) :=
  healthy.mapMeta fun _ => ⟨rfl, rfl⟩

theorem Attached.healthy (attached : Attached E db b w) : Healthy E db w.file := by
  obtain ⟨l, filed, _⟩ := attached
  exact filed.healthy

theorem applyV7ToV8_healthy (healthy : Healthy E db f) : ∃ g, f.applyV7ToV8 = .ok g ∧
    Healthy E db g ∧ g.rawRecord = f.rawRecord ∧ g.inspectSchemaVersion = .ok (some 8) ∧ g.readJournal = f.readJournal := by
  have table := healthy.canary.table
  refine ⟨f.mapMeta fun m => { m with schemaVersion := some (toLe 4 8), vacuumPending := true }, ?_, ?_, ?_, ?_, ?_⟩
  · rw [applyV7ToV8, healthy.tables]
  · exact healthy.mapMeta fun m => ⟨rfl, rfl⟩
  · exact rawRecord_mapMeta fun m => ⟨rfl, rfl⟩
  · obtain ⟨m, tables⟩ := f
    cases m with
    | none => cases table
    | some m => rfl
  · exact readJournal_mapMeta fun m => rfl

section

variable (ideal : E.Ideal) (room : b + 1 < 2 ^ 64)
include ideal room

theorem prepareMigration_sure (size : nonce.length = 32) :
    Sure (fun s => Attached E db b s ∧ (Plain 7 s.file ∨ ∃ j, Journaled E j s.file)) (prepareMigration E nonce)
      (fun j s => Attached E db (b + 1) s ∧ Journaled E j s.file) (Live E db (b + 1)) := by
  apply Sure.observe_bind
  rintro t ⟨attached, plain | ⟨j, journaled⟩⟩
  · have healthy := attached.healthy
    have journal := readJournal_writeJournal healthy.canary.table (newJournal_sized ideal size)
    have version : (t.file.writeJournal (newJournal E nonce)).inspectSchemaVersion = .ok (some 7) :=
      (inspectSchemaVersion_writeJournal).trans plain.1
    have journaled : Journaled E (newJournal E nonce) (t.file.writeJournal (newJournal E nonce)) :=
      .prepared nonce size version journal
    apply Sure.attempt_bind plain.2
    apply Sure.attempt_bind (expectVersion_ok plain.1)
    apply Sure.bind (Q := fun _ s => Attached E db (b + 1) s ∧ Journaled E (newJournal E nonce) s.file)
    · apply (commit_sure ideal attached room (healthy.writeJournal _) (rawRecord_writeJournal)
        (.journaled _ journaled)).mono (fun _ same => same)
      · rintro _ s ⟨done, alike⟩
        exact ⟨done, journaled.alike alike⟩
      · rintro s (rfl | live)
        · exact (attached.live (.v7 plain)).mono (Nat.le_succ b)
        · exact live
    · intro _
      exact Sure.pure fun _ post => post
  · obtain ⟨read, valid⟩ := journaled.valid
    apply Sure.attempt_bind read
    apply Sure.attempt_bind valid
    exact Sure.returns ⟨attached.mono (Nat.le_succ b), journaled⟩

theorem applyMigration_sure {j : MigrationJournal} :
    Sure (fun s => Attached E db b s ∧ Journaled E j s.file) (applyMigration E j)
      (fun _ s => Attached E db (b + 1) s ∧ s.file.inspectSchemaVersion = .ok (some 8) ∧
        ∃ j, Journaled E j s.file) (Live E db (b + 1)) := by
  apply Sure.intro
  rintro t ⟨attached, journaled⟩
  have healthy := attached.healthy
  cases journaled with
  | vacuum nonce size version journal =>
    exact Sure.returns ⟨attached.mono (Nat.le_succ b), version, _, .vacuum nonce size version journal⟩
  | prepared nonce size version journal =>
    obtain ⟨g, applied, fine, raw, stamped, _⟩ := applyV7ToV8_healthy healthy
    have written := readJournal_writeJournal fine.canary.table (vacuumJournal_sized ideal size)
    have version' : (g.writeJournal (vacuumJournal E nonce)).inspectSchemaVersion = .ok (some 8) :=
      (inspectSchemaVersion_writeJournal).trans stamped
    have journaled : Journaled E (vacuumJournal E nonce) (g.writeJournal (vacuumJournal E nonce)) :=
      .vacuum nonce size version' written
    apply Sure.observe_bind
    rintro _ rfl
    apply Sure.attempt_bind (expectVersion_ok version)
    apply Sure.attempt_bind applied
    apply (commit_sure ideal attached room (fine.writeJournal _) ((rawRecord_writeJournal).trans raw)
      (.journaled _ journaled)).mono (fun _ same => same)
    · rintro _ s ⟨done, alike⟩
      exact ⟨done, alike.version.trans version', _, journaled.alike alike⟩
    · rintro s (rfl | live)
      · exact (attached.live (.journaled _ (.prepared nonce size version journal))).mono (Nat.le_succ b)
      · exact live

theorem finishMigration_sure :
    Sure (fun s => Attached E db b s ∧ s.file.inspectSchemaVersion = .ok (some 8) ∧ ∃ j, Journaled E j s.file)
      (finishMigration E) (fun _ s => Attached E db (b + 1) s ∧ Plain 8 s.file) (Live E db (b + 1)) := by
  apply Sure.observe_bind
  rintro t ⟨attached, version, j, journaled⟩
  have healthy := attached.healthy
  have healthy' : Healthy E db t.file.clearMigration := healthy.mapMeta fun _ => ⟨rfl, rfl⟩
  have plain : Plain 8 t.file.clearMigration :=
    ⟨Eq.trans (inspectSchemaVersion_mapMeta fun _ => rfl) version, readJournal_clearMigration⟩
  apply Sure.attempt_bind (expectVersion_ok version)
  apply (commit_sure ideal attached room healthy' (rawRecord_mapMeta fun _ => ⟨rfl, rfl⟩) (.v8 plain)).mono
    (fun _ same => same)
  · rintro _ s ⟨done, alike⟩
    exact ⟨done, plain.alike alike⟩
  · rintro s (rfl | live)
    · exact (attached.live (.journaled j journaled)).mono (Nat.le_succ b)
    · exact live

end

theorem migrateAnchored_sure (ideal : E.Ideal) (room : b + 3 < 2 ^ 64) (size : nonce.length = 32) :
    Sure (fun s => Attached E db b s ∧ (Plain 7 s.file ∨ ∃ j, Journaled E j s.file)) (migrateAnchored E nonce)
      (fun _ s => Attached E db (b + 3) s ∧ Plain 8 s.file) (Live E db (b + 3)) := by
  apply Sure.bind ((prepareMigration_sure ideal (by omega) size).weaken fun _ live => live.mono (by omega))
  intro j
  apply Sure.bind ((applyMigration_sure ideal (by omega)).weaken fun _ live => live.mono (by omega))
  intro _
  exact finishMigration_sure ideal (by omega)

/-! ## Enrolment goes through -/

theorem reconcile_sure {standing : Standing} (ok : ∃ found, E.record t.file = .ok found ∧
    reconcile found t.anchor = .ok standing) {Q : Option AnchorRecord → World → Prop} {S : World → Prop}
    (rest : Sure (fun s => s = t) (settle standing) Q S) : Sure (fun s => s = t) (reconcileExisting E) Q S := by
  obtain ⟨found, read, ok⟩ := ok
  apply Sure.observe_bind
  rintro _ rfl
  apply Sure.attempt_bind read
  exact Sure.attempt_bind ok rest

theorem reconcile_bare (bare : Bare E db t) :
    Sure (fun s => s = t) (reconcileExisting E) (fun binding s => s = t ∧ binding = none) (Live E db b) := by
  apply reconcile_sure ⟨none, record_none.2 bare.raw, by rw [bare.anchor]; rfl⟩
  exact Sure.returns ⟨rfl, rfl⟩

/-- Nothing is anchored and the tables are the present ones. -/
def Ready (E : Env) (db : Db) (w : World) : Prop := Bare E db w ∧ Healthy E db w.file ∧ Plain 8 w.file

theorem enrollOrReconcile_sure (ideal : E.Ideal) (first : 1 ≤ b) (room : b < 2 ^ 64) :
    Sure (Ready E db) (enrollOrReconcile E) (fun _ s => Attached E db b s ∧ Plain 8 s.file) (Live E db b) := by
  apply Sure.intro
  rintro t ⟨bare, healthy, plain⟩
  obtain ⟨digest, bound⟩ := healthy.digest
  apply Sure.bind (reconcile_bare bare)
  intro binding
  apply Sure.intro
  rintro _ ⟨rfl, rfl⟩
  apply Sure.observe_bind
  rintro t rfl
  apply Sure.attempt_bind bound
  have made : ∀ w : World, w.file = t.file.writeRecord ⟨1, digest⟩ →
      Filed E db b w ⟨1, digest⟩ ∧ Plain 8 w.file := by
    intro w file
    refine ⟨attest_filed ideal healthy bound first room file, ?_⟩
    rw [file]
    exact plain.alike (alike_writeRecord)
  apply (attest_sure bare.anchor _ Nat.one_pos).mono (fun _ same => same)
  · intro _ s done
    obtain ⟨filed, plain'⟩ := made s (by rw [done]; rfl)
    exact ⟨⟨_, filed, by rw [done]; rfl, by rw [done]; rfl⟩, plain'⟩
  · rintro s (rfl | cut)
    · exact .inl bare
    · obtain ⟨filed, plain'⟩ := made s (by rw [cut]; rfl)
      exact .inr ⟨_, filed, .v8 plain', .inr (.inl ⟨by rw [cut]; exact bare.anchor, rfl⟩)⟩
  · rintro e ⟨⟩

/-- A healthy file may replace the one on disk while nothing is anchored. -/
theorem Bare.save (bare : Bare E db w) (healthy : Healthy E db f)
    (raw : f.rawRecord = .ok none) (plain : Plain 7 f ∨ Plain 8 f) : Bare E db (w.save f) :=
  ⟨bare.anchor, raw, .inr ⟨healthy, plain⟩⟩

theorem runPendingVacuum_sure : Sure (Ready E db) runPendingVacuum (fun _ => Ready E db) (Live E db b) := by
  apply Sure.observe_bind
  rintro t ⟨bare, healthy, plain⟩
  split
  · have cleared : Alike t.file.clearVacuumPending t.file := alike_mapMeta fun _ => ⟨rfl, rfl, rfl, rfl⟩
    have raw : t.file.clearVacuumPending.rawRecord = .ok none :=
      Eq.trans (rawRecord_mapMeta fun _ => ⟨rfl, rfl⟩) bare.raw
    have plain' := plain.alike cleared
    have healthy' := healthy.alike cleared
    exact Sure.writes ⟨bare.save healthy' raw (.inr plain'), healthy', plain'⟩ (.inl bare)
  · exact Sure.returns ⟨bare, healthy, plain⟩

theorem migrateV7ToV8_sure :
    Sure (fun s => Bare E db s ∧ Healthy E db s.file ∧ Plain 7 s.file) migrateV7ToV8 (fun _ => Ready E db)
      (Live E db b) := by
  apply Sure.observe_bind
  rintro t ⟨bare, healthy, plain⟩
  obtain ⟨g, applied, fine, raw, stamped, journal⟩ := applyV7ToV8_healthy healthy
  have plain' : Plain 8 g := ⟨stamped, journal.trans plain.2⟩
  apply Sure.attempt_bind applied
  apply Sure.bind (Q := fun _ => Ready E db)
  · exact Sure.writes ⟨bare.save fine (raw.trans bare.raw) (.inr plain'), fine, plain'⟩ (.inl bare)
  intro _
  exact runPendingVacuum_sure

/-- A new file, complete but for its tables. -/
theorem Blank.create (blank : Blank E f) (canary : HasCanary E f) :
    Healthy E .fresh f.create ∧ Plain 8 f.create ∧ f.create.rawRecord = f.rawRecord := by
  have table := canary.table
  have journal := blank.journal
  obtain ⟨nonce, ct, stored, sealed, verified⟩ := canary
  obtain ⟨m, tables⟩ := f
  cases m with
  | none => cases table
  | some m => exact ⟨⟨rfl, nonce, ct, stored, sealed, verified⟩, ⟨rfl, journal⟩, rfl⟩

theorem migrate_sure :
    Sure (fun s => Bare E db s ∧ HasCanary E s.file) (migrate E) (fun _ => Ready E db) (Live E db b) := by
  apply Sure.observe_bind
  rintro t ⟨bare, canary⟩
  rcases bare.file with ⟨rfl, blank⟩ | ⟨healthy, plain | plain⟩
  · have path : t.file.migrationPath = .ok .new := by
      refine bind_ok.2 ⟨none, blank.version, ?_⟩
      rw [blank.tables]
    obtain ⟨healthy, plain, raw⟩ := blank.create canary
    apply Sure.attempt_bind path
    exact Sure.writes ⟨bare.save healthy (raw.trans bare.raw) (.inr plain), healthy, plain⟩ (.inl bare)
  · have path : t.file.migrationPath = .ok .fromV7 := bind_ok.2 ⟨some 7, plain.1, rfl⟩
    apply Sure.attempt_bind path
    exact migrateV7ToV8_sure.start ⟨bare, healthy, plain⟩
  · have path : t.file.migrationPath = .ok .upToDate := bind_ok.2 ⟨some 8, plain.1, rfl⟩
    have current : t.file.requireCurrent = .ok () := by rw [requireCurrent, healthy.tables]
    apply Sure.attempt_bind path
    apply Sure.attempt_bind current
    exact runPendingVacuum_sure.start ⟨bare, healthy, plain⟩

/-! ## Opening binds the store -/

theorem Live.disk (live : Live E db b w) (absent : w.disk = none) : w.anchor = none ∧ Bare E db (w.save .empty) := by
  have file : w.file = .empty := by rw [file, absent]; rfl
  have file' : (w.save .empty).file = .empty := rfl
  rcases live with bare | ⟨l, filed, _⟩
  · refine ⟨bare.anchor, bare.anchor, rfl, ?_⟩
    have same := bare.file
    rwa [file, ← file'] at same
  · have tables := filed.healthy.tables
    rw [file] at tables
    cases tables

theorem createFile_sure : Sure (Live E db b) createFile (fun _ => Live E db b) (Live E db b) := by
  apply Sure.observe_bind
  intro t live
  rw [id_eq]
  cases disk : t.disk with
  | some f =>
    exact Sure.returns live
  | none =>
    obtain ⟨anchor, bare⟩ := live.disk disk
    rw [anchor]
    exact Sure.writes (.inl bare) live

/-- After the reconciliation. -/
def Reconnected (E : Env) (db : Db) (b : Nat) (opened : Option AnchorRecord × Option Nat) (w : World) : Prop :=
  (opened.1 = none ∧ Bare E db w) ∨
    (opened.1.isSome ∧ Attached E db b w ∧ Phase E w.file ∧ w.file.inspectSchemaVersion = .ok opened.2)

theorem Phase.version (phase : Phase E f) :
    f.inspectSchemaVersion = .ok (some 7) ∨ f.inspectSchemaVersion = .ok (some 8) := by
  cases phase with
  | v7 plain => exact .inl plain.1
  | journaled j journaled =>
    cases journaled with
    | prepared nonce size version journal => exact .inl version
    | vacuum nonce size version journal => exact .inr version
  | v8 plain => exact .inr plain.1

theorem refuseAmbiguous_current {version : Nat} (stamped : f.inspectSchemaVersion = .ok (some version))
    (supported : version = 7 ∨ version = 8) : f.refuseAmbiguousLegacyWrappers = .ok () := by
  refine bind_ok.2 ⟨some version, stamped, ?_⟩
  split
  · rw [if_pos]
    rcases supported with rfl | rfl
    · exact .inl rfl
    · exact .inr rfl
  · rfl

theorem settle_ahead_sure (gap : Gap t.anchor r) :
    Sure (fun s => s = t) (settle (.ahead t.anchor r)) (fun binding s => binding = some r ∧ s.file = t.file ∧
      s.anchor = some r) fun s => s = t := by
  have advances : ∀ e ∈ t.anchor, e.generation < r.generation := by
    intro e held
    rcases gap with ⟨absent, _⟩ | ⟨q, anchor, step⟩
    · rw [absent] at held
      cases held
    · obtain rfl : e = q := Option.some.inj (Eq.trans (Eq.symm held) anchor)
      omega
  have positive : 0 < r.generation := by
    rcases gap with ⟨_, first⟩ | ⟨q, _, step⟩
    · omega
    · omega
  apply Sure.bind (compareAndAdvance_sure rfl advances positive)
  intro _
  exact Sure.note_bind (Sure.returns ⟨rfl, rfl, rfl⟩)

/-- The record on disk is the anchored one or the next: it is taken. -/
theorem reconcileExisting_sure (record : E.record t.file = .ok (some l))
    (fits : l.generation < 2 ^ 64) (stands : t.anchor = some l ∨ Gap t.anchor l) :
    Sure (fun s => s = t) (reconcileExisting E) (fun binding s => binding = some l ∧ s.file = t.file ∧
      s.anchor = some l) fun s => s = t := by
  rcases stands with anchor | gap
  · apply reconcile_sure ⟨some l, record, by rw [anchor, reconcile, if_pos ⟨rfl, rfl⟩]⟩
    exact Sure.returns ⟨rfl, rfl, anchor⟩
  · have ahead : reconcile (some l) t.anchor = .ok (.ahead t.anchor l) := by
      rcases gap with ⟨anchor, first⟩ | ⟨q, anchor, step⟩
      · rw [anchor, reconcile, if_neg (not_not.2 first)]
      · have other : ¬(l.generation = q.generation ∧ l.digest = q.digest) := by
          rintro ⟨same, _⟩
          omega
        rw [anchor, reconcile, if_neg other, if_pos (by omega)]
    exact reconcile_sure ⟨some l, record, ahead⟩ (settle_ahead_sure gap)

theorem reconcileFirst_sure (room : b < 2 ^ 64) :
    Sure (Live E db b) (reconcileFirst E) (Reconnected E db b) (Live E db b) := by
  apply Sure.observe_bind
  rintro t (bare | ⟨l, filed, phase, stands⟩)
  · obtain ⟨version, stamped, fine⟩ : ∃ version, t.file.inspectSchemaVersion = .ok version ∧
        t.file.refuseAmbiguousLegacyWrappers = .ok () := by
      rcases bare.file with ⟨_, blank⟩ | ⟨_, plain | plain⟩
      · refine ⟨none, blank.version, bind_ok.2 ⟨none, blank.version, ?_⟩⟩
        rw [blank.tables]
      · exact ⟨some 7, plain.1, refuseAmbiguous_current plain.1 (.inl rfl)⟩
      · exact ⟨some 8, plain.1, refuseAmbiguous_current plain.1 (.inr rfl)⟩
    apply Sure.attempt_bind fine
    apply Sure.attempt_bind stamped
    apply Sure.bind (reconcile_bare bare)
    intro binding
    apply Sure.intro
    rintro _ ⟨rfl, rfl⟩
    exact Sure.returns (.inl ⟨rfl, bare⟩)
  · obtain ⟨version, stamped, supported⟩ : ∃ version, t.file.inspectSchemaVersion = .ok (some version) ∧
        (version = 7 ∨ version = 8) := by
      rcases phase.version with v7 | v8
      · exact ⟨7, v7, .inl rfl⟩
      · exact ⟨8, v8, .inr rfl⟩
    apply Sure.attempt_bind (refuseAmbiguous_current stamped supported)
    apply Sure.attempt_bind stamped
    apply Sure.bind ((reconcileExisting_sure filed.record (filed.bounded.trans_lt room) stands).weaken ?_)
    · intro binding
      apply Sure.intro
      rintro u ⟨rfl, file, anchor⟩
      have known : some version = some 7 ∨ some version = some 8 := by simpa using supported
      dsimp only
      rw [if_pos known]
      have file' : (u.bind l).file = t.file := file
      have filed' : Filed E db b (u.bind l) l := ⟨file' ▸ filed.healthy, file' ▸ filed.record, filed.bounded⟩
      apply Sure.note_bind
      exact Sure.returns (.inr ⟨rfl, ⟨l, filed', anchor, rfl⟩, file' ▸ phase, file' ▸ stamped⟩)
    · rintro s rfl
      exact .inr ⟨l, filed, phase, stands⟩

/-- The rest of a bound store's open leaves `_meta` and the canary alone. -/
theorem Reconnected.canary
    (reconnected : Reconnected E db b opened w) : HasCanary E w.file ∨ (opened.1 = none ∧ Bare E db w ∧ db = .fresh ∧
      Blank E w.file ∧ w.file.metaTable.bind (·.canaryNonce) = none ∧ w.file.metaTable.bind (·.canaryCt) = none) := by
  rcases reconnected with ⟨unbound, bare⟩ | ⟨_, attached, _⟩
  · rcases bare.file with ⟨fresh, blank⟩ | ⟨healthy, _⟩
    · rcases blank.canary with canary | ⟨nonce, ct⟩
      · exact .inl canary
      · exact .inr ⟨unbound, bare, fresh, blank, nonce, ct⟩
    · exact .inl healthy.canary
  · exact .inl attached.healthy.canary

theorem ensureMetaTable_sure :
    Sure (Reconnected E db b opened) ensureMetaTable (fun _ s => Reconnected E db b opened s ∧ s.file.metaTable.isSome)
      (Live E db b) := by
  apply Sure.observe_bind
  intro t reconnected
  cases table : t.file.metaTable with
  | some m =>
    exact Sure.returns ⟨reconnected, by rw [table]; rfl⟩
  | none =>
    rcases reconnected.canary with canary | ⟨unbound, bare, fresh, blank, _⟩
    · have present := canary.table
      rw [table] at present
      cases present
    · have blank' : Blank E ⟨some .empty, t.file.tables⟩ := ⟨blank.tables, rfl, rfl, .inr ⟨rfl, rfl⟩⟩
      exact Sure.writes ⟨.inl ⟨unbound, bare.anchor, rfl, .inl ⟨fresh, blank'⟩⟩, rfl⟩ (.inl bare)

/-- The canary a new file gets verifies. -/
theorem verifyCanary_seal (ideal : E.Ideal) (size : nonce.length = nonceSize) :
    verifyCanary E nonce (sealWith E.crypto E.keys.key canaryAad nonce canaryPlaintext) = .ok () := by
  have opened : E.crypto.aead.decrypt E.keys.key nonce canaryAad
      (sealWith E.crypto E.keys.key canaryAad nonce canaryPlaintext) = some canaryPlaintext :=
    (ideal.crypto.aead.decrypt_iff _ _ _ _ _).2 rfl
  rw [verifyCanary, if_neg (not_not.2 size), opened]
  exact if_neg (not_not.2 rfl)

theorem hasCanary_setCanary (ideal : E.Ideal) (table : f.metaTable.isSome) (size : nonce.length = nonceSize) :
    HasCanary E (f.setCanary nonce (sealWith E.crypto E.keys.key canaryAad nonce canaryPlaintext)) := by
  obtain ⟨m, tables⟩ := f
  cases m with
  | none => cases table
  | some m => exact ⟨_, _, rfl, rfl, verifyCanary_seal ideal size⟩

theorem Blank.setCanary (blank : Blank E f) (canary : HasCanary E (f.setCanary nonce ct)) :
    Blank E (f.setCanary nonce ct) where
  tables := blank.tables
  version := Eq.trans (inspectSchemaVersion_mapMeta fun _ => rfl) blank.version
  journal := Eq.trans (readJournal_mapMeta fun _ => rfl) blank.journal
  canary := .inl canary

theorem checkCanary_sure (ideal : E.Ideal) (size : nonce.length = nonceSize) :
    Sure (fun s => Reconnected E db b opened s ∧ s.file.metaTable.isSome) (checkCanary E nonce)
      (fun _ s => Reconnected E db b opened s ∧ HasCanary E s.file) (Live E db b) := by
  apply Sure.observe_bind
  rintro t ⟨reconnected, table⟩
  rcases reconnected.canary with canary | ⟨unbound, bare, fresh, blank, noNonce, noCt⟩
  · obtain ⟨stored, ct, found, found', verified⟩ := id canary
    rw [found, found']
    apply Sure.attempt verified
    rintro s rfl
    exact ⟨reconnected, canary⟩
  · have canary := hasCanary_setCanary ideal table size
    have blank' := blank.setCanary canary
    have fine : t.file.refuseMissingCanary = .ok () := by
      refine bind_ok.2 ⟨none, blank.version, ?_⟩
      rw [blank.tables]
    have raw : (t.file.setCanary nonce (sealWith E.crypto E.keys.key canaryAad nonce canaryPlaintext)).rawRecord =
        .ok none :=
      Eq.trans (rawRecord_mapMeta fun _ => ⟨rfl, rfl⟩) bare.raw
    rw [noNonce, noCt]
    apply Sure.attempt_bind fine
    exact Sure.writes ⟨.inl ⟨unbound, bare.anchor, raw, .inl ⟨fresh, blank'⟩⟩, canary⟩ (.inl bare)

theorem migrateOpened_sure (ideal : E.Ideal) (room : b + 3 < 2 ^ 64) :
    Sure (fun s => Reconnected E db b opened s ∧ HasCanary E s.file) (migrateOpened E d opened.1 opened.2)
      (fun _ s => Attached E db (b + 3) s ∧ Plain 8 s.file) (Live E db (b + 3)) := by
  apply Sure.intro
  rintro t ⟨⟨unbound, bare⟩ | ⟨bound, attached, phase, stamped⟩, canary⟩
  · rw [unbound]
    exact Sure.bind (migrate_sure.start ⟨bare, canary⟩) fun _ => enrollOrReconcile_sure ideal (by omega) room
  · obtain ⟨r, binding⟩ := Option.isSome_iff_exists.1 bound
    rw [binding]
    apply Sure.observe_bind
    rintro t rfl
    -- A store with nothing to migrate skips what the others go through.
    rcases phase with plain | ⟨j, journaled⟩ | plain
    · have version : opened.2 = some 7 := Except.ok.inj (stamped.symm.trans plain.1)
      rw [if_pos version]
      exact (migrateAnchored_sure ideal room d.journalNonce_length).start ⟨attached, .inl plain⟩
    · have migrates : Sure (fun s => s = t) (migrateAnchored E d.journalNonce)
          (fun _ s => Attached E db (b + 3) s ∧ Plain 8 s.file) (Live E db (b + 3)) := by
        exact (migrateAnchored_sure ideal room d.journalNonce_length).start ⟨attached, .inr ⟨j, journaled⟩⟩
      split
      · exact migrates
      · exact Sure.attempt_bind journaled.valid.1 migrates
    · have version : opened.2 = some 8 := Except.ok.inj (stamped.symm.trans plain.1)
      rw [if_neg (by rw [version]; decide)]
      apply Sure.attempt_bind plain.2
      exact Sure.returns ⟨attached.mono (by omega), plain⟩

/-- **Whatever a crash left, opening binds the store again.** -/
theorem bindStore_sure (ideal : E.Ideal) (room : b + 3 < 2 ^ 64) :
    Sure (Live E db b) (bindStore E d) (fun _ s => Attached E db (b + 3) s ∧ Plain 8 s.file) (Live E db (b + 3)) := by
  have later : ∀ s, Live E db b s → Live E db (b + 3) s := fun _ live => live.mono (by omega)
  apply Sure.bind (createFile_sure.weaken later)
  intro _
  apply Sure.bind ((reconcileFirst_sure (by omega)).weaken later)
  intro opened
  apply Sure.bind ((ensureMetaTable_sure).weaken later)
  intro _
  apply Sure.bind ((checkCanary_sure ideal d.canaryNonce_length).weaken later)
  intro _
  exact migrateOpened_sure ideal room

end Osl.Store
