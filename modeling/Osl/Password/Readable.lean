import Osl.Password.Effects

/-!
# Readability along a run

The calls that are not `Safe` put the key in force and the key of some file apart:
setting a password skips files under the device's key, a change writes the files under
a key with the old salt and goes through two of them only, a removal decrypts only
those two, and a write uses whatever key the slot holds.
-/

namespace Osl.Password

open Base Command Function

variable {P : Platform} {s s' : Config}

variable (P) in
/-- The calls that keep the key in force and the keys of the files together. A
call that fails is always safe. -/
def Safe (s : Config) : Op → Prop
  | .setMainPassword password d =>
    ∀ phrase s', (setMainPassword P password d).exec s = (.ok phrase, s') →
      (∃ f, Encrypted s f) → ∃ key, FileKey P password d.salt .defaultProd key ∧ Unlocks P s key
  | .changeMainPassword current new d =>
    ∀ phrase s', (changeMainPassword P current new d).exec s = (.ok phrase, s') →
      ∀ marker salt, s.marker = some marker → P.base64.decode marker.saltB64 = .ok salt →
        ((∃ f ∈ rotated, s.files f ≠ none) → d.salt = salt) ∧
        ((∃ f, f ∉ rotated ∧ Encrypted s f) →
          new = current ∧ d.salt = salt ∧ marker.params = .defaultProd)
  | .removeMainPassword current =>
    ∀ u s', (removeMainPassword P current).exec s = (.ok u, s') →
      (∃ f, f ∉ rotated ∧ Encrypted s f) → ∃ key, Unlocks P s key ∧ Unlocks P { s with marker := none } key
  | .write f body d =>
    ∀ u s', (writeStateFile P f body d).exec s = (.ok u, s') → ∀ key, s.slot = some key → Unlocks P s key
  | .unlock _ => True
  | .lock => True

variable {f : StateFile}

theorem Encrypted.key (readable : Readable P s) (encrypted : Encrypted s f) :
    ∃ blob key plain, s.files f = some blob ∧ hasEncMagic blob = true ∧ Unlocks P s key ∧
      decryptAtRest P blob key = .ok plain := by
  obtain ⟨blob, present, magic⟩ := encrypted
  obtain ⟨key, plain, unlocks, ok⟩ := readable f blob present magic
  exact ⟨blob, key, plain, present, magic, unlocks, ok⟩

variable {key password phrase current new key' : Bytes} {r : Except String Bytes} {f : StateFile} {body : Json}
  {d : WriteDraws} {write : StateFile → Bytes → Bytes}

/-- A file that is in both states, encrypted, is readable in both only if the key
in force is the same. -/
theorem same_key (ideal : P.Ideal) (readable : Readable P s) (readable' : Readable P s')
    (encrypted : Encrypted s f) (kept : s'.files f = s.files f) : ∃ key, Unlocks P s key ∧ Unlocks P s' key := by
  obtain ⟨blob, key, plain, present, magic, unlocks, ok⟩ := encrypted.key readable
  obtain ⟨key', plain', unlocks', ok'⟩ := readable' f blob (kept.trans present) magic
  obtain ⟨nonce, length, rfl⟩ := (decryptAtRest_ok_iff ideal).1 ok
  obtain ⟨rfl, -⟩ := (decrypt_encrypted ideal length).1 ok'
  exact ⟨key', unlocks, unlocks'⟩

/-! ## Setting a password -/

theorem readable_set_iff (ideal : P.Ideal) (readable : Readable P s) {d : PasswordDraws}
    (ran : (setMainPassword P password d).exec s = (.ok phrase, s')) :
    Readable P s' ↔ ((∃ f, Encrypted s f) →
      ∃ key, FileKey P password d.salt .defaultProd key ∧ Unlocks P s key) := by
  obtain ⟨⟨e, ⟨⟩⟩, -⟩ | ⟨_, marker, out, -, -, fresh, after⟩ := setMainPassword_effect ideal ran
  have stored : s'.marker = some marker := by rw [after]
  have files : s'.files = [StateFile.peerMap, .whitelistState, .burnedScopes].foldl (encryptExistingStateFile P
      (deriveFileStorageKey P (out.drop hashLen)) d.fileNonce) s.files := by rw [after]
  constructor
  · rintro readable' ⟨f, blob, present, magic⟩
    have kept : s'.files f = some blob := by
      rw [files]
      exact encryptExisting_encrypted present magic
    obtain ⟨key, unlocks, unlocks'⟩ :=
      same_key ideal readable readable' ⟨blob, present, magic⟩ (kept.trans present.symm)
    rw [fresh.unlocks_iff ideal stored] at unlocks'
    exact ⟨key, unlocks' ▸ fresh.fileKey, unlocks⟩
  · intro safe f blob present magic
    rw [files] at present
    rcases encryptExisting_cases present with before | ⟨raw, before, -, rfl⟩
    · obtain ⟨key, fileKey, unlocks⟩ := safe ⟨f, blob, before, magic⟩
      obtain ⟨key', plain, unlocks', ok⟩ := readable f blob before magic
      obtain rfl := unlocks.unique ideal unlocks'
      exact ⟨_, plain, (fresh.unlocks_iff ideal stored).2 (fresh.fileKey.unique fileKey), ok⟩
    · exact ⟨_, raw, (fresh.unlocks_iff ideal stored).2 rfl,
        (decrypt_encrypted ideal (d.fileNonce_length f)).2 ⟨rfl, rfl⟩⟩

theorem documents_set (ideal : P.Ideal) (documents : Documents P s) {d : PasswordDraws}
    (ran : (setMainPassword P password d).exec s = (r, s')) : Documents P s' := by
  obtain ⟨-, rfl⟩ | ⟨_, marker, out, -, -, -, after⟩ := setMainPassword_effect ideal ran
  · exact documents
  have files : s'.files = [StateFile.peerMap, .whitelistState, .burnedScopes].foldl (encryptExistingStateFile P
      (deriveFileStorageKey P (out.drop hashLen)) d.fileNonce) s.files := by rw [after]
  intro f blob key plain present ok
  rw [files] at present
  rcases encryptExisting_cases present with before | ⟨raw, -, plainRaw, rfl⟩
  · exact documents f blob key plain before ok
  · obtain ⟨-, rfl⟩ := (decrypt_encrypted ideal (d.fileNonce_length f)).1 ok
    exact plainRaw

/-! ## Changing it -/

theorem Holds.plain {raw plain : Bytes} (holds : Holds P key raw plain)
    (documents : ∀ plain, decryptAtRest P raw key = .ok plain → hasEncMagic plain = false) :
    hasEncMagic plain = false := by
  rcases holds with ⟨magic, rfl⟩ | ⟨-, ok⟩
  · exact magic
  · exact documents plain ok

/-- Files that were rewritten hold documents, if what is written of a document does. -/
theorem Documents.rewritten (documents : Documents P s) (outside : ∀ f, f ∉ rotated → s'.files f = s.files f)
    (inside : ∀ f ∈ rotated, Rewritten P key (write f) (s.files f) (s'.files f))
    (written : ∀ f plain, hasEncMagic plain = false → ∀ key plain', decryptAtRest P (write f plain) key = .ok plain' →
      hasEncMagic plain' = false) : Documents P s' := by
  intro f blob key plain present ok
  by_cases mem : f ∈ rotated
  · obtain ⟨raw, plain', before, holds, rfl⟩ := (inside f mem).of_some present
    exact written f plain' (holds.plain fun _ => documents f raw _ _ before) key plain ok
  · exact documents f blob key plain ((outside f mem).symm.trans present) ok

theorem readable_change_iff (ideal : P.Ideal) (readable : Readable P s)
    {d : PasswordDraws} (ran : (changeMainPassword P current new d).exec s = (.ok phrase, s')) :
    Readable P s' ↔
      ∀ marker salt, s.marker = some marker → P.base64.decode marker.saltB64 = .ok salt →
        ((∃ f ∈ rotated, s.files f ≠ none) → d.salt = salt) ∧
        ((∃ f, f ∉ rotated ∧ Encrypted s f) →
          new = current ∧ d.salt = salt ∧ marker.params = .defaultProd) := by
  obtain ⟨⟨e, ⟨⟩⟩, -⟩ | ⟨-, changed⟩ := changeMainPassword_effect ideal readable ran
  obtain ⟨marker, salt, out, newMarker, newOut, mixed, files, stored, matched, fresh, derived, outside, inside,
    after⟩ := changed.effect
  have storedNew : s'.marker = some newMarker := by rw [after]
  have filesNew : s'.files = files := by rw [after]
  have inForce : ∀ {key}, Unlocks P s' key ↔ key = deriveFileStorageKey P (newOut.drop hashLen) :=
    fresh.unlocks_iff ideal storedNew
  have oldKey : FileKey P current salt marker.params (deriveFileStorageKey P (out.drop hashLen)) :=
    ⟨out, matched.2.2.1, rfl⟩
  have mixedKey : FileKey P new salt .defaultProd (deriveFileStorageKey P (mixed.drop hashLen)) :=
    ⟨mixed, derived, rfl⟩
  constructor
  · intro readable' marker' salt' stored' decoded
    rw [stored] at stored'
    cases stored'
    rw [matched.1] at decoded
    cases decoded
    constructor
    · rintro ⟨f, mem, present⟩
      rcases inside f mem with ⟨absent, -⟩ | ⟨raw, plain, -, -, written⟩
      · exact absurd absent present
      obtain ⟨key, _, unlocks, ok⟩ :=
        readable' f _ ((congrFun filesNew f).trans written) (hasEncMagic_encryptAtRest ..)
      obtain ⟨rfl, -⟩ := (decrypt_encrypted ideal (d.fileNonce_length f)).1 ok
      exact (fresh.fileKey.inj ideal (inForce.1 unlocks ▸ mixedKey)).2.2
    · rintro ⟨f, out', encrypted⟩
      obtain ⟨key, unlocks, unlocks'⟩ := same_key ideal readable readable' encrypted
        ((congrFun filesNew f).trans (outside f out'))
      have same := (inForce.1 unlocks').symm.trans (unlocks_of_matches ideal stored matched unlocks)
      obtain ⟨params, words, salts⟩ := fresh.fileKey.inj ideal (same ▸ oldKey)
      exact ⟨words, salts, params.symm⟩
  · intro safe f blob present magic
    obtain ⟨two, others⟩ := safe marker salt stored matched.1
    rw [filesNew] at present
    by_cases mem : f ∈ rotated
    · obtain ⟨raw, plain, before, -, rfl⟩ := (inside f mem).of_some present
      have salts := two ⟨f, mem, by rw [before]; nofun⟩
      refine ⟨_, plain, inForce.2 (fresh.fileKey.unique ?_),
        (decrypt_encrypted ideal (d.fileNonce_length f)).2 ⟨rfl, rfl⟩⟩
      rw [salts]
      exact mixedKey
    · rw [outside f mem] at present
      obtain ⟨words, salts, params⟩ := others ⟨f, mem, blob, present, magic⟩
      obtain ⟨key, plain, unlocks, ok⟩ := readable f blob present magic
      refine ⟨_, plain, inForce.2 (fresh.fileKey.unique ?_), ok⟩
      rw [unlocks_of_matches ideal stored matched unlocks, words, salts, ← params]
      exact oldKey

section

variable (ideal : P.Ideal) (readable : Readable P s) (documents : Documents P s) {d : PasswordDraws}
include ideal readable documents

theorem documents_change (ran : (changeMainPassword P current new d).exec s = (r, s')) : Documents P s' := by
  obtain ⟨-, rfl⟩ | ⟨-, changed⟩ := changeMainPassword_effect ideal readable ran
  · exact documents
  obtain ⟨_, _, _, _, _, _, files, -, -, -, -, outside, inside, rfl⟩ := changed.effect
  refine documents.rewritten outside inside fun f plain plainText key' plain' ok => ?_
  obtain ⟨-, rfl⟩ := (decrypt_encrypted ideal (d.fileNonce_length f)).1 ok
  exact plainText

/-! ## Removing it -/

theorem readable_remove_iff (ran : (removeMainPassword P current).exec s = (.ok (), s')) :
    Readable P s' ↔ ((∃ f, f ∉ rotated ∧ Encrypted s f) →
      ∃ key, Unlocks P s key ∧ Unlocks P { s with marker := none } key) := by
  obtain ⟨⟨e, ⟨⟩⟩, -⟩ | ⟨-, removed⟩ := removeMainPassword_effect ideal readable ran
  obtain ⟨marker, salt, out, files, stored, matched, outside, inside, after⟩ := removed.effect
  have filesNew : s'.files = files := by rw [after]
  have device : ∀ {key}, Unlocks P s' key ↔ Unlocks P { s with marker := none } key :=
    Unlocks.congr (by rw [after]) (by rw [after])
  constructor
  · rintro readable' ⟨f, out', encrypted⟩
    obtain ⟨key, unlocks, unlocks'⟩ :=
      same_key ideal readable readable' encrypted ((congrFun filesNew f).trans (outside f out'))
    exact ⟨key, unlocks, device.1 unlocks'⟩
  · intro safe f blob present magic
    rw [filesNew] at present
    by_cases mem : f ∈ rotated
    · -- the two files that are gone through are plain now
      obtain ⟨raw, plain, before, holds, rfl⟩ := (inside f mem).of_some present
      have plainText : hasEncMagic blob = false := holds.plain fun _ => documents f raw _ _ before
      simp [plainText] at magic
    · rw [outside f mem] at present
      obtain ⟨key, unlocks, unlocks'⟩ := safe ⟨f, mem, blob, present, magic⟩
      obtain ⟨key', plain, inForce, ok⟩ := readable f blob present magic
      obtain rfl := unlocks.unique ideal inForce
      exact ⟨_, plain, device.2 unlocks', ok⟩

theorem documents_remove {r : Except String Unit} (ran : (removeMainPassword P current).exec s = (r, s')) :
    Documents P s' := by
  obtain ⟨-, rfl⟩ | ⟨-, removed⟩ := removeMainPassword_effect ideal readable ran
  · exact documents
  obtain ⟨_, _, _, files, -, -, outside, inside, rfl⟩ := removed.effect
  refine documents.rewritten outside inside fun f plain plainText key' plain' ok => ?_
  obtain ⟨nonce, -, rfl⟩ := (decryptAtRest_ok_iff ideal).1 ok
  simpa [plainText] using @hasEncMagic_encryptAtRest P plain' key' nonce

end

/-! ## Writing a file -/

/-- After a write under `key` with what was in force still in force. -/
theorem readable_update_iff (ideal : P.Ideal) (readable : Readable P s) {t : Config} {nonce plain : Bytes}
    (length : nonce.length = nonceLen) (mono : ∀ {key'}, Unlocks P s key' → Unlocks P t key')
    (after : s' = { t with files := update s.files f (some (encryptAtRest P plain key nonce)) }) :
    Readable P s' ↔ Unlocks P t key := by
  have inForce : ∀ {key}, Unlocks P s' key ↔ Unlocks P t key := Unlocks.congr (by rw [after]) (by rw [after])
  constructor
  · intro readable'
    obtain ⟨key', _, unlocks, ok⟩ := readable' f (encryptAtRest P plain key nonce)
      (by rw [after]; exact update_self ..) (hasEncMagic_encryptAtRest ..)
    obtain ⟨rfl, -⟩ := (decrypt_encrypted ideal length).1 ok
    exact inForce.1 unlocks
  · intro unlocks g blob present magic
    rw [after] at present
    by_cases same : g = f
    · subst same
      cases (update_self ..).symm.trans present
      exact ⟨key, plain, inForce.2 unlocks, (decrypt_encrypted ideal length).2 ⟨rfl, rfl⟩⟩
    · obtain ⟨key', plain', was, ok⟩ := readable g blob ((update_of_ne same ..).symm.trans present) magic
      exact ⟨key', plain', inForce.2 (mono was), ok⟩

theorem DeviceKey.unlocks (device : DeviceKey P s key s') : Unlocks P s' key := by
  obtain ⟨dto, opened, -, rfl⟩ := device.effect
  exact .inr ⟨device.absent, dto, rfl, opened⟩

/-- The device's key stays the key in force when it was there; when it was not,
nothing was. -/
theorem DeviceKey.mono (device : DeviceKey P s key s') (unlocks : Unlocks P s key') :
    Unlocks P s' key' := by
  obtain ⟨dto, opened, stored, rfl⟩ := device.effect
  rcases unlocks with ⟨marker, _, read, -⟩ | ⟨absent, dto', stored', opened'⟩
  · rw [device.absent] at read
    cases read
  · rcases stored with stored | stored
    · rw [stored] at stored'
      cases stored'
      exact .inr ⟨absent, _, rfl, opened'⟩
    · rw [stored] at stored'
      cases stored'

theorem readable_write_iff (ideal : P.Ideal) (readable : Readable P s)
    (ran : (writeStateFile P f body d).exec s = (.ok (), s')) :
    Readable P s' ↔ ∀ key, s.slot = some key → Unlocks P s key := by
  cases writeStateFile_effect ideal ran with
  | refused same => obtain ⟨⟨e, ⟨⟩⟩, -⟩ := same
  | slot key ok held after =>
    rw [readable_update_iff ideal readable d.nonce_length id after, held]
    simp
  | device key t ok empty device after =>
    rw [readable_update_iff ideal readable d.nonce_length device.mono after]
    refine ⟨fun _ key' held => ?_, fun _ => device.unlocks⟩
    rw [empty] at held
    cases held

theorem documents_write (ideal : P.Ideal) (documents : Documents P s) {r : Except String Unit}
    (ran : (writeStateFile P f body d).exec s = (r, s')) : Documents P s' := by
  have updated : ∀ key, s'.files = update s.files f (some (encryptAtRest P body.1 key d.nonce)) →
      Documents P s' := by
    intro key files g blob key' plain present ok
    rw [files] at present
    by_cases same : g = f
    · subst same
      rw [update_self] at present
      cases present
      obtain ⟨-, rfl⟩ := (decrypt_encrypted ideal d.nonce_length).1 ok
      exact body.2
    · rw [update_of_ne same] at present
      exact documents g blob key' plain present ok
  cases writeStateFile_effect ideal ran with
  | refused same => exact same.2 ▸ documents
  | slot key ok held after => exact updated key (by rw [after])
  | device key t ok empty device after => exact updated key (by rw [after])

/-! ## Runs -/

/-- A call that fails leaves the configuration; one that succeeds is readable
afterwards under `Q`. -/
theorem readable_exec_iff {α : Type} {c : Cmd α} {Q : Prop} (readable : Readable P s)
    (succeeds : ∀ a s', c.exec s = (.ok a, s') → (Readable P s' ↔ Q))
    (fails : ∀ e s', c.exec s = (.error e, s') → s' = s) :
    Readable P (c.exec s).2 ↔ ∀ a s', c.exec s = (.ok a, s') → Q := by
  obtain ⟨r, s', ran⟩ : ∃ r s', c.exec s = (r, s') := ⟨_, _, rfl⟩
  rw [ran]
  cases r with
  | ok a =>
    rw [succeeds a s' ran]
    exact ⟨fun q _ _ _ => q, fun q => q a s' rfl⟩
  | error e =>
    rw [fails e s' ran]
    refine ⟨fun _ a s' same => ?_, fun _ => readable⟩
    cases same

theorem readable_step_iff (ideal : P.Ideal) (documents : Documents P s) (readable : Readable P s) (op : Op) :
    Readable P (step P s op) ↔ Safe P s op := by
  cases op with
  | setMainPassword password d =>
    refine readable_exec_iff readable (fun _ _ ran => readable_set_iff ideal readable ran) fun e s' ran => ?_
    obtain ⟨-, rfl⟩ | ⟨_, _, _, ⟨⟩, -⟩ := setMainPassword_effect ideal ran
    rfl
  | changeMainPassword current new d =>
    refine readable_exec_iff readable (fun _ _ ran => readable_change_iff ideal readable ran) fun e s' ran => ?_
    obtain ⟨-, rfl⟩ | ⟨⟨_, ⟨⟩⟩, -⟩ := changeMainPassword_effect ideal readable ran
    rfl
  | removeMainPassword current =>
    refine readable_exec_iff readable (fun _ _ ran => readable_remove_iff ideal readable documents ran)
      fun e s' ran => ?_
    obtain ⟨-, rfl⟩ | ⟨⟨⟩, -⟩ := removeMainPassword_effect ideal readable ran
    rfl
  | write f body d =>
    refine readable_exec_iff readable (fun _ _ ran => readable_write_iff ideal readable ran) fun e s' ran => ?_
    cases writeStateFile_effect ideal ran with
    | refused same => exact same.2
    | slot _ ok => cases ok
    | device _ _ ok => cases ok
  | unlock password =>
    obtain ⟨files, marker, fallback⟩ := openGate_effect (r := ((openGate P password).exec s).1) (s := s) rfl
    refine iff_of_true (fun f blob (present : ((openGate P password).exec s).2.files f = some blob) magic => ?_) trivial
    obtain ⟨key, plain, unlocks, ok⟩ := readable f blob (files ▸ present) magic
    exact ⟨key, plain, (Unlocks.congr marker fallback).2 unlocks, ok⟩
  | lock => exact iff_of_true readable trivial

theorem documents_step (ideal : P.Ideal) (documents : Documents P s) (readable : Readable P s) (op : Op) :
    Documents P (step P s op) := by
  cases op with
  | setMainPassword password d => exact documents_set ideal documents (Prod.eta _).symm
  | changeMainPassword current new d => exact documents_change ideal readable documents (Prod.eta _).symm
  | removeMainPassword current => exact documents_remove ideal readable documents (Prod.eta _).symm
  | write f body d => exact documents_write ideal documents (Prod.eta _).symm
  | unlock password =>
    obtain ⟨files, -⟩ := openGate_effect (r := ((openGate P password).exec s).1) (s := s) rfl
    intro f blob key plain present
    exact documents f blob key plain ((congrFun files f).symm.trans present)
  | lock => exact documents

/-- Along any run of password commands, state-file writes, unlocks and locks from
a readable configuration, every encrypted state file opens under the key in force
exactly when every call is `Safe`. -/
theorem state_files_readable_iff (ideal : P.Ideal) (documents : Documents P s) (readable : Readable P s)
    (ops : List Op) :
    (∀ pre, pre <+: ops → Readable P (run (step P) s pre)) ↔ AllSteps (step P) (Safe P) s ops :=
  run_prefix_iff (I := Documents P) (fun _ op documents readable => documents_step ideal documents readable op)
    (fun _ op documents readable => readable_step_iff ideal documents readable op) documents readable ops

/-! ## A password set, a file written, the password changed -/

variable (P) in
/-- The primitives do not fail. -/
structure Total : Prop where
  params : ∀ p, P.argon2Params p = .ok ()
  argon2id : ∀ p w s, ∃ out, P.argon2id p w s = .ok out
  bip39 : ∀ entropy, ∃ phrase, P.bip39 entropy = .ok phrase

theorem Total.derive (total : Total P) (w salt : Bytes) (p : Argon2Params) : ∃ out, derive P w salt p = .ok out := by
  obtain ⟨out, ok⟩ := total.argon2id p w salt
  exact ⟨out, by simp [Password.derive, total.params, ok, context, Except.mapError, bind, Except.bind]⟩

theorem Total.buildMarker (total : Total P) (w phrase : Bytes) (d : PasswordDraws) :
    ∃ marker, buildMarker P w phrase d = .ok marker := by
  obtain ⟨out, ok⟩ := total.derive w d.salt .defaultProd
  obtain ⟨out', ok'⟩ := total.derive phrase d.salt .defaultProd
  exact ⟨_, by rw [Password.buildMarker, ok, ok']; rfl⟩

theorem Total.generatePhrase (total : Total P) (d : PasswordDraws) : ∃ phrase, generatePhrase P d = .ok phrase := by
  obtain ⟨phrase, ok⟩ := total.bip39 d.entropy
  exact ⟨phrase, context_ok.2 ok⟩

theorem setMainPassword_succeeds (ideal : P.Ideal) (total : Total P) {d : PasswordDraws}
    (valid : validatePassword password = .ok ()) (absent : s.marker = none) :
    ∃ phrase s', (setMainPassword P password d).exec s = (.ok phrase, s') := by
  obtain ⟨phrase, generated⟩ := total.generatePhrase d
  obtain ⟨marker, built⟩ := total.buildMarker password phrase d
  obtain ⟨out, fresh⟩ := buildMarker_ok ideal built
  rw [setMainPassword, exec_lift_ok valid, exec_get_bind, absent, if_neg (by simp), exec_lift_ok generated,
    exec_lift_ok built, writeMarker, exec_modify_bind, resetLockouts, exec_modify_bind,
    exec_lift_ok (context_ok.2 fresh.matched.1), exec_lift_ok fresh.matched.2.2.1]
  exact ⟨_, _, rfl⟩

theorem changeMainPassword_succeeds (ideal : P.Ideal) (total : Total P) (readable : Readable P s)
    {out : Bytes} {d : PasswordDraws} {d' : PasswordDraws} {marker : PasswordMarker}
    (valid : validatePassword new = .ok ()) (stored : s.marker = some marker) (fresh : Fresh P marker current d out) :
    ∃ phrase s', (changeMainPassword P current new d').exec s = (.ok phrase, s') := by
  obtain ⟨phrase, generated⟩ := total.generatePhrase d'
  obtain ⟨newMarker, built⟩ := total.buildMarker new phrase d'
  obtain ⟨mixed, derived⟩ := total.derive new d.salt newMarker.params
  obtain ⟨decoded, length, old, hash⟩ := fresh.matched
  have verified : verifyCurrent P marker current = .ok (out.drop hashLen) := by
    simp [verifyCurrent, verifyWithMarker, decoded, length, old, hash, context, Except.mapError, bind, Except.bind]
  obtain ⟨files, rotate, -⟩ := rewrite_loop
    (rotateStateFile_rewrites (deriveFileStorageKey P (mixed.drop hashLen)) d'.fileNonce) nodup_rotated
    fun f _ => readable.opens ideal stored fresh.matched f
  rw [changeMainPassword, exec_lift_ok valid, exec_get_bind, stored, exec_lift_ok fresh.readMarker,
    exec_lift_ok verified, exec_lift_ok (context_ok.2 decoded), exec_lift_ok old, exec_lift_ok generated,
    exec_lift_ok built, exec_lift_ok derived]
  refine ⟨phrase, _, exec_bind_ok.2 ⟨_, _, rotate, rfl⟩⟩

variable (f body d) in
theorem writeStateFile_slot (held : s.slot = some key) :
    (writeStateFile P f body d).exec s = (.ok (),
      { s with files := update s.files f (some (encryptAtRest P body.1 key d.nonce)) }) := by
  conv_lhs => rw [writeStateFile, maybeEncrypt, bind_assoc, exec_get_bind, held]
  rfl

/-- Symbolic primitives; the phrase is its entropy and the device seals by doing
nothing. -/
def symbolicPlatform : Platform where
  argon2Params _ := .ok ()
  argon2id p w s :=
    let half := tagged hashLen (p.memoryKb, p.iterations, p.parallelism, w, s)
    .ok (half ++ half)
  gcm := symbolicAead tagLen
  hmac k m := tagged keyLen (k, m)
  base64 := symbolicCodec
  bip39 entropy := .ok entropy
  sealer := ⟨"memory-test", fun _ key => .ok key, fun sealed => .ok sealed⟩
  notFound := "No such file or directory (os error 2)"

theorem symbolicPlatform_total : Total symbolicPlatform where
  params _ := rfl
  argon2id _ _ _ := ⟨_, rfl⟩
  bip39 _ := ⟨_, rfl⟩

theorem symbolicPlatform_ideal : symbolicPlatform.Ideal where
  argon2_hash {p w s p' w' s' out out'} ok ok' same := by
    cases ok
    cases ok'
    rw [List.take_left' (length_tagged (by decide) _), List.take_left' (length_tagged (by decide) _)] at same
    simpa [Argon2Params.ext_iff, and_assoc] using tagged_inj same
  argon2_key {p w s p' w' s' out out'} ok ok' same := by
    cases ok
    cases ok'
    simpa [Argon2Params.ext_iff, and_assoc] using tagged_inj same
  gcm := symbolicAead_ideal (by decide)
  hmac_length _ _ := length_tagged (by decide) _
  hmac_inj same := by simpa using tagged_inj same
  base64 := symbolicCodec_ideal
  unseal_seal {r key sealed} ok := by
    cases ok
    rfl

def sampleDraws (salt : Nat) : PasswordDraws where
  entropy := List.replicate 16 7
  salt := List.replicate saltLen salt
  phraseNonce := List.replicate nonceLen 0
  fileNonce _ := List.replicate nonceLen 0
  salt_length := List.length_replicate
  fileNonce_length _ := List.length_replicate

def sampleWrite : WriteDraws where
  fallbackKey := List.replicate keyLen 0
  sealing := []
  nonce := List.replicate nonceLen 0
  fallbackKey_length := List.length_replicate
  nonce_length := List.length_replicate

def samplePassword : Bytes := label "correct horse"

def emptyList : Json := ⟨label "[]", by decide⟩

/-- Set a password, then store the whitelist. -/
def sampleOps : List Op :=
  [.setMainPassword samplePassword (sampleDraws 1), .write .whitelistState emptyList sampleWrite]

theorem readable_fresh : Readable P .fresh := nofun

theorem documents_fresh : Documents P .fresh := nofun

/-- The state between the two calls, and after them. -/
theorem sample_states : ∃ (s : Config) (marker : PasswordMarker) (out : Bytes),
    step symbolicPlatform .fresh (.setMainPassword samplePassword (sampleDraws 1)) = s ∧
    s.marker = some marker ∧ Fresh symbolicPlatform marker samplePassword (sampleDraws 1) out ∧
    s.slot = some (deriveFileStorageKey symbolicPlatform (out.drop hashLen)) := by
  obtain ⟨phrase, s, ran⟩ := setMainPassword_succeeds (s := .fresh) (d := sampleDraws 1) symbolicPlatform_ideal
    symbolicPlatform_total (show validatePassword samplePassword = .ok () by decide) rfl
  obtain ⟨⟨e, ⟨⟩⟩, -⟩ | ⟨_, marker, out, -, -, fresh, after⟩ := setMainPassword_effect symbolicPlatform_ideal ran
  exact ⟨s, marker, out, by rw [step, ran], by rw [after], fresh, by rw [after]⟩

theorem sampleOps_safe : AllSteps (step symbolicPlatform) (Safe symbolicPlatform) .fresh sampleOps := by
  obtain ⟨s, marker, out, ran, stored, fresh, held⟩ := sample_states
  refine ⟨?_, ?_, trivial⟩
  · rintro phrase s' - ⟨f, blob, ⟨⟩, -⟩
  · rw [ran]
    intro _ s' _ key held'
    rw [held] at held'
    exact (fresh.unlocks_iff symbolicPlatform_ideal stored).2 (Option.some.inj held').symm

theorem state_files_readable_sample :
    AllSteps (step symbolicPlatform) (Safe symbolicPlatform) .fresh sampleOps ∧
      ∀ pre, pre <+: sampleOps → Readable symbolicPlatform (run (step symbolicPlatform) .fresh pre) :=
  ⟨sampleOps_safe, (state_files_readable_iff symbolicPlatform_ideal documents_fresh readable_fresh sampleOps).2
    sampleOps_safe⟩

/-- A change of the password that succeeds, with another salt than the old one:
the whitelist is on disk, and the new password does not open it. -/
theorem changed_password_loses_whitelist :
    ∃ s, run (step symbolicPlatform) .fresh sampleOps = s ∧ Readable symbolicPlatform s ∧
      ∃ phrase s', (changeMainPassword symbolicPlatform samplePassword (label "battery staple")
        (sampleDraws 2)).exec s = (.ok phrase, s') ∧ ¬ Readable symbolicPlatform s' := by
  obtain ⟨s, marker, out, ran, stored, fresh, held⟩ := sample_states
  obtain ⟨safeSet, safeWrite, -⟩ := sampleOps_safe
  rw [ran] at safeWrite
  have readable : Readable symbolicPlatform s :=
    ran ▸ (readable_step_iff symbolicPlatform_ideal documents_fresh readable_fresh _).2 safeSet
  have documents : Documents symbolicPlatform s :=
    ran ▸ documents_step symbolicPlatform_ideal documents_fresh readable_fresh _
  have written := writeStateFile_slot (P := symbolicPlatform) .whitelistState emptyList sampleWrite held
  obtain ⟨t, after⟩ : ∃ t, t = step symbolicPlatform s (.write .whitelistState emptyList sampleWrite) :=
    ⟨_, rfl⟩
  have readableT : Readable symbolicPlatform t :=
    after ▸ (readable_step_iff symbolicPlatform_ideal documents readable _).2 safeWrite
  rw [step, written] at after
  have storedT : t.marker = some marker := by rw [after, ← stored]
  obtain ⟨phrase, s', changed⟩ := changeMainPassword_succeeds symbolicPlatform_ideal symbolicPlatform_total
    readableT (show validatePassword (label "battery staple") = .ok () by decide) storedT fresh
  refine ⟨t, ?_, readableT, phrase, s', changed, ?_⟩
  · rw [sampleOps, run_cons, run_cons, run_nil, ran, step, written, after]
  · rw [readable_change_iff symbolicPlatform_ideal readableT changed]
    intro safe
    have present : t.files .whitelistState ≠ none := by
      rw [after]
      simp
    have salts := (safe marker _ storedT fresh.matched.1).1 ⟨.whitelistState, by decide, present⟩
    exact absurd salts (by decide)

end Osl.Password
