import Osl.Password.Keys

/-!
# What the commands do to the directory

One lemma for each command: it refuses and leaves everything as it was, or it
succeeds with the effect stated. The loops over the state files read each file
with one key and write it back, under another key or plain; on a readable
configuration they do not fail.
-/

namespace Osl.Password

open Base Command Function

variable {P : Platform} {s s' : Config} {r : Except String Bytes} {password key blob : Bytes} {d : PasswordDraws}
  {nonce : StateFile → Bytes} {files : Files} {f : StateFile}

/-! ## What the commands do -/

/-- A failed call that left everything as it was. -/
def Refused {α : Type} (r : Except String α) (s s' : Config) : Prop := (∃ e, r = .error e) ∧ s' = s

/-- A command that begins with a check refuses, or the rest decides. -/
theorem Refused.or_lift {α β : Type} {x : Except String α} {k : α → Cmd β} {r : Except String β} {effect : Prop}
    (ran : exec (liftM x >>= k) s = (r, s')) (rest : ∀ a, x = .ok a → (k a).exec s = (r, s') → Refused r s s' ∨ effect) :
    Refused r s s' ∨ effect := by
  rcases exec_lift_bind.1 ran with ⟨e, -, rfl, rfl⟩ | ⟨a, ok, ran⟩
  · exact .inl ⟨⟨e, rfl⟩, rfl⟩
  · exact rest a ok ran

theorem setMainPassword_effect (ideal : P.Ideal) (ran : (setMainPassword P password d).exec s = (r, s')) :
    Refused r s s' ∨
      ∃ phrase marker out, r = .ok phrase ∧ s.marker = none ∧ Fresh P marker password d out ∧
        let key := deriveFileStorageKey P (out.drop hashLen)
        s' = { s with
          files := [StateFile.peerMap, .whitelistState, .burnedScopes].foldl
            (encryptExistingStateFile P key d.fileNonce) s.files
          marker := some marker
          lockout := ⟨lockoutVersion, 0, none, 0, none⟩
          slot := some key } := by
  refine Refused.or_lift ran fun _ _ ran => ?_
  rw [exec_get_bind] at ran
  split at ran
  · cases ran
    exact .inl ⟨⟨_, rfl⟩, rfl⟩
  rename_i absent
  refine Refused.or_lift ran fun phrase _ ran => Refused.or_lift ran fun marker built ran => ?_
  -- the marker is on disk: the rest repeats what `build_marker` computed and cannot fail
  obtain ⟨out, fresh⟩ := buildMarker_ok ideal built
  rw [writeMarker, exec_modify_bind, resetLockouts, exec_modify_bind, exec_lift_ok (context_ok.2 fresh.matched.1),
    exec_lift_ok fresh.matched.2.2.1] at ran
  cases ran
  exact .inr ⟨phrase, marker, out, rfl, by simpa using absent, fresh, rfl⟩

/-! ## Loops over the state files -/

variable (P key nonce files) in
theorem encryptExistingStateFile_other {g : StateFile} (other : f ≠ g) :
    encryptExistingStateFile P key nonce files g f = files f := by
  cases present : files g with
  | none => simp only [encryptExistingStateFile, present]
  | some raw =>
    simp only [encryptExistingStateFile, present]
    split
    · rfl
    · exact update_of_ne other _ _

variable (P key nonce files f) in
theorem encryptExistingStateFile_self :
    encryptExistingStateFile P key nonce files f f = files f ∨
      ∃ raw, files f = some raw ∧ hasEncMagic raw = false ∧
        encryptExistingStateFile P key nonce files f f = some (encryptAtRest P raw key (nonce f)) := by
  cases present : files f with
  | none => exact .inl (by simp only [encryptExistingStateFile, present])
  | some raw =>
    cases magic : hasEncMagic raw with
    | true => exact .inl (by simp only [encryptExistingStateFile, present, magic, if_true])
    | false =>
      refine .inr ⟨raw, rfl, magic, ?_⟩
      simp only [encryptExistingStateFile, present, magic, Bool.false_eq_true, if_false]
      exact update_self _ _ _

variable {fs : List StateFile}

/-- The loop only encrypts what was plain. -/
theorem encryptExisting_cases (after : fs.foldl (encryptExistingStateFile P key nonce) files f = some blob) :
    files f = some blob ∨
      ∃ raw, files f = some raw ∧ hasEncMagic raw = false ∧ blob = encryptAtRest P raw key (nonce f) := by
  induction fs generalizing files with
  | nil => exact .inl after
  | cons g fs ih =>
    by_cases same : f = g
    · subst same
      rcases encryptExistingStateFile_self P key nonce files f
        with kept | ⟨raw, present, plain, written⟩
      · rcases ih after with unchanged | ⟨raw, present, plain, rfl⟩
        · exact .inl (kept.symm.trans unchanged)
        · exact .inr ⟨raw, kept.symm.trans present, plain, rfl⟩
      · rcases ih after with unchanged | ⟨raw', present', plain', -⟩
        · rw [written] at unchanged
          cases unchanged
          exact .inr ⟨raw, present, plain, rfl⟩
        · rw [written] at present'
          cases present'
          cases plain'
    · have frame := encryptExistingStateFile_other P key nonce files same
      rw [← frame]
      exact ih after

theorem encryptExisting_encrypted (before : files f = some blob) (magic : hasEncMagic blob = true) :
    fs.foldl (encryptExistingStateFile P key nonce) files f = some blob := by
  induction fs generalizing files with
  | nil => exact before
  | cons g fs ih =>
    refine ih ?_
    by_cases same : f = g
    · subst same
      rcases encryptExistingStateFile_self P key nonce files f
        with kept | ⟨raw, present, plain, -⟩
      · exact kept.trans before
      · rw [before] at present
        cases present
        rw [magic] at plain
        cases plain
    · exact (encryptExistingStateFile_other P key nonce files same).trans before

variable (P) in
/-- `raw` read with `key` gives `plain`. -/
def Holds (key raw plain : Bytes) : Prop :=
  (hasEncMagic raw = false ∧ plain = raw) ∨ (hasEncMagic raw = true ∧ decryptAtRest P raw key = .ok plain)

variable (P) in
/-- A file, if present, was read with `key` and written back through `write`. -/
def Rewritten (key : Bytes) (write : Bytes → Bytes) (before after : Option Bytes) : Prop :=
  (before = none ∧ after = none) ∨
    ∃ raw plain, before = some raw ∧ Holds P key raw plain ∧ after = some (write plain)

theorem Rewritten.of_some {write : Bytes → Bytes} {before after : Option Bytes} (rewritten : Rewritten P key write before after)
    (present : after = some blob) : ∃ raw plain, before = some raw ∧ Holds P key raw plain ∧ blob = write plain := by
  obtain ⟨-, rfl⟩ | ⟨raw, plain, there, holds, rfl⟩ := rewritten
  · cases present
  · exact ⟨raw, plain, there, holds, (Option.some.inj present).symm⟩

variable (P) in
def Opens (key : Bytes) (content : Option Bytes) : Prop := ∀ raw, content = some raw → ∃ plain, Holds P key raw plain

/-- A loop whose body rewrites one file that opens rewrites all of them. -/
theorem rewrite_loop {body : StateFile → Cmd Unit} {write : StateFile → Bytes → Bytes}
    (one : ∀ (t : Config) f, Opens P key (t.files f) → ∃ after, Rewritten P key (write f) (t.files f) after ∧
      (body f).exec t = (.ok (), { t with files := update t.files f after }))
    (nodup : fs.Nodup) (opens : ∀ f ∈ fs, Opens P key (s.files f)) :
    ∃ files, (fs.forM body).exec s = (.ok (), { s with files := files }) ∧
      (∀ f, f ∉ fs → files f = s.files f) ∧ ∀ f ∈ fs, Rewritten P key (write f) (s.files f) (files f) := by
  induction fs generalizing s with
  | nil => exact ⟨s.files, rfl, fun _ _ => rfl, nofun⟩
  | cons g fs ih =>
    obtain ⟨fresh, nodup⟩ := List.nodup_cons.1 nodup
    obtain ⟨after, first, ran⟩ := one s g (opens g (by simp))
    -- the rest of the loop does not see the file just written
    have frame : ∀ f ∈ fs, update s.files g after f = s.files f := by
      intro f mem
      refine update_of_ne ?_ _ _
      rintro rfl
      exact fresh mem
    obtain ⟨files, rest, outside, inside⟩ :=
      ih (s := { s with files := update s.files g after }) nodup (by
        intro f mem
        simpa only [frame f mem] using opens f (List.mem_cons_of_mem _ mem))
    refine ⟨files, ?_, ?_, ?_⟩
    · exact exec_bind_ok.2 ⟨(), _, ran, rest⟩
    · intro f out
      rw [outside f fun mem => out (List.mem_cons_of_mem _ mem)]
      exact update_of_ne (fun same => out (by simp [same])) _ _
    · intro f mem
      rcases List.mem_cons.1 mem with rfl | mem
      · rw [outside f fresh]
        simpa using first
      · simpa only [frame f mem] using inside f mem

theorem rotateStateFile_rewrites (newKey : Bytes) (nonce : StateFile → Bytes) (t : Config) (f : StateFile) (opens : Opens P key (t.files f)) :
    ∃ after, Rewritten P key (fun plain => encryptAtRest P plain newKey (nonce f)) (t.files f) after ∧
      (rotateStateFile P key newKey nonce f).exec t =
        (.ok (), { t with files := update t.files f after }) := by
  rw [rotateStateFile, exec_get_bind]
  cases present : t.files f with
  | none =>
    have same : update t.files f none = t.files := present ▸ update_eq_self f t.files
    exact ⟨none, .inl ⟨rfl, rfl⟩, by rw [same]; rfl⟩
  | some raw =>
    obtain ⟨plain, holds⟩ := opens raw present
    refine ⟨some (encryptAtRest P plain newKey (nonce f)), .inr ⟨raw, plain, rfl, holds, rfl⟩, ?_⟩
    rcases holds with ⟨magic, rfl⟩ | ⟨magic, ok⟩
    · simp only [magic, Bool.false_eq_true, if_false]
      rfl
    · simp only [magic, if_true, ok]
      rfl

theorem decryptExistingStateFile_rewrites (t : Config) (f : StateFile) (opens : Opens P key (t.files f)) :
    ∃ after, Rewritten P key id (t.files f) after ∧
      (decryptExistingStateFile P key f).exec t = (.ok (), { t with files := update t.files f after }) := by
  rw [decryptExistingStateFile, exec_get_bind]
  cases present : t.files f with
  | none =>
    have same : update t.files f none = t.files := present ▸ update_eq_self f t.files
    exact ⟨none, .inl ⟨rfl, rfl⟩, by rw [same]; rfl⟩
  | some raw =>
    obtain ⟨plain, holds⟩ := opens raw present
    refine ⟨some plain, .inr ⟨raw, plain, rfl, holds, rfl⟩, ?_⟩
    rcases holds with ⟨magic, rfl⟩ | ⟨magic, ok⟩
    · have same : update t.files f (some plain) = t.files := present ▸ update_eq_self f t.files
      simp only [magic, Bool.not_false, if_true, same]
      rfl
    · simp only [magic, Bool.not_true, Bool.false_eq_true, if_false, ok]
      rfl

theorem nodup_rotated : rotated.Nodup := by decide

variable {marker : PasswordMarker} {current tail new : Bytes}

/-- Under the key in force every state file opens. -/
theorem Readable.opens (ideal : P.Ideal) (readable : Readable P s)
    {salt out : Bytes} (stored : s.marker = some marker) (matched : Matches P marker password salt out)
    (f : StateFile) : Opens P (deriveFileStorageKey P (out.drop hashLen)) (s.files f) := by
  intro raw present
  cases magic : hasEncMagic raw with
  | false => exact ⟨raw, .inl ⟨magic, rfl⟩⟩
  | true =>
    obtain ⟨key, plain, unlocks, ok⟩ := readable f raw present magic
    rw [unlocks_of_matches ideal stored matched unlocks] at ok
    exact ⟨plain, .inr ⟨magic, ok⟩⟩

theorem verifyCurrent_ok
    (ok : verifyCurrent P marker current = .ok tail) : ∃ salt out, Matches P marker current salt out := by
  unfold verifyCurrent at ok
  cases verified : verifyWithMarker P marker current with
  | error e => rw [verified] at ok; cases ok
  | ok tail => exact verifyWithMarker_ok verified

/-- What a successful change did. The files are under the key of the new password
with the old salt (`mixed`), the marker has the new one. -/
structure Changed (P : Platform) (current new : Bytes) (d : PasswordDraws) (s s' : Config) : Prop where
  effect : ∃ marker salt out newMarker newOut mixed files,
    s.marker = some marker ∧ Matches P marker current salt out ∧ Fresh P newMarker new d newOut ∧
    derive P new salt .defaultProd = .ok mixed ∧
    (∀ f, f ∉ rotated → files f = s.files f) ∧
    (∀ f ∈ rotated, Rewritten P (deriveFileStorageKey P (out.drop hashLen))
      (fun plain => encryptAtRest P plain (deriveFileStorageKey P (mixed.drop hashLen)) (d.fileNonce f))
      (s.files f) (files f)) ∧
    s' = { s with
      files := files
      marker := some newMarker
      slot := some (deriveFileStorageKey P (mixed.drop hashLen))
      lockout := ⟨lockoutVersion, 0, none, 0, none⟩ }

theorem changeMainPassword_effect (ideal : P.Ideal) (readable : Readable P s)
    (ran : (changeMainPassword P current new d).exec s = (r, s')) :
    Refused r s s' ∨ (∃ phrase, r = .ok phrase) ∧ Changed P current new d s s' := by
  refine Refused.or_lift ran fun _ _ ran => ?_
  rw [exec_get_bind] at ran
  refine Refused.or_lift ran fun marker read ran => Refused.or_lift ran fun _ verified ran => ?_
  have stored := readMarker_ok read
  obtain ⟨salt, out, matched⟩ := verifyCurrent_ok verified
  rw [exec_lift_ok (context_ok.2 matched.1), exec_lift_ok matched.2.2.1] at ran
  refine Refused.or_lift ran fun phrase _ ran => Refused.or_lift ran fun newMarker built ran => ?_
  obtain ⟨newOut, fresh⟩ := buildMarker_ok ideal built
  refine Refused.or_lift ran fun mixed derived ran => ?_
  rw [fresh.params] at derived
  obtain ⟨files, rotate, outside, inside⟩ :=
    rewrite_loop (rotateStateFile_rewrites _ _) nodup_rotated fun f _ => readable.opens ideal stored matched f
  rw [exec_bind] at ran
  rcases ran with ⟨e, -, failed⟩ | ⟨_, t, ok, ran⟩
  · rw [rotateStateFiles, rotate] at failed
    cases failed
  rw [rotateStateFiles, rotate] at ok
  cases ok
  cases ran
  exact .inr ⟨⟨phrase, rfl⟩, ⟨marker, salt, out, newMarker, newOut, mixed, files, stored, matched, fresh, derived,
    outside, inside, rfl⟩⟩

/-- What a successful removal did. -/
structure Removed (P : Platform) (current : Bytes) (s s' : Config) : Prop where
  effect : ∃ marker salt out files,
    s.marker = some marker ∧ Matches P marker current salt out ∧
    (∀ f, f ∉ rotated → files f = s.files f) ∧
    (∀ f ∈ rotated, Rewritten P (deriveFileStorageKey P (out.drop hashLen)) id (s.files f) (files f)) ∧
    s' = { s with
      files := files
      marker := none
      slot := none
      lockout := ⟨lockoutVersion, 0, none, 0, none⟩ }

theorem removeMainPassword_effect (ideal : P.Ideal) (readable : Readable P s)
    {r : Except String Unit} (ran : (removeMainPassword P current).exec s = (r, s')) :
    Refused r s s' ∨ r = .ok () ∧ Removed P current s s' := by
  rw [removeMainPassword, exec_get_bind] at ran
  refine Refused.or_lift ran fun marker read ran => Refused.or_lift ran fun _ verified ran => ?_
  have stored := readMarker_ok read
  obtain ⟨salt, out, matched⟩ := verifyCurrent_ok verified
  rw [exec_lift_ok (context_ok.2 matched.1), exec_lift_ok matched.2.2.1] at ran
  obtain ⟨files, decrypt, outside, inside⟩ :=
    rewrite_loop decryptExistingStateFile_rewrites nodup_rotated
      fun f _ => readable.opens ideal stored matched f
  rw [exec_bind] at ran
  rcases ran with ⟨e, -, ⟨⟩⟩ | ⟨_, t, ok, ran⟩
  rw [exec_ignore, decryptExistingStateFiles, decrypt] at ok
  cases ok
  cases ran
  exact .inr ⟨rfl, ⟨marker, salt, out, files, stored, matched, outside, inside, rfl⟩⟩

variable {d : WriteDraws}

theorem openDeviceBoundFallbackKey_created (ideal : P.Ideal) {sealed : Bytes}
    (ok : P.sealer.sealBytes d.sealing d.fallbackKey = .ok sealed) :
    openDeviceBoundFallbackKey P
      ⟨deviceBoundFallbackKeyVersion, P.sealer.methodLabel, P.base64.encode sealed⟩ = .ok d.fallbackKey := by
  simp [openDeviceBoundFallbackKey, ideal.base64.decode_encode, ideal.unseal_seal ok, context, Except.mapError,
    bind, Except.bind, d.fallbackKey_length]

/-- The device's key is opened or, if there is none, created. -/
structure DeviceKey (P : Platform) (s : Config) (key : Bytes) (s' : Config) : Prop where
  absent : s.marker = none
  effect : ∃ dto, openDeviceBoundFallbackKey P dto = .ok key ∧ (s.fallback = some dto ∨ s.fallback = none) ∧
    s' = { s with fallback := some dto, slot := some key }

theorem ensureDeviceBoundFallback_effect (ideal : P.Ideal)
    (ran : (ensureDeviceBoundFallbackFileStorageKey P d).exec s = (r, s')) :
    Refused r s s' ∨ ∃ key, r = .ok key ∧ DeviceKey P s key s' := by
  rw [ensureDeviceBoundFallbackFileStorageKey, exec_get_bind] at ran
  split at ran
  · cases ran
    exact .inl ⟨⟨_, rfl⟩, rfl⟩
  rename_i absent
  have absent : s.marker = none := by simpa using absent
  cases stored : s.fallback with
  | some dto =>
    simp only [stored] at ran
    refine Refused.or_lift ran fun key opened ran => ?_
    cases ran
    exact .inr ⟨key, rfl, absent, dto, opened, .inl stored, by rw [← stored]⟩
  | none =>
    simp only [stored, createDeviceBoundFallbackKey, bind_assoc] at ran
    refine Refused.or_lift ran fun sealed ok ran => ?_
    cases ran
    exact .inr ⟨d.fallbackKey, rfl, absent, _, openDeviceBoundFallbackKey_created ideal (context_ok.1 ok), .inr stored, rfl⟩

/-- What a write does: it fails and changes nothing, or it uses the key in the
slot, or else the device's. -/
inductive WriteEffect (P : Platform) (s : Config) (f : StateFile) (body nonce : Bytes)
    (r : Except String Unit) (s' : Config) : Prop where
  | refused (same : Refused r s s')
  | slot (key : Bytes) (ok : r = .ok ()) (held : s.slot = some key)
      (after : s' = { s with files := update s.files f (some (encryptAtRest P body key nonce)) })
  | device (key : Bytes) (t : Config) (ok : r = .ok ()) (empty : s.slot = none) (device : DeviceKey P s key t)
      (after : s' = { t with files := update s.files f (some (encryptAtRest P body key nonce)) })

theorem writeStateFile_effect (ideal : P.Ideal) {body : Json} {r : Except String Unit}
    (ran : (writeStateFile P f body d).exec s = (r, s')) : WriteEffect P s f body.1 d.nonce r s' := by
  rw [writeStateFile, maybeEncrypt, bind_assoc, exec_get_bind] at ran
  cases held : s.slot with
  | some key =>
    rw [held] at ran
    cases ran
    exact .slot key rfl held rfl
  | none =>
    simp only [held, bind_assoc, pure_bind] at ran
    rw [exec_bind] at ran
    rcases ran with ⟨e, rfl, failed⟩ | ⟨key, t, ok, ran⟩
    · rcases ensureDeviceBoundFallback_effect ideal failed with refused | ⟨_, ⟨⟩, -⟩
      exact .refused ⟨⟨e, rfl⟩, refused.2⟩
    · rcases ensureDeviceBoundFallback_effect ideal ok with ⟨⟨e, ⟨⟩⟩, -⟩ | ⟨key', same, device⟩
      cases same
      obtain ⟨dto, -, -, rfl⟩ := device.effect
      cases ran
      exact .device key _ rfl held device rfl

theorem openGate_effect {r : Except String GateMatch} (ran : (openGate P password).exec s = (r, s')) :
    s'.files = s.files ∧ s'.marker = s.marker ∧ s'.fallback = s.fallback := by
  rw [openGate, exec_get_bind, exec_lift_bind] at ran
  rcases ran with ⟨e, -, rfl, rfl⟩ | ⟨marker, -, ran⟩
  · exact ⟨rfl, rfl, rfl⟩
  rw [exec_lift_bind] at ran
  rcases ran with ⟨e, -, rfl, rfl⟩ | ⟨found, -, ran⟩
  · exact ⟨rfl, rfl, rfl⟩
  cases found <;> cases ran <;> exact ⟨rfl, rfl, rfl⟩

end Osl.Password
