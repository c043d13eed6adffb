import Osl.Password.Model

/-!
# The key in force

A blob at rest opens under the one key it was encrypted under, and a marker
belongs to one password. The key in force is the one an unlock with that password
gives, or the device-bound key when there is no marker; a configuration is
readable if it opens every encrypted state file.
-/

namespace Osl.Password

open Base

variable {P : Platform} {blob key plain key' password out salt : Bytes}

/-! ## Encryption at rest -/

theorem hasEncMagic_encryptAtRest (plain key nonce : Bytes) :
    hasEncMagic (encryptAtRest P plain key nonce) = true := by
  simp [hasEncMagic, encryptAtRest, List.append_assoc]

/-- A blob opens under a key exactly when it was encrypted under it. -/
theorem decryptAtRest_ok_iff (ideal : P.Ideal) :
    decryptAtRest P blob key = .ok plain ↔
      ∃ nonce, nonce.length = nonceLen ∧ blob = encryptAtRest P plain key nonce := by
  constructor
  · intro ok
    unfold decryptAtRest at ok
    split at ok
    · cases ok
    rename_i magic
    split at ok
    · cases ok
    dsimp only at ok
    split at ok
    swap
    · cases ok
    rename_i opened
    cases ok
    rw [hasEncMagic, Bool.not_eq_true', Bool.not_eq_false, Bool.and_eq_true, beq_iff_eq] at magic
    have start := magic.2
    have sealed := (ideal.gcm.decrypt_iff _ _ _ _ _).1 opened
    refine ⟨(blob.drop encMagic.length).take nonceLen, ?_, ?_⟩
    · rw [List.length_take, List.length_drop]
      omega
    · calc blob = blob.take encMagic.length ++ blob.drop encMagic.length :=
            (List.take_append_drop _ _).symm
        _ = encMagic ++ ((blob.drop encMagic.length).take nonceLen ++
              (blob.drop encMagic.length).drop nonceLen) := by rw [start, List.take_append_drop]
        _ = _ := by rw [List.drop_drop, sealed, encryptAtRest, List.append_assoc]
  · rintro ⟨nonce, length, rfl⟩
    have magic := hasEncMagic_encryptAtRest (P := P) plain key nonce
    have size : ¬ (encryptAtRest P plain key nonce).length < encMagic.length + nonceLen + tagLen := by
      simp only [encryptAtRest, List.length_append, ideal.gcm.length, length]
      omega
    have nonceAt : ((encryptAtRest P plain key nonce).drop encMagic.length).take nonceLen = nonce := by
      rw [encryptAtRest, List.append_assoc, List.drop_left, ← length, List.take_left]
    have textAt : (encryptAtRest P plain key nonce).drop (encMagic.length + nonceLen) =
        P.gcm.encrypt key nonce [] plain := by
      rw [encryptAtRest, ← length, ← List.length_append, List.drop_left]
    rw [decryptAtRest, if_neg (by simp [magic]), if_neg size]
    simp only [nonceAt, textAt, (ideal.gcm.decrypt_iff _ _ _ _ _).2 rfl]

/-- What an encrypted file opens to, and under which key, is determined. -/
theorem decrypt_encrypted (ideal : P.Ideal) {nonce plain' : Bytes} (length : nonce.length = nonceLen) :
    decryptAtRest P (encryptAtRest P plain key nonce) key' = .ok plain' ↔ key' = key ∧ plain' = plain := by
  rw [decryptAtRest_ok_iff ideal]
  constructor
  · rintro ⟨nonce', length', same⟩
    simp only [encryptAtRest, List.append_assoc] at same
    obtain ⟨-, text⟩ := List.append_inj (List.append_cancel_left same) (length.trans length'.symm)
    obtain ⟨keys, -, -, plains⟩ := ideal.gcm.inj text
    exact ⟨keys.symm, plains.symm⟩
  · rintro ⟨rfl, rfl⟩
    exact ⟨nonce, length, rfl⟩

/-! ## Keys -/

theorem derive_ok {params : Argon2Params} :
    derive P password salt params = .ok out →
      P.argon2id params password salt = .ok out := by
  intro ok
  unfold derive at ok
  cases check : context "OSL: argon2 params: " (P.argon2Params params) with
  | error e => rw [check] at ok; cases ok
  | ok u => rw [check] at ok; exact context_ok.1 ok

variable (P) in
/-- The file key that a password gives with a salt. -/
def FileKey (password salt : Bytes) (params : Argon2Params) (key : Bytes) : Prop :=
  ∃ out, derive P password salt params = .ok out ∧ key = deriveFileStorageKey P (out.drop hashLen)

theorem deriveFileStorageKey_inj (ideal : P.Ideal) {tail tail' : Bytes}
    (same : deriveFileStorageKey P tail = deriveFileStorageKey P tail') : tail = tail' := by
  have whole : ∀ t, (P.hmac t (label "OSL/file-storage/v2" ++ [0x01])).take 32 =
      P.hmac t (label "OSL/file-storage/v2" ++ [0x01]) := fun t =>
    List.take_of_length_le (ideal.hmac_length _ _).le
  simp only [deriveFileStorageKey, hkdfExpand32, whole] at same
  exact (ideal.hmac_inj same).1

theorem FileKey.inj (ideal : P.Ideal) {w s p w' s' p' key}
    (h : FileKey P w s p key) (h' : FileKey P w' s' p' key) : p = p' ∧ w = w' ∧ s = s' := by
  obtain ⟨out, ok, rfl⟩ := h
  obtain ⟨out', ok', same⟩ := h'
  exact ideal.argon2_key (derive_ok ok) (derive_ok ok') (deriveFileStorageKey_inj ideal same)

theorem FileKey.unique {w s p key key'} (h : FileKey P w s p key) (h' : FileKey P w s p key') : key' = key := by
  obtain ⟨out, ok, rfl⟩ := h
  obtain ⟨out', ok', rfl⟩ := h'
  rw [ok] at ok'
  cases ok'
  rfl

/-! ## Verification -/

variable (P) in
/-- `password` is the main password of `marker`: the salt it decodes to and the
derivation whose first half is the stored hash. -/
def Matches (marker : PasswordMarker) (password salt out : Bytes) : Prop :=
  P.base64.decode marker.saltB64 = .ok salt ∧ salt.length = saltLen ∧
    derive P password salt marker.params = .ok out ∧
    P.base64.decode marker.passwordHashB64 = .ok (out.take hashLen)

variable {marker : PasswordMarker} {d : PasswordDraws}

theorem verifyWithMarker_ok {tail : Bytes} (ok : verifyWithMarker P marker password = .ok tail) :
    ∃ salt out, Matches P marker password salt out := by
  obtain ⟨salt, decoded, ok⟩ := bind_ok.1 ok
  split at ok
  · cases ok
  rename_i length
  obtain ⟨out, derived, ok⟩ := bind_ok.1 ok
  obtain ⟨stored, hash, ok⟩ := bind_ok.1 ok
  split at ok
  · cases ok
  rename_i same
  rw [not_not] at length same
  refine ⟨salt, out, context_ok.1 decoded, length, derived, ?_⟩
  rw [same]
  exact context_ok.1 hash

theorem gate_main (ok : verifyGatePasswordWithMarker P marker password = .ok (.main key)) :
    ∃ salt out, Matches P marker password salt out ∧ key = deriveFileStorageKey P (out.drop hashLen) := by
  obtain ⟨salt, decoded, ok⟩ := bind_ok.1 ok
  split at ok
  · cases ok
  rename_i length
  obtain ⟨out, derived, ok⟩ := bind_ok.1 ok
  obtain ⟨stored, hash, ok⟩ := bind_ok.1 ok
  obtain ⟨_, -, ok⟩ := bind_ok.1 ok
  obtain ⟨_, -, ok⟩ := bind_ok.1 ok
  obtain ⟨_, -, ok⟩ := bind_ok.1 ok
  dsimp only at ok
  split at ok
  · rename_i same
    cases ok
    refine ⟨salt, out, ⟨context_ok.1 decoded, not_not.1 length, derived, ?_⟩, rfl⟩
    rw [same]
    exact context_ok.1 hash
  · split at ok
    · cases ok
    · split at ok
      · cases ok
      · split at ok <;> cases ok

/-- A marker belongs to one password. -/
theorem Matches.unique (ideal : P.Ideal) {marker w s out w' s' out'}
    (h : Matches P marker w s out) (h' : Matches P marker w' s' out') : w = w' ∧ s = s' ∧ out = out' := by
  obtain ⟨decoded, -, derived, hash⟩ := h
  obtain ⟨decoded', -, derived', hash'⟩ := h'
  rw [hash] at hash'
  obtain ⟨-, rfl, rfl⟩ := ideal.argon2_hash (derive_ok derived) (derive_ok derived') (Except.ok.inj hash')
  rw [derived] at derived'
  exact ⟨rfl, rfl, Except.ok.inj derived'⟩

/-- A fresh marker: it matches its own password with its own salt and has no
other role. -/
structure Fresh (P : Platform) (marker : PasswordMarker) (password : Bytes) (d : PasswordDraws)
    (out : Bytes) : Prop where
  version : marker.version = markerVersion
  matched : Matches P marker password d.salt out
  params : marker.params = .defaultProd
  stealth : marker.stealthPasswordHashB64 = none
  burn : marker.burnPasswordHashB64 = none
  duress : marker.duressPasswordHashB64 = none

theorem buildMarker_ok (ideal : P.Ideal) {phrase : Bytes} (built : buildMarker P password phrase d = .ok marker) :
    ∃ out, Fresh P marker password d out := by
  obtain ⟨out, derived, built⟩ := bind_ok.1 built
  obtain ⟨_, -, built⟩ := bind_ok.1 built
  cases built
  exact ⟨out, rfl, ⟨ideal.base64.decode_encode _, d.salt_length, derived, ideal.base64.decode_encode _⟩,
    rfl, rfl, rfl, rfl⟩

/-- A fresh marker opens under its own password, with its own salt. -/
theorem Fresh.gate_iff (ideal : P.Ideal) (fresh : Fresh P marker password d out) :
    (∃ password', verifyGatePasswordWithMarker P marker password' = .ok (.main key)) ↔
      key = deriveFileStorageKey P (out.drop hashLen) := by
  constructor
  · rintro ⟨password', ok⟩
    obtain ⟨salt, out', found, rfl⟩ := gate_main ok
    obtain ⟨-, -, rfl⟩ := fresh.matched.unique ideal found
    rfl
  · rintro rfl
    obtain ⟨decoded, length, derived, hash⟩ := fresh.matched
    refine ⟨password, ?_⟩
    simp only [verifyGatePasswordWithMarker, decoded, decodeRole, context, Except.mapError, bind,
      Except.bind, length, derived, hash, fresh.stealth, fresh.burn, fresh.duress, ne_eq,
      not_true_eq_false, if_false, if_true]

theorem Fresh.fileKey (fresh : Fresh P marker password d out) :
    FileKey P password d.salt .defaultProd (deriveFileStorageKey P (out.drop hashLen)) :=
  ⟨out, fresh.params ▸ fresh.matched.2.2.1, rfl⟩

/-! ## The key in force -/

variable (P) in
/-- `key` is the file key that opening the installation gives: by the main
password if there is one, by the device otherwise. -/
def Unlocks (s : Config) (key : Bytes) : Prop :=
  (∃ marker password, readMarker P s.marker = .ok marker ∧
    verifyGatePasswordWithMarker P marker password = .ok (.main key)) ∨
  s.marker = none ∧ ∃ dto, s.fallback = some dto ∧ openDeviceBoundFallbackKey P dto = .ok key

theorem readMarker_ok {stored : Option PasswordMarker}
    (ok : readMarker P stored = .ok marker) : stored = some marker := by
  cases stored with
  | none => cases ok
  | some m =>
    simp only [readMarker] at ok
    split at ok
    · cases ok
    · cases ok
      rfl

theorem Fresh.readMarker (fresh : Fresh P marker password d out) : readMarker P (some marker) = .ok marker := by
  simp [Password.readMarker, fresh.version]

variable {s : Config}

theorem Unlocks.unique (ideal : P.Ideal) (h : Unlocks P s key) (h' : Unlocks P s key') : key' = key := by
  rcases h with ⟨marker, password, read, gate⟩ | ⟨absent, dto, stored, opened⟩
  · rcases h' with ⟨marker', password', read', gate'⟩ | ⟨absent, -⟩
    · rw [read] at read'
      cases read'
      obtain ⟨_, _, found, rfl⟩ := gate_main gate
      obtain ⟨_, _, found', rfl⟩ := gate_main gate'
      obtain ⟨-, -, rfl⟩ := found.unique ideal found'
      rfl
    · rw [absent] at read
      cases read
  · rcases h' with ⟨marker', password', read', -⟩ | ⟨-, dto', stored', opened'⟩
    · rw [absent] at read'
      cases read'
    · rw [stored] at stored'
      cases stored'
      rw [opened] at opened'
      exact (Except.ok.inj opened').symm

/-- With a marker, the key in force is the one its password gives. -/
theorem unlocks_of_matches (ideal : P.Ideal)
    (stored : s.marker = some marker) (matched : Matches P marker password salt out)
    (h : Unlocks P s key) : key = deriveFileStorageKey P (out.drop hashLen) := by
  rcases h with ⟨marker', password', read, gate⟩ | ⟨absent, -⟩
  · have same := readMarker_ok read
    rw [stored] at same
    cases same
    obtain ⟨_, _, found, rfl⟩ := gate_main gate
    obtain ⟨-, -, rfl⟩ := found.unique ideal matched
    rfl
  · rw [stored] at absent
    cases absent

theorem Fresh.unlocks_iff (ideal : P.Ideal)
    (fresh : Fresh P marker password d out) (stored : s.marker = some marker) :
    Unlocks P s key ↔ key = deriveFileStorageKey P (out.drop hashLen) := by
  constructor
  · exact unlocks_of_matches ideal stored fresh.matched
  · intro same
    obtain ⟨password', gate⟩ := (fresh.gate_iff ideal).2 same
    exact .inl ⟨marker, password', by rw [stored, fresh.readMarker], gate⟩

def Encrypted (s : Config) (f : StateFile) : Prop := ∃ blob, s.files f = some blob ∧ hasEncMagic blob = true

variable (P) in
/-- The key in force opens every encrypted state file. -/
def Readable (s : Config) : Prop :=
  ∀ f blob, s.files f = some blob → hasEncMagic blob = true →
    ∃ key plain, Unlocks P s key ∧ decryptAtRest P blob key = .ok plain

variable (P) in
/-- What is encrypted is never itself taken for an encrypted file. -/
def Documents (s : Config) : Prop :=
  ∀ f blob key plain, s.files f = some blob → decryptAtRest P blob key = .ok plain → hasEncMagic plain = false

theorem Unlocks.congr {s' : Config} (marker : s'.marker = s.marker) (fallback : s'.fallback = s.fallback)
    : Unlocks P s' key ↔ Unlocks P s key := by
  simp only [Unlocks, marker, fallback]

end Osl.Password
