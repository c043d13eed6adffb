import Mathlib.Tactic.Linarith
import Osl.Keyserver.Canonical

/-!
# One message for one command

The client and the Worker build the same bytes for every command an endpoint accepts, and
the bytes determine the command's kind and fields up to one thing: `TextEncoder` writes U+FFFD
for every unpaired surrogate, so strings that differ only there have one encoding.
-/

namespace Osl.Keyserver

open Base.Utf16

-- The encoders, and what is done to a command before it is encoded, are written out.
attribute [simp] Command.map ReplenishSpk.map ReplenishOpk.map BurnScope.map WrappedKeyUpload.map Command.parts
  canonicalReplenishBytes canonicalBurnBytes canonicalUnregisterBytes canonicalControlInboxPostBytes
  canonicalControlInboxGetBytes canonicalControlInboxDeleteBytes canonicalWrappedKeyPostBytes canonicalWrappedKeyGetBytes
  canonicalPrekeyBundleGetBytes Client.canonicalBytes Client.canonicalReplenishBytes Client.canonicalBurnBytes
  Client.canonicalUnregisterBytes Client.canonicalControlInboxPostBytesLane Client.canonicalControlInboxGetBytesFiltered
  Client.canonicalControlInboxDeleteBytes Client.canonicalWrappedKeyPostBytes Client.canonicalWrappedKeyGetBytes
  Client.canonicalPrekeyBundleGetBytes

/-! ## What the endpoints accept -/

/-- A time value: `Date.now()` never exceeds 8.64e15. -/
abbrev Instant := { ms : Nat // ms ≤ 8640000000000000 }

def freshnessWindowMs : ℚ := 5 * 60 * 1000

def IsSafeInteger (x : ℚ) : Prop := ∃ n : Int, |n| < 2 ^ 53 ∧ x = n

/-- `Math.abs(Date.now() - ts) <= window`, with `ts > 0`. -/
def Fresh (now : Instant) (ts : ℚ) : Prop := 0 < ts ∧ |(now.1 : ℚ) - ts| ≤ freshnessWindowMs

/-- `/[\u0000-\u001f\u007f-\u009f]/`. -/
def isControl (u : UInt16) : Bool := decide (u.toNat ≤ 0x1f ∨ 0x7f ≤ u.toNat ∧ u.toNat ≤ 0x9f)

def isProtocolId (s : JsString) : Bool := !s.isEmpty && !s.any isControl && decide ((encode s).length ≤ 256)

def isDigit (u : UInt16) : Bool := decide (48 ≤ u.toNat ∧ u.toNat ≤ 57)

def isAlphanumeric (u : UInt16) : Bool :=
  isDigit u || decide (65 ≤ u.toNat ∧ u.toNat ≤ 90 ∨ 97 ≤ u.toNat ∧ u.toNat ≤ 122)

/-- `/^[A-Za-z0-9_-]{43}$/`. -/
def isHighEntropyRequestId (s : JsString) : Bool :=
  s.length == 43 && s.all fun u => isAlphanumeric u || u.toNat == 95 || u.toNat == 45

/-- `/^[0-9a-f]{n}$/`. -/
def isLowerHex (n : Nat) (s : JsString) : Bool :=
  s.length == n && s.all fun u => isDigit u || decide (97 ≤ u.toNat ∧ u.toNat ≤ 102)

def isBase64Unit (u : UInt16) : Bool := isAlphanumeric u || u.toNat == 43 || u.toNat == 47

/-- `/^[A-Za-z0-9+/]+={0,2}$/`, with the number of bytes the digits stand for. -/
def base64Size (s : JsString) : Option Nat :=
  let digits := s.takeWhile isBase64Unit
  let padding := s.dropWhile isBase64Unit
  if digits ≠ [] ∧ padding.length ≤ 2 ∧ padding.all (·.toNat == 61) then some (digits.length * 3 / 4) else none

/-- The digits stand where `shape` has a `0`, its other characters as they are. -/
def hasShape (shape : String) (s : JsString) : Bool :=
  s.length == shape.toList.length &&
    (shape.toList.zip s).all fun (c, u) => if c = '0' then isDigit u else u.toNat == c.toNat

/-- The form `toISOString` writes; the calendar is not checked. -/
def isIsoUtc (s : JsString) : Bool :=
  hasShape "0000-00-00T00:00:00.000Z" s || hasShape "+000000-00-00T00:00:00.000Z" s ||
    hasShape "-000000-00-00T00:00:00.000Z" s

def SpkAccepted (spk : ReplenishSpk JsString) : Prop :=
  base64Size spk.pubB64 = some 32 ∧ base64Size spk.signatureB64 = some 64 ∧ isIsoUtc spk.rotatedAt

def OpkAccepted (opk : ReplenishOpk JsString) : Prop := opk.id < 2 ^ 32 ∧ base64Size opk.pubB64 = some 32

def ScopeAccepted : BurnScope JsString → Prop
  | .single contentId => isProtocolId contentId
  | .toUser userId => isProtocolId userId
  | .all => True

def maxWrappedShareBytes : Nat := 64 * 1024

structure UploadAccepted (u : WrappedKeyUpload JsString) : Prop where
  contentId : isProtocolId u.contentId
  contentType : u.contentType = js "text" ∨ u.contentType = js "attachment" ∨ u.contentType = js "system"
  system : if u.contentType = js "system" then u.systemMessageKind = some (js "burn-alert") else u.systemMessageKind = none
  recipientId : isProtocolId u.recipientId
  sessionVersion : 1 ≤ u.sessionVersion ∧ u.sessionVersion < 2 ^ 32
  shareIndex : u.shareIndex < 2 ^ 32
  share : ∃ n, base64Size u.wrappedShareBlob = some n ∧ n ≤ maxWrappedShareBytes
  blobVersion : 1 ≤ u.blobVersion ∧ u.blobVersion < 2 ^ 32
  duration : if u.singleUse then ∃ n < 2 ^ 32, u.displayDurationSeconds = some n else u.displayDurationSeconds = none
  expiresAt : isIsoUtc u.expiresAt

def maxBundleBytes : Nat := 16 * 1024

/-- The field checks of the command's endpoint at the time `now` of the server. `Date.parse` and
the remaining checks on what was parsed are left out, so this holds of every command that gets
to the signature check. -/
def Accepted (now : Instant) : Command JsString ℚ → Prop
  | .replenish userId ts requestId spk opks =>
    isProtocolId userId ∧ (IsSafeInteger ts ∧ Fresh now ts) ∧ isHighEntropyRequestId requestId ∧ opks.length ≤ 100 ∧
      (opks = [] → spk ≠ none) ∧ (∀ opk ∈ opks, OpkAccepted opk) ∧ (opks.map (·.id)).Nodup ∧ ∀ s ∈ spk, SpkAccepted s
  | .burn userId ts requestId scope =>
    isProtocolId userId ∧ (IsSafeInteger ts ∧ Fresh now ts) ∧ isHighEntropyRequestId requestId ∧ ScopeAccepted scope
  | .unregister userId ts => isProtocolId userId ∧ IsSafeInteger ts ∧ Fresh now ts
  | .controlInboxPost senderId recipientId scopeId ts bundle kind collapseKey =>
    isProtocolId senderId ∧ isProtocolId recipientId ∧ isProtocolId scopeId ∧ (IsDouble ts ∧ Fresh now ts) ∧
      bundle ≠ [] ∧ bundle.length ≤ maxBundleBytes ∧
      (kind = js "" ∧ collapseKey = none ∨ kind = js "revocation" ∧ ∃ key, collapseKey = some key ∧ isLowerHex 64 key)
  | .controlInboxGet userId ts senderId =>
    isProtocolId userId ∧ (IsSafeInteger ts ∧ Fresh now ts) ∧ ∀ s ∈ senderId, isProtocolId s
  | .controlInboxDelete userId inboxIdHex ts => isProtocolId userId ∧ isLowerHex 32 inboxIdHex ∧ IsDouble ts ∧ Fresh now ts
  | .wrappedKeyPost senderId upload ts => isProtocolId senderId ∧ UploadAccepted upload ∧ IsSafeInteger ts ∧ Fresh now ts
  | .wrappedKeyGet requesterId recipientId contentId ts =>
    isProtocolId requesterId ∧ requesterId = recipientId ∧ isProtocolId contentId ∧ IsSafeInteger ts ∧ Fresh now ts
  | .prekeyBundleGet requesterId recipientId ts =>
    isProtocolId requesterId ∧ isProtocolId recipientId ∧ IsSafeInteger ts ∧ Fresh now ts

/-! ## Parts of a message -/

/-- The part with every unpaired surrogate read as U+FFFD, which is all its bytes tell. -/
@[simp] def Part.toWellFormed : Part → Part
  | .lp s => .lp (Base.Utf16.toWellFormed s)
  | part => part

theorem encode_toWellFormed (s : JsString) : encode (toWellFormed s) = encode s := by
  rw [encode, toWellFormed, toScalars_ofScalars, encode]

theorem Part.bytes_toWellFormed (p : Part) : p.toWellFormed.bytes = p.bytes := by
  cases p with
  | lp s => simp only [toWellFormed, bytes, encode_toWellFormed]
  | _ => rfl

/-- Parts of one kind. -/
@[simp] def Part.Alike : Part → Part → Prop
  | .lp _, .lp _ | .raw _, .raw _ | .u32 _, .u32 _ => True
  | .u8 v, .u8 v' => v < 256 ∧ v' < 256
  | _, _ => False

theorem Part.bytes_append_inj {p q : Part} (alike : p.Alike q) (fits : p.inRange) (fits' : q.inRange) {rest rest' : Bytes}
    (same : p.bytes ++ rest = q.bytes ++ rest') : p.toWellFormed = q.toWellFormed ∧ rest = rest' := by
  have block {m n : Nat} {l l' : Bytes} (small : m < 2 ^ 32) (small' : n < 2 ^ 32)
      (same : Base.beBytes 4 m ++ l = Base.beBytes 4 n ++ l') : m = n ∧ l = l' := by
    obtain ⟨front, back⟩ := List.append_inj same (by simp)
    exact ⟨Base.leBytes_inj small small' (List.reverse_inj.1 front), back⟩
  cases p <;> cases q <;> first | exact alike.elim | skip
  · next s t =>
    obtain ⟨size, same⟩ := block (of_decide_eq_true fits) (of_decide_eq_true fits') same
    obtain ⟨text, same⟩ := List.append_inj same size
    exact ⟨congrArg Part.lp (congrArg ofScalars (asBytes_inj text)), same⟩
  · obtain ⟨number, same⟩ := block (of_decide_eq_true fits) (of_decide_eq_true fits') same
    exact ⟨congrArg Part.u32 number, same⟩
  · next v v' =>
    obtain ⟨byte, same⟩ := List.cons.inj same
    have value := congrArg UInt8.toNat byte
    rw [UInt8.toNat_ofNat', UInt8.toNat_ofNat', Nat.mod_eq_of_lt alike.1, Nat.mod_eq_of_lt alike.2] at value
    exact ⟨congrArg Part.u8 value, same⟩
  · obtain ⟨digest, same⟩ := List.append_inj same (by simp [bytes])
    exact ⟨congrArg Part.raw (Vector.toList_inj.1 digest), same⟩

theorem Part.bytes_ne_nil (p : Part) : p.bytes ≠ [] := by
  apply List.ne_nil_of_length_pos
  cases p <;> simp [bytes]

/-- As far as the parts agree, the next ones are of one kind. -/
@[simp] def Aligned : List Part → List Part → Prop
  | p :: ps, q :: qs => p.Alike q ∧ (p.toWellFormed = q.toWellFormed → Aligned ps qs)
  | _, _ => True

variable {ps qs : List Part}

theorem Aligned.map_toWellFormed_eq (aligned : Aligned ps qs) (fits : ∀ p ∈ ps, p.inRange)
    (fits' : ∀ q ∈ qs, q.inRange) (same : ps.flatMap Part.bytes = qs.flatMap Part.bytes) :
    ps.map Part.toWellFormed = qs.map Part.toWellFormed := by
  induction ps generalizing qs with
  | nil =>
    cases qs with
    | nil => rfl
    | cons q qs => exact absurd (List.append_eq_nil_iff.1 same.symm).1 q.bytes_ne_nil
  | cons p ps ih =>
    cases qs with
    | nil => exact absurd (List.append_eq_nil_iff.1 same).1 p.bytes_ne_nil
    | cons q qs =>
      rw [List.forall_mem_cons] at fits fits'
      obtain ⟨head, rest⟩ := Part.bytes_append_inj aligned.1 fits.1 fits'.1 same
      rw [List.map_cons, List.map_cons, head, ih (aligned.2 head) fits.2 fits'.2 rest]

/-! ## Every accepted command has a message -/

/-- The four length bytes hold the length. -/
def Fits (s : JsString) : Prop := (Part.lp s).inRange = true

variable {s : JsString}

@[simp] theorem inRange_lp : (Part.lp s).inRange = true ↔ Fits s := Iff.rfl

@[simp] theorem inRange_u8 (v : Nat) : (Part.u8 v).inRange = true := rfl

@[simp] theorem inRange_raw (d : Digest) : (Part.raw d).inRange = true := rfl

theorem fits_iff : Fits s ↔ (encode s).length < 2 ^ 32 := decide_eq_true_iff

theorem fits_of_isProtocolId (ok : isProtocolId s) : Fits s := by
  rw [isProtocolId, Bool.and_eq_true, decide_eq_true_eq] at ok
  exact fits_iff.2 (Nat.lt_of_le_of_lt ok.2 (by decide))

theorem length_asBytes_le (t : Text) : (asBytes t).length ≤ 4 * t.length := by
  induction t with
  | nil => exact Nat.le_refl 0
  | cons c t ih =>
    have := Char.utf8Size_le_four c
    rw [asBytes, List.flatMap_cons, List.length_append, String.length_utf8EncodeChar, ← asBytes, List.length_cons]
    omega

theorem length_toScalars_le (s : JsString) : (toScalars s).length ≤ s.length := by
  induction s using toScalars.induct with
  | case1 => exact Nat.le_refl 0
  | case2 u => exact Nat.le_refl 1
  | case3 u v rest both ih =>
    rw [toScalars, if_pos both, List.length_cons, List.length_cons, List.length_cons]
    omega
  | case4 u v rest both ih =>
    rw [toScalars, if_neg both, List.length_cons, List.length_cons]
    omega

theorem fits_of_length (short : s.length < 2 ^ 30) : Fits s := by
  have bytes := length_asBytes_le (toScalars s)
  have texts := length_toScalars_le s
  rw [fits_iff, encode]
  omega

theorem fits_of_isIsoUtc (ok : isIsoUtc s) : Fits s := by
  have length : ∀ shape : String, hasShape shape s → s.length = shape.toList.length := by
    intro shape ok
    rw [hasShape, Bool.and_eq_true, beq_iff_eq] at ok
    exact ok.1
  rw [isIsoUtc, Bool.or_eq_true, Bool.or_eq_true] at ok
  apply fits_of_length
  rcases ok with (ok | ok) | ok <;> (rw [length _ ok]; decide)

variable {n : Nat}

theorem fits_of_base64Size (ok : base64Size s = some n) (small : n ≤ maxWrappedShareBytes) : Fits s := by
  obtain ⟨⟨-, padding, -⟩, size⟩ := Option.ite_none_right_eq_some.1 ok
  have split : s.length = (s.takeWhile isBase64Unit).length + (s.dropWhile isBase64Unit).length := by
    rw [← List.length_append, List.takeWhile_append_dropWhile]
  have := Option.some.inj size
  exact fits_of_length (by unfold maxWrappedShareBytes at small; omega)

theorem fits_of_isHighEntropyRequestId (ok : isHighEntropyRequestId s) : Fits s := by
  rw [isHighEntropyRequestId, Bool.and_eq_true, beq_iff_eq] at ok
  exact fits_of_length (by rw [ok.1]; decide)

theorem fits_of_isLowerHex (ok : isLowerHex n s) (small : n < 2 ^ 30) : Fits s := by
  rw [isLowerHex, Bool.and_eq_true, beq_iff_eq] at ok
  exact fits_of_length (by rw [ok.1]; exact small)

variable {t : Text}

theorem fits_ofScalars (short : t.length < 2 ^ 30) : Fits (ofScalars t) := by
  have bytes := length_asBytes_le t
  rw [fits_iff, encode, toScalars_ofScalars]
  omega

@[simp] theorem fits_domain (k : Kind) : Fits (js k.domain) := fits_ofScalars (by cases k <;> decide)

@[simp] theorem fits_label (scope : BurnScope JsString) : Fits (js scope.label) := by
  apply fits_ofScalars
  cases scope with
  | single => exact (by decide : "single".toList.length < 2 ^ 30)
  | toUser => exact (by decide : "to_user".toList.length < 2 ^ 30)
  | all => decide

theorem fits_number (numbers : NumberText) {x : ℚ} (double : IsDouble x) : (lpNumber numbers x).inRange :=
  fits_ofScalars (Nat.lt_of_le_of_lt (numbers.short x double) (by decide))

theorem IsSafeInteger.isDouble {x : ℚ} (safe : IsSafeInteger x) : IsDouble x := by
  obtain ⟨n, small, rfl⟩ := safe
  exact ⟨n, 0, small, by decide, by decide, by simp⟩

theorem inRange_u32 (small : n < 2 ^ 32) : (Part.u32 n).inRange = true := decide_eq_true small

section Messages

variable (numbers : NumberText) (sha256 : Bytes → Digest)

theorem fits_kind {kind : JsString} {collapseKey : Option JsString}
    (lane : kind = js "" ∧ collapseKey = none ∨ kind = js "revocation" ∧ ∃ key, collapseKey = some key ∧ isLowerHex 64 key) :
    Fits kind ∧ ∀ key ∈ collapseKey, Fits key := by
  rcases lane with ⟨rfl, rfl⟩ | ⟨rfl, key, rfl, hex⟩
  · exact ⟨fits_ofScalars (by decide), by simp⟩
  · refine ⟨fits_ofScalars (by decide), ?_⟩
    intro key' mem
    cases mem
    exact fits_of_isLowerHex hex (by decide)

@[simp] theorem getD_kind (kind : JsString) : (if kind = [] then none else some kind).getD [] = kind := by
  split
  · next empty => exact empty.symm
  · rfl

theorem inRange_trailing {o : Option JsString} (fits : ∀ s ∈ o, Fits s) : ∀ p ∈ trailing o, p.inRange := by
  cases o with
  | none => simp [trailing]
  | some s =>
    intro part mem
    obtain rfl := List.mem_singleton.1 mem
    exact fits s rfl

theorem UploadAccepted.inRange_duration {u : WrappedKeyUpload JsString} (ok : UploadAccepted u) :
    ∀ p ∈ durationParts u.displayDurationSeconds, p.inRange := by
  have duration := ok.duration
  split at duration
  · obtain ⟨n, small, same⟩ := duration
    rw [same]
    simpa [durationParts, Part.inRange] using small
  · rw [duration]
    simp [durationParts, Part.inRange]

variable {now : Instant} {c : Command JsString ℚ}

/-- No length or number of an accepted command is out of range. -/
theorem inRange_parts (ok : Accepted now c) : ∀ p ∈ c.parts numbers sha256, p.inRange := by
  cases c with
  | replenish userId ts requestId spk opks =>
    obtain ⟨user, ⟨safe, -⟩, request, count, -, opksOk, -, spkOk⟩ := ok
    have spkFits : ∀ p ∈ spkParts spk, p.inRange := by
      cases spk with
      | none => simp [spkParts]
      | some s =>
        obtain ⟨pub, sig, rotated⟩ := spkOk s rfl
        simp [spkParts, fits_of_base64Size pub (by decide), fits_of_base64Size sig (by decide), fits_of_isIsoUtc rotated]
    have opksFit : ∀ p ∈ opkParts opks, p.inRange := by
      intro part mem
      obtain ⟨opk, inside, mem⟩ := List.mem_flatMap.1 mem
      obtain ⟨id, pub⟩ := opksOk opk inside
      simp only [List.mem_cons, List.not_mem_nil, or_false] at mem
      rcases mem with rfl | rfl
      · exact inRange_u32 id
      · exact fits_of_base64Size pub (by decide)
    have length : (Part.u32 opks.length).inRange = true := inRange_u32 (by omega)
    simpa [fits_of_isProtocolId user, fits_number numbers safe.isDouble, fits_of_isHighEntropyRequestId request, length, or_imp,
      forall_and] using ⟨spkFits, opksFit⟩
  | burn userId ts requestId scope =>
    obtain ⟨user, ⟨safe, -⟩, request, scopeOk⟩ := ok
    have target : ∀ p ∈ targetParts scope, p.inRange := by
      cases scope with
      | all => simp [targetParts]
      | single s | toUser s => simp [targetParts, fits_of_isProtocolId scopeOk]
    simpa [fits_of_isProtocolId user, fits_number numbers safe.isDouble, fits_of_isHighEntropyRequestId request] using target
  | unregister userId ts => simp [fits_of_isProtocolId ok.1, fits_number numbers ok.2.1.isDouble]
  | controlInboxPost senderId recipientId scopeId ts bundle kind collapseKey =>
    obtain ⟨sender, recipient, scope, ⟨double, -⟩, -, -, lane⟩ := ok
    simpa [fits_of_isProtocolId sender, fits_of_isProtocolId recipient, fits_of_isProtocolId scope, fits_number numbers double,
      (fits_kind lane).1] using inRange_trailing (fits_kind lane).2
  | controlInboxGet userId ts senderId =>
    obtain ⟨user, ⟨safe, -⟩, sender⟩ := ok
    simpa [fits_of_isProtocolId user, fits_number numbers safe.isDouble] using
      inRange_trailing fun s mem => fits_of_isProtocolId (sender s mem)
  | controlInboxDelete userId inboxIdHex ts =>
    obtain ⟨user, hex, double, -⟩ := ok
    simp [fits_of_isProtocolId user, fits_of_isLowerHex hex (by decide), fits_number numbers double]
  | wrappedKeyPost senderId upload ts =>
    obtain ⟨sender, uploadOk, safe, -⟩ := ok
    have kind : Fits (upload.systemMessageKind.getD []) := by
      have system := uploadOk.system
      split at system <;> rw [system]
      · exact fits_ofScalars (by decide)
      · exact fits_of_length (by decide)
    have type : Fits upload.contentType := by
      rcases uploadOk.contentType with same | same | same <;> (rw [same]; exact fits_ofScalars (by decide))
    obtain ⟨n, size, small⟩ := uploadOk.share
    simpa [fits_of_isProtocolId uploadOk.contentId, type, kind, fits_of_isProtocolId sender, fits_of_isProtocolId uploadOk.recipientId,
      inRange_u32 uploadOk.sessionVersion.2, inRange_u32 uploadOk.shareIndex, fits_of_base64Size size small,
      inRange_u32 uploadOk.blobVersion.2, fits_of_isIsoUtc uploadOk.expiresAt, fits_number numbers safe.isDouble, or_imp, forall_and]
      using uploadOk.inRange_duration
  | wrappedKeyGet requesterId recipientId contentId ts =>
    obtain ⟨requester, rfl, content, safe, -⟩ := ok
    simp [fits_of_isProtocolId requester, fits_of_isProtocolId content, fits_number numbers safe.isDouble]
  | prekeyBundleGet requesterId recipientId ts =>
    obtain ⟨requester, recipient, safe, -⟩ := ok
    simp [fits_of_isProtocolId requester, fits_of_isProtocolId recipient, fits_number numbers safe.isDouble]

theorem nonempty_of_isProtocolId (ok : isProtocolId s) : s.isEmpty = false := by
  cases s with
  | nil => cases ok
  | cons => rfl

theorem canonicalBytes_of_accepted (ok : Accepted now c) :
    canonicalBytes numbers sha256 c = some ((c.parts numbers sha256).flatMap Part.bytes) := by
  have target : c.hasTarget = true := by
    cases c with
    | burn userId ts requestId scope =>
      cases scope with
      | all => rfl
      | single s | toUser s => simp [Command.hasTarget, nonempty_of_isProtocolId ok.2.2.2]
    | _ => rfl
  rw [canonicalBytes, if_pos target, concatBytes, if_pos (List.all_eq_true.2 (inRange_parts numbers sha256 ok))]

/-! ## The message determines the command -/

/-- The command with every unpaired surrogate of its strings read as U+FFFD. -/
def Command.toWellFormed (c : Command JsString ℚ) : Command JsString ℚ := c.map Base.Utf16.toWellFormed id

/-- The payload a command's message has only the hash of. -/
def Command.bundle : Command JsString ℚ → Option Bytes
  | .controlInboxPost _ _ _ _ bundle _ _ => some bundle
  | _ => none

variable {numbers sha256}

theorem Kind.domain_inj {k k' : Kind} (same : k.domain = k'.domain) : k = k' := by
  revert same
  cases k <;> cases k' <;> decide

/-- The timestamp of a command. -/
def Command.timestampMs {S N : Type} : Command S N → N
  | .replenish _ ts _ _ _ | .burn _ ts _ _ | .unregister _ ts | .controlInboxPost _ _ _ ts _ _ _ | .controlInboxGet _ ts _
  | .controlInboxDelete _ _ ts | .wrappedKeyPost _ _ ts | .wrappedKeyGet _ _ _ ts | .prekeyBundleGet _ _ ts => ts

theorem Accepted.isDouble (ok : Accepted now c) : IsDouble c.timestampMs := by
  cases c with
  | replenish | burn | controlInboxGet => exact ok.2.1.1.isDouble
  | unregister => exact ok.2.1.isDouble
  | controlInboxPost => exact ok.2.2.2.1.1
  | controlInboxDelete => exact ok.2.2.1
  | wrappedKeyPost | prekeyBundleGet => exact ok.2.2.1.isDouble
  | wrappedKeyGet => exact ok.2.2.2.1.isDouble

/-- The domain, which comes first, tells the kind. -/
theorem kind_eq {c c' : Command JsString ℚ}
    (same : (Part.lp (js c.kind.domain)).toWellFormed = (Part.lp (js c'.kind.domain)).toWellFormed) : c.kind = c'.kind := by
  simp only [Part.toWellFormed, js, toWellFormed_ofScalars, Part.lp.injEq] at same
  exact Kind.domain_inj (String.toList_inj.1 (ofScalars_inj same))

theorem aligned_opkParts {opks opks' : List (ReplenishOpk JsString)} (size : opks.length = opks'.length) :
    Aligned (opkParts opks) (opkParts opks') := by
  induction opks generalizing opks' with
  | nil => simp [opkParts]
  | cons opk opks ih =>
    cases opks' with
    | nil => cases size
    | cons opk' opks' => exact ⟨trivial, fun _ => ⟨trivial, fun _ => ih (Nat.succ.inj size)⟩⟩

theorem aligned_spkParts {spk spk' : Option (ReplenishSpk JsString)} (rest : Aligned ps qs) :
    Aligned (spkParts spk ++ ps) (spkParts spk' ++ qs) := by
  cases spk <;> cases spk' <;> simp [spkParts, rest]

theorem aligned_targetParts (scope scope' : BurnScope JsString) : Aligned (targetParts scope) (targetParts scope') := by
  cases scope <;> cases scope' <;> simp [targetParts]

theorem aligned_durationParts {d d' : Option Nat} (rest : Aligned ps qs) :
    Aligned (durationParts d ++ ps) (durationParts d' ++ qs) := by
  cases d <;> cases d' <;> simp [durationParts, rest]

theorem aligned_trailing (o o' : Option JsString) : Aligned (trailing o) (trailing o') := by
  cases o <;> cases o' <;> simp [trailing]

/-- After the domain, commands of one kind have parts of one kind. -/
theorem aligned_parts (c c' : Command JsString ℚ) : Aligned (c.parts numbers sha256) (c'.parts numbers sha256) := by
  have kinds := @kind_eq c c'
  cases c <;> cases c' <;> refine ⟨trivial, fun same => ?_⟩ <;> try cases kinds same
  · refine ⟨trivial, fun _ => ⟨trivial, fun _ => ⟨trivial, fun _ => aligned_spkParts ⟨trivial, fun count => aligned_opkParts ?_⟩⟩⟩⟩
    exact Part.u32.inj count
  · exact ⟨trivial, fun _ => ⟨trivial, fun _ => ⟨trivial, fun _ => ⟨trivial, fun _ => aligned_targetParts _ _⟩⟩⟩⟩
  · simp [lpNumber]
  · simp [lpNumber, aligned_trailing]
  · simp [lpNumber, aligned_trailing]
  · simp [lpNumber]
  · refine ⟨trivial, fun _ => ⟨trivial, fun _ => ⟨trivial, fun _ => ⟨trivial, fun _ => ⟨trivial, fun _ => ⟨trivial, fun _ =>
      ⟨trivial, fun _ => ⟨trivial, fun _ => ⟨trivial, fun _ => ⟨?_, fun _ => aligned_durationParts ?_⟩⟩⟩⟩⟩⟩⟩⟩⟩⟩
    · constructor <;> split <;> decide
    · simp [lpNumber]
  · simp [lpNumber]
  · simp [lpNumber]

theorem number_eq {x y : ℚ} (double : IsDouble x) (double' : IsDouble y)
    (same : (lpNumber numbers x).toWellFormed = (lpNumber numbers y).toWellFormed) : x = y := by
  simp only [lpNumber, Part.toWellFormed, toWellFormed_ofScalars, Part.lp.injEq] at same
  exact numbers.injective x y double double' (ofScalars_inj same)

theorem opks_eq {opks opks' : List (ReplenishOpk JsString)}
    (same : (opkParts opks).map Part.toWellFormed = (opkParts opks').map Part.toWellFormed) :
    opks.map (·.map toWellFormed) = opks'.map (·.map toWellFormed) := by
  induction opks generalizing opks' with
  | nil =>
    cases opks' with
    | nil => rfl
    | cons => cases same
  | cons opk opks ih =>
    cases opks' with
    | nil => cases same
    | cons opk' opks' =>
      obtain ⟨id, same⟩ := List.cons.inj same
      obtain ⟨pub, same⟩ := List.cons.inj same
      rw [List.map_cons, List.map_cons, ih same, ReplenishOpk.map, ReplenishOpk.map, Part.u32.inj id, Part.lp.inj pub]

theorem spk_eq {spk spk' : Option (ReplenishSpk JsString)}
    (same : (spkParts spk).map Part.toWellFormed ++ ps = (spkParts spk').map Part.toWellFormed ++ qs) :
    spk.map (·.map toWellFormed) = spk'.map (·.map toWellFormed) ∧ ps = qs := by
  cases spk <;> cases spk' <;> simp_all [spkParts]

theorem scope_eq {scope scope' : BurnScope JsString}
    (same : (targetParts scope).map Part.toWellFormed = (targetParts scope').map Part.toWellFormed) :
    scope.map toWellFormed = scope'.map toWellFormed := by
  cases scope <;> cases scope' <;> simp_all [targetParts]

theorem duration_eq {d d' : Option Nat}
    (same : (durationParts d).map Part.toWellFormed ++ ps = (durationParts d').map Part.toWellFormed ++ qs) :
    d = d' ∧ ps = qs := by
  cases d <;> cases d' <;> simp_all [durationParts]

theorem trailing_eq {o o' : Option JsString} (same : (trailing o).map Part.toWellFormed = (trailing o').map Part.toWellFormed) :
    o.map toWellFormed = o'.map toWellFormed := by
  cases o <;> cases o' <;> simp_all [trailing]

theorem flag_inj {b b' : Bool} (same : (if b then 1 else 0) = if b' then 1 else 0) : b = b' := by
  cases b <;> cases b' <;> simp_all

/-- The kind of a system message is absent or not empty, so its slot tells which. -/
theorem systemKind_eq {u u' : WrappedKeyUpload JsString} (ok : UploadAccepted u) (ok' : UploadAccepted u')
    (same : toWellFormed (u.systemMessageKind.getD []) = toWellFormed (u'.systemMessageKind.getD [])) :
    u.systemMessageKind.map toWellFormed = u'.systemMessageKind.map toWellFormed := by
  have cases : ∀ u : WrappedKeyUpload JsString, UploadAccepted u →
      u.systemMessageKind = none ∨ u.systemMessageKind = some (js "burn-alert") := by
    intro u ok
    have system := ok.system
    split at system
    · exact .inr system
    · exact .inl system
  rcases cases u ok with kind | kind <;> rcases cases u' ok' with kind' | kind' <;> rw [kind, kind'] at same ⊢
  · exact absurd same (by decide)
  · exact absurd same (by decide)

variable {now' : Instant} {c' : Command JsString ℚ}

/-- Two accepted commands with one message are the same command, up to unpaired surrogates. -/
theorem toWellFormed_eq_of_parts (ok : Accepted now c) (ok' : Accepted now' c')
    (distinct : ∀ b ∈ c.bundle, ∀ b' ∈ c'.bundle, sha256 b = sha256 b' → b = b')
    (same : (c.parts numbers sha256).map Part.toWellFormed = (c'.parts numbers sha256).map Part.toWellFormed) :
    c.toWellFormed = c'.toWellFormed := by
  have number := @number_eq numbers _ _ ok.isDouble ok'.isDouble
  have kinds : c.kind = c'.kind := by
    apply kind_eq
    cases c <;> cases c' <;> exact (List.cons.inj same).1
  cases c <;> cases c' <;> try cases kinds
  all_goals
    dsimp only [Command.timestampMs] at number
    simp at same
  · obtain ⟨user, time, request, same⟩ := same
    obtain ⟨spks, same⟩ := spk_eq same
    simp only [Command.toWellFormed, Command.map, user, number time, request, spks, opks_eq (List.cons.inj same).2]
  · obtain ⟨user, time, request, -, target⟩ := same
    simp only [Command.toWellFormed, Command.map, user, number time, request, scope_eq target]
  · simp [Command.toWellFormed, same.1, number same.2]
  · obtain ⟨sender, recipient, scope, time, lane, hash, key⟩ := same
    simp [Command.toWellFormed, sender, recipient, scope, number time, lane, distinct _ rfl _ rfl hash, trailing_eq key]
  · obtain ⟨user, time, sender⟩ := same
    simp [Command.toWellFormed, user, number time, trailing_eq sender]
  · obtain ⟨user, inbox, time⟩ := same
    simp [Command.toWellFormed, user, inbox, number time]
  · obtain ⟨content, type, kind, sender, recipient, version, index, share, blob, once, same⟩ := same
    obtain ⟨duration, same⟩ := duration_eq same
    obtain ⟨expires, time⟩ := List.cons.inj same
    simp [Command.toWellFormed, content, type, systemKind_eq ok.2.1 ok'.2.1 kind, sender, recipient, version, index, share, blob,
      flag_inj once, duration, Part.lp.inj expires, number (List.cons.inj time).1]
  · obtain ⟨requester, recipient, content, time⟩ := same
    simp [Command.toWellFormed, requester, recipient, content, number time]
  · obtain ⟨requester, recipient, time⟩ := same
    simp [Command.toWellFormed, requester, recipient, number time]

/-! ## The message reads every unpaired surrogate alike -/

theorem map_toWellFormed_parts (c : Command JsString ℚ) :
    (c.toWellFormed.parts numbers sha256).map Part.toWellFormed = (c.parts numbers sha256).map Part.toWellFormed := by
  have twice (s : JsString) : toWellFormed (toWellFormed s) = toWellFormed s := toWellFormed_ofScalars _
  cases c with
  | replenish userId ts requestId spk opks =>
    cases spk <;> simp [Command.toWellFormed, twice, spkParts, opkParts, List.flatMap_map, List.map_flatMap]
  | burn userId ts requestId scope => cases scope <;> simp [Command.toWellFormed, twice, targetParts, BurnScope.label]
  | wrappedKeyPost senderId upload ts => cases kind : upload.systemMessageKind <;> simp [Command.toWellFormed, twice, kind]
  | controlInboxPost senderId recipientId scopeId ts bundle kind collapseKey =>
    cases collapseKey <;> simp [Command.toWellFormed, twice, trailing]
  | controlInboxGet userId ts senderId => cases senderId <;> simp [Command.toWellFormed, twice, trailing]
  | _ => simp [Command.toWellFormed, twice]

/-- Accepted commands have one message exactly when they differ in unpaired surrogates only. -/
theorem canonicalBytes_eq_iff (ok : Accepted now c) (ok' : Accepted now' c')
    (distinct : ∀ b ∈ c.bundle, ∀ b' ∈ c'.bundle, sha256 b = sha256 b' → b = b') :
    canonicalBytes numbers sha256 c = canonicalBytes numbers sha256 c' ↔ c.toWellFormed = c'.toWellFormed := by
  rw [canonicalBytes_of_accepted numbers sha256 ok, canonicalBytes_of_accepted numbers sha256 ok', Option.some.injEq]
  constructor
  · intro same
    exact toWellFormed_eq_of_parts ok ok' distinct ((aligned_parts c c').map_toWellFormed_eq (inRange_parts numbers sha256 ok)
      (inRange_parts numbers sha256 ok') same)
  · intro same
    have parts : (c.parts numbers sha256).map Part.toWellFormed = (c'.parts numbers sha256).map Part.toWellFormed := by
      rw [← map_toWellFormed_parts c, same, map_toWellFormed_parts]
    have bytes (ps : List Part) : ps.flatMap Part.bytes = (ps.map Part.toWellFormed).flatMap Part.bytes := by
      simp only [List.flatMap_map, Part.bytes_toWellFormed]
    rw [bytes, parts, ← bytes]

/-! ## The client builds the Worker's message -/

/-- The command as the Worker reads it from the request. -/
def Command.onWire (c : Command Text Base.I64) : Command JsString ℚ := c.map ofScalars fun ts => (ts.1 : ℚ)

variable {ts : Base.I64}

/-- A fresh timestamp of the client is an exact integer of the Worker. -/
theorem exact_of_fresh (fresh : Fresh now (ts.1 : ℚ)) : ∃ n : Nat, n < 2 ^ 53 ∧ ts.1 = n := by
  obtain ⟨positive, near⟩ := fresh
  have positive : 0 < ts.1 := by exact_mod_cast positive
  have late : ts.1 ≤ now.1 + 300000 := by
    have : -freshnessWindowMs ≤ (now.1 : ℚ) - ts.1 := (abs_le.1 near).1
    have : (ts.1 : ℚ) ≤ now.1 + 300000 := by
      rw [freshnessWindowMs] at this
      linarith
    exact_mod_cast this
  exact ⟨ts.1.toNat, by omega, by omega⟩

theorem fits_decimal (fresh : Fresh now (ts.1 : ℚ)) : Fits (ofScalars (Client.decimal ts)) := by
  obtain ⟨n, small, same⟩ := exact_of_fresh fresh
  apply fits_ofScalars
  rw [Client.decimal, same, Int.toString_eq_repr]
  have digits : n.repr.length ≤ 16 := (Nat.length_repr_le_iff (by decide)).2 (by omega)
  exact Nat.lt_of_le_of_lt digits (by decide)

theorem lpNumber_time (numbers : NumberText) (fresh : Fresh now (ts.1 : ℚ)) :
    lpNumber numbers (ts.1 : ℚ) = .lp (ofScalars (Client.decimal ts)) := by
  obtain ⟨n, small, same⟩ := exact_of_fresh fresh
  rw [lpNumber, Client.decimal, same, Int.toString_eq_repr, Int.cast_natCast, numbers.integer n small]
  rfl

@[simp] theorem bytes_lp_ofScalars (t : Text) : (Part.lp (ofScalars t)).bytes = Client.writeLp t := by
  rw [Part.bytes, encode, toScalars_ofScalars, Client.writeLp]

@[simp] theorem bytes_u32 (n : Nat) : (Part.u32 n).bytes = Base.beBytes 4 n := rfl

@[simp] theorem bytes_u8 (v : Nat) : (Part.u8 v).bytes = [UInt8.ofNat v] := rfl

@[simp] theorem bytes_raw (d : Digest) : (Part.raw d).bytes = d.toList := rfl

theorem writeLpChecked_eq (fits : Fits (ofScalars t)) : Client.writeLpChecked t = some (Client.writeLp t) := by
  rw [fits_iff, encode, toScalars_ofScalars] at fits
  exact if_pos fits

theorem opks_agree {opks : List (ReplenishOpk Text)} (ok : ∀ opk ∈ opks.map (·.map ofScalars), OpkAccepted opk) (buf : Bytes) :
    opks.foldlM (fun buf o => do return buf ++ Base.beBytes 4 o.id ++ (← Client.writeLpChecked o.pubB64)) buf =
      some (buf ++ (opkParts (opks.map (·.map ofScalars))).flatMap Part.bytes) := by
  induction opks generalizing buf with
  | nil => simp [opkParts]
  | cons opk opks ih =>
    rw [List.map_cons, List.forall_mem_cons] at ok
    rw [List.foldlM_cons, writeLpChecked_eq (fits_of_base64Size ok.1.2 (by decide))]
    refine (ih ok.2 _).trans ?_
    simp [opkParts, ReplenishOpk.map]

/-- For a command of the client that an endpoint accepts, both sides build one message. -/
theorem client_canonicalBytes {c : Command Text Base.I64} (ok : Accepted now c.onWire) :
    Client.canonicalBytes sha256 c = some ((c.onWire.parts numbers sha256).flatMap Part.bytes) := by
  have domain (k : Kind) := writeLpChecked_eq (fits_domain k)
  cases c with
  | replenish userId ts requestId spk opks =>
    obtain ⟨user, ⟨safe, fresh⟩, request, count, -, opksOk, -, spkOk⟩ := ok
    have guarded : (guard (opks.length < 2 ^ 32) : Option Unit) = some () := by
      rw [List.length_map] at count
      rw [guard, if_pos (by omega)]
      rfl
    simp only [Client.canonicalBytes, Client.canonicalReplenishBytes, domain, writeLpChecked_eq (fits_of_isProtocolId user),
      writeLpChecked_eq (fits_of_isHighEntropyRequestId request), writeLpChecked_eq (fits_decimal fresh), guarded, opks_agree opksOk]
    cases spk with
    | none => simp [Command.onWire, js, lpNumber_time numbers fresh, spkParts]
    | some s =>
      obtain ⟨pub, sig, rotated⟩ := spkOk (s.map ofScalars) rfl
      simp [writeLpChecked_eq (fits_of_base64Size pub (by decide)), writeLpChecked_eq (fits_of_base64Size sig (by decide)),
        writeLpChecked_eq (fits_of_isIsoUtc rotated), Command.onWire, js, lpNumber_time numbers fresh, spkParts]
  | burn userId ts requestId scope =>
    obtain ⟨user, ⟨safe, fresh⟩, request, scopeOk⟩ := ok
    have label : (scope.map ofScalars).label = scope.label := by cases scope <;> rfl
    have labelFits := fits_label (scope.map ofScalars)
    rw [label] at labelFits
    simp only [Client.canonicalBytes, Client.canonicalBurnBytes, domain, writeLpChecked_eq (fits_of_isProtocolId user),
      writeLpChecked_eq (fits_of_isHighEntropyRequestId request), writeLpChecked_eq (fits_decimal fresh), writeLpChecked_eq labelFits]
    simp only [Command.onWire, Command.map, Command.parts, canonicalBurnBytes, js, label, lpNumber_time numbers fresh]
    cases scope with
    | all => simp [targetParts]
    | single target | toUser target => simp [targetParts, writeLpChecked_eq (fits_of_isProtocolId scopeOk)]
  | unregister userId ts => simp [Command.onWire, js, lpNumber_time numbers ok.2.2]
  | controlInboxPost senderId recipientId scopeId ts bundle kind collapseKey =>
    cases collapseKey <;> simp [Command.onWire, js, lpNumber_time numbers ok.2.2.2.1.2, trailing]
  | controlInboxGet userId ts senderId =>
    cases senderId <;> simp [Command.onWire, js, lpNumber_time numbers ok.2.1.2, trailing]
  | controlInboxDelete userId inboxIdHex ts => simp [Command.onWire, js, lpNumber_time numbers ok.2.2.2]
  | wrappedKeyPost senderId upload ts =>
    have system : (upload.systemMessageKind.map ofScalars).getD [] = ofScalars (upload.systemMessageKind.getD []) := by
      cases upload.systemMessageKind <;> rfl
    have once : UInt8.ofNat (if upload.singleUse = true then 1 else 0) = if upload.singleUse = true then 1 else 0 := by
      cases upload.singleUse <;> rfl
    cases duration : upload.displayDurationSeconds <;>
      simp [Command.onWire, js, system, lpNumber_time numbers ok.2.2.2, durationParts, duration, once]
  | wrappedKeyGet requesterId recipientId contentId ts => simp [Command.onWire, js, lpNumber_time numbers ok.2.2.2.2]
  | prekeyBundleGet requesterId recipientId ts => simp [Command.onWire, js, lpNumber_time numbers ok.2.2.2]

variable (numbers sha256)

/-- Client and Worker sign and verify one message for every accepted command, and the message
tells two accepted commands apart exactly when they differ in more than unpaired surrogates. -/
theorem messages_agree_and_separate :
    (∀ (now : Instant) (c : Command Text Base.I64), Accepted now c.onWire →
      ∃ bytes, Client.canonicalBytes sha256 c = some bytes ∧ canonicalBytes numbers sha256 c.onWire = some bytes) ∧
    ∀ (now now' : Instant) (c c' : Command JsString ℚ), Accepted now c → Accepted now' c' →
      (∀ b ∈ c.bundle, ∀ b' ∈ c'.bundle, sha256 b = sha256 b' → b = b') →
      ((canonicalBytes numbers sha256 c = canonicalBytes numbers sha256 c' → c = c') ↔
        (c.toWellFormed = c'.toWellFormed → c = c')) := by
  constructor
  · intro now c ok
    exact ⟨_, client_canonicalBytes ok, canonicalBytes_of_accepted numbers sha256 ok⟩
  · intro now now' c c' ok ok' distinct
    rw [canonicalBytes_eq_iff ok ok' distinct]

end Messages

/-! ## A concrete number text -/

/-- The numerator's sign and size, and the denominator, in one natural number. -/
def ratCode (x : ℚ) : Nat := Nat.pair (2 * x.num.natAbs + if x.num < 0 then 1 else 0) x.den

theorem ratCode_inj {x y : ℚ} (same : ratCode x = ratCode y) : x = y := by
  obtain ⟨num, den⟩ := Nat.pair_eq_pair.1 same
  refine Rat.ext ?_ den
  split at num <;> split at num <;> omega

theorem num_den_le {p : Int} {q bound : Nat} (positive : 0 < q) (small : p.natAbs ≤ bound) :
    ((p : ℚ) / q).num.natAbs ≤ bound ∧ ((p : ℚ) / q).den ≤ q := by
  have shape : (p : ℚ) / q = Rat.divInt p q := by
    norm_cast
  rw [shape]
  constructor
  · rcases eq_or_ne p 0 with rfl | nonzero
    · simp
    · exact (Nat.le_of_dvd (by omega) (Int.natAbs_dvd_natAbs.2 (Rat.num_dvd p (by omega)))).trans small
  · exact Nat.le_of_dvd positive (by exact_mod_cast Rat.den_dvd p q)

theorem IsDouble.num_den_le {x : ℚ} (double : IsDouble x) : x.num.natAbs ≤ 2 ^ 1074 ∧ x.den ≤ 2 ^ 1074 := by
  obtain ⟨m, e, small, low, high, rfl⟩ := double
  have bound : m.natAbs ≤ 2 ^ 53 := by
    have := abs_lt.1 small
    omega
  rcases le_or_gt 0 e with up | down
  · lift e to Nat using up
    have size : (m * 2 ^ e).natAbs ≤ 2 ^ (53 + e) := by
      rw [Int.natAbs_mul, Int.natAbs_pow, Nat.pow_add]
      exact Nat.mul_le_mul bound le_rfl
    have := Keyserver.num_den_le one_pos (size.trans (Nat.pow_le_pow_right two_pos (by omega : 53 + e ≤ 1074)))
    exact ⟨by simpa using this.1, le_trans (by simpa using this.2) Nat.one_le_two_pow⟩
  · obtain ⟨k, rfl⟩ : ∃ k : Nat, e = -k := ⟨e.natAbs, by omega⟩
    have shape : (m : ℚ) * 2 ^ (-(k : Int)) = m / ((2 ^ k : Nat) : ℚ) := by
      rw [zpow_neg, zpow_natCast, div_eq_mul_inv]
      norm_cast
    have := Keyserver.num_den_le (Nat.two_pow_pos k) (bound.trans (Nat.pow_le_pow_right two_pos (by decide : 53 ≤ 1074)))
    rw [shape]
    exact ⟨this.1, this.2.trans (Nat.pow_le_pow_right (by decide) (by omega))⟩

theorem ratCode_lt_two_pow {x : ℚ} {a : Nat} (num : x.num.natAbs ≤ 2 ^ a) (den : x.den ≤ 2 ^ a) :
    ratCode x < 2 ^ ((a + 2) * 2) := by
  have parts : max (2 * x.num.natAbs + if x.num < 0 then 1 else 0) x.den + 1 ≤ 2 ^ (a + 2) := by
    have fourfold : 2 ^ (a + 2) = 2 ^ a * 2 ^ 2 := Nat.pow_add 2 a 2
    have pos : 1 ≤ 2 ^ a := Nat.one_le_two_pow
    split <;> omega
  calc ratCode x < _ := Nat.pair_lt_max_add_one_sq _ _
    _ ≤ (2 ^ (a + 2)) ^ 2 := Nat.pow_le_pow_left parts 2
    _ = 2 ^ ((a + 2) * 2) := (Nat.pow_mul 2 (a + 2) 2).symm

theorem two_pow_lt_ten_pow {a b : Nat} (small : a ≤ 3 * b) (nonzero : b ≠ 0) : 2 ^ a < 10 ^ b := by
  calc 2 ^ a ≤ 2 ^ (3 * b) := Nat.pow_le_pow_right two_pos small
    _ = (2 ^ 3) ^ b := Nat.pow_mul 2 3 b
    _ < 10 ^ b := Nat.pow_lt_pow_left (by decide) nonzero

theorem repr_toList_inj {m : Nat} (same : m.repr.toList = n.repr.toList) : m = n := by
  rw [Nat.toList_repr, Nat.toList_repr] at same
  rw [← Nat.ofDigitChars_ten_toDigits (n := m), same, Nat.ofDigitChars_ten_toDigits]

theorem point_not_mem_repr (n : Nat) : '.' ∉ n.repr.toList := by
  intro mem
  rw [Nat.toList_repr] at mem
  exact absurd (Nat.isDigit_of_mem_toDigits (by decide) (by decide) mem) (by decide)

/-- Exact integers in decimal, every other number by its code behind a point. -/
def pointedText : NumberText where
  text x := if x.den = 1 ∧ 0 ≤ x.num ∧ x.num < 2 ^ 53 then x.num.toNat.repr.toList else '.' :: (ratCode x).repr.toList
  integer n small := by
    rw [if_pos ⟨Rat.den_natCast n, by simp, by simpa using small⟩]
    simp
  short x double := by
    split
    · next whole =>
      exact ((Nat.length_repr_le_iff (by decide)).2 (by omega : x.num.toNat < 10 ^ 16)).trans (by decide)
    · exact Nat.succ_le_succ ((Nat.length_repr_le_iff (by decide)).2 ((ratCode_lt_two_pow double.num_den_le.1 double.num_den_le.2).trans (two_pow_lt_ten_pow (by decide) (by decide))))
  injective x y _ _ same := by
    split at same <;> split at same
    · next whole whole' =>
      have := repr_toList_inj same
      exact Rat.ext (by omega) (whole.1.trans whole'.1.symm)
    · exact absurd (same ▸ List.mem_cons_self) (point_not_mem_repr _)
    · exact absurd (same ▸ List.mem_cons_self) (point_not_mem_repr _)
    · exact ratCode_inj (repr_toList_inj (List.cons.inj same).2)

/-! ## Two commands with one message -/

def noon : Instant := ⟨1700000000000, by decide⟩

private theorem fresh_noon : Fresh noon 1700000000000 := by
  constructor
  · norm_num
  · simp [noon, freshnessWindowMs]

private theorem safe_noon : IsSafeInteger 1700000000000 := ⟨1700000000000, by norm_num, by norm_num⟩

def uploadOf (contentId : JsString) : Command JsString ℚ :=
  .wrappedKeyPost (js "alice")
    { contentId, contentType := js "text", systemMessageKind := none, recipientId := js "bob", sessionVersion := 1
      shareIndex := 0, wrappedShareBlob := js "AAAA", blobVersion := 1, singleUse := false, displayDurationSeconds := none
      expiresAt := js "2023-11-15T00:00:00.000Z" }
    1700000000000

private theorem accepted_uploadOf {contentId : JsString} (ok : isProtocolId contentId) : Accepted noon (uploadOf contentId) where
  left := by decide +kernel
  right.left :=
    { contentId := ok
      contentType := .inl rfl
      system := by
        rw [if_neg (show js "text" ≠ js "system" by decide +kernel)]
      recipientId := show isProtocolId (js "bob") by decide +kernel
      sessionVersion := show 1 ≤ 1 ∧ 1 < 2 ^ 32 by decide
      shareIndex := show 0 < 2 ^ 32 by decide
      share := ⟨3, show base64Size (js "AAAA") = some 3 by decide +kernel, by decide⟩
      blobVersion := show 1 ≤ 1 ∧ 1 < 2 ^ 32 by decide
      duration := rfl
      expiresAt := show isIsoUtc (js "2023-11-15T00:00:00.000Z") by decide +kernel }
  right.right := ⟨safe_noon, fresh_noon⟩

theorem messages_agree_and_separate_uploads :
    (∃ bytes, Client.canonicalBytes (fun _ => zeroDigest) (.unregister "alice".toList ⟨1700000000000, by decide⟩) = some bytes ∧
      canonicalBytes pointedText (fun _ => zeroDigest) (.unregister (js "alice") 1700000000000) = some bytes) ∧
    canonicalBytes pointedText (fun _ => zeroDigest) (uploadOf (js "first")) ≠
      canonicalBytes pointedText (fun _ => zeroDigest) (uploadOf (js "second")) := by
  obtain ⟨agree, separate⟩ := messages_agree_and_separate pointedText fun _ => zeroDigest
  constructor
  · exact agree noon (.unregister "alice".toList ⟨1700000000000, by decide⟩) ⟨by decide +kernel, safe_noon, fresh_noon⟩
  · have apart : uploadOf (js "first") ≠ uploadOf (js "second") := by decide +kernel
    intro same
    refine apart ((separate noon noon _ _ (accepted_uploadOf (by decide +kernel)) (accepted_uploadOf (by decide +kernel)) ?_).2 ?_ same)
    · rintro _ ⟨⟩
    · intro same
      exact absurd same (by decide +kernel)

/-- An unpaired surrogate and U+FFFD as the content id of an upload: two commands, one message. -/
theorem surrogate_content_ids_share_message :
    Accepted noon (uploadOf [0xd800]) ∧ Accepted noon (uploadOf [0xfffd]) ∧ uploadOf [0xd800] ≠ uploadOf [0xfffd] ∧
      canonicalBytes pointedText (fun _ => zeroDigest) (uploadOf [0xd800]) =
        canonicalBytes pointedText (fun _ => zeroDigest) (uploadOf [0xfffd]) := by
  have ok : Accepted noon (uploadOf [0xd800]) := accepted_uploadOf (by decide +kernel)
  have ok' : Accepted noon (uploadOf [0xfffd]) := accepted_uploadOf (by decide +kernel)
  refine ⟨ok, ok', by decide +kernel, ?_⟩
  rw [canonicalBytes_eq_iff ok ok' (by rintro _ ⟨⟩)]
  decide +kernel

end Osl.Keyserver
