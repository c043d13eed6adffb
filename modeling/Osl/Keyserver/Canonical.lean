import Mathlib.Data.Rat.Lemmas
import Mathlib.Algebra.Field.Rat
import Mathlib.Algebra.Order.Ring.Unbundled.Rat
import Mathlib.Algebra.Order.AbsoluteValue.Basic
import Osl.Base.Fixed
import Osl.Base.Utf16
import Osl.Bytes

/-!
# The canonical bytes of the signed keyserver commands

`keyserver-cf/src/lib/canonical.ts` and its Rust counterparts in `crates/keystore`
(`prekeys.rs`, `burn.rs`, `unregister.rs`, `control_inbox.rs`, `wrapped_key.rs`,
`signed_get.rs`): nine commands, each with the bytes its signature covers. A command is
generic in its strings and its timestamp: the client's are Unicode texts and `i64`, the
Worker's are strings of 16-bit units and doubles.
-/

namespace Osl.Keyserver

open Base.Utf16

abbrev Bytes := List UInt8
abbrev JsString := CodeUnits

/-- A string literal of the Worker. -/
def js (s : String) : JsString := ofScalars s.toList

/-! ## Commands -/

structure ReplenishSpk (S : Type) where
  pubB64 : S
  signatureB64 : S
  rotatedAt : S
deriving DecidableEq

structure ReplenishOpk (S : Type) where
  id : Nat
  pubB64 : S
deriving DecidableEq

/-- `BurnScope` with the target the scope needs. -/
inductive BurnScope (S : Type) where
  | single (contentId : S)
  | toUser (userId : S)
  | all
deriving DecidableEq

structure WrappedKeyUpload (S : Type) where
  contentId : S
  contentType : S
  systemMessageKind : Option S
  recipientId : S
  sessionVersion : Nat
  shareIndex : Nat
  wrappedShareBlob : S
  blobVersion : Nat
  singleUse : Bool
  displayDurationSeconds : Option Nat
  expiresAt : S
deriving DecidableEq

/-- The signed commands. The lane of a post is the empty string unless it is a revocation. -/
inductive Command (S N : Type) where
  | replenish (userId : S) (timestampMs : N) (requestId : S) (spk : Option (ReplenishSpk S)) (opks : List (ReplenishOpk S))
  | burn (userId : S) (timestampMs : N) (requestId : S) (scope : BurnScope S)
  | unregister (userId : S) (timestampMs : N)
  | controlInboxPost (senderId recipientId scopeId : S) (timestampMs : N) (bundle : Bytes) (kind : S)
      (collapseKey : Option S)
  | controlInboxGet (userId : S) (timestampMs : N) (senderId : Option S)
  | controlInboxDelete (userId inboxIdHex : S) (timestampMs : N)
  | wrappedKeyPost (senderId : S) (upload : WrappedKeyUpload S) (timestampMs : N)
  | wrappedKeyGet (requesterId recipientId contentId : S) (timestampMs : N)
  | prekeyBundleGet (requesterId recipientId : S) (timestampMs : N)
deriving DecidableEq

section Map

variable {S S' N N' : Type} (f : S → S') (g : N → N')

def ReplenishSpk.map (spk : ReplenishSpk S) : ReplenishSpk S' := ⟨f spk.pubB64, f spk.signatureB64, f spk.rotatedAt⟩

def ReplenishOpk.map (opk : ReplenishOpk S) : ReplenishOpk S' := ⟨opk.id, f opk.pubB64⟩

def BurnScope.map : BurnScope S → BurnScope S'
  | .single contentId => .single (f contentId)
  | .toUser userId => .toUser (f userId)
  | .all => .all

def WrappedKeyUpload.map (u : WrappedKeyUpload S) : WrappedKeyUpload S' where
  contentId := f u.contentId
  contentType := f u.contentType
  systemMessageKind := u.systemMessageKind.map f
  recipientId := f u.recipientId
  sessionVersion := u.sessionVersion
  shareIndex := u.shareIndex
  wrappedShareBlob := f u.wrappedShareBlob
  blobVersion := u.blobVersion
  singleUse := u.singleUse
  displayDurationSeconds := u.displayDurationSeconds
  expiresAt := f u.expiresAt

def Command.map : Command S N → Command S' N'
  | .replenish userId ts requestId spk opks =>
    .replenish (f userId) (g ts) (f requestId) (spk.map (·.map f)) (opks.map (·.map f))
  | .burn userId ts requestId scope => .burn (f userId) (g ts) (f requestId) (scope.map f)
  | .unregister userId ts => .unregister (f userId) (g ts)
  | .controlInboxPost senderId recipientId scopeId ts bundle kind collapseKey =>
    .controlInboxPost (f senderId) (f recipientId) (f scopeId) (g ts) bundle (f kind) (collapseKey.map f)
  | .controlInboxGet userId ts senderId => .controlInboxGet (f userId) (g ts) (senderId.map f)
  | .controlInboxDelete userId inboxIdHex ts => .controlInboxDelete (f userId) (f inboxIdHex) (g ts)
  | .wrappedKeyPost senderId upload ts => .wrappedKeyPost (f senderId) (upload.map f) (g ts)
  | .wrappedKeyGet requesterId recipientId contentId ts => .wrappedKeyGet (f requesterId) (f recipientId) (f contentId) (g ts)
  | .prekeyBundleGet requesterId recipientId ts => .prekeyBundleGet (f requesterId) (f recipientId) (g ts)

end Map

/-! ## Domains

The same ASCII constants stand in both sources. -/

inductive Kind where
  | replenish | burn | unregister | controlInboxPost | controlInboxGet | controlInboxDelete
  | wrappedKeyPost | wrappedKeyGet | prekeyBundleGet
deriving DecidableEq

def Kind.domain : Kind → String
  | .replenish => "discord-privacy-client/prekey-replenish/v1"
  | .burn => "discord-privacy-client/burn/v1"
  | .unregister => "discord-privacy-client/unregister/v1"
  | .controlInboxPost => "discord-privacy-client/control-inbox-post/v1"
  | .controlInboxGet => "discord-privacy-client/control-inbox-get/v1"
  | .controlInboxDelete => "discord-privacy-client/control-inbox-delete/v1"
  | .wrappedKeyPost => "discord-privacy-client/wrapped-key-post/v1"
  | .wrappedKeyGet => "discord-privacy-client/wrapped-key-get/v1"
  | .prekeyBundleGet => "discord-privacy-client/prekey-bundle-get/v1"

def Command.kind {S N : Type} : Command S N → Kind
  | .replenish .. => .replenish
  | .burn .. => .burn
  | .unregister .. => .unregister
  | .controlInboxPost .. => .controlInboxPost
  | .controlInboxGet .. => .controlInboxGet
  | .controlInboxDelete .. => .controlInboxDelete
  | .wrappedKeyPost .. => .wrappedKeyPost
  | .wrappedKeyGet .. => .wrappedKeyGet
  | .prekeyBundleGet .. => .prekeyBundleGet

/-! ## The Worker's encoder -/

/-- A number of the Worker is a finite double: an integer of at most 53 bits times a power of two. -/
def IsDouble (x : ℚ) : Prop := ∃ (m : Int) (e : Int), |m| < 2 ^ 53 ∧ -1074 ≤ e ∧ e ≤ 971 ∧ x = m * 2 ^ e

/-- What `String(x)` is documented to do: the decimal digits of an exact integer, and a short text
that reads back as the same double. -/
structure NumberText where
  text : ℚ → Text
  integer : ∀ n : Nat, n < 2 ^ 53 → text n = (Nat.repr n).toList
  short : ∀ x, IsDouble x → (text x).length ≤ 1000
  injective : ∀ x y, IsDouble x → IsDouble y → text x = text y → x = y

/-- `new TextEncoder().encode(s)`. -/
def encode (s : JsString) : Bytes := asBytes (toScalars s)

/-- An element of the arrays `concatBytes` joins: `lpString(s)`, `u32be(n)`, `u8(v)` or a digest. -/
inductive Part where
  | lp (s : JsString)
  | u32 (n : Nat)
  | u8 (v : Nat)
  | raw (d : Digest)
deriving DecidableEq

def Part.bytes : Part → Bytes
  | .lp s => Base.beBytes 4 (encode s).length ++ encode s
  | .u32 n => Base.beBytes 4 n
  | .u8 v => [UInt8.ofNat v]
  | .raw d => d.toList

/-- `u32be` throws a `RangeError` on anything else. -/
def Part.inRange : Part → Bool
  | .lp s => decide ((encode s).length < 2 ^ 32)
  | .u32 n => decide (n < 2 ^ 32)
  | .u8 _ | .raw _ => true

def concatBytes (parts : List Part) : Option Bytes := if parts.all Part.inRange then some (parts.flatMap Part.bytes) else none

section Worker

variable (numbers : NumberText) (sha256 : Bytes → Digest)

/-- `lpString(String(timestamp_ms))`. -/
def lpNumber (x : ℚ) : Part := .lp (ofScalars (numbers.text x))

def BurnScope.label {S : Type} : BurnScope S → String
  | .single _ => "single"
  | .toUser _ => "to_user"
  | .all => "all"

/-- `target_kind` and the target. -/
def targetParts : BurnScope JsString → List Part
  | .single contentId => [.u8 1, .lp contentId]
  | .toUser userId => [.u8 2, .lp userId]
  | .all => [.u8 0]

def canonicalBurnBytes (userId : JsString) (timestampMs : ℚ) (requestId : JsString) (scope : BurnScope JsString) : List Part :=
  [.lp (js Kind.burn.domain), .lp userId, lpNumber numbers timestampMs, .lp requestId, .lp (js scope.label)] ++
    targetParts scope

def canonicalUnregisterBytes (userId : JsString) (timestampMs : ℚ) : List Part :=
  [.lp (js Kind.unregister.domain), .lp userId, lpNumber numbers timestampMs]

def spkParts : Option (ReplenishSpk JsString) → List Part
  | none => [.u8 0]
  | some spk => [.u8 1, .lp spk.pubB64, .lp spk.signatureB64, .lp spk.rotatedAt]

def opkParts (opks : List (ReplenishOpk JsString)) : List Part := opks.flatMap fun opk => [.u32 opk.id, .lp opk.pubB64]

def canonicalReplenishBytes (userId : JsString) (timestampMs : ℚ) (requestId : JsString)
    (spk : Option (ReplenishSpk JsString)) (opks : List (ReplenishOpk JsString)) : List Part :=
  [.lp (js Kind.replenish.domain), .lp userId, lpNumber numbers timestampMs, .lp requestId] ++
    (spkParts spk ++ .u32 opks.length :: opkParts opks)

/-- The flag and the value of `display_duration_seconds`. -/
def durationParts : Option Nat → List Part
  | none => [.u8 0]
  | some seconds => [.u8 1, .u32 seconds]

def canonicalWrappedKeyPostBytes (senderId : JsString) (u : WrappedKeyUpload JsString) (timestampMs : ℚ) : List Part :=
  [.lp (js Kind.wrappedKeyPost.domain), .lp u.contentId, .lp u.contentType, .lp (u.systemMessageKind.getD []), .lp senderId,
    .lp u.recipientId, .u32 u.sessionVersion, .u32 u.shareIndex, .lp u.wrappedShareBlob, .u32 u.blobVersion,
    .u8 (if u.singleUse then 1 else 0)] ++
    (durationParts u.displayDurationSeconds ++ [.lp u.expiresAt, lpNumber numbers timestampMs])

def canonicalPrekeyBundleGetBytes (requesterId recipientId : JsString) (timestampMs : ℚ) : List Part :=
  [.lp (js Kind.prekeyBundleGet.domain), .lp requesterId, .lp recipientId, .lp recipientId, lpNumber numbers timestampMs]

def canonicalWrappedKeyGetBytes (requesterId recipientId contentId : JsString) (timestampMs : ℚ) : List Part :=
  [.lp (js Kind.wrappedKeyGet.domain), .lp requesterId, .lp recipientId, .lp contentId, lpNumber numbers timestampMs]

/-- The optional trailing component of a post and of a drain. -/
def trailing (s : Option JsString) : List Part := s.toList.map .lp

def canonicalControlInboxPostBytes (senderId recipientId scopeId : JsString) (timestampMs : ℚ) (bundleSha256 : Digest)
    (kind collapseKey : Option JsString) : List Part :=
  [.lp (js Kind.controlInboxPost.domain), .lp senderId, .lp recipientId, .lp scopeId, lpNumber numbers timestampMs,
    .lp (kind.getD []), .raw bundleSha256] ++ trailing collapseKey

def canonicalControlInboxGetBytes (userId : JsString) (timestampMs : ℚ) (senderId : Option JsString) : List Part :=
  [.lp (js Kind.controlInboxGet.domain), .lp userId, lpNumber numbers timestampMs] ++ trailing senderId

def canonicalControlInboxDeleteBytes (userId inboxIdHex : JsString) (timestampMs : ℚ) : List Part :=
  [.lp (js Kind.controlInboxDelete.domain), .lp userId, .lp inboxIdHex, lpNumber numbers timestampMs]

/-- What the endpoint of a command joins to the message it verifies the signature against. -/
def Command.parts : Command JsString ℚ → List Part
  | .replenish userId ts requestId spk opks => canonicalReplenishBytes numbers userId ts requestId spk opks
  | .burn userId ts requestId scope => canonicalBurnBytes numbers userId ts requestId scope
  | .unregister userId ts => canonicalUnregisterBytes numbers userId ts
  | .controlInboxPost senderId recipientId scopeId ts bundle kind collapseKey =>
    -- the endpoint passes `undefined` for the ordinary lane
    canonicalControlInboxPostBytes numbers senderId recipientId scopeId ts (sha256 bundle)
      (if kind = [] then none else some kind) collapseKey
  | .controlInboxGet userId ts senderId => canonicalControlInboxGetBytes numbers userId ts senderId
  | .controlInboxDelete userId inboxIdHex ts => canonicalControlInboxDeleteBytes numbers userId inboxIdHex ts
  | .wrappedKeyPost senderId upload ts => canonicalWrappedKeyPostBytes numbers senderId upload ts
  | .wrappedKeyGet requesterId recipientId contentId ts =>
    canonicalWrappedKeyGetBytes numbers requesterId recipientId contentId ts
  | .prekeyBundleGet requesterId recipientId ts => canonicalPrekeyBundleGetBytes numbers requesterId recipientId ts

/-- `canonicalBurnBytes` refuses an empty target. -/
def Command.hasTarget : Command JsString ℚ → Bool
  | .burn _ _ _ (.single target) | .burn _ _ _ (.toUser target) => !target.isEmpty
  | _ => true

/-- The message; `none` is an error thrown on the way. -/
def canonicalBytes (c : Command JsString ℚ) : Option Bytes :=
  if c.hasTarget then concatBytes (c.parts numbers sha256) else none

end Worker

/-! ## The client's encoder -/

namespace Client

/-- `write_lp` with `bytes.len() as u32`, which keeps the low four bytes of the length. -/
def writeLp (value : Text) : Bytes := Base.beBytes 4 (asBytes value).length ++ asBytes value

/-- The `write_lp` of `burn.rs` and `prekeys.rs`, which panics when the length is no `u32`. -/
def writeLpChecked (value : Text) : Option Bytes :=
  if (asBytes value).length < 2 ^ 32 then some (writeLp value) else none

/-- `timestamp_ms.to_string()`. -/
def decimal (timestampMs : Base.I64) : Text := (toString timestampMs.1).toList

def canonicalReplenishBytes (userId : Text) (timestampMs : Base.I64) (requestId : Text) (spk : Option (ReplenishSpk Text))
    (opks : List (ReplenishOpk Text)) : Option Bytes := do
  let buf ← writeLpChecked Kind.replenish.domain.toList
  let buf := buf ++ (← writeLpChecked userId)
  let buf := buf ++ (← writeLpChecked (decimal timestampMs))
  let buf := buf ++ (← writeLpChecked requestId)
  let buf := buf ++ [if spk.isSome then 1 else 0]
  let buf ← match spk with
    | none => pure buf
    | some s => do
      let buf := buf ++ (← writeLpChecked s.pubB64)
      let buf := buf ++ (← writeLpChecked s.signatureB64)
      pure (buf ++ (← writeLpChecked s.rotatedAt))
  guard (opks.length < 2 ^ 32)
  let buf := buf ++ Base.beBytes 4 opks.length
  opks.foldlM (fun buf o => do return buf ++ Base.beBytes 4 o.id ++ (← writeLpChecked o.pubB64)) buf

def canonicalBurnBytes (userId : Text) (timestampMs : Base.I64) (requestId : Text) (scope : BurnScope Text) :
    Option Bytes := do
  let buf ← writeLpChecked Kind.burn.domain.toList
  let buf := buf ++ (← writeLpChecked userId)
  let buf := buf ++ (← writeLpChecked (decimal timestampMs))
  let buf := buf ++ (← writeLpChecked requestId)
  let buf := buf ++ (← writeLpChecked scope.label.toList)
  match scope with
  | .single contentId => return buf ++ [1] ++ (← writeLpChecked contentId)
  | .toUser userId => return buf ++ [2] ++ (← writeLpChecked userId)
  | .all => return buf ++ [0]

def canonicalUnregisterBytes (userId : Text) (timestampMs : Base.I64) : Bytes :=
  writeLp Kind.unregister.domain.toList ++ writeLp userId ++ writeLp (decimal timestampMs)

section Hashed

variable (sha256 : Bytes → Digest)

def canonicalControlInboxPostBytesLane (senderId recipientId scopeId : Text) (timestampMs : Base.I64) (bundle : Bytes)
    (kind collapseKey : Option Text) : Bytes :=
  writeLp Kind.controlInboxPost.domain.toList ++ writeLp senderId ++ writeLp recipientId ++ writeLp scopeId ++
    writeLp (decimal timestampMs) ++ writeLp (kind.getD []) ++ (sha256 bundle).toList ++
    (match collapseKey with
      | none => []
      | some key => writeLp key)

end Hashed

def canonicalControlInboxGetBytesFiltered (userId : Text) (timestampMs : Base.I64) (senderId : Option Text) : Bytes :=
  writeLp Kind.controlInboxGet.domain.toList ++ writeLp userId ++ writeLp (decimal timestampMs) ++
    (match senderId with
      | none => []
      | some sender => writeLp sender)

def canonicalControlInboxDeleteBytes (userId inboxIdHex : Text) (timestampMs : Base.I64) : Bytes :=
  writeLp Kind.controlInboxDelete.domain.toList ++ writeLp userId ++ writeLp inboxIdHex ++ writeLp (decimal timestampMs)

def canonicalWrappedKeyPostBytes (senderId : Text) (u : WrappedKeyUpload Text) (timestampMs : Base.I64) : Bytes :=
  writeLp Kind.wrappedKeyPost.domain.toList ++ writeLp u.contentId ++ writeLp u.contentType ++
    writeLp (u.systemMessageKind.getD []) ++ writeLp senderId ++ writeLp u.recipientId ++
    Base.beBytes 4 u.sessionVersion ++ Base.beBytes 4 u.shareIndex ++ writeLp u.wrappedShareBlob ++
    Base.beBytes 4 u.blobVersion ++ [if u.singleUse then 1 else 0] ++
    (match u.displayDurationSeconds with
      | some seconds => 1 :: Base.beBytes 4 seconds
      | none => [0]) ++
    writeLp u.expiresAt ++ writeLp (decimal timestampMs)

def canonicalPrekeyBundleGetBytes (requesterId recipientId : Text) (timestampMs : Base.I64) : Bytes :=
  writeLp Kind.prekeyBundleGet.domain.toList ++ writeLp requesterId ++ writeLp recipientId ++ writeLp recipientId ++
    writeLp (decimal timestampMs)

def canonicalWrappedKeyGetBytes (requesterId recipientId contentId : Text) (timestampMs : Base.I64) : Bytes :=
  writeLp Kind.wrappedKeyGet.domain.toList ++ writeLp requesterId ++ writeLp recipientId ++ writeLp contentId ++
    writeLp (decimal timestampMs)

/-- The message the client signs; `none` is a panic. -/
def canonicalBytes (sha256 : Bytes → Digest) : Command Text Base.I64 → Option Bytes
  | .replenish userId ts requestId spk opks => canonicalReplenishBytes userId ts requestId spk opks
  | .burn userId ts requestId scope => canonicalBurnBytes userId ts requestId scope
  | .unregister userId ts => some (canonicalUnregisterBytes userId ts)
  | .controlInboxPost senderId recipientId scopeId ts bundle kind collapseKey =>
    some (canonicalControlInboxPostBytesLane sha256 senderId recipientId scopeId ts bundle (some kind) collapseKey)
  | .controlInboxGet userId ts senderId => some (canonicalControlInboxGetBytesFiltered userId ts senderId)
  | .controlInboxDelete userId inboxIdHex ts => some (canonicalControlInboxDeleteBytes userId inboxIdHex ts)
  | .wrappedKeyPost senderId upload ts => some (canonicalWrappedKeyPostBytes senderId upload ts)
  | .wrappedKeyGet requesterId recipientId contentId ts =>
    some (canonicalWrappedKeyGetBytes requesterId recipientId contentId ts)
  | .prekeyBundleGet requesterId recipientId ts => some (canonicalPrekeyBundleGetBytes requesterId recipientId ts)

end Client

end Osl.Keyserver
