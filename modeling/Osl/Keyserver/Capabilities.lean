import Osl.Base.Tasks
import Osl.Keyserver.Canonical

/-!
# The capability bitmap of an identity

`endpoints/register.ts` with `insertUser`, `raiseRnCapabilities` and `rotateUserKeys`, and
`endpoints/canonical-identity.ts`, statement by statement, on the row of one user id. The
bitmap is compared as a number, and by the scheme-1 rotation not at all; so a bit stays
set as long as the bitmaps that are written contain the stored one.
-/

namespace Osl.Keyserver.Register

open Base

def rnCapMax : Nat := 0xffff

structure IdentityKeys where
  x25519Pub : JsString
  ed25519Pub : JsString
  mlkem768Pub : JsString
  ratchetInitialPub : Option JsString
deriving DecidableEq

/-- What a row has under identity scheme 1. -/
structure Authority where
  rootEd25519Pub : JsString
  revision : Nat
  bundleProofSig : JsString
deriving DecidableEq

/-- A row of `users`. The triggers of migration 0033 leave a row of scheme 0 no authority. -/
structure User where
  keys : IdentityKeys
  registrationSig : JsString
  rnCapabilities : Nat
  lookupEnabled : Bool
  authority : Option Authority

structure Rotation where
  prevEd25519Pub : JsString
  prevSig : JsString

/-- A legacy body past the checks of its shape; `parseRnCapabilities` has bounded the bitmap. -/
structure Registration where
  keys : IdentityKeys
  rnCapabilities : Option (Fin (rnCapMax + 1))
  registrationSig : JsString
  rotation : Option Rotation

/-- A scheme-1 body that `validateCanonicalIdentityBundle` has accepted. -/
structure CanonicalRegistration where
  keys : IdentityKeys
  rnCapabilities : Fin (rnCapMax + 1)
  authority : Authority
  registrationSig : JsString
  rotationPrevSig : Option JsString

inductive Request where
  | legacy (r : Registration)
  | canonical (r : CanonicalRegistration)

/-- The bitmap that is stored. -/
def Request.rnCapabilities : Request → Nat
  | .legacy r => (r.rnCapabilities.getD 0).val
  | .canonical r => r.rnCapabilities.val

/-- What is signed: `buildRegMsg`, `buildRotMsg` and the canonical bundle bytes. -/
inductive Message where
  | register (r : Registration)
  | rotate (prevEd25519Pub : JsString) (r : Registration)
  | bundle (r : CanonicalRegistration)

inductive Response where
  | created (rnCapabilities : Option Nat)
  | noop (rnCapabilities : Option Nat)
  | capabilitiesRaised (rnCapabilities : Nat)
  | rotated (rnCapabilities : Option Nat)
  | badRequest (error : String)
  | forbidden (error : String)
  | conflict (error : String)
  | internalError

/-- Between which two statements a request is, with what it has read. -/
inductive Phase where
  | arrived
  | inserting
  | enabling (current : JsString)
  | comparing
  | raising (current : JsString) (stored : Nat)
  | rereading (stored : Nat)
  | checking (current : JsString)
  | rotating (current : JsString)
  | reenabling (revision : Nat) (current : JsString)
  | advancing (revision : Nat) (current : JsString)
  | answered (response : Response)

section Handlers

variable (verify : JsString → Message → JsString → Bool)

/-- Cases A, B and C up to their next statement. -/
def Registration.classify (r : Registration) : Option User → Phase
  | none =>
    if verify r.keys.ed25519Pub (.register r) r.registrationSig then .inserting
    else .answered (.badRequest "registration_sig invalid")
  | some u =>
    if u.keys.ed25519Pub = r.keys.ed25519Pub then
      if verify r.keys.ed25519Pub (.register r) r.registrationSig then .enabling u.keys.ed25519Pub
      else .answered (.badRequest "registration_sig invalid")
    else if r.rotation.any fun rotation => rotation.prevEd25519Pub = u.keys.ed25519Pub &&
        verify u.keys.ed25519Pub (.rotate rotation.prevEd25519Pub r) rotation.prevSig &&
        verify r.keys.ed25519Pub (.register r) r.registrationSig then .checking u.keys.ed25519Pub
    else .answered (.forbidden "user_id registered to a different key; rotation not authorized")

/-- `handleRegister`. The update guard of migration 0033 aborts what would write to a row of scheme 1. -/
def Registration.step (r : Registration) (phase : Phase) (row : Option User) : Phase × Option User :=
  let caps := (Request.legacy r).rnCapabilities
  match phase, row with
  | .arrived, row => (r.classify verify row, row)
  | .inserting, none => (.answered (.created (some caps)), some ⟨r.keys, r.registrationSig, caps, true, none⟩)
  | .inserting, some u => (.answered .internalError, some u)
  | .enabling current, row =>
    (if r.rnCapabilities.isNone then .answered (.noop none) else .comparing,
      row.map fun u => if u.keys.ed25519Pub = current then { u with lookupEnabled := true } else u)
  | .comparing, none => (.answered (.noop none), none)
  | .comparing, some u =>
    (if caps ≤ u.rnCapabilities then .answered (.noop (some u.rnCapabilities))
    else if { r.keys with ed25519Pub := u.keys.ed25519Pub } = u.keys then .raising u.keys.ed25519Pub u.rnCapabilities
    else .answered (.forbidden "changing keys and rn_capabilities together requires an authenticated rotation"), some u)
  | .raising _ stored, none => (.rereading stored, none)
  | .raising current stored, some u =>
    if u.keys.ed25519Pub = current ∧ u.rnCapabilities < caps then
      if u.authority.isSome then (.answered .internalError, some u)
      else (.answered (.capabilitiesRaised caps), some { u with rnCapabilities := caps, registrationSig := r.registrationSig })
    else (.rereading stored, some u)
  | .rereading stored, row => (.answered (.noop ((row.map (·.rnCapabilities)).getD stored)), row)
  | .checking current, row =>
    (match row.filter fun u => decide (caps < u.rnCapabilities) with
    | some u => .answered (.conflict s!"rotation would lower rn_capabilities; re-register with at least {u.rnCapabilities} (capability advertisements never lower)")
    | none => .rotating current, row)
  | .rotating _, none => (.answered (.conflict "identity key changed during rotation; retry"), none)
  | .rotating current, some u =>
    if u.keys.ed25519Pub = current then
      if u.authority.isSome then (.answered .internalError, some u)
      else (.answered (.rotated (some caps)), some ⟨r.keys, r.registrationSig, caps, true, none⟩)
    else (.answered (.conflict "identity key changed during rotation; retry"), some u)
  | phase, row => (phase, row)

/-- The checks of `handleCanonicalIdentityRegister` against the row it has read. -/
def CanonicalRegistration.classify (r : CanonicalRegistration) : Option User → Phase
  | none =>
    if r.rotationPrevSig.isSome then .answered (.badRequest "canonical identity genesis cannot carry a rotation proof")
    else if r.authority.revision = 1 then .inserting
    else .answered (.conflict "canonical identity genesis revision must be 1")
  | some u =>
    match u.authority.filter (·.rootEd25519Pub = r.authority.rootEd25519Pub) with
    | none => .answered (.forbidden "canonical identity root does not match durable identity")
    | some stored =>
      if r.authority = stored ∧ r.keys = u.keys ∧ r.rnCapabilities.val = u.rnCapabilities ∧ r.registrationSig = u.registrationSig then
        if r.rotationPrevSig.isSome then .answered (.badRequest "canonical identity no-op cannot carry a rotation proof")
        else if u.lookupEnabled then .answered (.noop none)
        else .reenabling stored.revision u.keys.ed25519Pub
      else if r.authority.revision ≠ stored.revision + 1 then
        .answered (.conflict s!"identity_revision must advance exactly to {stored.revision + 1}")
      else if r.rotationPrevSig.any (verify u.keys.ed25519Pub (.bundle r)) then .advancing stored.revision u.keys.ed25519Pub
      else .answered (.forbidden "current identity key did not authorize the revision")

/-- The row an update of revision `revision` under the key `current` finds. -/
def CanonicalRegistration.finds (r : CanonicalRegistration) (revision : Nat) (current : JsString) (u : User) : Bool :=
  u.keys.ed25519Pub = current &&
    u.authority.any fun a => a.revision = revision && a.rootEd25519Pub = r.authority.rootEd25519Pub

def CanonicalRegistration.step (r : CanonicalRegistration) (phase : Phase) (row : Option User) : Phase × Option User :=
  let written : User := ⟨r.keys, r.registrationSig, r.rnCapabilities.val, true, some r.authority⟩
  match phase, row with
  | .arrived, row => (r.classify verify row, row)
  | .inserting, none => (.answered (.created none), some written)
  | .inserting, some u => (.answered (.conflict "canonical identity genesis lost a concurrent race"), some u)
  | .reenabling revision current, row =>
    (.answered (.noop none), row.map fun u =>
      if u.keys.ed25519Pub = current ∧ u.authority.any (·.revision = revision) then { u with lookupEnabled := true } else u)
  | .advancing revision current, row =>
    match row.filter (r.finds revision current) with
    | some _ => (.answered (.rotated none), some written)
    | none => (.answered (.conflict "canonical identity changed concurrently; retry refused"), row)
  | phase, row => (phase, row)

abbrev registry : System where
  Shared := Option User
  Local := Request × Phase
  Request := Request
  Outside := Empty
  start _ r := (r, .arrived)
  step := fun (request, phase) row =>
    match request with
    | .legacy r => ((request, (r.step verify phase row).1), (r.step verify phase row).2)
    | .canonical r => ((request, (r.step verify phase row).1), (r.step verify phase row).2)
  outside := Empty.elim

end Handlers

def capabilities (row : Option User) : Nat := (row.map (·.rnCapabilities)).getD 0

/-- The stored bitmap is part of the one that is about to be written. -/
def widens (request : Request) (phase : Phase) (row : Option User) : Bool :=
  let contained := capabilities row &&& request.rnCapabilities = capabilities row
  match phase with
  | .raising .. => request.rnCapabilities ≤ capabilities row ∨ contained
  | .rotating _ | .advancing .. => contained
  | _ => true

def widening {verify : JsString → Message → JsString → Bool} (w : World (registry verify)) : Event (registry verify) → Bool
  | .turn i => (w.tasks[i]?).all fun l => widens l.1 l.2 w.shared
  | _ => true

variable {verify : JsString → Message → JsString → Bool} {i : Nat} {phase : Phase} {u : User}

/-! ## Bits that are set -/

theorem Registration.step_testBit {r : Registration}
    (wide : widens (.legacy r) phase (some u) = true) (bit : u.rnCapabilities.testBit i = true) :
    (capabilities (r.step verify phase (some u)).2).testBit i = true := by
  cases phase with
  | raising | rotating | enabling => grind [step, widens, capabilities]
  | arrived | inserting | comparing | rereading | checking | reenabling | advancing | answered => simpa [step, capabilities] using bit

theorem CanonicalRegistration.step_testBit {r : CanonicalRegistration}
    (wide : widens (.canonical r) phase (some u) = true) (bit : u.rnCapabilities.testBit i = true) :
    (capabilities (r.step verify phase (some u)).2).testBit i = true := by
  cases phase with
  | advancing | reenabling => grind [step, widens, capabilities, Request.rnCapabilities]
  | arrived | inserting | enabling | comparing | raising | rereading | checking | rotating | answered => simpa [step, capabilities] using bit

theorem step_testBit {w : World (registry verify)} {e : Event (registry verify)} (wide : widening w e = true)
    (bit : (capabilities w.shared).testBit i = true) : (capabilities (w.step e).shared).testBit i = true := by
  cases e with
  | arrive r => exact bit
  | outside change => exact change.elim
  | turn j =>
    cases found : w.tasks[j]? with
    | none => simpa [World.step, found] using bit
    | some l =>
      obtain ⟨row, tasks⟩ := w
      obtain ⟨request, phase⟩ := l
      cases row with
      | none => simp [capabilities] at bit
      | some u =>
        have wide : widens request phase (some u) = true := by simpa [widening, found] using wide
        cases request with
        | legacy r => simpa [World.step, found] using r.step_testBit wide bit
        | canonical r => simpa [World.step, found] using r.step_testBit wide bit

/-- While every bitmap that is written contains the stored one, a bit that is set stays set. -/
theorem capabilities_kept_of_widening (row : Option User) (before after : List (Event (registry verify)))
    (wide : AllSteps World.step (fun w e => widening w e = true) ⟨row, []⟩ (before ++ after)) (i : Nat)
    (bit : (capabilities (Base.run World.step ⟨row, []⟩ before).shared).testBit i = true) :
    (capabilities (Base.run World.step ⟨row, []⟩ (before ++ after)).shared).testBit i = true := by
  rw [run_append]
  exact run_invariant_of (I := fun w => (capabilities w.shared).testBit i = true) (fun w e bit wide => step_testBit wide bit) bit
    ((allSteps_append).1 wide).2

/-- A registration that leaves the keys alone and advertises `caps`. -/
def advertising (caps : Fin (rnCapMax + 1)) : Request :=
  .legacy ⟨⟨js "x25519", js "ed25519", js "mlkem768", none⟩, some caps, js "sig", none⟩

/-- Request `i` arrives and is served to its end. -/
def served (i : Nat) (r : Request) : List (Event (registry fun _ _ _ => true)) := .arrive r :: List.replicate 5 (.turn i)

theorem capabilities_kept_of_first_raised :
    (capabilities (Base.run World.step ⟨none, []⟩ (served 0 (advertising 1) ++ served 1 (advertising 3))).shared).testBit 0 = true :=
  capabilities_kept_of_widening none _ _ (by decide) 0 rfl

/-- A first registration with bit 0 and a second one with bit 1 alone, which is the greater number. -/
theorem raise_clears_bit :
    (capabilities (Base.run World.step ⟨none, []⟩ (served 0 (advertising 1))).shared).testBit 0 = true ∧
      (capabilities (Base.run World.step ⟨none, []⟩ (served 0 (advertising 1) ++ served 1 (advertising 2))).shared).testBit 0 = false :=
  ⟨rfl, rfl⟩

end Osl.Keyserver.Register
