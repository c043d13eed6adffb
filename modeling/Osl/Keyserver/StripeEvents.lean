import Osl.Base.Tasks
import Osl.Keyserver.Canonical

/-!
# Claims on Stripe events

`keyserver-cf/src/lib/stripe-event-claims.ts` under `handleStripeWebhook`. A claim is a
lease of a minute: a later delivery of the event takes over one that has run out, but the
holder it was taken from goes on, and neither its completion nor its release asks whose
claim it ends.
-/

namespace Osl.Keyserver.Stripe

open Base Function

def claimLeaseSeconds : Nat := 60

inductive ClaimStatus where
  | processing | completed
deriving DecidableEq

/-- A row of `stripe_event_claims`. -/
structure ClaimRow where
  eventType : JsString
  status : ClaimStatus
  claimedAt : Nat
  completedAt : Option Nat
  /-- The delivery that made the claim: no column, and read by no statement. -/
  delivery : Nat

/-- A row of `stripe_events`. -/
structure EventRow where
  eventType : JsString
  processedAt : Nat

def ClaimRow.complete (row : ClaimRow) (now : Nat) : ClaimRow :=
  match row.status with
  | .processing => { row with status := .completed, completedAt := some now }
  | .completed => row

structure Db where
  /-- `Date.now()`. -/
  clock : Nat
  events : JsString → Option EventRow
  claims : JsString → Option ClaimRow

namespace Db

def seconds (db : Db) : Nat := db.clock / 1000

def setClaim (db : Db) (id : JsString) (row : Option ClaimRow) : Db := { db with claims := update db.claims id row }

/-- The row the `UPDATE` of a takeover finds. -/
def lapsedClaim (db : Db) (id : JsString) (now : Nat) : Option ClaimRow :=
  (db.claims id).filter fun row => row.status = .processing ∧ row.claimedAt + claimLeaseSeconds ≤ now

/-- The batch of `completeStripeEvent`. -/
def complete (db : Db) (id type : JsString) (now : Nat) : Db where
  clock := db.clock
  events := update db.events id (some ((db.events id).getD ⟨type, now⟩))
  claims := update db.claims id ((db.claims id).map (·.complete now))

/-- `releaseStripeEvent`. -/
def release (db : Db) (id : JsString) : Db := db.setClaim id ((db.claims id).filter (·.status = .completed))

end Db

/-! ## The handler -/

/-- How the work on an event ends: it throws, it goes through, or it goes through and the
confirmation of its last batch is lost. -/
inductive Outcome where
  | failed | succeeded | unconfirmed
deriving DecidableEq

structure Delivery where
  eventId : JsString
  eventType : JsString
  outcome : Outcome

inductive Response where
  | received | deduped | alreadyProcessing | internalError

/-- Between which two statements a delivery is, with what it has read. -/
inductive Phase where
  | arrived
  | unprocessed
  | timed (now : Nat)
  | refused (now : Nat)
  | unfinished (now : Nat)
  | acquired (since : Nat)
  | applied (since : Nat)
  | finishing (since now : Nat)
  | unconfirmed
  | answered (response : Response)

structure Handler extends Delivery where
  number : Nat
  phase : Phase

/-- The next statement of `claimStripeEvent` and of the handler around it. The checks before the
claim touch no table, and what `applyEvent` and the metrics write is in other tables. -/
def step (h : Handler) (db : Db) : Handler × Db :=
  match h.phase with
  | .arrived => ({ h with phase := if (db.events h.eventId).isSome then .answered .deduped else .unprocessed }, db)
  | .unprocessed => ({ h with phase := .timed db.seconds }, db)
  | .timed now =>
    match db.claims h.eventId with
    | none => ({ h with phase := .acquired now }, db.setClaim h.eventId (some ⟨h.eventType, .processing, now, none, h.number⟩))
    | some _ => ({ h with phase := .refused now }, db)
  | .refused now =>
    let completed := (db.claims h.eventId).map (·.status) = some .completed
    ({ h with phase := if completed then .answered .deduped else .unfinished now }, db)
  | .unfinished now =>
    match db.lapsedClaim h.eventId now with
    | some row => ({ h with phase := .acquired now },
        db.setClaim h.eventId (some { row with eventType := h.eventType, claimedAt := now, delivery := h.number }))
    | none => ({ h with phase := .answered .alreadyProcessing }, db)
  | .acquired since => ({ h with phase := .applied since }, db)
  | .applied since =>
    if h.outcome = .failed then ({ h with phase := .answered .internalError }, db.release h.eventId)
    else ({ h with phase := .finishing since db.seconds }, db)
  | .finishing _ now =>
    ({ h with phase := if h.outcome = .succeeded then .answered .received else .unconfirmed }, db.complete h.eventId h.eventType now)
  | .unconfirmed => ({ h with phase := .answered .internalError }, db.release h.eventId)
  | .answered _ => (h, db)

/-- Nothing else changes but the clock. -/
abbrev webhook : System where
  Shared := Db
  Local := Handler
  Request := Delivery
  Outside := Nat
  start number d := { d with number, phase := .arrived }
  step := step
  outside elapsed db := { db with clock := db.clock + elapsed }

/-- A completed event has a completed claim. -/
def Db.Closed (db : Db) (id : JsString) : Prop :=
  (db.events id).isSome → ∃ row, db.claims id = some row ∧ row.status = .completed

/-- The claim in the table is the one delivery `i` made. -/
def Db.Holds (db : Db) (id : JsString) (i since : Nat) : Prop :=
  ∃ row, db.claims id = some row ∧ row.delivery = i ∧ row.claimedAt = since

/-- The assertion between two statements. -/
def At (i : Nat) (h : Handler) (db : Db) : Prop :=
  h.number = i ∧
    match h.phase with
    | .unprocessed => db.Closed h.eventId
    | .timed now | .refused now | .unfinished now => db.Closed h.eventId ∧ now ≤ db.seconds
    | .acquired since | .applied since | .finishing since _ => db.seconds < since + claimLeaseSeconds → db.Holds h.eventId i since
    | _ => True

variable {h : Handler} {i j : Nat} {db : Db}

section Statements

variable {id e type : JsString} {j now : Nat} {row : ClaimRow}

@[grind =] theorem claims_setClaim {row : Option ClaimRow} :
    (db.setClaim e row).claims id = if id = e then row else db.claims id := update_apply _ _ _ _

@[grind =] theorem claims_complete : (db.complete e type now).claims id = if id = e then (db.claims e).map (·.complete now)
    else db.claims id := update_apply _ _ _ _

@[grind =] theorem isSome_events_complete :
    ((db.complete e type now).events id).isSome = (decide (id = e) || (db.events id).isSome) := by
  by_cases same : id = e <;> simp [Db.complete, same]

end Statements

theorem At.step (at_ : At i h db) : At i (step h db).1 (step h db).2 := by
  obtain ⟨rfl, here⟩ := at_
  cases phase : h.phase with
  | arrived =>
    cases legacy : (db.events h.eventId).isSome with
    | true => simp [Stripe.step, phase, legacy, At]
    | false => simp [Stripe.step, phase, legacy, At, Db.Closed]
  | unprocessed | acquired => simpa [Stripe.step, phase, At] using here
  | timed now =>
    cases claim : db.claims h.eventId with
    | some row => simpa [Stripe.step, phase, claim, At] using here
    | none => simp [Stripe.step, phase, claim, At, Db.Holds, claims_setClaim]
  | refused now =>
    by_cases completed : (db.claims h.eventId).map (·.status) = some .completed
    · simp [Stripe.step, phase, completed, At]
    · simpa [Stripe.step, phase, completed, At] using here
  | unfinished now =>
    cases found : db.lapsedClaim h.eventId now with
    | none => simp [Stripe.step, phase, found, At]
    | some row => simp [Stripe.step, phase, found, At, Db.Holds, claims_setClaim]
  | applied since =>
    by_cases failed : h.outcome = .failed
    · simp [Stripe.step, phase, failed, At]
    · simpa [Stripe.step, phase, failed, At] using here
  | finishing since now => by_cases succeeded : h.outcome = .succeeded <;> simp [Stripe.step, phase, succeeded, At]
  | unconfirmed | answered => simp [Stripe.step, phase, At]

/-! ## Every interleaving -/

def empty : World webhook := ⟨⟨0, fun _ => none, fun _ => none⟩, []⟩

def turns (i n : Nat) : List (Event webhook) := List.replicate n (.turn i)

end Osl.Keyserver.Stripe
