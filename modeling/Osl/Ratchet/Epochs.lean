import Mathlib.Order.Interval.Finset.Nat
import Osl.Ratchet.Receiving
import Osl.Ratchet.Streams

/-!
# The two epoch ratchets together

Both sides have the epochs up to `e`; `o` owns epoch `e + 1` and `n` does not. The
exchange for epoch `e + 1` runs through four phases: nothing has been sent, `o` has
published its key, `n` has answered, and `o` has completed the epoch. When `n` hears
of that, it has the epoch too and the sides change places. `Joint` holds of any two
ratchets that only ever saw each other's fragments, lost, reordered and repeated
in any way: no such fragment is refused, and both sides store the same secrets.
-/

namespace Osl.Ratchet

open Base Std Session

namespace PqRatchet

/-- Nothing is being sent or assembled. -/
structure Resting (q : PqRatchet) : Prop where
  ownKem : q.ownKem = none
  outbox : q.outbox = none
  inbox : q.inbox = none

/-- Nothing beyond epoch `e` was answered. -/
structure Unanswered (e : Nat) (q : PqRatchet) : Prop where
  answered : ∀ k ∈ q.answered, k ≤ e
  keys : ∀ {k s}, q.secrets[k]? = some s → k ≤ e

/-- The stream `ob`, at any place. -/
def Sends (q : PqRatchet) (ob : Outbox) : Prop := ∃ c, q.outbox = some { ob with cursor := c }

structure Publishing (P : Primitives) (e : Nat) (dk : Bytes) (ob : Outbox) (q : PqRatchet) : Prop where
  pqHave : q.pqHave = e
  ownKem : q.ownKem = some (e + 1, dk)
  sends : q.Sends ob
  bounded : ob.Bounded
  kind : ob.kind = fragKindEk
  epoch : ob.epoch = e + 1
  payload : ob.payload = P.mlkem.pub dk

structure Answering (P : Primitives) (e : Nat) (dk r : Bytes) (ob : Outbox) (q : PqRatchet) : Prop where
  answered : q.answered = some (e + 1)
  secret : q.secrets[e + 1]? = some (P.mlkem.encap (P.mlkem.pub dk) r).2
  ownKem : q.ownKem = none
  inbox : q.inbox = none
  sends : q.Sends ob
  bounded : ob.Bounded
  kind : ob.kind = fragKindCt
  epoch : ob.epoch = e + 1
  payload : ob.payload = (P.mlkem.encap (P.mlkem.pub dk) r).1

/-- What is retained: all epochs not mixed yet, and nothing beyond `top`. -/
structure Retains (q : PqRatchet) (top : Nat) : Prop where
  mixed : q.mixed ≤ q.pqHave
  retained : ∀ {k}, q.mixed < k → k ≤ q.pqHave → ∃ s, q.secrets[k]? = some s
  keys : ∀ {k s}, q.secrets[k]? = some s → k = 0 ∨ q.mixed < k ∧ k ≤ top

end PqRatchet

open PqRatchet

/-- All of these fragments are of epochs up to `e`. -/
def Quiet (e : Nat) (sent : Fragment → Prop) : Prop := ∀ f, sent f → f.epoch ≤ e

/-- Those of epoch `e + 1` are cut from `ob`. -/
def CutFrom (e : Nat) (ob : Outbox) (sent : Fragment → Prop) : Prop :=
  ∀ f, sent f → f.epoch = e + 1 → ∃ idx < ob.total, f = ob.fragment idx

/-- Fragments `role` may have sent: keys of its own epochs, answers to others. -/
structure SentBy (role : Role) (f : Fragment) : Prop where
  kind : f.kind = fragKindEk ∨ f.kind = fragKindCt
  owns : role.owns f.epoch = decide (f.kind = fragKindEk)

inductive Phase (P : Primitives) (e : Nat) (o n : PqRatchet) (fo fn : Fragment → Prop) : Prop where
  | idle (oHave : o.pqHave = e) (oRest : o.Resting) (nRest : n.Resting) (nOpen : n.Unanswered e)
    (oQuiet : Quiet e fo) (nQuiet : Quiet e fn)
  | published {dk : Bytes} {ob : Outbox} (pub : o.Publishing P e dk ob) (oInbox : o.inbox = none)
    (nKem : n.ownKem = none) (nOutbox : n.outbox = none) (nInbox : n.Collecting ob) (nOpen : n.Unanswered e)
    (oCut : CutFrom e ob fo) (nQuiet : Quiet e fn)
  | answered {dk r : Bytes} {ob ob' : Outbox} (pub : o.Publishing P e dk ob) (ans : n.Answering P e dk r ob')
    (oInbox : o.Collecting ob') (nCut : CutFrom e ob' fn)
  | completed {dk r : Bytes} {ob' : Outbox} (oHave : o.pqHave = e + 1) (oRest : o.Resting)
    (ans : n.Answering P e dk r ob')

structure Joint (P : Primitives) (e : Nat) (o n : PqRatchet) (fo fn : Fragment → Prop) : Prop where
  owner : o.role.owns (e + 1) = true
  opposite : ∀ k, n.role.owns k = !o.role.owns k
  nHave : n.pqHave = e
  oPeer : o.peerHave = e
  nPeer : n.peerHave ≤ e
  oMixed : o.mixed ≤ e
  oRetains : o.Retains o.pqHave
  nRetains : n.Retains (e + 1)
  oAnswered : ∀ k ∈ o.answered, k ≤ e
  agree : ∀ {k : Nat} {s s'}, o.secrets[k]? = some s → n.secrets[k]? = some s' → s = s'
  oSent : ∀ f, fo f → f.epoch ≤ e + 1 ∧ SentBy o.role f
  nSent : ∀ f, fn f → f.epoch ≤ e + 1 ∧ SentBy n.role f
  phase : Phase P e o n fo fn

variable {P : Primitives} {e top k since m peer idx heard k' : Nat} {o o' n n' q : PqRatchet} {fo fn sent Q : Fragment → Prop} {rng : Rng}
  {ob ob₀ : Outbox} {role : Role} {out : Option Fragment} {f : Fragment} {s s' secret : Bytes}
  {header : RatchetHeader}

/-- What a phase says of `o` is about neither its secrets nor its counters. -/
theorem Phase.frameO (phase : Phase P e o n fo fn) {secrets : ExtTreeMap Nat Bytes} :
    Phase P e { o with sinceComplete := since, mixed := m, secrets } n fo fn := by
  cases phase with
  | idle oHave oRest nRest nOpen oQuiet nQuiet => exact .idle oHave { oRest with } nRest nOpen oQuiet nQuiet
  | published pub oInbox nKem nOutbox nInbox nOpen oCut nQuiet =>
    exact .published { pub with } oInbox nKem nOutbox nInbox nOpen oCut nQuiet
  | answered pub ans oInbox nCut => exact .answered { pub with } ans oInbox nCut
  | completed oHave oRest ans => exact .completed oHave { oRest with } ans

/-- Of `n` it takes the secret of epoch `e + 1`, and that there are no others beyond `e`. -/
theorem Phase.frameN (phase : Phase P e o n fo fn) {secrets : ExtTreeMap Nat Bytes}
    (lesser : ∀ {k : Nat} {s}, secrets[k]? = some s → n.secrets[k]? = some s) (last : secrets[e + 1]? = n.secrets[e + 1]?) :
    Phase P e o { n with sinceComplete := since, peerHave := peer, mixed := m, secrets } fo fn := by
  cases phase with
  | idle oHave oRest nRest nOpen oQuiet nQuiet =>
    exact .idle oHave oRest { nRest with } ⟨nOpen.answered, fun has => nOpen.keys (lesser has)⟩ oQuiet nQuiet
  | published pub oInbox nKem nOutbox nInbox nOpen oCut nQuiet =>
    exact .published pub oInbox nKem nOutbox nInbox ⟨nOpen.answered, fun has => nOpen.keys (lesser has)⟩ oCut nQuiet
  | answered pub ans oInbox nCut => exact .answered pub { ans with secret := last.trans ans.secret } oInbox nCut
  | completed oHave oRest ans => exact .completed oHave oRest { ans with secret := last.trans ans.secret }

theorem Role.owns_succ : role.owns (k + 1) = !role.owns k := by
  cases role <;> simp only [Role.owns, ← decide_not, decide_eq_decide] <;> omega

theorem Joint.oHave (j : Joint P e o n fo fn) : e ≤ o.pqHave := by
  cases j.phase with
  | idle oHave => omega
  | published pub => exact pub.pqHave.ge
  | answered pub => exact pub.pqHave.ge
  | completed oHave => omega

/-! ## Sending -/

/-- The next fragment of a stream does not depend on its place but for its index. -/
theorem Outbox.next_at (ob : Outbox) (c : Nat) :
    ∃ idx < ob.total, ∃ c', ({ ob with cursor := c } : Outbox).next = (ob.fragment idx, { ob with cursor := c' }) := by
  refine ⟨_, Nat.mod_lt _ ?_, _, rfl⟩
  unfold Outbox.total
  omega

theorem PqRatchet.Sends.next (sends : q.Sends ob) (busy : q.outbox = some ob₀) :
    ∃ idx < ob.total, ∃ c, ob₀.next = (ob.fragment idx, { ob with cursor := c }) := by
  obtain ⟨c, eq⟩ := sends
  cases busy.symm.trans eq
  exact ob.next_at c

theorem SentBy.ofStream (kind : ob.kind = fragKindEk ∨ ob.kind = fragKindCt)
    (owns : role.owns ob.epoch = decide (ob.kind = fragKindEk)) (idx : Nat) : SentBy role (ob.fragment idx) :=
  ⟨kind, owns⟩

/-- The fragments sent so far and the one sent now. -/
def Plus (sent : Fragment → Prop) (out : Option Fragment) (f : Fragment) : Prop := sent f ∨ f ∈ out

theorem plus_none : Plus sent none = sent := by
  funext f
  simp [Plus]

theorem Plus.all (old : ∀ f, sent f → Q f) (new : ∀ f ∈ out, Q f) : ∀ f, Plus sent out f → Q f := by
  rintro f (was | now)
  · exact old f was
  · exact new f now

theorem CutFrom.plus (cut : CutFrom e ob sent) (lt : idx < ob.total) :
    CutFrom e ob (Plus sent (some (ob.fragment idx))) := by
  refine Plus.all cut fun f now _ => ⟨idx, lt, ?_⟩
  simpa [eq_comm] using now

theorem Joint.sendO (ideal : P.Ideal) (j : Joint P e o n fo fn) (b : o.Bounded)
    (effect : SendEffect P o rng o' out) : Joint P e o' n (Plus fo out) fn := by
  cases effect with
  | quiet since idle =>
    rw [plus_none]
    exact { j with oRetains := { j.oRetains with }, phase := j.phase.frameO }
  | @again since ob₀ busy =>
    -- Only a published key can be going out.
    have sent : ∀ {dk ob idx}, o.Publishing P e dk ob → ∀ f ∈ some (ob.fragment idx), f.epoch ≤ e + 1 ∧ SentBy o.role f := by
      rintro dk ob idx pub f now
      cases now
      exact ⟨pub.epoch.le, .ofStream (.inl pub.kind) (by rw [pub.epoch, j.owner, pub.kind]; rfl) idx⟩
    cases j.phase with
    | idle _ oRest => cases busy.symm.trans oRest.outbox
    | published pub oInbox nKem nOutbox nInbox nOpen oCut nQuiet =>
      obtain ⟨idx, lt, c, next⟩ := pub.sends.next busy
      rw [next]
      exact { j with
        oRetains := { j.oRetains with }
        oSent := Plus.all j.oSent (sent pub)
        phase := .published { pub with sends := ⟨c, rfl⟩ } oInbox nKem nOutbox nInbox nOpen (oCut.plus lt) nQuiet }
    | answered pub ans oInbox nCut =>
      obtain ⟨idx, lt, c, next⟩ := pub.sends.next busy
      rw [next]
      exact { j with
        oRetains := { j.oRetains with }
        oSent := Plus.all j.oSent (sent pub)
        phase := .answered { pub with sends := ⟨c, rfl⟩ } ans oInbox nCut }
    | completed _ oRest => cases busy.symm.trans oRest.outbox
  | start since idle noKey owner fits =>
    cases j.phase with
    | idle oHave oRest nRest nOpen oQuiet nQuiet =>
      obtain ⟨idx, lt, c, next⟩ := (o.ekOutbox P rng.kemKey).next_at 0
      change (o.ekOutbox P rng.kemKey).next = _ at next
      rw [next]
      have pub : PqRatchet.Publishing P e rng.kemKey (o.ekOutbox P rng.kemKey)
          { o with sinceComplete := since, ownKem := some (o.pqHave + 1, rng.kemKey)
                   outbox := some { o.ekOutbox P rng.kemKey with cursor := c } } :=
        ⟨oHave, by rw [oHave], ⟨c, rfl⟩, b.ekOutbox ideal fits _, rfl, by rw [← oHave]; rfl, rfl⟩
      refine { j with oRetains := { j.oRetains with }, oSent := Plus.all j.oSent ?_, phase := ?_ }
      · rintro f now
        cases now
        exact ⟨pub.epoch.le, .ofStream (.inl rfl) (by rw [pub.epoch]; exact j.owner) idx⟩
      · refine .published pub oRest.inbox nRest.ownKem nRest.outbox ?_ nOpen ?_ nQuiet
        · simp [Collecting, nRest.inbox]
        · refine CutFrom.plus (fun f was here => ?_) lt
          have := oQuiet f was
          omega
    | published pub => cases noKey.symm.trans pub.ownKem
    | answered pub => cases noKey.symm.trans pub.ownKem
    | completed oHave =>
      -- The next epoch is the peer's.
      rw [oHave, Role.owns_succ, j.owner] at owner
      cases owner

theorem Joint.sendN (j : Joint P e o n fo fn) (effect : SendEffect P n rng n' out) :
    Joint P e o n' fo (Plus fn out) := by
  cases effect with
  | quiet since idle =>
    rw [plus_none]
    exact { j with nRetains := { j.nRetains with }, phase := j.phase.frameN id rfl }
  | @again since ob₀ busy =>
    have sent : ∀ {dk r ob idx}, n.Answering P e dk r ob → ∀ f ∈ some (ob.fragment idx), f.epoch ≤ e + 1 ∧ SentBy n.role f := by
      rintro dk r ob idx ans f now
      cases now
      exact ⟨ans.epoch.le, .ofStream (.inr ans.kind) (by rw [ans.epoch, j.opposite, j.owner, ans.kind]; rfl) idx⟩
    cases j.phase with
    | idle _ _ nRest => cases busy.symm.trans nRest.outbox
    | published _ _ _ nOutbox => cases busy.symm.trans nOutbox
    | answered pub ans oInbox nCut =>
      obtain ⟨idx, lt, c, next⟩ := ans.sends.next busy
      rw [next]
      exact { j with
        nRetains := { j.nRetains with }
        nSent := Plus.all j.nSent (sent ans)
        phase := .answered pub { ans with sends := ⟨c, rfl⟩ } oInbox (nCut.plus lt) }
    | completed oHave oRest ans =>
      obtain ⟨idx, lt, c, next⟩ := ans.sends.next busy
      rw [next]
      exact { j with
        nRetains := { j.nRetains with }
        nSent := Plus.all j.nSent (sent ans)
        phase := .completed oHave oRest { ans with sends := ⟨c, rfl⟩ } }
  | start since idle noKey owner fits =>
    rw [j.nHave, j.opposite, j.owner] at owner
    cases owner

/-! ## Announcements -/

namespace PqRatchet

variable {heard : Nat}

theorem onPeerHave_known (raised : q.peerHave < heard) (known : heard ≤ q.pqHave)
    (kept : ∀ ob ∈ q.outbox, heard < ob.epoch) : q.onPeerHave heard = { q with peerHave := heard } := by
  have outbox : (q.outbox.filter fun ob => ¬ (ob.kind = fragKindCt ∧ ob.epoch ≤ heard)) = q.outbox := by
    cases h : q.outbox with
    | none => rfl
    | some ob =>
      have := kept ob h
      simp [Option.filter, this]
  rw [onPeerHave_raised raised, outbox, if_neg (by omega), if_neg (by omega)]

/-- The epoch we answered is complete at the peer, so we have it as well. -/
theorem onPeerHave_promote (raised : q.peerHave < heard) (ahead : q.pqHave < heard)
    (has : q.secrets.contains heard = true) (out : q.outbox = some ob) (kind : ob.kind = fragKindCt)
    (epoch : ob.epoch ≤ heard) :
    q.onPeerHave heard = { q with peerHave := heard, pqHave := heard, sinceComplete := 0, outbox := none } := by
  rw [onPeerHave_raised raised, if_pos ⟨ahead, has⟩, if_pos ⟨ahead, has⟩, out]
  simp [Option.filter, kind, epoch]

theorem Sends.epoch {ob' : Outbox} (sends : q.Sends ob) (out : ob' ∈ q.outbox) : ob'.epoch = ob.epoch := by
  obtain ⟨c, eq⟩ := sends
  cases eq.symm.trans out
  rfl

end PqRatchet

/-- `n` has epoch `e + 1` as well: the sides change places. -/
structure Promoted (P : Primitives) (e : Nat) (o n n' : PqRatchet) (fo fn : Fragment → Prop) : Prop where
  done : o.pqHave = e + 1
  joint : Joint P (e + 1) n' o fn fo
  pqHave : n'.pqHave = e + 1
  oQuiet : Quiet (e + 1) fo
  nQuiet : Quiet (e + 1) fn

theorem Joint.hearN (j : Joint P e o n fo fn) (le : heard ≤ o.pqHave) :
    (Joint P e o (n.onPeerHave heard) fo fn ∧ (n.onPeerHave heard).answered = n.answered) ∨
      Promoted P e o n (n.onPeerHave heard) fo fn := by
  by_cases stale : heard ≤ n.peerHave
  · rw [onPeerHave_stale stale]
    exact .inl ⟨j, rfl⟩
  have raised : n.peerHave < heard := by omega
  by_cases known : heard ≤ e
  · left
    have kept : ∀ ob ∈ n.outbox, heard < ob.epoch := by
      intro ob out
      cases j.phase with
      | idle _ _ nRest => cases nRest.outbox.symm.trans out
      | published _ _ _ nOutbox => cases nOutbox.symm.trans out
      | answered _ ans =>
        rw [ans.sends.epoch out, ans.epoch]
        omega
      | completed _ _ ans =>
        rw [ans.sends.epoch out, ans.epoch]
        omega
    rw [onPeerHave_known raised (j.nHave ▸ known) kept]
    exact ⟨{ j with
      nPeer := known
      nRetains := { j.nRetains with }
      phase := j.phase.frameN id rfl }, rfl⟩
  · right
    have ahead : o.pqHave ≠ e := by omega
    cases j.phase with
    | idle oHave => exact absurd oHave ahead
    | published pub => exact absurd pub.pqHave ahead
    | answered pub => exact absurd pub.pqHave ahead
    | @completed dk r ob oHave oRest ans =>
      obtain rfl : heard = e + 1 := by omega
      have has : n.secrets.contains (e + 1) = true := by
        rw [ExtTreeMap.contains_eq_isSome_getElem?, ans.secret]
        rfl
      obtain ⟨c, out⟩ := ans.sends
      have ahead : n.pqHave < e + 1 := by
        have := j.nHave
        omega
      rw [onPeerHave_promote raised ahead has out ans.kind ans.epoch.le]
      have oQuiet : Quiet (e + 1) fo := fun f sent => (j.oSent f sent).1
      have nQuiet : Quiet (e + 1) fn := fun f sent => (j.nSent f sent).1
      have nMixed := j.nRetains.mixed
      have nHave := j.nHave
      have oKeys : ∀ {k s}, o.secrets[k]? = some s → k ≤ e + 1 := by
        intro k s has
        rcases j.oRetains.keys has with rfl | ⟨-, top⟩
        · omega
        · omega
      refine ⟨oHave, ?_, rfl, oQuiet, nQuiet⟩
      exact {
        owner := by
          rw [j.opposite, Role.owns_succ, j.owner]
          rfl
        opposite := fun k => by
          rw [j.opposite, Bool.not_not]
        nHave := oHave
        oPeer := rfl
        nPeer := by
          rw [j.oPeer]
          omega
        oMixed := by
          show n.mixed ≤ e + 1
          omega
        oRetains := {
          mixed := by
            show n.mixed ≤ e + 1
            omega
          retained := fun {k} above below => by
            by_cases last : k = e + 1
            · exact ⟨_, last ▸ ans.secret⟩
            · have below : k ≤ e + 1 := below
              exact j.nRetains.retained above (by omega)
          keys := j.nRetains.keys }
        nRetains := {
          mixed := j.oRetains.mixed
          retained := j.oRetains.retained
          keys := fun has => (j.oRetains.keys has).imp_right fun ⟨above, below⟩ => ⟨above, by omega⟩ }
        oAnswered := fun k mem => by
          cases ans.answered.symm.trans mem
          exact le_rfl
        agree := fun hn ho => (j.agree ho hn).symm
        oSent := fun f sent => ⟨(nQuiet f sent).trans (by omega), (j.nSent f sent).2⟩
        nSent := fun f sent => ⟨(oQuiet f sent).trans (by omega), (j.oSent f sent).2⟩
        phase := .idle rfl ⟨ans.ownKem, rfl, ans.inbox⟩ oRest
          ⟨fun k mem => (j.oAnswered k mem).trans (by omega), oKeys⟩ nQuiet oQuiet }

/-! ## Fragments -/

theorem PqRatchet.Retains.room (r : q.Retains top) (lag : top ≤ q.mixed + 3) :
    q.secrets.size < maxRetainedEpochs := by
  have inside : ∀ {k s}, q.secrets[k]? = some s → k ∈ insert 0 (Finset.Ioc q.mixed (q.mixed + 3)) := by
    intro k s has
    rcases r.keys has with rfl | ⟨above, below⟩
    · exact Finset.mem_insert_self _ _
    · exact Finset.mem_insert_of_mem (Finset.mem_Ioc.2 ⟨above, by omega⟩)
  have size := size_le_card inside
  have card := Finset.card_insert_le 0 (Finset.Ioc q.mixed (q.mixed + 3))
  rw [Nat.card_Ioc] at card
  unfold maxRetainedEpochs
  omega

theorem SentBy.fromPeer (origin : SentBy role f)
    (opposite : q.role.owns f.epoch = !role.owns f.epoch) : q.FromPeer f := by
  rcases origin.kind with kind | kind
  · exact .inl ⟨kind, by rw [opposite, origin.owns, kind]; rfl⟩
  · exact .inr ⟨kind, by rw [opposite, origin.owns, kind]; rfl⟩

theorem PqRatchet.not_fresh (old : f.epoch ≤ q.pqHave) : ¬ q.Fresh f :=
  fun fresh => absurd fresh.1 (by omega)

theorem getElem?_insert_ne {secrets : ExtTreeMap Nat Bytes} (ne : k ≠ k') :
    (secrets.insert k s)[k']? = secrets[k']? := by
  rw [ExtTreeMap.getElem?_insert, if_neg fun eq => ne (LawfulEqCmp.eq_of_compare eq)]

/-- A new secret on top. -/
theorem PqRatchet.Retains.insert_keys (r : q.Retains top) (above : q.mixed < top)
    (has : (q.secrets.insert top s)[k]? = some s') : k = 0 ∨ q.mixed < k ∧ k ≤ top := by
  by_cases here : top = k
  · subst here
    exact .inr ⟨above, le_rfl⟩
  · rw [getElem?_insert_ne here] at has
    exact r.keys has

theorem Joint.fragmentN (ideal : P.Ideal) (j : Joint P e o n fo fn) (b : n.Bounded) (lag : e ≤ n.mixed + 2)
    (sent : fo f) :
    ∃ n', n.onFragment P f rng = .ok n' ∧ Joint P e o n' fo fn ∧ n'.mixed = n.mixed ∧
      (n'.answered = n.answered ∨ f.epoch = e + 1) := by
  obtain ⟨bound, origin⟩ := j.oSent f sent
  have fromPeer : n.FromPeer f := origin.fromPeer (j.opposite _)
  have ignored : ¬ n.Fresh f → ∃ n', n.onFragment P f rng = .ok n' ∧ Joint P e o n' fo fn ∧ n'.mixed = n.mixed ∧
      (n'.answered = n.answered ∨ f.epoch = e + 1) :=
    fun old => ⟨n, onFragment_old fromPeer old, j, rfl, .inl rfl⟩
  have nHave := j.nHave
  by_cases last : f.epoch = e + 1
  swap
  · exact ignored (not_fresh (by omega))
  -- The owner of epoch `e + 1` sends its key, not an answer.
  have kind : f.kind = fragKindEk := by
    have owns := origin.owns
    rw [last, j.owner] at owns
    simpa using owns.symm
  have known : n.answered = some (e + 1) → ¬ n.Fresh f :=
    fun answered fresh => fresh.2 ⟨kind, by simp [answered, last]⟩
  cases j.phase with
  | idle _ _ _ _ oQuiet =>
    have := oQuiet f sent
    omega
  | @published dk ob pub oInbox nKem nOutbox nInbox nOpen oCut nQuiet =>
    obtain ⟨idx, lt, rfl⟩ := oCut f sent last
    have epoch := pub.epoch
    have length : ob.payload.length = mlkemEk := by rw [pub.payload, ideal.mlkem.pub_length]
    have theirs : n.role.owns ob.epoch = false := by
      rw [epoch, j.opposite, j.owner]
      rfl
    have unanswered : n.answered.any (ob.epoch ≤ ·) = false := by
      cases h : n.answered with
      | none => rfl
      | some k =>
        have := nOpen.answered k h
        simp only [Option.any_some, decide_eq_false_iff_not]
        omega
    rcases onFragment_ek (P := P) pub.bounded nInbox (j.nRetains.room (by omega)) pub.kind length theirs (by omega)
      unanswered lt rng with ⟨a, filling, eq⟩ | eq
    · refine ⟨_, eq, { j with nRetains := { j.nRetains with }, phase := ?_ }, rfl, .inl rfl⟩
      exact .published pub oInbox nKem nOutbox (by simpa [Collecting] using filling) { nOpen with } oCut nQuiet
    refine ⟨_, eq, ?_, rfl, .inr last⟩
    rw [epoch, pub.payload]
    have nMixed := j.nRetains.mixed
    have u32 : e + 1 ≤ u32Max := epoch ▸ pub.bounded.epoch
    exact { j with
      nRetains := {
        mixed := j.nRetains.mixed
        retained := fun {k} above below => by
          have below : k ≤ n.pqHave := below
          rw [getElem?_insert_ne (by omega)]
          exact j.nRetains.retained above below
        keys := fun has => j.nRetains.insert_keys (by omega) has }
      agree := fun {k s s'} ho hn => by
        by_cases here : e + 1 = k
        · -- The owner has no secret for the epoch yet.
          have := pub.pqHave
          rcases j.oRetains.keys ho with zero | ⟨-, top⟩ <;> omega
        · rw [getElem?_insert_ne here] at hn
          exact j.agree ho hn
      phase := .answered (r := rng.encaps) pub ⟨rfl, by simp, nKem, rfl, ⟨0, rfl⟩, b.ctOutbox ideal u32 _ _, rfl, rfl, rfl⟩
        (by simp [Collecting, oInbox]) (fun f sent last => absurd (nQuiet f sent) (by omega)) }
  | answered _ ans => exact ignored (known ans.answered)
  | completed _ _ ans => exact ignored (known ans.answered)

theorem Joint.fragmentO (ideal : P.Ideal) (j : Joint P e o n fo fn) (lag : e ≤ o.mixed + 2) (sent : fn f) :
    ∃ o', o.onFragment P f rng = .ok o' ∧ Joint P e o' n fo fn ∧ o'.mixed = o.mixed ∧
      (o'.pqHave = o.pqHave ∨ f.epoch = e + 1) := by
  obtain ⟨bound, origin⟩ := j.nSent f sent
  have fromPeer : o.FromPeer f := origin.fromPeer (by rw [j.opposite, Bool.not_not])
  have ignored : f.epoch ≤ o.pqHave → ∃ o', o.onFragment P f rng = .ok o' ∧ Joint P e o' n fo fn ∧ o'.mixed = o.mixed ∧
      (o'.pqHave = o.pqHave ∨ f.epoch = e + 1) :=
    fun old => ⟨o, onFragment_old fromPeer (not_fresh old), j, rfl, .inl rfl⟩
  by_cases last : f.epoch = e + 1
  swap
  · have := j.oHave
    exact ignored (by omega)
  cases j.phase with
  | idle _ _ _ _ _ nQuiet =>
    have := nQuiet f sent
    omega
  | published _ _ _ _ _ _ _ nQuiet =>
    have := nQuiet f sent
    omega
  | @answered dk r ob ob' pub ans oInbox nCut =>
    obtain ⟨idx, lt, rfl⟩ := nCut f sent last
    have epoch := ans.epoch
    have oHave := pub.pqHave
    have length : ob'.payload.length = mlkemCt := by rw [ans.payload, ideal.mlkem.ct_length]
    have ours : o.role.owns ob'.epoch = true := by rw [epoch, j.owner]
    rcases onFragment_ct (P := P) ans.bounded oInbox (j.oRetains.room (by omega)) ans.kind length ours (by omega)
      (by rw [pub.ownKem, epoch]) lt rng with ⟨a, filling, eq⟩ | eq
    · refine ⟨_, eq, { j with oRetains := { j.oRetains with }, phase := ?_ }, rfl, .inl rfl⟩
      exact .answered { pub with } ans (by simpa [Collecting] using filling) nCut
    refine ⟨_, eq, ?_, rfl, .inr last⟩
    rw [epoch, ans.payload, ideal.mlkem.correct]
    have oMixed := j.oMixed
    exact { j with
      oRetains := {
        mixed := by
          show o.mixed ≤ e + 1
          omega
        retained := fun {k} above below => by
          have below : k ≤ e + 1 := below
          by_cases here : e + 1 = k
          · subst here
            exact ⟨_, ExtTreeMap.getElem?_insert_self⟩
          · rw [getElem?_insert_ne here]
            exact j.oRetains.retained above (by omega)
        keys := fun {k s} has => by
          show k = 0 ∨ o.mixed < k ∧ k ≤ e + 1
          by_cases here : e + 1 = k
          · exact .inr ⟨by omega, by omega⟩
          · have has : (o.secrets.insert (e + 1) _)[k]? = some s := has
            rw [getElem?_insert_ne here] at has
            exact (j.oRetains.keys has).imp_right fun ⟨above, below⟩ => ⟨above, by omega⟩ }
      agree := fun {k s s'} ho hn => by
        by_cases here : e + 1 = k
        · subst here
          rw [ExtTreeMap.getElem?_insert_self] at ho
          cases ho
          cases ans.secret.symm.trans hn
          rfl
        · have ho : (o.secrets.insert (e + 1) _)[k]? = some s := ho
          rw [getElem?_insert_ne here] at ho
          exact j.agree ho hn
      phase := .completed rfl ⟨rfl, rfl, rfl⟩ ans }
  | completed oHave => exact ignored (by omega)

/-! ## What a header says -/

namespace PqRatchet

variable {q' : PqRatchet}

theorem FragmentEffect.secrets (h : FragmentEffect P q f rng q') (known : k ≤ q.pqHave) :
    q'.secrets[k]? = q.secrets[k]? := by
  cases h with
  | ignored | stored | dropped => rfl
  | answered fresh => exact getElem?_insert_ne (by have := fresh.1; omega)
  | completed fresh => exact getElem?_insert_ne (by have := fresh.1; omega)

theorem FragmentEffect.mixed (h : FragmentEffect P q f rng q') : q'.mixed = q.mixed := by
  cases h <;> rfl

theorem onPeerHave_mixed (heard : Nat) : (q.onPeerHave heard).mixed = q.mixed := by
  by_cases stale : heard ≤ q.peerHave
  · rw [onPeerHave_stale stale]
  · rw [onPeerHave_raised (by omega)]

theorem onPeerHave_secrets {heard : Nat} : (q.onPeerHave heard).secrets = q.secrets := by
  by_cases stale : heard ≤ q.peerHave
  · rw [onPeerHave_stale stale]
  · rw [onPeerHave_raised (by omega)]

end PqRatchet

theorem Joint.absorbN (ideal : P.Ideal) (j : Joint P e o n fo fn) (b : n.Bounded) (lag : e ≤ n.mixed + 2)
    (valid : header.Valid) (heard : header.pqHave ≤ o.pqHave) (sent : ∀ f ∈ header.fragment, fo f) :
    ∃ n', absorbPq P n header rng = .ok n' ∧ n'.mixed = n.mixed ∧
      (Joint P e o n' fo fn ∧ (n'.answered = n.answered ∨ ∃ f ∈ header.fragment, f.epoch = e + 1) ∨
        Promoted P e o n n' fo fn) := by
  have mixed := onPeerHave_mixed (q := n) header.pqHave
  have role : (n.onPeerHave header.pqHave).role = n.role := by
    by_cases stale : header.pqHave ≤ n.peerHave
    · rw [onPeerHave_stale stale]
    · rw [onPeerHave_raised (by omega)]
  unfold absorbPq
  rcases j.hearN heard with ⟨j', answered⟩ | promoted
  · cases frag : header.fragment with
    | none => exact ⟨_, rfl, mixed, .inl ⟨j', .inl answered⟩⟩
    | some f =>
      obtain ⟨n', eq, j'', mixed', answered'⟩ :=
        j'.fragmentN ideal (b.onPeerHave valid.pqHave) (by omega) (sent f frag)
      refine ⟨n', eq, mixed'.trans mixed, .inl ⟨j'', ?_⟩⟩
      rcases answered' with same | last
      · exact .inl (same.trans answered)
      · exact .inr ⟨f, rfl, last⟩
  · cases frag : header.fragment with
    | none => exact ⟨_, rfl, mixed, .inr promoted⟩
    | some f =>
      have fromPeer : (n.onPeerHave header.pqHave).FromPeer f :=
        (j.oSent f (sent f frag)).2.fromPeer (by rw [role, j.opposite])
      refine ⟨_, onFragment_old fromPeer (not_fresh ?_), mixed, .inr promoted⟩
      rw [promoted.pqHave]
      exact promoted.oQuiet f (sent f frag)

theorem Joint.absorbO (ideal : P.Ideal) (j : Joint P e o n fo fn) (lag : e ≤ o.mixed + 2)
    (heard : header.pqHave ≤ n.pqHave) (sent : ∀ f ∈ header.fragment, fn f) :
    ∃ o', absorbPq P o header rng = .ok o' ∧ o'.mixed = o.mixed ∧ Joint P e o' n fo fn ∧
      (o'.pqHave = o.pqHave ∨ ∃ f ∈ header.fragment, f.epoch = e + 1) := by
  unfold absorbPq
  rw [onPeerHave_stale (by rw [j.oPeer, ← j.nHave]; exact heard)]
  cases frag : header.fragment with
  | none => exact ⟨o, rfl, rfl, j, .inl rfl⟩
  | some f =>
    obtain ⟨o', eq, j', mixed, same | last⟩ := j.fragmentO ideal lag (sent f frag)
    · exact ⟨o', eq, mixed, j', .inl same⟩
    · exact ⟨o', eq, mixed, j', .inr ⟨f, rfl, last⟩⟩

/-! ## Mixing -/

theorem mapM_ok {α β : Type} {f : α → Result β} {l : List α} (all : ∀ a ∈ l, ∃ b, f a = .ok b) :
    ∃ out, l.mapM f = .ok out := by
  induction l with
  | nil => exact ⟨[], rfl⟩
  | cons a l ih =>
    obtain ⟨b, eq⟩ := all a (by simp)
    obtain ⟨out, rest⟩ := ih fun a mem => all a (List.mem_cons_of_mem _ mem)
    rw [List.mapM_cons, eq]
    simp only [bind, Except.bind, rest]
    exact ⟨_, rfl⟩

theorem mapM_congr {α β : Type} {f g : α → Result β} {l : List α} (all : ∀ a ∈ l, f a = g a) : l.mapM f = l.mapM g := by
  induction l with
  | nil => rfl
  | cons a l ih =>
    rw [List.mapM_cons, List.mapM_cons, all a (by simp), ih fun a mem => all a (List.mem_cons_of_mem _ mem)]

namespace PqRatchet

variable {q' : PqRatchet} {mix : Nat}

/-- All secrets of a mix are there. -/
theorem Retains.peek (r : q.Retains top) (known : mix ≤ q.pqHave) : ∃ out, q.peekMix mix = .ok out := by
  unfold peekMix
  split
  · exact ⟨[], rfl⟩
  · refine mapM_ok fun k mem => ?_
    have range := List.mem_range'_1.1 mem
    obtain ⟨s, has⟩ := r.retained (by omega : q.mixed < k) (by omega)
    simp only [has]
    exact ⟨s, rfl⟩

/-- Equal secrets in the range of a mix give equal mixes. -/
theorem peekMix_congr (mixed : q.mixed = q'.mixed)
    (same : ∀ k, q.mixed < k → k ≤ mix → q.secrets[k]? = q'.secrets[k]?) : q.peekMix mix = q'.peekMix mix := by
  unfold peekMix mixSecrets
  rw [← mixed]
  split
  · rfl
  · refine mapM_congr fun k mem => ?_
    have range := List.mem_range'_1.1 mem
    rw [same k (by omega) (by omega)]

theorem commitMix_lesser (has : (q.commitMix mix).secrets[k]? = some s) : q.secrets[k]? = some s := by
  rw [commitMix_secrets] at has
  split at has
  · cases has
  · exact has

theorem Retains.commitMix (r : q.Retains top) (known : mix ≤ q.pqHave) : (q.commitMix mix).Retains top := by
  have mixed := commitMix_mixed (q := q) mix
  have pqHave : (q.commitMix mix).pqHave = q.pqHave := by
    obtain ⟨_, _, eq⟩ := commitMix_frame (q := q) mix
    rw [eq]
  have old := r.mixed
  refine ⟨by omega, ?_, ?_⟩
  · intro k above below
    rw [commitMix_secrets, if_neg (by omega)]
    exact r.retained (by omega) (by omega)
  · intro k s has
    have kept := has
    rw [commitMix_secrets] at kept
    split at kept
    · cases kept
    · rename_i not
      rcases r.keys kept with zero | ⟨above, below⟩
      · exact .inl zero
      · exact .inr ⟨by omega, below⟩

end PqRatchet

section

variable (j : Joint P e o n fo fn) {mix : Nat}
include j

theorem Joint.mixO (known : mix ≤ e) : Joint P e (o.commitMix mix) n fo fn := by
  have mixed := commitMix_mixed (q := o) mix
  have retains := j.oRetains.commitMix (known.trans j.oHave)
  have lesser : ∀ {k s}, (o.commitMix mix).secrets[k]? = some s → o.secrets[k]? = some s := commitMix_lesser
  obtain ⟨m, secrets, eq⟩ := commitMix_frame (q := o) mix
  rw [eq] at mixed retains lesser ⊢
  have oMixed := j.oMixed
  refine { j with
    oMixed := ?_
    oRetains := retains
    agree := fun ho hn => j.agree (lesser ho) hn
    phase := j.phase.frameO }
  omega

theorem Joint.mixN (known : mix ≤ e) : Joint P e o (n.commitMix mix) fo fn := by
  have retains := j.nRetains.commitMix (known.trans j.nHave.ge)
  have lesser : ∀ {k s}, (n.commitMix mix).secrets[k]? = some s → n.secrets[k]? = some s := commitMix_lesser
  have last : (n.commitMix mix).secrets[e + 1]? = n.secrets[e + 1]? := by
    rw [commitMix_secrets, if_neg (by omega)]
  obtain ⟨m, secrets, eq⟩ := commitMix_frame (q := n) mix
  rw [eq] at retains lesser last ⊢
  exact { j with
    nRetains := retains
    agree := fun ho hn => j.agree ho (lesser hn)
    phase := j.phase.frameN lesser last }

/-- With the same epochs mixed so far, both sides find the same secrets for a mix. -/
theorem Joint.peek_eq (mixed : o.mixed = n.mixed) (known : mix ≤ e) : o.peekMix mix = n.peekMix mix := by
  refine peekMix_congr mixed fun k above below => ?_
  have oHave := j.oHave
  have nHave := j.nHave
  obtain ⟨s, ho⟩ := j.oRetains.retained above (by omega)
  obtain ⟨s', hn⟩ := j.nRetains.retained (mixed ▸ above) (by omega)
  rw [ho, hn, j.agree ho hn]

/-! ## Frames -/

/-- Lost fragments are no harm. -/
theorem Joint.fewer {fo' fn' : Fragment → Prop} (subO : ∀ f, fo' f → fo f)
    (subN : ∀ f, fn' f → fn f) : Joint P e o n fo' fn' := by
  refine { j with oSent := fun f sent => j.oSent f (subO f sent), nSent := fun f sent => j.nSent f (subN f sent), phase := ?_ }
  cases j.phase with
  | idle oHave oRest nRest nOpen oQuiet nQuiet =>
    exact .idle oHave oRest nRest nOpen (fun f sent => oQuiet f (subO f sent)) fun f sent => nQuiet f (subN f sent)
  | published pub oInbox nKem nOutbox nInbox nOpen oCut nQuiet =>
    exact .published pub oInbox nKem nOutbox nInbox nOpen (fun f sent => oCut f (subO f sent))
      fun f sent => nQuiet f (subN f sent)
  | answered pub ans oInbox nCut => exact .answered pub ans oInbox fun f sent => nCut f (subN f sent)
  | completed oHave oRest ans => exact .completed oHave oRest ans

/-- `n` sends fragments of epoch `e + 1` only after it has answered. -/
theorem Joint.nAnswered (sent : fn f) (last : f.epoch = e + 1) : n.answered = some (e + 1) := by
  cases j.phase with
  | idle _ _ _ _ _ nQuiet => exact absurd (nQuiet f sent) (by omega)
  | published _ _ _ _ _ _ _ nQuiet => exact absurd (nQuiet f sent) (by omega)
  | answered _ ans => exact ans.answered
  | completed _ _ ans => exact ans.answered

end

theorem fresh_keys {p : PqParams} (has : (PqRatchet.fresh role p secret).secrets[k]? = some s) : k = 0 := by
  by_contra other
  simp [PqRatchet.fresh, getElem?_insert_ne (Ne.symm other)] at has

theorem Joint.fresh {p p' : PqParams} :
    Joint P 0 (.fresh .initiator p secret) (.fresh .responder p' secret) (fun _ => False) (fun _ => False) where
  owner := rfl
  opposite k := by
    simp only [PqRatchet.fresh, Role.owns, ← decide_not, decide_eq_decide]
    omega
  nHave := rfl
  oPeer := rfl
  nPeer := le_rfl
  oMixed := le_rfl
  oRetains := ⟨le_rfl, fun above below => absurd (above.trans_le below) (lt_irrefl _), fun has => .inl (fresh_keys has)⟩
  nRetains := ⟨le_rfl, fun above below => absurd (above.trans_le below) (lt_irrefl _), fun has => .inl (fresh_keys has)⟩
  oAnswered _ mem := by cases mem
  agree ho hn := by
    cases ho.symm.trans hn
    rfl
  oSent _ sent := sent.elim
  nSent _ sent := sent.elim
  phase := .idle rfl ⟨rfl, rfl, rfl⟩ ⟨rfl, rfl, rfl⟩
    ⟨fun _ mem => (by cases mem), fun has => (fresh_keys has).le⟩ (fun _ sent => sent.elim) (fun _ sent => sent.elim)

/-- A header never changes a secret we have, mixes nothing and only raises counters. -/
theorem absorbPq_frame {q q' : PqRatchet} (h : absorbPq P q header rng = .ok q') :
    PqRatchet.Grows q q' ∧ q'.mixed = q.mixed ∧ ∀ k ≤ q.pqHave, q'.secrets[k]? = q.secrets[k]? := by
  have heard := onPeerHave_grows (q := q) header.pqHave
  unfold absorbPq at h
  cases frag : header.fragment with
  | none =>
    rw [frag] at h
    cases h
    exact ⟨heard, onPeerHave_mixed _, fun k _ => by rw [onPeerHave_secrets]⟩
  | some f =>
    rw [frag] at h
    have effect := (onFragment_effect h).1
    refine ⟨heard.trans effect.grows, effect.mixed.trans (onPeerHave_mixed _), fun k known => ?_⟩
    rw [effect.secrets (known.trans heard.pqHave), onPeerHave_secrets]

end Osl.Ratchet
