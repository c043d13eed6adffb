import Osl.Base.Run
import Osl.SenderKeys.Receiving

/-!
# A sender and a receiver

The sender encrypts and rotates; its messages reach the receiver in any order, any
number of times or never, and so do the distributions of its chains. Beside the two
chains the state records what was sent and accepted, the keys that left the cache
unused, and how far the receiver has got on each chain. `Sound` says what holds in
every run: a slot the receiver has passed is accepted, cached or lost.
-/

namespace Osl.SenderKeys

open Base Crypto Function SkippedKeyCache SkippedKey

structure Accepted where
  position : Position
  plaintext : Bytes

structure System where
  sender : SenderChain
  receiver : ReceiverChain
  /-- The rotation root each chain's distribution message carries. -/
  roots : Nat → Option Bytes
  sent : List Sent
  delivered : List Nat
  accepted : List Accepted
  lost : List Position
  furthest : Nat → Nat

inductive Action where
  | send (plaintext : Bytes) (nonces : MessageNonces)
  | rotate (root : Bytes) (now : Nat)
  /-- The `i`-th message reaches the receiver. -/
  | deliver (i now : Nat)
  /-- The distribution message of a chain reaches the receiver. -/
  | applySkdm (chainId : Nat)

section

variable (P : Primitives) (ctx : SenderContext)

/-- A chain nothing has been sent on, as `new` and `rotate` make it. -/
structure SenderChain.Fresh (s : SenderChain) : Prop where
  chain : s.ck = deriveCk0 P s.rotationRoot s.chainId
  n : s.n = 0
  chainId : s.chainId ≤ u32Max
  prevChainLength : s.prevChainLength ≤ u32Max

namespace System

/-- The receiver has installed the sender's chain. -/
def start (s : SenderChain) : System where
  sender := s
  receiver := ReceiverChain.install P s.chainId s.rotationRoot s.physicalDeviceId
  roots := update (fun _ => none) s.chainId (some s.rotationRoot)
  sent := []
  delivered := []
  accepted := []
  lost := []
  furthest := fun _ => 0

def send (sys : System) (plaintext : Bytes) (nonces : MessageNonces) : System :=
  match sys.sender.encrypt P plaintext ctx nonces with
  | (sender, .ok wire) =>
    { sys with sender, sent := sys.sent ++ [⟨(sys.sender.chainId, sys.sender.n), wire, plaintext⟩] }
  | (sender, .error _) => { sys with sender }

def rotate (sys : System) (root : Bytes) (now : Nat) : System :=
  match sys.sender.rotate P root now with
  | .ok sender => { sys with sender, roots := update sys.roots sender.chainId (some root) }
  | .error _ => sys

def receive (sys : System) (i : Nat) (m : Sent) (d : Decrypted) : System :=
  { sys with
    receiver := d.receiver
    delivered := sys.delivered ++ [i]
    accepted := sys.accepted ++ (d.result.toOption.map fun plaintext => ⟨m.position, plaintext⟩).toList
    lost := sys.lost ++ d.dropped.map position
    furthest := update sys.furthest d.receiver.chainId (max (sys.furthest d.receiver.chainId) d.receiver.n) }

def deliver (sys : System) (i now : Nat) : System :=
  match sys.sent[i]? with
  | none => sys
  | some m => sys.receive i m (sys.receiver.decryptAt P m.wire ctx now)

/-- `apply_skdm_recv` for a peer's device that has a receiver chain. -/
def applySkdm (sys : System) (chainId : Nat) : System :=
  match sys.roots chainId with
  | none => sys
  | some root => { sys with receiver := sys.receiver.rotateTo P chainId root }

def step (sys : System) : Action → System
  | .send plaintext nonces => sys.send P ctx plaintext nonces
  | .rotate root now => sys.rotate P root now
  | .deliver i now => sys.deliver P ctx i now
  | .applySkdm chainId => sys.applySkdm P chainId

end System

end

variable {P : Primitives} {ctx : SenderContext} {sys : System} {device : PhysicalDeviceId} {root : Bytes}
  {r : ReceiverChain} {s : SenderChain} {f : Nat → Nat} {p : Position} {c v k n : Nat}

theorem SenderChain.new_fresh (device : PhysicalDeviceId) (root : Bytes) (now : Nat) : (new P device root now).Fresh P :=
  ⟨rfl, rfl, Nat.zero_le _, Nat.zero_le _⟩

/-! ## What holds in every run -/

structure SenderSound (P : Primitives) (roots : Nat → Option Bytes) (s : SenderChain) : Prop where
  known : roots s.chainId = some s.rotationRoot
  chain : s.n < u32Max → s.ck = ckAt P s.rotationRoot s.chainId s.n
  n : s.n ≤ u32Max
  chainId : s.chainId ≤ u32Max
  prevChainLength : s.prevChainLength ≤ u32Max
  newest : ∀ {c root}, roots c = some root → c ≤ s.chainId

structure Sound (P : Primitives) (ctx : SenderContext) (device : PhysicalDeviceId) (sys : System) : Prop where
  sender : SenderSound P sys.roots sys.sender
  bound : sys.sender.physicalDeviceId = device
  sent : ∀ m ∈ sys.sent, ∃ root header, m.Genuine P ctx device sys.roots root header
  receiver : ∃ root, sys.receiver.Keyed P device sys.roots root
  reached : sys.receiver.n ≤ sys.furthest sys.receiver.chainId
  stored : ∀ e ∈ sys.receiver.skipped, e.n < sys.furthest e.chainId
  settled : ∀ c n, n < sys.furthest c →
    (∃ a ∈ sys.accepted, a.position = (c, n)) ∨ sys.receiver.Caches (c, n) ∨ (c, n) ∈ sys.lost
  accepted : ∀ a ∈ sys.accepted, ∃ m ∈ sys.sent, m.position = a.position ∧ m.plaintext = a.plaintext

theorem Sent.Genuine.mono {roots roots' : Nat → Option Bytes} {m : Sent} {header : Header}
    (genuine : m.Genuine P ctx device roots root header)
    (more : ∀ {c root}, roots c = some root → roots' c = some root) : m.Genuine P ctx device roots' root header :=
  { genuine with known := more genuine.known }

theorem ReceiverChain.Keyed.mono {roots roots' : Nat → Option Bytes}
    (keyed : r.Keyed P device roots root) (more : ∀ {c root}, roots c = some root → roots' c = some root) :
    r.Keyed P device roots' root := by
  refine { keyed with known := more keyed.known, cache := fun e mem => ?_ }
  obtain ⟨small, root', known, keys⟩ := keyed.cache e mem
  exact ⟨small, root', more known, keys⟩

theorem System.start_roots :
    (System.start P s).roots c = some root ↔ c = s.chainId ∧ root = s.rotationRoot := by
  show update (fun _ => none) s.chainId (some s.rotationRoot) c = some root ↔ _
  by_cases here : c = s.chainId
  · rw [here, update_self, Option.some.injEq, eq_comm]
    exact ⟨fun same => ⟨rfl, same⟩, fun same => same.2⟩
  · rw [update_of_ne here]
    exact ⟨fun none => (by cases none), fun same => absurd same.1 here⟩

theorem Sound.start (fresh : s.Fresh P) : Sound P ctx s.physicalDeviceId (.start P s) where
  sender := {
    known := System.start_roots.2 ⟨rfl, rfl⟩
    chain := fun _ => by
      show s.ck = ckAt P s.rotationRoot s.chainId s.n
      rw [fresh.chain, fresh.n]
      rfl
    n := fresh.n ▸ Nat.zero_le _
    chainId := fresh.chainId
    prevChainLength := fresh.prevChainLength
    newest := fun known => (System.start_roots.1 known).1.le }
  bound := rfl
  sent m mem := by cases mem
  receiver := ⟨s.rotationRoot, rfl, System.start_roots.2 ⟨rfl, rfl⟩, fresh.chainId, rfl, fun e mem => by cases mem⟩
  reached := Nat.le_refl 0
  stored e mem := by cases mem
  settled c n below := absurd below (Nat.not_lt_zero n)
  accepted a mem := by cases mem

section
variable (sound : Sound P ctx device sys)
include sound

theorem Sound.send (plaintext : Bytes) (nonces : MessageNonces) :
    Sound P ctx device (sys.send P ctx plaintext nonces) := by
  have of_sender := sound.sender
  unfold System.send SenderChain.encrypt
  split
  case h_1 sender wire outcome =>
    split at outcome
    case isTrue => cases outcome
    rename_i more
    cases outcome
    have below : sys.sender.n < u32Max := Nat.lt_of_le_of_ne of_sender.n more
    refine { sound with
      sender := { of_sender with chain := fun _ => ?_, n := below }
      sent := fun m mem => ?_
      accepted := fun a mem => ?_ }
    · show advance P sys.sender.ck = _
      rw [of_sender.chain below]
      rfl
    · rcases List.mem_append.1 mem with old | new
      · exact sound.sent m old
      · cases List.mem_singleton.1 new
        refine ⟨sys.sender.rotationRoot, sys.sender.nextHeader ctx, of_sender.known, sound.bound, rfl, rfl, rfl, ?_, below,
          nonces, ?_⟩
        · exact ⟨of_sender.chainId, of_sender.n, of_sender.prevChainLength, ctx.version_le⟩
        · rw [of_sender.chain below]
    · obtain ⟨m, old, same⟩ := sound.accepted a mem
      exact ⟨m, List.mem_append_left _ old, same⟩
  case h_2 sender e outcome =>
    split at outcome
    case isFalse => cases outcome
    case isTrue last =>
      cases outcome
      exact { sound with sender := { of_sender with chain := fun below => absurd last (Nat.ne_of_lt below) } }

theorem Sound.rotate (root : Bytes) (now : Nat) : Sound P ctx device (sys.rotate P root now) := by
  have of_sender := sound.sender
  unfold System.rotate SenderChain.rotate
  split
  case h_2 => exact sound
  rename_i sender outcome
  split at outcome
  case isTrue => cases outcome
  rename_i more
  cases outcome
  have more' : ∀ {c root'}, sys.roots c = some root' →
      update sys.roots (sys.sender.chainId + 1) (some root) c = some root' := by
    intro c root' known
    have old := of_sender.newest known
    rwa [update_of_ne (by omega)]
  obtain ⟨root', keyed⟩ := sound.receiver
  refine { sound with
    sender := {
      known := update_self ..
      chain := fun _ => rfl
      n := Nat.zero_le _
      chainId := Nat.lt_of_le_of_ne of_sender.chainId more
      prevChainLength := of_sender.n
      newest := ?_ }
    sent := fun m mem => ?_
    receiver := ⟨root', keyed.mono more'⟩ }
  · intro c root'' known
    by_cases here : c = sys.sender.chainId + 1
    · exact here.le
    · have old : sys.roots c = some root'' := (update_of_ne here ..).symm.trans known
      exact Nat.le_succ_of_le (of_sender.newest old)
  · obtain ⟨root'', header, genuine⟩ := sound.sent m mem
    exact ⟨root'', header, genuine.mono more'⟩

theorem Sound.applySkdm (chainId : Nat) : Sound P ctx device (sys.applySkdm P chainId) := by
  unfold System.applySkdm
  split
  case h_1 => exact sound
  case h_2 root known =>
    obtain ⟨root', keyed⟩ := sound.receiver
    refine { sound with receiver := ⟨root, ?_⟩, reached := Nat.zero_le _ }
    exact ⟨keyed.device, known, (sound.sender.newest known).trans sound.sender.chainId, rfl, keyed.cache⟩

end

/-! ### Receiving -/

theorem le_raised : f k ≤ update f c (max (f c) v) k := by
  by_cases here : k = c
  · subst here
    rw [update_self]
    exact Nat.le_max_left ..
  · rw [update_of_ne here]

theorem raised_eq (le : v ≤ f c) : update f c (max (f c) v) = f := by
  rw [Nat.max_eq_left le, update_eq_self]

/-- What was cached has expired or is still there. -/
theorem Sound.settled_swept (sound : Sound P ctx device sys) {now : Nat} (below : n < sys.furthest c) :
    (∃ a ∈ sys.accepted, a.position = (c, n)) ∨ (sys.receiver.swept now).Caches (c, n) ∨
      (c, n) ∈ sys.lost ++ (expired now sys.receiver.skipped).map position := by
  rcases sound.settled c n below with taken | ⟨e, mem, here⟩ | gone
  · exact .inl taken
  · rcases mem_sweepExpired.1 mem with stale | fresh
    · exact .inr (.inr (List.mem_append_right _ (List.mem_map.2 ⟨e, stale, here⟩)))
    · exact .inr (.inl ⟨e, fresh, here⟩)
  · exact .inr (.inr (List.mem_append_left _ gone))

/-- The key of the slot has been used, or has left the cache unused by `now`. -/
def System.Gone (sys : System) (now : Nat) (p : Position) : Prop :=
  (∃ a ∈ sys.accepted, a.position = p) ∨
    p ∈ sys.lost ++ (expired now sys.receiver.skipped).map position

/-- A slot that was passed and whose key is not gone is cached. -/
theorem Sound.caches (sound : Sound P ctx device sys) {now : Nat} (there : ¬sys.Gone now p)
    (below : p.2 < sys.furthest p.1) : (sys.receiver.swept now).Caches p := by
  rcases sound.settled_swept below with taken | held | gone
  · exact absurd (.inl taken) there
  · exact held
  · exact absurd (.inr gone) there

theorem ReceiverChain.mem_swept {now : Nat} {e : SkippedKey} (mem : e ∈ (r.swept now).skipped) : e ∈ r.skipped :=
  (List.mem_filter.1 mem).1

section

variable (sound : Sound P ctx device sys) {m : Sent}
include sound

theorem Sound.accepts (mem : m ∈ sys.sent) {a : Accepted} (there : a ∈ sys.accepted ++ [⟨m.position, m.plaintext⟩]) :
    ∃ m ∈ sys.sent, m.position = a.position ∧ m.plaintext = a.plaintext := by
  rcases List.mem_append.1 there with old | new
  · exact sound.accepted a old
  · cases List.mem_singleton.1 new
    exact ⟨m, mem, rfl, rfl⟩

theorem Sound.refused (i now : Nat) (m : Sent) (e : Error) :
    Sound P ctx device (sys.receive i m (sys.receiver.rejected now e)) := by
  have same := raised_eq sound.reached
  obtain ⟨root, keyed⟩ := sound.receiver
  refine { sound with
    receiver := ⟨root, keyed.swept now⟩
    reached := sound.reached.trans (le_raised ..)
    stored := fun e mem => Nat.lt_of_lt_of_le (sound.stored e (ReceiverChain.mem_swept mem)) (le_raised ..)
    settled := ?_
    accepted := fun a mem => ?_ }
  · intro c n below
    have below : n < sys.furthest c := by
      rw [← same]
      exact below
    rcases sound.settled_swept below with ⟨a, mem, here⟩ | held | gone
    · exact .inl ⟨a, List.mem_append_left _ mem, here⟩
    · exact .inr (.inl held)
    · exact .inr (.inr gone)
  · exact sound.accepted a (by simpa [System.receive, ReceiverChain.rejected, Except.toOption] using mem)

theorem Sound.cached (i now : Nat) (mem : m ∈ sys.sent) :
    Sound P ctx device (sys.receive i m (sys.receiver.taken m now)) := by
  have same := raised_eq sound.reached
  have older : ∀ {e}, e ∈ without m.position (sys.receiver.swept now).skipped → e ∈ sys.receiver.skipped :=
    fun mem => ReceiverChain.mem_swept (List.mem_of_mem_eraseP mem)
  obtain ⟨root, keyed⟩ := sound.receiver
  refine { sound with
    receiver := ⟨root, { keyed with cache := fun e mem => keyed.cache e (older mem) }⟩
    reached := sound.reached.trans (le_raised ..)
    stored := fun e mem => Nat.lt_of_lt_of_le (sound.stored e (older mem)) (le_raised ..)
    settled := ?_
    accepted := fun a there => sound.accepts mem there }
  intro c n below
  have below : n < sys.furthest c := by
    rw [← same]
    exact below
  rcases sound.settled_swept below with ⟨a, mem, here⟩ | ⟨e, mem, here⟩ | gone
  · exact .inl ⟨a, List.mem_append_left _ mem, here⟩
  · by_cases own : e.position = m.position
    · exact .inl ⟨⟨m.position, m.plaintext⟩, List.mem_append_right _ (List.mem_singleton_self _), own.symm.trans here⟩
    · refine .inr (.inl ⟨e, ?_, here⟩)
      exact (List.mem_eraseP_of_neg (by simpa using own)).2 mem
  · exact .inr (.inr gone)

theorem Sound.ahead (i now : Nat) (mem : m ∈ sys.sent)
    (keyed : sys.receiver.Keyed P device sys.roots root) (ahead : sys.receiver.Ahead m.position) :
    Sound P ctx device (sys.receive i m (sys.receiver.reached P root m now)) := by
  obtain ⟨chain, low, _⟩ := ahead
  -- Every entry of the new cache is an old one or of a slot just passed.
  have origin : ∀ {e}, e ∈ ((sys.receiver.swept now).advanced P root m.position.2 now).skipped →
      e ∈ sys.receiver.skipped ∨ e ∈ passed P root sys.receiver.chainId now sys.receiver.n (m.position.2 - sys.receiver.n) :=
    fun mem => (mem_insertAll.1 (.inr mem)).imp ReceiverChain.mem_swept id
  have top : update sys.furthest sys.receiver.chainId
      (max (sys.furthest sys.receiver.chainId) (m.position.2 + 1)) sys.receiver.chainId =
      max (sys.furthest sys.receiver.chainId) (m.position.2 + 1) := update_self ..
  refine { sound with
    receiver := ⟨root, keyed.device, keyed.known, keyed.small, rfl, fun e mem => ?_⟩
    reached := ?_
    stored := fun e mem => ?_
    settled := ?_
    accepted := fun a there => sound.accepts mem there }
  · rcases origin mem with old | new
    · exact keyed.cache e old
    · obtain ⟨here, _, _, keys⟩ := mem_passed new
      refine ⟨here ▸ keyed.small, root, here ▸ keyed.known, ?_⟩
      rw [here]
      exact keys
  · show m.position.2 + 1 ≤ _
    exact (Nat.le_max_right ..).trans top.ge
  · rcases origin mem with old | new
    · exact Nat.lt_of_lt_of_le (sound.stored e old) (le_raised ..)
    · obtain ⟨here, _, high, _⟩ := mem_passed new
      rw [here]
      refine Nat.lt_of_lt_of_le ?_ ((Nat.le_max_right ..).trans top.ge)
      omega
  · intro c n below
    have settle : ∀ {e : SkippedKey}, e.position = (c, n) → (e ∈ (sys.receiver.swept now).skipped ∨
        e ∈ passed P root sys.receiver.chainId now sys.receiver.n (m.position.2 - sys.receiver.n)) →
        ((sys.receiver.swept now).advanced P root m.position.2 now).Caches (c, n) ∨
          (c, n) ∈ sys.lost ++ (expired now sys.receiver.skipped ++
            (insertAll (sys.receiver.swept now).skipped (passed P root sys.receiver.chainId now sys.receiver.n
              (m.position.2 - sys.receiver.n))).2).map position := by
      intro e here mem
      rcases mem_insertAll.2 mem with evicted | kept
      · refine .inr (List.mem_append_right _ (List.mem_map.2 ⟨e, List.mem_append_right _ evicted, here⟩))
      · exact .inl ⟨e, kept, here⟩
    by_cases old : n < sys.furthest c
    · rcases sound.settled_swept old with ⟨a, mem, here⟩ | ⟨e, mem, here⟩ | gone
      · exact .inl ⟨a, List.mem_append_left _ mem, here⟩
      · exact .inr (settle here (.inl mem))
      · refine .inr (.inr ?_)
        rcases List.mem_append.1 gone with before | stale
        · exact List.mem_append_left _ before
        · obtain ⟨e, mem, here⟩ := List.mem_map.1 stale
          exact List.mem_append_right _ (List.mem_map.2 ⟨e, List.mem_append_left _ mem, here⟩)
    · -- A slot the chain has only now come to.
      obtain rfl : c = sys.receiver.chainId := by
        by_contra other
        exact old (Nat.lt_of_lt_of_le below (update_of_ne other ..).le)
      have below : n < max (sys.furthest sys.receiver.chainId) (m.position.2 + 1) := top ▸ below
      have reached := sound.reached
      by_cases own : n = m.position.2
      · refine .inl ⟨⟨m.position, m.plaintext⟩, List.mem_append_right _ (List.mem_singleton_self _), ?_⟩
        exact Prod.ext chain.symm own.symm
      · obtain ⟨e, mem, here⟩ : ∃ e ∈ passed P root sys.receiver.chainId now sys.receiver.n
            (m.position.2 - sys.receiver.n), e.position = (sys.receiver.chainId, n) := exists_passed (by omega) (by omega)
        exact .inr (settle here (.inr mem))

end

theorem Sound.deliver (ideal : P.Ideal) (sound : Sound P ctx device sys) (i now : Nat) :
    Sound P ctx device (sys.deliver P ctx i now) := by
  unfold System.deliver
  split
  case h_1 => exact sound
  rename_i m there
  have mem := List.mem_of_getElem? there
  obtain ⟨root, keyed⟩ := sound.receiver
  obtain ⟨root', header, genuine⟩ := sound.sent m mem
  have effect := decryptAt_effect ideal genuine keyed now
  generalize sys.receiver.decryptAt P m.wire ctx now = d at effect
  cases effect with
  | cached => exact sound.cached i now mem
  | ahead _ ahead => exact sound.ahead i now mem keyed ahead
  | refused _ _ e => exact sound.refused i now m e

theorem Sound.deliver_ahead (ideal : P.Ideal) (sound : Sound P ctx device sys) {i now : Nat} {m : Sent}
    (there : sys.sent[i]? = some m) (absent : ¬(sys.receiver.swept now).Caches m.position)
    (ahead : sys.receiver.Ahead m.position) : ∃ root, sys.deliver P ctx i now = sys.receive i m (sys.receiver.reached P root m now) := by
  obtain ⟨root, keyed⟩ := sound.receiver
  obtain ⟨root', header, genuine⟩ := sound.sent m (List.mem_of_getElem? there)
  have effect := decryptAt_effect ideal genuine keyed now
  unfold System.deliver
  rw [there]
  dsimp only
  generalize sys.receiver.decryptAt P m.wire ctx now = d at effect
  cases effect with
  | cached held => exact absurd held absent
  | ahead => exact ⟨root, rfl⟩
  | refused _ behind => exact absurd ahead behind

theorem ReceiverChain.not_caches (empty : r.skipped = []) {now : Nat} : ¬(r.swept now).Caches p := by
  rintro ⟨e, mem, _⟩
  have old := ReceiverChain.mem_swept mem
  rw [empty] at old
  cases old

/-- A message that comes in turn. -/
theorem Sound.deliver_next (ideal : P.Ideal) (sound : Sound P ctx device sys) {i now : Nat} {m : Sent}
    (there : sys.sent[i]? = some m) (next : m.position = (sys.receiver.chainId, sys.receiver.n))
    (empty : sys.receiver.skipped = []) : ∃ ck, sys.deliver P ctx i now =
      sys.receive i m ⟨{ sys.receiver with ck, n := sys.receiver.n + 1, skipped := [] }, [], .ok m.plaintext⟩ := by
  have ahead : sys.receiver.Ahead m.position := by
    rw [next]
    exact ⟨rfl, Nat.le_refl _, Nat.le_add_right ..⟩
  obtain ⟨root, delivered⟩ := @Sound.deliver_ahead _ _ _ _ ideal sound i now m there (ReceiverChain.not_caches empty) ahead
  refine ⟨ckAt P root sys.receiver.chainId (sys.receiver.n + 1), delivered.trans ?_⟩
  unfold ReceiverChain.reached ReceiverChain.advanced ReceiverChain.swept
  rw [empty, next]
  rw [Nat.sub_self]
  rfl

theorem System.send_eq (more : sys.sender.n ≠ u32Max) (plaintext : Bytes) (nonces : MessageNonces) :
    sys.send P ctx plaintext nonces =
      { sys with
        sender := { sys.sender with ck := advance P sys.sender.ck, n := sys.sender.n + 1 }
        sent := sys.sent ++ [⟨(sys.sender.chainId, sys.sender.n),
          SenderChain.sealWith P ctx sys.sender.ck (sys.sender.nextHeader ctx) nonces plaintext, plaintext⟩] } := by
  unfold send SenderChain.encrypt
  rw [if_neg more]

theorem Sound.step (ideal : P.Ideal) (sound : Sound P ctx device sys) (a : Action) :
    Sound P ctx device (sys.step P ctx a) := by
  cases a with
  | send plaintext nonces => exact sound.send plaintext nonces
  | rotate root now => exact sound.rotate root now
  | deliver i now => exact sound.deliver ideal i now
  | applySkdm chainId => exact sound.applySkdm chainId

theorem run_sound (ideal : P.Ideal) (fresh : s.Fresh P) {acts : List Action} :
    Sound P ctx s.physicalDeviceId (run (System.step P ctx) (.start P s) acts) :=
  run_invariant (fun _ a sound => sound.step ideal a) (.start fresh) acts

/-! ## A system to look at -/

theorem sampleDevice_length : (1 :: List.replicate 31 0 : Bytes).length = physicalDeviceIdBytes := rfl

theorem sampleDevice_present : (1 :: List.replicate 31 0 : Bytes).all (· = 0) = false := rfl

def sampleDevice : PhysicalDeviceId := ⟨1 :: List.replicate 31 0, sampleDevice_length, sampleDevice_present⟩

def sampleSender : SenderChain := .new symbolicPrimitives sampleDevice (List.replicate 32 7) 0

theorem sampleVersion_le : 1 ≤ u32Max := by decide

def sampleContext : SenderContext := ⟨List.replicate 32 2, [3], [4], 1, sampleVersion_le⟩

def sampleNonces : MessageNonces := ⟨List.replicate 24 5, List.replicate 24 6⟩

end Osl.SenderKeys
