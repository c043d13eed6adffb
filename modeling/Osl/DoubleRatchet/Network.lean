import Osl.Base.Run
import Osl.DoubleRatchet.Decrypting

/-!
# Two ratchets and a network

Both sides start from one session key. Each encrypts what it likes, and the network
hands any message a side has produced to the other one, in any order, any number of
times or never. `Live` is what holds of a side in every run: the key of every message
it has accepted is spent.
-/

namespace Osl.DoubleRatchet

open Base Crypto Function

inductive Role where
  | initiator
  | responder
  deriving DecidableEq

def Role.peer : Role → Role
  | .initiator => .responder
  | .responder => .initiator

/-- A message with the plaintext it was made from, or was opened to. -/
structure Msg where
  wire : EncryptedMessage
  plaintext : Bytes

structure Party where
  ratchet : DoubleRatchet
  sent : List Msg
  got : List Msg

abbrev System := Role → Party

inductive Action where
  | send (role : Role) (plaintext : Bytes) (nonces : MessageNonces)
  /-- The peer's `i`-th message reaches `role`. -/
  | deliver (role : Role) (i now : Nat) (secret : Bytes)

section

variable (P : Primitives)

namespace Party

def send (p : Party) (plaintext : Bytes) (nonces : MessageNonces) : Party :=
  match p.ratchet.encrypt P plaintext nonces with
  | (ratchet, .ok wire) => { p with ratchet, sent := p.sent ++ [⟨wire, plaintext⟩] }
  | (ratchet, .error _) => { p with ratchet }

def receive (p : Party) (wire : EncryptedMessage) (now : Nat) (secret : Bytes) : Party :=
  match p.ratchet.decryptAt P wire now secret with
  | (ratchet, .ok plaintext) => { p with ratchet, got := p.got ++ [⟨wire, plaintext⟩] }
  | (ratchet, .error _) => { p with ratchet }

end Party

def step (sys : System) : Action → System
  | .send role plaintext nonces => update sys role ((sys role).send P plaintext nonces)
  | .deliver role i now secret =>
    match (sys role.peer).sent[i]? with
    | none => sys
    | some m => update sys role ((sys role).receive P m.wire now secret)

/-- Both sides from `sk`; `bootstrap` is the responder's initial ratchet secret and `secret`
the one the initiator generates. -/
def start (sk : SessionKey P) (bootstrap secret : Bytes) (ctx : Role → SessionContext) : Result System := do
  let initiator ← newInitiator P sk (P.x25519.pub bootstrap) (ctx .initiator) secret
  .ok fun
    | .initiator => ⟨initiator, [], []⟩
    | .responder => ⟨newResponder P sk bootstrap (ctx .responder), [], []⟩

end

variable {P : Primitives} {sk : SessionKey P} {t now : Nat} {wire : EncryptedMessage} {plaintext bootstrap secret secret' : Bytes} {p : Party}
  {sys : System} {ctx : Role → SessionContext}

/-! ## One side -/

structure Live (P : Primitives) (sk : SessionKey P) (t : Nat) (p : Party) : Prop where
  keyed : Keyed P sk t p.ratchet
  spent : ∀ m ∈ p.got, ∃ key, Holds P m.wire key m.plaintext ∧ Spent P sk t p.ratchet key
  once : (p.got.map Msg.wire).Nodup
  made : ∀ m ∈ p.sent, ∃ key, Holds P m.wire key m.plaintext

/-- A message is under one key and has one plaintext. -/
theorem Holds.unique (ideal : P.Ideal) {key key' plaintext' : Bytes}
    (here : Holds P wire key plaintext) (there : Holds P wire key' plaintext') : key = key' ∧ plaintext = plaintext' := by
  obtain ⟨ad, sealed⟩ := here
  obtain ⟨ad', sealed'⟩ := there
  obtain ⟨keys, -, -, texts⟩ := ideal.aead.inj (sealed.symm.trans sealed')
  exact ⟨keys, texts⟩

/-- Encrypting moves the sending chain at most, and what comes out is under one key. -/
theorem encrypt_effect (s : DoubleRatchet) (plaintext : Bytes) (nonces : MessageNonces) :
    (∃ sendingChain sendingCounter, (s.encrypt P plaintext nonces).1 = { s with sendingChain, sendingCounter }) ∧
      ∀ wire, (s.encrypt P plaintext nonces).2 = .ok wire → ∃ key, Holds P wire key plaintext := by
  unfold encrypt
  split
  case h_1 => exact ⟨⟨_, _, rfl⟩, nofun⟩
  split
  case h_1 => exact ⟨⟨_, _, rfl⟩, nofun⟩
  split
  case isTrue => exact ⟨⟨_, _, rfl⟩, nofun⟩
  case isFalse =>
    refine ⟨⟨_, _, rfl⟩, ?_⟩
    rintro wire ⟨⟩
    exact ⟨_, _, rfl⟩

theorem Live.send (live : Live P sk t p) (plaintext : Bytes) (nonces : MessageNonces) :
    Live P sk t (p.send P plaintext nonces) := by
  obtain ⟨⟨chain, counter, kept⟩, made⟩ := encrypt_effect (P := P) p.ratchet plaintext nonces
  have keyed : Keyed P sk t (p.ratchet.encrypt P plaintext nonces).1 := by
    rw [kept]
    exact { live.keyed with }
  have spent : ∀ m ∈ p.got, ∃ key, Holds P m.wire key m.plaintext ∧
      Spent P sk t (p.ratchet.encrypt P plaintext nonces).1 key := by
    rw [kept]
    exact live.spent
  unfold Party.send
  generalize p.ratchet.encrypt P plaintext nonces = r at keyed spent made
  obtain ⟨ratchet, result⟩ := r
  cases result with
  | error e => exact ⟨keyed, spent, live.once, live.made⟩
  | ok wire =>
    refine ⟨keyed, spent, live.once, fun m mem => ?_⟩
    rcases List.mem_append.1 mem with old | new
    · exact live.made m old
    · cases List.mem_singleton.1 new
      exact made wire rfl

/-- What a side does with a message, whoever made it. -/
theorem Live.receive (ideal : P.Ideal) (live : Live P sk t p) (wire : EncryptedMessage) (now : Nat) (secret : Bytes) :
    (∃ t', Live P sk t' (p.receive P wire now secret)) ∧ (p.receive P wire now secret).sent = p.sent ∧
      ∀ m ∈ (p.receive P wire now secret).got, m ∈ p.got ∨ m.wire = wire := by
  obtain ⟨t', keyed, kept, uses⟩ := live.keyed.decryptAt ideal wire now secret
  unfold Party.receive
  generalize p.ratchet.decryptAt P wire now secret = r at keyed kept uses
  obtain ⟨ratchet, result⟩ := r
  have old : ∀ m ∈ p.got, ∃ key, Holds P m.wire key m.plaintext ∧ Spent P sk t' ratchet key := by
    intro m mem
    obtain ⟨key, holds, spent⟩ := live.spent m mem
    exact ⟨key, holds, kept spent⟩
  cases result with
  | error e => exact ⟨⟨t', keyed, old, live.once, live.made⟩, rfl, fun m mem => .inl mem⟩
  | ok plaintext =>
    obtain ⟨key, holds, used⟩ := uses plaintext rfl
    refine ⟨⟨t', keyed, fun m mem => ?_, ?_, live.made⟩, rfl, fun m mem => ?_⟩
    · rcases List.mem_append.1 mem with before | new
      · exact old m before
      · cases List.mem_singleton.1 new
        exact ⟨key, holds, used.spent⟩
    · show ((p.got ++ [Msg.mk wire plaintext]).map Msg.wire).Nodup
      rw [List.map_append]
      refine List.nodup_append.2 ⟨live.once, List.nodup_singleton _, fun w before w' new same => ?_⟩
      -- Accepted before, the message's only key would be spent.
      obtain ⟨m, mem, here⟩ := List.mem_map.1 before
      cases List.mem_singleton.1 new
      obtain ⟨key', holds', spent⟩ := live.spent m mem
      rw [here, same] at holds'
      obtain ⟨rfl, -⟩ := holds.unique ideal holds'
      exact used.fresh spent
    · rcases List.mem_append.1 mem with before | new
      · exact .inl before
      · cases List.mem_singleton.1 new
        exact .inr rfl

/-! ## Both sides -/

structure Sound (P : Primitives) (sk : SessionKey P) (sys : System) : Prop where
  live : ∀ role, ∃ t, Live P sk t (sys role)
  attributed : ∀ role, ∀ m ∈ (sys role).got, ∃ m' ∈ (sys role.peer).sent, m'.wire = m.wire

theorem Sound.step (ideal : P.Ideal) (sound : Sound P sk sys) (a : Action) : Sound P sk (step P sys a) := by
  cases a with
  | send role plaintext nonces =>
    obtain ⟨t, live⟩ := sound.live role
    have got : ((sys role).send P plaintext nonces).got = (sys role).got := by
      unfold Party.send
      split <;> rfl
    have sent : ∀ m ∈ (sys role).sent, m ∈ ((sys role).send P plaintext nonces).sent := by
      unfold Party.send
      split
      · exact fun m mem => List.mem_append_left _ mem
      · exact fun m mem => mem
    refine ⟨fun r => ?_, fun r m mem => ?_⟩
    · by_cases here : r = role
      · subst here
        exact ⟨t, by simpa [DoubleRatchet.step] using live.send plaintext nonces⟩
      · simpa [DoubleRatchet.step, here] using sound.live r
    · have old : m ∈ (sys r).got := by
        by_cases here : r = role
        · subst here
          simpa [DoubleRatchet.step, got] using mem
        · simpa [DoubleRatchet.step, here] using mem
      obtain ⟨m', listed, wire⟩ := sound.attributed r m old
      refine ⟨m', ?_, wire⟩
      by_cases here : r.peer = role
      · subst here
        simpa [DoubleRatchet.step] using sent m' listed
      · simpa [DoubleRatchet.step, here] using listed
  | deliver role i now secret =>
    unfold DoubleRatchet.step
    dsimp only
    split
    case h_1 => exact sound
    rename_i m there
    obtain ⟨t, live⟩ := sound.live role
    obtain ⟨live, sent, origin⟩ := live.receive ideal m.wire now secret
    have peers : ∀ r : Role, (update sys role ((sys role).receive P m.wire now secret) r).sent = (sys r).sent := by
      intro r
      by_cases here : r = role
      · subst here
        rw [update_self, sent]
      · rw [update_of_ne here]
    refine ⟨fun r => ?_, fun r m' mem => ?_⟩
    · by_cases here : r = role
      · subst here
        rwa [update_self]
      · rw [update_of_ne here]
        exact sound.live r
    · rw [peers]
      by_cases here : r = role
      · subst here
        rw [update_self] at mem
        rcases origin m' mem with old | new
        · exact sound.attributed r m' old
        · exact ⟨m, List.mem_of_getElem? there, new.symm⟩
      · rw [update_of_ne here] at mem
        exact sound.attributed r m' mem

theorem Sound.start (begin : start P sk bootstrap secret ctx = .ok sys) : Sound P sk sys := by
  unfold DoubleRatchet.start newInitiator at begin
  cases agreed : diffieHellman P secret (P.x25519.pub bootstrap) with
  | error e =>
    rw [agreed] at begin
    cases begin
  | ok dh =>
    rw [agreed] at begin
    cases begin
    have empty : ∀ past, Stock P sk past [] := fun past =>
      ⟨fun e mem => absurd mem List.not_mem_nil, List.nodup_nil, Nat.zero_le _⟩
    refine ⟨fun role => ?_, fun role m mem => ?_⟩
    · cases role with
      | initiator =>
        exact ⟨1, ⟨RootAt.start.step dh, fun chain held => (by cases held), empty _⟩, fun m mem => (by cases mem),
          List.nodup_nil, fun m mem => (by cases mem)⟩
      | responder =>
        exact ⟨0, ⟨.start, fun chain held => (by cases held), empty _⟩, fun m mem => (by cases mem),
          List.nodup_nil, fun m mem => (by cases mem)⟩
    · cases role <;> cases mem

/-! ## The first message -/

/-- The two contexts are the two views of one conversation. -/
structure Matching (ctx : Role → SessionContext) : Prop where
  ad : ∀ h, renderInboundAd (ctx .responder) h = renderOutboundAd (ctx .initiator) h
  version : (ctx .responder).sessionVersion = (ctx .initiator).sessionVersion
  version_le : (ctx .initiator).sessionVersion ≤ u32Max

/-- The initiator as `new_initiator` makes it. -/
def freshInitiator (P : Primitives) (sk : SessionKey P) (bootstrap secret : Bytes) (ctx : SessionContext) : DoubleRatchet :=
  let step := kdfRkHe P sk.bytes (P.x25519.shared secret (P.x25519.pub bootstrap))
  { rootKey := step.rootKey, dhsSecret := secret, dhsPub := P.x25519.pub secret, dhr := some (P.x25519.pub bootstrap)
    sendingChain := some step.chainKey, sendingCounter := 0, receivingChain := none, receivingCounter := 0
    prevSendingCount := 0, hks := some (derive32 P [] sk.bytes sharedHkaInfo), hkr := none, nhks := step.headerKey
    nhkr := derive32 P [] sk.bytes sharedNhkbInfo, skipped := [], ctx }

theorem start_eq (ideal : P.Ideal) (sk : SessionKey P) (bootstrap secret : Bytes) (ctx : Role → SessionContext) :
    start P sk bootstrap secret ctx = .ok fun
      | .initiator => ⟨freshInitiator P sk bootstrap secret (ctx .initiator), [], []⟩
      | .responder => ⟨newResponder P sk bootstrap (ctx .responder), [], []⟩ := by
  unfold start newInitiator
  rw [diffieHellman_eq ideal]
  rfl

section

variable (P : Primitives) (sk : SessionKey P) (bootstrap secret : Bytes) (ctx : Role → SessionContext)

/-- The initiator's first chain key, as the responder derives it. -/
def firstChain : Bytes := (kdfRkHe P sk.bytes (P.x25519.shared bootstrap (P.x25519.pub secret))).chainKey

/-- The header of the initiator's message `n`. -/
def firstHeader (n : Nat) : Header := ⟨P.x25519.pub secret, 0, n, (ctx .initiator).sessionVersion⟩

/-- The initiator's message `n`. -/
def firstMessage (nonces : MessageNonces) (plaintext : Bytes) (n : Nat) : EncryptedMessage :=
  sealWith P (ctx .initiator) (derive32 P [] sk.bytes sharedHkaInfo) ((advance P)^[n] (firstChain P sk bootstrap secret))
    (firstHeader P secret ctx n) nonces plaintext

/-- The responder once it has opened message `n`, with the keys of the messages before in `old`. -/
def caughtUp (n : Nat) (old : List SkippedKey) (secret' : Bytes) : DoubleRatchet :=
  let step1 := kdfRkHe P sk.bytes (P.x25519.shared bootstrap (P.x25519.pub secret))
  let step2 := kdfRkHe P step1.rootKey (P.x25519.shared secret' (P.x25519.pub secret))
  { rootKey := step2.rootKey, dhsSecret := secret', dhsPub := P.x25519.pub secret', dhr := some (P.x25519.pub secret)
    sendingChain := some step2.chainKey, sendingCounter := 0
    receivingChain := some (advance P ((advance P)^[n] (firstChain P sk bootstrap secret))), receivingCounter := n + 1
    prevSendingCount := 0, hks := some (derive32 P [] sk.bytes sharedNhkbInfo)
    hkr := some (derive32 P [] sk.bytes sharedHkaInfo), nhks := step2.headerKey, nhkr := step1.headerKey
    skipped := old.foldl SkippedKeyCache.insert [], ctx := ctx .responder }

end

section

variable (ideal : P.Ideal) (matching : Matching ctx) (sk : SessionKey P) (bootstrap secret plaintext : Bytes)
  (nonces : MessageNonces)
include ideal matching

omit matching in
theorem aeadOpen_firstMessage {n : Nat} :
    aeadOpen P (derive32 P [] sk.bytes sharedHkaInfo) (firstMessage P sk bootstrap secret ctx nonces plaintext n).headerNonce []
      (firstMessage P sk bootstrap secret ctx nonces plaintext n).encHeader = .ok (firstHeader P secret ctx n).toBytes :=
  aeadOpen_aeadSeal ideal ..

theorem openHeader_firstMessage {n : Nat} (fits : n ≤ u32Max) :
    openHeader P (derive32 P [] sk.bytes sharedHkaInfo) (firstMessage P sk bootstrap secret ctx nonces plaintext n) =
      some (firstHeader P secret ctx n) := by
  unfold openHeader
  rw [aeadOpen_firstMessage ideal]
  dsimp only
  rw [Header.fromBytes_toBytes (ideal.x25519.pub_length secret) (Nat.zero_le _) fits matching.version_le]
  rfl

section
variable {s : DoubleRatchet} (own : s.ctx = ctx .responder) (n : Nat)
include own n

theorem openBody_firstMessage :
    s.openBody P (firstMessage P sk bootstrap secret ctx nonces plaintext n)
      (messageKey P ((advance P)^[n] (firstChain P sk bootstrap secret))) (firstHeader P secret ctx n) = .ok plaintext := by
  unfold openBody
  rw [own, matching.ad]
  exact aeadOpen_aeadSeal ideal ..

omit ideal in
theorem checkVersion_firstMessage : s.checkVersion (firstHeader P secret ctx n) = .ok () := by
  unfold checkVersion
  rw [own]
  exact if_neg (not_not.2 matching.version.symm)

end

/-- Both sides derive the initiator's first chain. -/
theorem decryptAt_firstMessage {n : Nat} (now : Nat) (few : n ≤ maxSkippedPerChain) {old : List SkippedKey}
    (skips : skipKeys P (derive32 P [] sk.bytes sharedHkaInfo) now n ⟨[], firstChain P sk bootstrap secret, 0⟩ =
      .ok ⟨old, (advance P)^[n] (firstChain P sk bootstrap secret), n⟩) (secret' : Bytes) :
    (newResponder P sk bootstrap (ctx .responder)).decryptAt P (firstMessage P sk bootstrap secret ctx nonces plaintext n) now
      secret' = (caughtUp P sk bootstrap secret ctx n old secret', .ok plaintext) := by
  have fits : n ≤ u32Max := few.trans (by decide)
  obtain ⟨s, same⟩ : ∃ s, (newResponder P sk bootstrap (ctx .responder)).swept now = s := ⟨_, rfl⟩
  have own : s.ctx = ctx .responder := same ▸ rfl
  have next : s.nhkr = derive32 P [] sk.bytes sharedHkaInfo := same ▸ rfl
  have found : s.findHeader P (firstMessage P sk bootstrap secret ctx nonces plaintext n) = .ok (firstHeader P secret ctx n, true) := by
    have absent : s.hkr = none := same ▸ rfl
    unfold findHeader
    rw [absent, next, aeadOpen_firstMessage ideal]
    dsimp only [Option.bind_none]
    rw [Header.fromBytes_toBytes (ideal.x25519.pub_length secret) (Nat.zero_le _) fits matching.version_le]
    rfl
  have stepped : s.rootSteps P (firstHeader P secret ctx n) secret' =
      .ok (kdfRkHe P sk.bytes (P.x25519.shared bootstrap (P.x25519.pub secret)),
        kdfRkHe P (kdfRkHe P sk.bytes (P.x25519.shared bootstrap (P.x25519.pub secret))).rootKey
          (P.x25519.shared secret' (P.x25519.pub secret))) := by
    unfold rootSteps
    rw [diffieHellman_eq ideal, diffieHellman_eq ideal, ← same]
    rfl
  have drained : s.drainChain P (firstHeader P secret ctx n) now = .ok [] := same ▸ rfl
  have counter : (firstHeader P secret ctx n).counter = n := rfl
  have chain : s.receivingChain = none := same ▸ rfl
  have cache : s.tryDecryptSkipped P (firstMessage P sk bootstrap secret ctx nonces plaintext n) = .ok none := same ▸ rfl
  unfold decryptAt
  rw [same, cache]
  unfold decryptFresh
  rw [found]
  dsimp only
  rw [checkVersion_firstMessage matching secret own n]
  rw [if_pos rfl]
  unfold decryptDhStep
  rw [if_neg (by rw [chain]; rintro ⟨held, -⟩; cases held), counter, if_neg (Nat.not_lt.2 few), drained]
  rw [stepped]
  dsimp only
  rw [show (kdfRkHe P sk.bytes (P.x25519.shared bootstrap (P.x25519.pub secret))).chainKey = firstChain P sk bootstrap secret from rfl,
    next, skips]
  dsimp only
  rw [openBody_firstMessage ideal matching sk bootstrap secret plaintext nonces own n]
  dsimp only
  have more : n ≠ u32Max := (few.trans_lt (by decide)).ne
  rw [if_neg more, ← same]
  rfl

end

theorem first_message_accepted (ideal : P.Ideal) (matching : Matching ctx)
    (begin : start P sk bootstrap secret ctx = .ok sys)
    {nonces : MessageNonces} :
    ∃ wire, (run (step P) sys [.send .initiator plaintext nonces, .deliver .responder 0 now secret'] .responder).got =
      [⟨wire, plaintext⟩] := by
  have opens := decryptAt_firstMessage ideal matching sk bootstrap secret plaintext nonces now (Nat.zero_le _) rfl secret'
  cases (start_eq ideal sk bootstrap secret ctx).symm.trans begin
  refine ⟨firstMessage P sk bootstrap secret ctx nonces plaintext 0, ?_⟩
  have sent : (Party.mk (freshInitiator P sk bootstrap secret (ctx .initiator)) [] []).send P plaintext nonces =
      ⟨((freshInitiator P sk bootstrap secret (ctx .initiator)).encrypt P plaintext nonces).1,
        [⟨firstMessage P sk bootstrap secret ctx nonces plaintext 0, plaintext⟩], []⟩ := by
    unfold firstMessage firstChain
    rw [ideal.x25519.comm]
    rfl
  simp only [run_cons, run_nil, step, Role.peer, update_self, sent, List.getElem?_cons_zero]
  rw [update_of_ne (by decide)]
  unfold Party.receive
  rw [opens]
  rfl

/-- In every run: each accepted message is one the peer made and opens to what the peer put
into it, no message is accepted twice, a failed decryption of whatever bytes changes nothing
but the expired keys, and the cache stays within its cap. -/
theorem double_ratchet_accepts_once (P : Primitives) (ideal : P.Ideal) (sk : SessionKey P) (bootstrap secret : Bytes)
    (ctx : Role → SessionContext) (sys : System) (begin : start P sk bootstrap secret ctx = .ok sys) (acts : List Action)
    (role : Role) :
    (∀ a ∈ (run (step P) sys acts role).got, (∃ m ∈ (run (step P) sys acts role.peer).sent, m.wire = a.wire) ∧
      ∀ m ∈ (run (step P) sys acts role.peer).sent, m.wire = a.wire → m.plaintext = a.plaintext) ∧
    ((run (step P) sys acts role).got.map Msg.wire).Nodup ∧
    (∀ msg now secret e, ((run (step P) sys acts role).ratchet.decryptAt P msg now secret).2 = .error e →
      ((run (step P) sys acts role).ratchet.decryptAt P msg now secret).1 = (run (step P) sys acts role).ratchet.swept now) ∧
    (run (step P) sys acts role).ratchet.skipped.length ≤ maxSkippedPerChain := by
  have sound : Sound P sk (run (step P) sys acts) :=
    run_invariant (fun _ a sound => sound.step ideal a) (.start begin) acts
  obtain ⟨t, live⟩ := sound.live role
  obtain ⟨t', peer⟩ := sound.live role.peer
  refine ⟨fun a mem => ⟨sound.attributed role a mem, fun m listed same => ?_⟩, live.once, fun _ _ _ _ => decryptAt_error,
    live.keyed.stock.cap⟩
  obtain ⟨key, holds, -⟩ := live.spent a mem
  obtain ⟨key', holds'⟩ := peer.made m listed
  rw [same] at holds'
  exact (holds'.unique ideal holds).2

def sampleContext : Role → SessionContext
  | .initiator => ⟨[1], [2], [3], [4], [5], 1⟩
  | .responder => ⟨[3], [4], [1], [2], [5], 1⟩

theorem sampleContext_matching : Matching sampleContext := ⟨fun _ => rfl, rfl, by decide⟩

def sampleNonces : MessageNonces := ⟨List.replicate 24 6, List.replicate 24 7⟩

theorem double_ratchet_accepts_once_sample :
    ∃ sys, start symbolicPrimitives (deriveSk symbolicPrimitives [1] [2] [3] none [4]) [5] [6] sampleContext = .ok sys ∧
      ∃ a ∈ (run (step symbolicPrimitives) sys
          [.send .initiator [104, 105] sampleNonces, .deliver .responder 0 0 [7]] .responder).got,
        a.plaintext = [104, 105] ∧
        ∃ m ∈ (run (step symbolicPrimitives) sys
          [.send .initiator [104, 105] sampleNonces, .deliver .responder 0 0 [7]] .initiator).sent, m.wire = a.wire := by
  refine ⟨_, start_eq symbolicPrimitives_ideal _ _ _ _, ?_⟩
  have begin := start_eq symbolicPrimitives_ideal (deriveSk symbolicPrimitives [1] [2] [3] none [4]) [5] [6] sampleContext
  obtain ⟨wire, got⟩ := first_message_accepted symbolicPrimitives_ideal sampleContext_matching begin
  have mem : ⟨wire, [104, 105]⟩ ∈ [(⟨wire, [104, 105]⟩ : Msg)] := List.mem_singleton_self _
  rw [← got] at mem
  exact ⟨⟨wire, [104, 105]⟩, mem, rfl,
    ((double_ratchet_accepts_once symbolicPrimitives symbolicPrimitives_ideal _ [5] [6] sampleContext _ begin _ .responder).1 _
      mem).1⟩

/-! ## Forward secrecy -/

/-- The message keys that follow from a receiver's cache, its receiving chain and any further root steps. -/
inductive Derives (P : Primitives) (s : DoubleRatchet) : Bytes → Prop where
  | cached : ∀ e ∈ s.skipped, Derives P s e.messageKey
  | receiving (i : Nat) : ∀ ck ∈ s.receivingChain, Derives P s (messageKey P ((advance P)^[i] ck))
  | turned (dhs : List Bytes) (dh : Bytes) (i : Nat) : Derives P s (messageKey P ((advance P)^[i]
      (kdfRkHe P (dhs.foldl (fun rk dh => (kdfRkHe P rk dh).rootKey) s.rootKey) dh).chainKey))

theorem RootAt.foldl {t : Nat} {rk : Bytes} (root : RootAt P sk t rk) (dhs : List Bytes) :
    RootAt P sk (t + dhs.length) (dhs.foldl (fun rk dh => (kdfRkHe P rk dh).rootKey) rk) := by
  induction dhs generalizing t rk with
  | nil => exact root
  | cons dh dhs ih =>
    have rest := ih (root.step dh)
    rwa [Nat.add_right_comm] at rest

/-- In every run, a side's cache, receiving chain and root key yield no key of a message it has accepted. -/
theorem accepted_keys_forgotten (ideal : P.Ideal) {ctx : Role → SessionContext} {sys : System}
    (begin : start P sk bootstrap secret ctx = .ok sys) (acts : List Action) (role : Role) :
    let p := run (step P) sys acts role
    ∀ a ∈ p.got, ∃ key, Holds P a.wire key a.plaintext ∧ ¬Derives P p.ratchet key := by
  intro p a mem
  have sound : Sound P sk (run (step P) sys acts) :=
    run_invariant (fun _ a sound => sound.step ideal a) (.start begin) acts
  obtain ⟨t, live⟩ := sound.live role
  obtain ⟨key, holds, ⟨k, n, here, past⟩, uncached⟩ := live.spent a mem
  refine ⟨key, holds, fun derives => ?_⟩
  unfold Past at past
  cases derives with
  | cached e mem => exact uncached (List.mem_map_of_mem mem)
  | receiving i ck chain =>
    obtain ⟨k', present, place⟩ := live.keyed.receiving ck chain
    obtain ⟨rfl, rfl⟩ := here.unique ideal ⟨_, place.advance i, rfl⟩
    omega
  | turned dhs dh i =>
    obtain ⟨rfl, -⟩ := here.unique ideal ⟨_, ⟨_, dh, live.keyed.root.foldl dhs, rfl⟩, rfl⟩
    omega

theorem accepted_keys_forgotten_sample :
    ∃ sys, start symbolicPrimitives (deriveSk symbolicPrimitives [1] [2] [3] none [4]) [5] [6] sampleContext = .ok sys ∧
      let p := run (step symbolicPrimitives) sys [.send .initiator [104, 105] sampleNonces, .deliver .responder 0 0 [7]] .responder
      ∃ a ∈ p.got, ∃ key, Holds symbolicPrimitives a.wire key a.plaintext ∧ ¬Derives symbolicPrimitives p.ratchet key := by
  have begin := start_eq symbolicPrimitives_ideal (deriveSk symbolicPrimitives [1] [2] [3] none [4]) [5] [6] sampleContext
  obtain ⟨wire, got⟩ := first_message_accepted symbolicPrimitives_ideal sampleContext_matching begin
  have mem := List.mem_singleton_self (Msg.mk wire [104, 105])
  rw [← got] at mem
  exact ⟨_, begin, _, mem, accepted_keys_forgotten symbolicPrimitives_ideal begin _ _ _ mem⟩

end Osl.DoubleRatchet
