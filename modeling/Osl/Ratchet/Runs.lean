import Osl.Ratchet.Agreement

/-!
# Runs from matching keys

The responder's session only exists from its first message on, but that message
is opened by a session that is known from the start: its run is one in which both
sessions are there (`step_present`). So `Linked` holds along every run of two
sessions with matching keys, and with it the two sides agree on the epochs and on
what goes into the root.
-/

namespace Osl.Ratchet

open Base PqRatchet Function

variable {P : Primitives} {cfg : Config}

/-! ## The responder before its first message -/

/-- `v` where there is no session yet. -/
def Party.fill (v : Session) (p : Party) : Party := { p with session := some (p.session.getD v) }

def present (v : Session) (sys : System) : System := fun r => (sys r).fill v

namespace Party

variable {v s : Session} {p : Party} {plaintext : Bytes} {msgType : Nat} {x : Sealing}

theorem fill_eq (session : p.session = some s) : p.fill v = p := by
  cases p
  cases session
  rfl

theorem send_session (session : p.session = some s) {rng : Rng} :
    (p.send P msgType plaintext rng).session = some (s.encrypt P msgType plaintext rng).1 := by
  rw [send_eq session]

theorem fill_send (silent : v.cks = none) {rng : Rng} :
    (p.fill v).send P msgType plaintext rng = (p.send P msgType plaintext rng).fill v := by
  cases session : p.session with
  | some s => rw [fill_eq session, fill_eq (send_session session ..)]
  | none =>
    have refused : v.encrypt P msgType plaintext rng = (v, .error (.internal "no sending chain yet")) := by
      unfold Session.encrypt
      rw [silent]
    have unsent : p.send P msgType plaintext rng = p := by
      unfold send
      rw [session]
    have filled : (p.fill v).session = some v := by simp [fill, session]
    rw [send_eq filled, refused, unsent]
    simp [logged, fill, session]

theorem receive_session (cfg : Config) (session : p.session = some s) (wire : Bytes) (rng : Rng) :
    ∃ s', (p.receive P cfg wire rng).session = some s' := by
  unfold receive
  split
  · exact ⟨_, rfl⟩
  · exact ⟨s, session⟩

section
variable (ideal : P.Ideal) (valid : x.Valid P)
   (made : p.session = none → Session.forBootstrap P cfg.prekeys (x.parsed P) cfg.binding (cfg.params .responder) = .ok v)
   (rng : Rng)
include ideal valid made rng

/-- If `v` is what the message's preamble makes, it does not matter when it is made. -/
theorem fill_openWire : (p.fill v).openWire P cfg (x.wire P) rng = p.openWire P cfg (x.wire P) rng := by
  cases session : p.session with
  | some s => rw [fill_eq session]
  | none =>
    unfold openWire fill
    rw [session]
    rw [Session.acceptBound_wire ideal valid, made session]
    exact Session.decrypt_wire ideal valid

theorem fill_receive : (p.fill v).receive P cfg (x.wire P) rng = (p.receive P cfg (x.wire P) rng).fill v := by
  cases session : p.session with
  | some s =>
    obtain ⟨s', session'⟩ := receive_session (P := P) cfg session (x.wire P) rng
    rw [fill_eq session, fill_eq session']
  | none =>
    unfold receive
    rw [fill_openWire ideal valid made]
    cases p.openWire P cfg (x.wire P) rng <;> rfl

end

end Party

/-- While there is no responder, all the initiator sends carries the preamble. -/
structure Booting (P : Primitives) (preamble : Preamble) (sys : System) : Prop where
  initiator : ∃ s, (sys .initiator).session = some s
  absent : (sys .responder).session = none → (sys .responder).sent = [] ∧
    (∀ s, (sys .initiator).session = some s → s.bootstrap = some preamble) ∧
    ∀ m ∈ (sys .initiator).sent, ∃ x, m.From P x ∧ x.bootstrap = some preamble

variable {rng : Rng} {msgType e : Nat} {plaintext : Bytes} {r : Result Bytes} {s : Session} {sys : System}

theorem Session.EncryptEffect.bootstrap {s s' : Session}
    (effect : s.EncryptEffect P msgType plaintext rng s' r) : s'.bootstrap = s.bootstrap := by
  cases effect <;> rfl

theorem Party.Local.live_of {p : Party} (l : p.Local P) (session : p.session = some s) :
    ∃ sk, Live P sk p.roots s p.got := by
  cases l with
  | absent => cases session
  | live live =>
    cases session
    exact ⟨_, live⟩

section

variable (ideal : P.Ideal) {sys : System} {hsRng : Rng} {x : Sealing}
include ideal

theorem Booting.step (sound : Sound P sys) {preamble : Preamble}
    (boot : Booting P preamble sys) (act : Action) : Booting P preamble (step P cfg sys act) := by
  obtain ⟨s, session⟩ := boot.initiator
  cases act with
  | send role msgType plaintext rng =>
    cases role with
    | initiator =>
      obtain ⟨sk, live⟩ := (sound.parties .initiator).live_of session
      have effect := Session.encrypt_effect ideal live.bounded msgType plaintext rng
      refine ⟨⟨_, by simpa [Ratchet.step] using Party.send_session session⟩, fun absent => ?_⟩
      obtain ⟨unsent, carries, sent⟩ := boot.absent (by simpa [Ratchet.step] using absent)
      refine ⟨by simpa [Ratchet.step] using unsent, ?_, ?_⟩
      · intro s' session'
        simp only [Ratchet.step, update_self, Party.send_session session, Option.some.injEq] at session'
        rw [← session', effect.bootstrap, carries s session]
      · intro m mem
        simp only [Ratchet.step, update_self, Party.send_eq session] at mem
        rcases List.mem_append.1 mem with old | new
        · exact sent m old
        · obtain ⟨ck, hk, -, -, origin, -⟩ := Party.logged_from effect new
          exact ⟨_, origin, carries s session⟩
    | responder =>
      refine ⟨⟨s, by simpa [Ratchet.step] using session⟩, fun absent => ?_⟩
      have absent' : (sys .responder).session = none := by
        by_contra some
        obtain ⟨t, some⟩ := Option.ne_none_iff_exists'.1 some
        simp [Ratchet.step, Party.send_session some] at absent
      have unsent : (sys .responder).send P msgType plaintext rng = sys .responder := by
        unfold Party.send
        rw [absent']
      simpa [Ratchet.step, unsent] using boot.absent absent'
  | deliver role i rng =>
    unfold Ratchet.step
    dsimp only
    split
    · exact boot
    rename_i m get
    cases role with
    | initiator =>
      obtain ⟨s', session'⟩ := Party.receive_session (P := P) cfg session m.wire rng
      refine ⟨⟨s', by simpa using session'⟩, fun absent => ?_⟩
      have absent' : (sys .responder).session = none := by simpa using absent
      simp [Role.peer, (boot.absent absent').1] at get
    | responder =>
      refine ⟨⟨s, by simpa using session⟩, fun absent => ?_⟩
      unfold Party.receive at absent
      split at absent
      · cases absent
      · rename_i e failed
        have unchanged : (sys .responder).receive P cfg m.wire rng = sys .responder := by
          unfold Party.receive
          rw [failed]
        simpa [unchanged] using boot.absent absent

/-- A party without a session is sent nothing without the preamble. -/
theorem Booting.carried {preamble : Preamble} (boot : Booting P preamble sys) {role : Role}
    (absent : (sys role).session = none) {m : Msg} (listed : m ∈ (sys role.peer).sent)
    (origin : m.From P x) : x.bootstrap = some preamble := by
  cases role with
  | initiator =>
    obtain ⟨s, session⟩ := boot.initiator
    cases absent.symm.trans session
  | responder =>
    obtain ⟨y, origin', carries⟩ := (boot.absent absent).2.2 m listed
    have same := origin.valid.parsed_inj ideal origin'.valid (origin.wire.symm.trans origin'.wire)
    exact (congrArg ParsedWire.preamble same).trans carries

/-- A responder session made early changes nothing. -/
theorem step_present (sound : Sound P sys) {preamble : Preamble}
    (boot : Booting P preamble sys) {v : Session} (silent : v.cks = none)
    (made : ∀ parsed : ParsedWire, parsed.preamble = some preamble →
      Session.forBootstrap P cfg.prekeys parsed cfg.binding (cfg.params .responder) = .ok v) (act : Action) :
    step P cfg (present v sys) act = present v (step P cfg sys act) := by
  have fill : ∀ (r : Role) (p : Party), present v (update sys r p) = update (present v sys) r (p.fill v) :=
    fun r p => update_proj (Party.fill v) sys r p
  cases act with
  | send role msgType plaintext rng =>
    unfold step
    rw [fill, ← Party.fill_send silent]
    rfl
  | deliver role i rng =>
    have sent : ∀ r, (present v sys r).sent = (sys r).sent := fun _ => rfl
    unfold step
    dsimp only
    rw [sent]
    split
    · rfl
    rename_i m get
    have listed : m ∈ (sys role.peer).sent := List.mem_of_getElem? get
    obtain ⟨x, origin⟩ := (sound.parties role.peer).genuine m listed
    rw [fill, origin.wire]
    congr 1
    exact Party.fill_receive ideal origin.valid (fun absent => made _ (boot.carried ideal absent listed origin)) rng

/-! ## From the start -/

/-- Matching keys, and parameters both sides accept. -/
structure Honest (P : Primitives) (cfg : Config) : Prop where
  keys : Matching P cfg.bundle cfg.prekeys
  pq : ∀ r, (cfg.params r).pq.Valid
  skip : ∀ r, (cfg.params r).skip.validated = .ok (cfg.params r).skip

/-- The handshake key of a run. -/
def Config.key (P : Primitives) (cfg : Config) (hsRng : Rng) : Bytes :=
  Handshake.initiatorKey P cfg.identity cfg.bundle cfg.binding hsRng

def Config.preamble (P : Primitives) (cfg : Config) (hsRng : Rng) : Preamble :=
  Handshake.preamble P cfg.identity cfg.bundle hsRng

/-- The responder's session before its first message. -/
def Config.responder (P : Primitives) (cfg : Config) (hsRng : Rng) : Session :=
  Session.responder P (cfg.key P hsRng) (cfg.params .responder) cfg.prekeys.signedPrekey

/-- The sessions all runs begin with, that of the responder included. -/
def Config.sessions (P : Primitives) (cfg : Config) (hsRng rng : Rng) : Role → Session
  | .initiator => Session.initiator P (cfg.key P hsRng) (cfg.params .initiator) cfg.bundle.signedPrekey
      (cfg.preamble P hsRng) rng
  | .responder => cfg.responder P hsRng

theorem Honest.forBootstrap (honest : Honest P cfg) (hsRng : Rng) {parsed : ParsedWire}
    (carries : parsed.preamble = some (cfg.preamble P hsRng)) :
    Session.forBootstrap P cfg.prekeys parsed cfg.binding (cfg.params .responder) = .ok (cfg.responder P hsRng) := by
  unfold Session.forBootstrap Session.fromHandshakeResponder SkippedKeys.new
  rw [carries]
  dsimp only
  unfold Config.preamble
  rw [Handshake.respondBound_preamble ideal honest.keys]
  simp only [bind, Except.bind, PqRatchet.new_eq _ (honest.pq .responder), honest.skip .responder]
  rfl

/-- The state all runs begin in. -/
theorem start_eq (begin : start P cfg hsRng rng = .ok sys) :
    sys .initiator = ⟨some (Session.initiator P (cfg.key P hsRng) (cfg.params .initiator) cfg.bundle.signedPrekey
        (cfg.preamble P hsRng) rng), [⟨P.x25519.shared rng.x25519 cfg.bundle.signedPrekey, [], 0⟩], [], []⟩ ∧
      sys .responder = ⟨none, [], [], []⟩ := by
  obtain ⟨⟨s, roots⟩, made, eq⟩ := bind_ok.1 begin
  obtain ⟨valid, rfl, rfl⟩ := Session.initiateBound_ok ideal made
  cases eq
  exact ⟨rfl, rfl⟩

theorem Booting.start (begin : start P cfg hsRng rng = .ok sys) : Booting P (cfg.preamble P hsRng) sys := by
  obtain ⟨initiator, responder⟩ := start_eq ideal begin
  refine ⟨⟨_, congrArg Party.session initiator⟩, fun _ => ⟨congrArg Party.sent responder, ?_, ?_⟩⟩
  · rw [initiator]
    rintro s ⟨⟩
    rfl
  · rw [initiator]
    simp

theorem Linked.start (honest : Honest P cfg) (begin : start P cfg hsRng rng = .ok sys) :
    ∃ ses, Linked P (cfg.key P hsRng) (present (cfg.responder P hsRng) sys) ses := by
  obtain ⟨initiator, responder⟩ := start_eq ideal begin
  have hi : present (cfg.responder P hsRng) sys .initiator = _ := congrArg (Party.fill _) initiator
  have hr : present (cfg.responder P hsRng) sys .responder = _ := congrArg (Party.fill _) responder
  refine ⟨cfg.sessions P hsRng rng, ?_⟩
  constructor
  case session =>
    rintro (_ | _)
    · rw [hi]
      rfl
    · rw [hr]
      rfl
  case live =>
    rintro (_ | _)
    · rw [hi]
      exact ⟨.initiator, Session.initiator_bounded ideal (honest.pq _) (Handshake.preamble_valid ideal cfg.opk_id),
        by simp [Party.fill], List.nodup_nil⟩
    · rw [hr]
      exact ⟨.responder, Session.responder_bounded ideal (honest.pq _) _, by simp [Party.fill], List.nodup_nil⟩
  case wrote =>
    rintro (_ | _) m mem
    · rw [hi] at mem
      cases mem
    · rw [hr] at mem
      cases mem
  case lead =>
    refine ⟨.initiator, ⟨P.x25519.shared rng.x25519 cfg.bundle.signedPrekey, [], 0⟩, ?_⟩
    simp only [Role.peer]
    rw [hi, hr]
    refine ⟨rfl, ?_, rfl, rfl, le_rfl, rfl, rfl⟩
    show P.x25519.shared rng.x25519 cfg.bundle.signedPrekey =
      P.x25519.shared cfg.prekeys.signedPrekey (P.x25519.pub rng.x25519)
    rw [honest.keys.signedPrekey, ideal.x25519.comm]
  case balanced =>
    have none : ∀ r f, ¬ Frags (present (cfg.responder P hsRng) sys r).sent f := by
      rintro (_ | _) f ⟨m, mem, -⟩
      · rw [hi] at mem
        cases mem
      · rw [hr] at mem
        cases mem
    refine ⟨0, .initiator, ⟨?_, Nat.zero_le _, Nat.zero_le _, fun done => (by cases done), .inl (Nat.zero_le _)⟩⟩
    exact Joint.fresh.fewer (none .initiator) (none .responder)

/-- What holds all along a run from matching keys. -/
structure Running.Invariant (P : Primitives) (cfg : Config) (hsRng : Rng) (sys : System) : Prop where
  sound : Sound P sys
  booting : Booting P (cfg.preamble P hsRng) sys
  linked : ∃ ses, Linked P (cfg.key P hsRng) (present (cfg.responder P hsRng) sys) ses

theorem Running.Invariant.step (honest : Honest P cfg)
    (inv : Running.Invariant P cfg hsRng sys) (act : Action) : Running.Invariant P cfg hsRng (step P cfg sys act) := by
  obtain ⟨ses, linked⟩ := inv.linked
  refine ⟨inv.sound.step ideal act, inv.booting.step ideal inv.sound act, ?_⟩
  rw [← step_present ideal inv.sound inv.booting rfl fun parsed carries => honest.forBootstrap ideal hsRng carries]
  exact linked.step ideal act

theorem run_linked (honest : Honest P cfg) (begin : start P cfg hsRng rng = .ok sys) (acts : List Action) :
    Running.Invariant P cfg hsRng (run (step P cfg) sys acts) :=
  run_invariant (fun _ act inv => inv.step ideal honest act)
    ⟨Sound.start ideal begin, Booting.start ideal begin, Linked.start ideal honest begin⟩ acts

end

/-! ## Counters -/

/-- No session is lost, and none of its epoch counters decreases. -/
def Advances (sys sys' : System) : Prop :=
  ∀ r s, (sys r).session = some s → ∃ s', (sys' r).session = some s' ∧ Grows s.pq s'.pq

theorem Session.EncryptEffect.grows {s s' : Session}
    (effect : s.EncryptEffect P msgType plaintext rng s' r) (b : s.Bounded) : Grows s.pq s'.pq := by
  have sent := (onSend_effect (P := P) b.pq.have_le rng).grows
  cases effect with
  | refused => exact .refl
  | sealed => exact sent

theorem Outcome.grows {s s' : Session} {header : RatchetHeader} {args : List RootArgs}
    (outcome : Outcome P s header rng s' args) : Grows s.pq s'.pq := by
  cases outcome with
  | stays _ _ _ absorbed => exact (absorbPq_frame absorbed).1
  | turns _ _ _ absorbed => exact ((absorbPq_frame absorbed).1.trans (commitMix_grows)).trans (commitMix_grows)

theorem Sound.advances (ideal : P.Ideal) (sound : Sound P sys) {act : Action} :
    Advances sys (Ratchet.step P cfg sys act) := by
  intro r s session
  have same : ∀ {sys' : System}, sys' r = sys r → ∃ s', (sys' r).session = some s' ∧ Grows s.pq s'.pq :=
    fun eq => ⟨s, eq ▸ session, .refl⟩
  cases act with
  | send role msgType plaintext rng =>
    by_cases here : r = role
    · subst here
      obtain ⟨sk, live⟩ := (sound.parties r).live_of session
      refine ⟨_, by simpa [Ratchet.step] using Party.send_session session, ?_⟩
      exact (Session.encrypt_effect ideal live.bounded msgType plaintext rng).grows live.bounded
    · exact same (by simp [Ratchet.step, here])
  | deliver role i rng =>
    unfold Ratchet.step
    dsimp only
    cases get : (sys role.peer).sent[i]? with
    | none => exact same rfl
    | some m =>
      dsimp only
      by_cases here : r = role
      · subst here
        obtain ⟨x, origin⟩ := (sound.parties r.peer).genuine m (List.mem_of_getElem? get)
        rw [origin.wire]
        rcases (sys r).receive_cases cfg ideal origin.valid rng with unchanged | ⟨t, s', opened, args, was, h, eq⟩
        · exact same (by simp [unchanged])
        · obtain rfl : t = s := by
            rcases was with some | ⟨absent, -⟩
            · exact Option.some.inj (some.symm.trans session)
            · cases absent.symm.trans session
          exact ⟨s', by simp [eq], (Outcome.of_openParsed ideal origin.valid h).1.grows⟩
      · exact same (by simp [here])

theorem run_advances (ideal : P.Ideal) (sound : Sound P sys) {acts : List Action} :
    Advances sys (run (step P cfg) sys acts) := by
  refine run_rel (fun s r t session => ⟨t, session, .refl⟩) (fun s t u up up' r ses session => ?_)
    (fun s act sound => sound.step ideal act) (fun s act sound => sound.advances ideal) sound acts
  obtain ⟨ses', session', grows⟩ := up r ses session
  obtain ⟨ses'', session'', grows'⟩ := up' r ses' session'
  exact ⟨ses'', session'', grows.trans grows'⟩

/-! ## Agreement -/

/-- The two ratchets hold equal secrets, and nothing is mixed that one of them does
not have. -/
structure EpochsAgree (a b : PqRatchet) : Prop where
  secrets : ∀ {e : Nat} {s s'}, a.secrets[e]? = some s → b.secrets[e]? = some s' → s = s'
  mixed : max a.mixed b.mixed ≤ min a.pqHave b.pqHave

theorem Balanced.agree {o : Role} {qs : Role → PqRatchet} {turns : Role → Nat} {msgs : Role → List Msg}
    (bal : Balanced P e o qs turns msgs) : EpochsAgree (qs .initiator) (qs .responder) := by
  have hi := bal.bounds .initiator
  have hr := bal.bounds .responder
  refine ⟨?_, by omega⟩
  intro k s s' has has'
  cases o with
  | initiator => exact bal.joint.agree has has'
  | responder => exact (bal.joint.agree has' has).symm

/-- Along every run of two sessions with matching keys: epoch counters never
decrease; the sessions hold equal secrets for equal epochs and mix only epochs both
have; each root key is the fold of the logged root steps; and of the two logs of
root steps, epoch secrets included, one begins with the other. -/
theorem epochs_and_roots_agree (ideal : P.Ideal) (honest : Honest P cfg) {hsRng rng : Rng} {sys : System}
    (begin : start P cfg hsRng rng = .ok sys) (acts more : List Action) :
    let before := run (step P cfg) sys acts
    let after := run (step P cfg) before more
    (∀ role s, (before role).session = some s → ∃ s', (after role).session = some s' ∧
      s.pq.pqHave ≤ s'.pq.pqHave ∧ s.pq.peerHave ≤ s'.pq.peerHave ∧ s.pq.mixed ≤ s'.pq.mixed) ∧
    (∀ a b, (after .initiator).session = some a → (after .responder).session = some b → EpochsAgree a.pq b.pq) ∧
    (∀ role s, (after role).session = some s →
      s.root = rootAt P (cfg.key P hsRng) (after role).roots (after role).roots.length) ∧
    ((after .initiator).roots <+: (after .responder).roots ∨ (after .responder).roots <+: (after .initiator).roots) := by
  intro before after
  have inv : Running.Invariant P cfg hsRng after := by
    simpa [after, before, run_append] using run_linked ideal honest begin (acts ++ more)
  obtain ⟨ses, linked⟩ := inv.linked
  -- A session that is there is the one `Linked` speaks of.
  have named : ∀ {role s}, (after role).session = some s → s = ses role := by
    intro role s session
    have filled := linked.session role
    rw [present, Party.fill_eq session, session] at filled
    exact Option.some.inj filled
  refine ⟨?_, ?_, ?_, ?_⟩
  · intro role s session
    obtain ⟨s', session', grows⟩ := run_advances ideal (run_linked ideal honest begin acts).sound role s session
    exact ⟨s', session', grows.pqHave, grows.peerHave, grows.mixed⟩
  · intro a b sa sb
    obtain ⟨e, o, bal⟩ := linked.balanced
    rw [named sa, named sb]
    exact bal.agree
  · intro role s session
    rw [named session]
    exact (linked.live role).keyed.root
  · obtain ⟨l, c, lead⟩ := linked.lead
    cases l with
    | initiator => exact .inr ⟨[c], lead.roots.symm⟩
    | responder => exact .inl ⟨[c], lead.roots.symm⟩

theorem sample_honest : Honest symbolicPrimitives sampleConfig where
  keys := by
    refine ⟨rfl, rfl, rfl, ?_⟩
    rintro opk ⟨⟩
    exact ⟨by decide, [22], rfl, rfl⟩
  pq _ := (⟨by decide, by decide, by decide⟩ : PqParams.Valid default)
  skip _ := rfl

theorem epochs_and_roots_agree_sample :
    ∃ sys, start symbolicPrimitives sampleConfig sampleRng sampleRng = .ok sys ∧
      let before := run (step symbolicPrimitives sampleConfig) sys [.send .initiator 1 [104, 105] sampleRng]
      let after := run (step symbolicPrimitives sampleConfig) before
        [.deliver .responder 0 sampleRng, .send .responder 1 [111, 107] sampleRng, .deliver .initiator 0 sampleRng]
      (∀ role s, (before role).session = some s → ∃ s', (after role).session = some s' ∧
        s.pq.pqHave ≤ s'.pq.pqHave ∧ s.pq.peerHave ≤ s'.pq.peerHave ∧ s.pq.mixed ≤ s'.pq.mixed) ∧
      (∀ a b, (after .initiator).session = some a → (after .responder).session = some b → EpochsAgree a.pq b.pq) ∧
      (∀ role s, (after role).session = some s →
        s.root = rootAt symbolicPrimitives (sampleConfig.key symbolicPrimitives sampleRng) (after role).roots
          (after role).roots.length) ∧
      ((after .initiator).roots <+: (after .responder).roots ∨
        (after .responder).roots <+: (after .initiator).roots) := by
  obtain ⟨sys, begin⟩ := start_ok sampleConfig symbolicPrimitives_ideal (sample_honest.pq _) (sample_honest.skip _)
    sampleRng sampleRng
  exact ⟨sys, begin, epochs_and_roots_agree symbolicPrimitives_ideal sample_honest begin _ _⟩

end Osl.Ratchet
