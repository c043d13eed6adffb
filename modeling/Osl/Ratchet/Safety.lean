import Osl.Ratchet.Network
import Osl.Ratchet.Setup

/-!
# No forgery, no replay

Each side's own invariant (`Live`) is enough: the key of every accepted wire is
spent, and opening a genuine wire needs a key that is not.
-/

namespace Osl.Ratchet

open Base Session Function

variable {P : Primitives} {cfg : Config} {sys : System}

/-! ## What the logs say -/

/-- `m` is the log entry of `x`. -/
structure Msg.From (P : Primitives) (m : Msg) (x : Sealing) : Prop where
  valid : x.Valid P
  wire : m.wire = x.wire P
  header : m.header = x.header
  msgType : m.msgType = x.header.msgType
  plaintext : m.plaintext = x.plaintext

/-- A session that has accepted `got`, in order. -/
structure Live (P : Primitives) (sk : Bytes) (roots : List RootArgs) (s : Session) (got : List Accepted) : Prop where
  keyed : Keyed P sk roots s
  bounded : s.Bounded
  spent : ∀ a ∈ got, ∃ x : Sealing, x.Valid P ∧ a.wire = x.wire P ∧
    ∃ k, x.messageKey = mkAt P sk roots k x.header.n ∧ Spent P sk roots s k x.header.n
  once : (got.map (·.wire)).Nodup

section
variable {sk : Bytes} {roots args : List RootArgs} {s s' : Session} {got : List Accepted} {rng : Rng} {x : Sealing}
  {opened : Opened}

theorem Spent.known {k n : Nat} (spent : Spent P sk roots s k n) : k < roots.length := by
  rcases spent.1 with before | ⟨here, -⟩ <;> omega

section

variable (ideal : P.Ideal) (live : Live P sk roots s got) {msgType : Nat} {plaintext : Bytes} {r : Result Bytes}
include ideal live

section
variable (valid : x.Valid P) (h : s.openParsed P (x.parsed P) rng = .ok (s', opened, args))
include valid h

/-- A wire accepted before does not open again. -/
theorem Live.fresh : x.wire P ∉ got.map (·.wire) := by
  intro again
  obtain ⟨a, mem, same⟩ := List.mem_map.1 again
  obtain ⟨y, valid', wire, k, key, spent⟩ := live.spent a mem
  obtain ⟨-, j, -, uses⟩ := live.keyed.openParsed ideal valid h
  obtain ⟨header, keys, -⟩ := valid.wire_inj ideal valid' (same.symm.trans wire)
  -- Both keys are in the schedule, so they are in the same place of it.
  have place : mkAt P sk (roots ++ args) j x.header.n = mkAt P sk (roots ++ args) k x.header.n := by
    rw [← uses.key, keys, key, mkAt_append _ spent.known, header]
  obtain ⟨rfl, -⟩ := mkAt_inj ideal place
  exact uses.fresh (header ▸ spent)

theorem Live.openParsed : Live P sk (roots ++ args) s' (got ++ [⟨x.wire P, opened⟩]) := by
  obtain ⟨keyed, j, -, uses⟩ := live.keyed.openParsed ideal valid h
  refine ⟨keyed, openParsed_bounded ideal valid h live.bounded, ?_, ?_⟩
  · intro a mem
    rcases List.mem_append.1 mem with old | new
    · obtain ⟨y, valid', wire, k, key, spent⟩ := live.spent a old
      exact ⟨y, valid', wire, k, by rw [mkAt_append _ spent.known, key], uses.kept spent⟩
    · obtain rfl := List.mem_singleton.1 new
      exact ⟨x, valid, rfl, j, uses.key, uses.spent⟩
  · rw [List.map_append, List.nodup_append]
    refine ⟨live.once, by simp, ?_⟩
    rintro w old _ new rfl
    obtain rfl : w = x.wire P := by simpa using new
    exact live.fresh ideal valid h old

end

theorem Live.encrypt (effect : s.EncryptEffect P msgType plaintext rng s' r) : Live P sk roots s' got := by
  obtain ⟨keyed, kept⟩ := live.keyed.encrypt effect
  refine ⟨keyed, effect.bounded ideal live.bounded, fun a mem => ?_, live.once⟩
  obtain ⟨x, valid, wire, k, key, spent⟩ := live.spent a mem
  exact ⟨x, valid, wire, k, key, kept spent⟩

end

end

/-! ## One party -/

namespace Party

inductive Local (P : Primitives) : Party → Prop where
  | absent : Local P ⟨none, [], [], []⟩
  | live {sk : Bytes} {s : Session} {roots : List RootArgs} {sent : List Msg} {got : List Accepted}
    (live : Live P sk roots s got) (genuine : ∀ m ∈ sent, ∃ x, m.From P x) : Local P ⟨some s, roots, sent, got⟩

/-- The message a call of `encrypt` logs. -/
def logged (P : Primitives) (p : Party) (s : Session) (msgType : Nat) (plaintext : Bytes) (rng : Rng) :
    Result Bytes → List Msg
  | .ok wire => [⟨wire, msgType, plaintext, p.roots.length - 1, (s.nextHeader P msgType rng).2⟩]
  | .error _ => []

variable {p : Party} {x : Sealing} {msgType : Nat} {plaintext : Bytes} {r : Result Bytes}

theorem send_eq {s : Session} (session : p.session = some s) (msgType : Nat) (plaintext : Bytes) (rng : Rng) :
    p.send P msgType plaintext rng =
      { p with
        session := some (s.encrypt P msgType plaintext rng).1
        sent := p.sent ++ p.logged P s msgType plaintext rng (s.encrypt P msgType plaintext rng).2 } := by
  unfold send
  simp only [session]
  split
  · rename_i eq
    simp only [eq, logged]
  · rename_i eq
    simp only [eq, logged, List.append_nil]

/-- What is logged is what was sealed. -/
theorem logged_from {s s' : Session} {rng : Rng} (effect : s.EncryptEffect P msgType plaintext rng s' r) {m : Msg}
    (mem : m ∈ p.logged P s msgType plaintext rng r) :
    ∃ ck hk, s.cks = some ck ∧ s.hks = some hk ∧ m.From P (s.nextSealing P hk ck msgType plaintext rng) ∧
      m.chain = p.roots.length - 1 := by
  cases effect with
  | refused => cases mem
  | @sealed ck hk r chain key left out =>
    rcases out with ⟨-, e, rfl⟩ | ⟨valid, rfl⟩
    · cases mem
    · obtain rfl := List.mem_singleton.1 mem
      exact ⟨ck, hk, chain, key, ⟨valid, rfl, rfl, rfl, rfl⟩, rfl⟩

theorem Local.send (ideal : P.Ideal) (l : p.Local P) (msgType : Nat) (plaintext : Bytes) (rng : Rng) :
    (p.send P msgType plaintext rng).Local P := by
  cases l with
  | absent => exact .absent
  | @live sk s roots sent got live genuine =>
    have effect := encrypt_effect ideal live.bounded msgType plaintext rng
    rw [send_eq rfl]
    refine .live (live.encrypt ideal effect) fun m mem => ?_
    rcases List.mem_append.1 mem with old | new
    · exact genuine m old
    · obtain ⟨ck, hk, -, -, from', -⟩ := logged_from effect new
      exact ⟨_, from'⟩

/-- Either nothing happens, or the session (for a party without one, the one the
preamble makes) opens the message. -/
theorem receive_cases (cfg : Config) (ideal : P.Ideal) (p : Party) (valid : x.Valid P) (rng : Rng) :
    p.receive P cfg (x.wire P) rng = p ∨ ∃ s s' opened args,
      (p.session = some s ∨ p.session = none ∧
        forBootstrap P cfg.prekeys (x.parsed P) cfg.binding (cfg.params .responder) = .ok s) ∧
      s.openParsed P (x.parsed P) rng = .ok (s', opened, args) ∧
      p.receive P cfg (x.wire P) rng =
        { p with session := some s', roots := p.roots ++ args, got := p.got ++ [⟨x.wire P, opened⟩] } := by
  unfold receive
  cases h : p.openWire P cfg (x.wire P) rng with
  | error e => exact .inl rfl
  | ok r =>
    obtain ⟨s', opened, args⟩ := r
    right
    unfold openWire at h
    cases session : p.session with
    | some s =>
      rw [session] at h
      dsimp only at h
      rw [decrypt_wire ideal valid] at h
      exact ⟨s, s', opened, args, .inl rfl, h, rfl⟩
    | none =>
      rw [session] at h
      rw [acceptBound_wire ideal valid] at h
      obtain ⟨s, made, h⟩ := bind_ok.1 h
      exact ⟨s, s', opened, args, .inr ⟨rfl, made⟩, h, rfl⟩

theorem Local.receive (ideal : P.Ideal) (l : p.Local P) (valid : x.Valid P) (rng : Rng) :
    (p.receive P cfg (x.wire P) rng).Local P := by
  rcases p.receive_cases cfg ideal valid rng with same | ⟨s, s', opened, args, origin, h, eq⟩
  · rwa [same]
  · rw [eq]
    cases l with
    | absent =>
      obtain ⟨-, made⟩ := origin.resolve_left (by simp)
      obtain ⟨sk, params, -, fresh⟩ := forBootstrap_ok made
      have live : Live P sk [] s [] := by
        rw [fresh]
        exact ⟨.responder, responder_bounded ideal params _, by simp, List.nodup_nil⟩
      exact .live (live.openParsed ideal valid h) (by simp)
    | live live genuine =>
      cases origin.resolve_right (by simp)
      exact .live (live.openParsed ideal valid h) genuine

end Party

/-! ## Both parties -/

/-- `role` accepted only what its peer sent, as its peer sent it. -/
def Attributed (sys : System) (role : Role) : Prop :=
  ∀ a ∈ (sys role).got, ∃ m ∈ (sys role.peer).sent, m.wire = a.wire ∧ a.opened = ⟨m.msgType, m.plaintext⟩

structure Sound (P : Primitives) (sys : System) : Prop where
  parties : ∀ role, (sys role).Local P
  attributed : ∀ role, Attributed sys role

@[simp] theorem Role.peer_ne {role : Role} : role.peer ≠ role := by
  cases role <;> decide

@[simp] theorem Role.peer_peer (role : Role) : role.peer.peer = role := by
  cases role <;> rfl

theorem Party.Local.genuine {p : Party} (l : p.Local P) : ∀ m ∈ p.sent, ∃ x, m.From P x := by
  cases l with
  | absent => simp
  | live _ genuine => exact genuine

theorem Party.send_logs (p : Party) (msgType : Nat) (plaintext : Bytes) (rng : Rng) :
    (p.send P msgType plaintext rng).got = p.got ∧ p.sent ⊆ (p.send P msgType plaintext rng).sent := by
  cases session : p.session with
  | none =>
    unfold Party.send
    rw [session]
    exact ⟨rfl, List.Subset.refl _⟩
  | some s =>
    rw [Party.send_eq session]
    exact ⟨rfl, List.subset_append_left _ _⟩

theorem Sound.step (ideal : P.Ideal) (sound : Sound P sys) (act : Action) : Sound P (step P cfg sys act) := by
  cases act with
  | send role msgType plaintext rng =>
    obtain ⟨got, sent⟩ := (sys role).send_logs (P := P) msgType plaintext rng
    refine ⟨fun r => ?_, fun r a mem => ?_⟩
    · by_cases here : r = role
      · subst here
        simpa [Ratchet.step] using (sound.parties r).send ideal msgType plaintext rng
      · simpa [Ratchet.step, here] using sound.parties r
    · -- Nothing is accepted, and what was sent stays sent.
      have old : a ∈ (sys r).got := by
        by_cases here : r = role
        · subst here
          simpa [Ratchet.step, got] using mem
        · simpa [Ratchet.step, here] using mem
      obtain ⟨m, listed, fits⟩ := sound.attributed r a old
      refine ⟨m, ?_, fits⟩
      by_cases here : r.peer = role
      · subst here
        simpa [Ratchet.step] using sent listed
      · simpa [Ratchet.step, here] using listed
  | deliver role i rng =>
    unfold Ratchet.step
    dsimp only
    split
    · exact sound
    rename_i m get
    have listed : m ∈ (sys role.peer).sent := List.mem_of_getElem? get
    obtain ⟨x, origin⟩ := (sound.parties role.peer).genuine m listed
    rw [origin.wire]
    refine ⟨fun r => ?_, fun r a mem => ?_⟩
    · by_cases here : r = role
      · subst here
        simpa using (sound.parties r).receive ideal origin.valid rng
      · simpa [here] using sound.parties r
    · rcases (sys role).receive_cases cfg ideal origin.valid rng with same | ⟨s, s', opened, args, -, h, eq⟩
      · rw [same, update_eq_self] at mem ⊢
        exact sound.attributed r a mem
      · have peers : (update sys role ((sys role).receive P cfg (x.wire P) rng) r.peer).sent =
            (sys r.peer).sent := by
          by_cases here : r.peer = role
          · subst here
            simp [eq]
          · simp [here]
        rw [peers]
        by_cases here : r = role
        · subst here
          rw [update_self, eq] at mem
          rcases List.mem_append.1 mem with old | new
          · exact sound.attributed r a old
          · obtain rfl := List.mem_singleton.1 new
            obtain ⟨which, t, -, -, -, rfl⟩ := openParsed_ok ideal origin.valid h
            exact ⟨m, listed, origin.wire, by rw [origin.msgType, origin.plaintext]⟩
        · rw [update_of_ne here] at mem
          exact sound.attributed r a mem

theorem Sound.start (ideal : P.Ideal) {hsRng rng : Rng} (begin : start P cfg hsRng rng = .ok sys) : Sound P sys := by
  obtain ⟨⟨s, roots⟩, made, eq⟩ := bind_ok.1 begin
  obtain ⟨valid, rfl, rfl⟩ := initiateBound_ok ideal made
  cases eq
  refine ⟨fun role => ?_, fun role a mem => ?_⟩
  · cases role with
    | initiator =>
      refine .live ⟨.initiator, ?_, by simp, List.nodup_nil⟩ (by simp)
      exact initiator_bounded ideal valid (Handshake.preamble_valid ideal cfg.opk_id)
    | responder => exact .absent
  · cases role <;> cases mem

/-- Two messages with one wire say the same. -/
theorem Msg.From.same {m m' : Msg} {x y : Sealing} (ideal : P.Ideal) (h : m.From P x) (h' : m'.From P y)
    (wire : m.wire = m'.wire) : m.msgType = m'.msgType ∧ m.plaintext = m'.plaintext := by
  obtain ⟨header, -, text⟩ := h.valid.wire_inj ideal h'.valid (by rw [← h.wire, wire, h'.wire])
  exact ⟨by rw [h.msgType, header, h'.msgType], by rw [h.plaintext, text, h'.plaintext]⟩

/-- In every run, each accepted wire is one the peer produced and opens to what the
peer encrypted into it, and no wire is accepted twice. -/
theorem accepted_genuine_once (ideal : P.Ideal) {hsRng rng : Rng} {sys : System}
    (begin : start P cfg hsRng rng = .ok sys) (acts : List Action) (role : Role) :
    let after := run (step P cfg) sys acts
    (∀ a ∈ (after role).got, (∃ m ∈ (after role.peer).sent, m.wire = a.wire) ∧
      ∀ m ∈ (after role.peer).sent, m.wire = a.wire → a.opened = ⟨m.msgType, m.plaintext⟩) ∧
    ((after role).got.map (·.wire)).Nodup := by
  intro after
  have sound : Sound P after := run_invariant (fun _ act sound => sound.step ideal act) (Sound.start ideal begin) acts
  constructor
  · intro a mem
    obtain ⟨m, listed, wire, opened⟩ := sound.attributed role a mem
    refine ⟨⟨m, listed, wire⟩, fun m' listed' wire' => ?_⟩
    obtain ⟨x, origin⟩ := (sound.parties role.peer).genuine m listed
    obtain ⟨y, origin'⟩ := (sound.parties role.peer).genuine m' listed'
    obtain ⟨msgType, plaintext⟩ := origin.same ideal origin' (wire.trans wire'.symm)
    rw [opened, msgType, plaintext]
  · cases h : after role with
    | mk session roots sent got =>
      have l := sound.parties role
      rw [h] at l
      cases l with
      | absent => exact List.nodup_nil
      | live live => exact live.once

/-! ## A run to look at -/

def sampleRng : Rng := ⟨[1], [2], [3], List.replicate 12 0, rfl⟩

/-- Matching keys over the symbolic primitives, default parameters. -/
def sampleConfig : Config where
  identity := [10]
  bundle := {
    identity := symbolicPrimitives.x25519.pub [20]
    signedPrekey := symbolicPrimitives.x25519.pub [21]
    oneTimePrekey := some (7, symbolicPrimitives.x25519.pub [22])
    pqPrekey := symbolicPrimitives.mlkem.pub [23] }
  prekeys := ⟨[20], [21], [(7, [22])], [23]⟩
  binding := some (List.replicate 32 5)
  params := fun _ => default
  opk_id := by simp [u32Max]

theorem start_ok (cfg : Config) (ideal : P.Ideal) {skip : SkipParams} (pq : (cfg.params .initiator).pq.Valid)
    (limits : (cfg.params .initiator).skip.validated = .ok skip) (hsRng rng : Rng) :
    ∃ sys, start P cfg hsRng rng = .ok sys := by
  unfold start initiateBound SkippedKeys.new
  rw [Handshake.initiateBound_eq ideal]
  simp only [bind, Except.bind, PqRatchet.new_eq _ pq, limits, dh_ok ideal]
  exact ⟨_, rfl⟩

theorem accepted_genuine_once_sample :
    ∃ sys, start symbolicPrimitives sampleConfig sampleRng sampleRng = .ok sys ∧
      let after := run (step symbolicPrimitives sampleConfig) sys
        [.send .initiator 1 [104, 105] sampleRng, .deliver .responder 0 sampleRng, .deliver .responder 0 sampleRng]
      (∀ a ∈ (after .responder).got, (∃ m ∈ (after .initiator).sent, m.wire = a.wire) ∧
        ∀ m ∈ (after .initiator).sent, m.wire = a.wire → a.opened = ⟨m.msgType, m.plaintext⟩) ∧
      ((after .responder).got.map (·.wire)).Nodup := by
  obtain ⟨sys, begin⟩ := start_ok sampleConfig symbolicPrimitives_ideal ⟨by decide, by decide, by decide⟩ rfl
    sampleRng sampleRng
  exact ⟨sys, begin, accepted_genuine_once symbolicPrimitives_ideal begin _ .responder⟩

end Osl.Ratchet
