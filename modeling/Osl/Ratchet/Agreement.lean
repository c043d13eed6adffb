import Osl.Ratchet.Balance

/-!
# Both sides make the same root steps

At any time one side, the leader, is one root step ahead of the other: `Lead` says
that the follower will fold the same inputs, in the same order, when it sees the
leader's chain. `Linked` joins this with each side's own invariant, with what the
messages under way say of their sender, and with the epochs, and every send and
every delivery keeps it.
-/

namespace Osl.Ratchet

open Base PqRatchet Function Session

variable {P : Primitives} {sk plaintext : Bytes} {msgType : Nat} {rng : Rng} {s s' : Session} {args : List RootArgs}

/-! ## What a step without a root step keeps -/

structure Keeps (s s' : Session) : Prop where
  dhs : s'.dhs = s.dhs
  dhsPub : s'.dhsPub = s.dhsPub
  mix : s'.sendMixEpoch = s.sendMixEpoch
  pn : s'.pn = s.pn
  ns : s.ns ≤ s'.ns
  mixed : s'.pq.mixed = s.pq.mixed
  pqHave : s.pq.pqHave ≤ s'.pq.pqHave
  secrets : ∀ k ≤ s.pq.pqHave, s'.pq.secrets[k]? = s.pq.secrets[k]?

theorem Keeps.refl (s : Session) : Keeps s s := ⟨rfl, rfl, rfl, rfl, le_rfl, rfl, le_rfl, fun _ _ => rfl⟩

theorem Session.EncryptEffect.keeps (b : s.Bounded)
    {r : Result Bytes} (effect : s.EncryptEffect P msgType plaintext rng s' r) : Keeps s s' := by
  have pq : ∀ {q out}, SendEffect P s.pq rng q out →
      q.mixed = s.pq.mixed ∧ s.pq.pqHave ≤ q.pqHave ∧ ∀ k ≤ s.pq.pqHave, q.secrets[k]? = s.pq.secrets[k]? := by
    intro q out sent
    cases sent <;> exact ⟨rfl, le_rfl, fun _ _ => rfl⟩
  obtain ⟨mixed, pqHave, secrets⟩ := pq (onSend_effect b.pq.have_le rng)
  cases effect with
  | refused => exact .refl s
  | sealed => exact ⟨rfl, rfl, rfl, rfl, Nat.le_succ _, mixed, pqHave, secrets⟩

/-! ## Opening, seen from outside the chains -/

/-- What an opened message does to all but the receiving chain and the store. -/
inductive Outcome (P : Primitives) (s : Session) (header : RatchetHeader) (rng : Rng) :
    Session → List RootArgs → Prop where
  | stays {pq : PqRatchet} (skipped : SkippedKeys) (ckr : Option Bytes) (nr : Nat)
    (absorbed : absorbPq P s.pq header rng = .ok pq) :
    Outcome P s header rng { s with pq, skipped, ckr, nr, bootstrap := none } []
  | turns {pq : PqRatchet} {taken peeked : List Bytes} (skipped : SkippedKeys) (ckr : Option Bytes) (nr : Nat)
    (absorbed : absorbPq P s.pq header rng = .ok pq)
    (can : ({ s with pq }).CanTurn header taken peeked) :
    Outcome P s header rng
      { ({ s with pq } : Session).turn P header rng taken peeked with skipped, ckr, nr, bootstrap := none }
      [({ s with pq }).peerArgs P header taken, ({ s with pq }).ownArgs P header rng peeked]

theorem Outcome.of_openParsed (ideal : P.Ideal) {x : Sealing} (valid : x.Valid P)
    {opened : Opened} (h : s.openParsed P (x.parsed P) rng = .ok (s', opened, args)) :
    Outcome P s x.header rng s' args ∧ (args = [] ∨ x.headerKey = s.nhkr) := by
  obtain ⟨which, t, found, advanced, rfl, -⟩ := openParsed_ok ideal valid h
  cases (advanceFor_iff ideal).1 advanced with
  | stored absorbed => exact ⟨.stays _ _ _ absorbed, .inl rfl⟩
  | current absorbed _ chain =>
    obtain ⟨skipped, ckr, nr, rfl⟩ := chain.frame
    exact ⟨.stays _ _ _ absorbed, .inl rfl⟩
  | next absorbed can chain =>
    obtain ⟨skipped, ckr, nr, rfl⟩ := chain.frame
    refine ⟨.turns _ _ _ absorbed can, .inr ?_⟩
    simpa [candidates] using List.mem_of_find?_eq_some found

theorem Keeps.stays {s : Session} {header : RatchetHeader} {pq : PqRatchet}
    (absorbed : absorbPq P s.pq header rng = .ok pq) (skipped : SkippedKeys) (ckr : Option Bytes) (nr : Nat) :
    Keeps s { s with pq, skipped, ckr, nr, bootstrap := none } := by
  obtain ⟨grows, mixed, secrets⟩ := absorbPq_frame absorbed
  exact ⟨rfl, rfl, rfl, rfl, le_rfl, mixed, grows.pqHave, secrets⟩

/-! ## Messages under way -/

/-- What a message says of the session that sent it. -/
structure Wrote (P : Primitives) (sk : Bytes) (roots : List RootArgs) (s : Session) (m : Msg) (x : Sealing) : Prop where
  origin : m.From P x
  known : m.chain < roots.length
  headerKey : x.headerKey = hkAt P sk roots m.chain
  messageKey : x.messageKey = mkAt P sk roots m.chain m.header.n
  pqHave : m.header.pqHave ≤ s.pq.pqHave
  current : m.chain + 1 = roots.length → m.header.n < s.ns ∧ m.header.dhPub = s.dhsPub ∧ m.header.pn = s.pn ∧
    m.header.mixEpoch = s.sendMixEpoch
  previous : m.chain + 3 = roots.length → m.header.n < s.pn

section
variable {roots : List RootArgs} {m : Msg} {x : Sealing}

theorem Wrote.keeps (w : Wrote P sk roots s m x) (k : Keeps s s') : Wrote P sk roots s' m x :=
  { w with
    pqHave := w.pqHave.trans k.pqHave
    current := fun here => by
      obtain ⟨n, dhPub, pn, mix⟩ := w.current here
      exact ⟨n.trans_le k.ns, dhPub.trans k.dhsPub.symm, pn.trans k.pn.symm, mix.trans k.mix.symm⟩
    previous := fun here => by
      rw [k.pn]
      exact w.previous here }

/-- After a root step of its own and one of the peer, the chain is the previous one. -/
theorem Wrote.turned (w : Wrote P sk roots s m x) (a b : RootArgs) (pqHave : s.pq.pqHave ≤ s'.pq.pqHave)
    (pn : s'.pn = s.ns) : Wrote P sk (roots ++ [a, b]) s' m x where
  origin := w.origin
  known := by
    have := w.known
    simp only [List.length_append, List.length_cons, List.length_nil]
    omega
  headerKey := by
    have := w.known
    rw [w.headerKey, hkAt_append _ (by omega)]
  messageKey := by rw [w.messageKey, mkAt_append _ w.known]
  pqHave := w.pqHave.trans pqHave
  current here := by
    have := w.known
    simp only [List.length_append, List.length_cons, List.length_nil] at here
    omega
  previous here := by
    simp only [List.length_append, List.length_cons, List.length_nil] at here
    rw [pn]
    exact (w.current (by omega)).1

end

/-! ## The leader and its follower -/

/-- The leader `sl` has folded `c`, and so will the follower `sf`. -/
structure Lead (P : Primitives) (sl sf : Session) (rl rf : List RootArgs) (c : RootArgs) : Prop where
  roots : rl = rf ++ [c]
  dhOut : c.dhOut = P.x25519.shared sf.dhs sl.dhsPub
  dhsPub : sl.dhsPub = P.x25519.pub sl.dhs
  mix : c.mixEpoch = sl.sendMixEpoch
  known : c.mixEpoch ≤ sf.pq.pqHave
  secrets : sf.pq.peekMix c.mixEpoch = .ok c.pqSecrets
  mixed : sl.pq.mixed = max sf.pq.mixed c.mixEpoch

section
variable {sl sl' sf sf' : Session} {rl rf : List RootArgs} {c : RootArgs}

theorem Keeps.peekMix (k : Keeps s s') {mix : Nat} (known : mix ≤ s.pq.pqHave) :
    s'.pq.peekMix mix = s.pq.peekMix mix :=
  peekMix_congr k.mixed fun e _ below => k.secrets e (below.trans known)

theorem Lead.keeps (lead : Lead P sl sf rl rf c) (kl : Keeps sl sl') (kf : Keeps sf sf') : Lead P sl' sf' rl rf c where
  roots := lead.roots
  dhOut := by rw [lead.dhOut, kl.dhsPub, kf.dhs]
  dhsPub := by rw [kl.dhsPub, kl.dhs, lead.dhsPub]
  mix := lead.mix.trans kl.mix.symm
  known := lead.known.trans kf.pqHave
  secrets := (kf.peekMix lead.known).trans lead.secrets
  mixed := by rw [kl.mixed, kf.mixed, lead.mixed]

section
variable {header : RatchetHeader} {pq : PqRatchet} {taken peeked : List Bytes}

section
variable (lead : Lead P sl sf rl rf c) (absorbed : absorbPq P sf.pq header rng = .ok pq)
include lead absorbed

/-- The follower finds the secrets the leader folded. -/
theorem Lead.peek (mix : header.mixEpoch = sl.sendMixEpoch) : pq.peekMix header.mixEpoch = .ok c.pqSecrets := by
  have keeps := Keeps.stays absorbed sf.skipped sf.ckr sf.nr
  rw [mix, ← lead.mix]
  exact (keeps.peekMix lead.known).trans lead.secrets

theorem Lead.folds (can : ({ sf with pq }).CanTurn header taken peeked) (dhPub : header.dhPub = sl.dhsPub)
    (mix : header.mixEpoch = sl.sendMixEpoch) : ({ sf with pq } : Session).peerArgs P header taken = c := by
  have folded : taken = c.pqSecrets := Except.ok.inj (can.taken.symm.trans (lead.peek absorbed mix))
  unfold peerArgs
  rw [dhPub, mix, ← lead.mix, folded, ← lead.dhOut]

end

/-- The follower receives on the leader's chain: it folds `c` as well, and leads. -/
theorem Lead.turn (ideal : P.Ideal) (lead : Lead P sl sf rl rf c) (absorbed : absorbPq P sf.pq header rng = .ok pq)
    (can : ({ sf with pq }).CanTurn header taken peeked) (dhPub : header.dhPub = sl.dhsPub)
    (mix : header.mixEpoch = sl.sendMixEpoch) (target : pq.mixTarget ≤ sl.pq.pqHave)
    (agree : (pq.commitMix header.mixEpoch).mixed = sl.pq.mixed →
      (pq.commitMix header.mixEpoch).peekMix pq.mixTarget = sl.pq.peekMix pq.mixTarget)
    (skipped : SkippedKeys) (ckr : Option Bytes) (nr : Nat) :
    Lead P { ({ sf with pq } : Session).turn P header rng taken peeked with skipped, ckr, nr, bootstrap := none } sl
      (rf ++ [c, ({ sf with pq } : Session).ownArgs P header rng peeked]) rl
      (({ sf with pq } : Session).ownArgs P header rng peeked) := by
  have keeps := Keeps.stays absorbed skipped ckr nr
  have mixed : (pq.commitMix header.mixEpoch).mixed = sl.pq.mixed := by
    rw [commitMix_mixed, mix, ← lead.mix, lead.mixed, ← keeps.mixed]
  have afterPeer : (({ sf with pq } : Session).afterPeer header).mixTarget = pq.mixTarget := mixTarget_commitMix
  exact {
    roots := by rw [lead.roots, List.append_assoc]; rfl
    dhOut := by
      show P.x25519.shared rng.x25519 header.dhPub = P.x25519.shared sl.dhs (P.x25519.pub rng.x25519)
      rw [dhPub, lead.dhsPub, ideal.x25519.comm]
    dhsPub := rfl
    mix := rfl
    known := afterPeer.trans_le target
    secrets := by
      show sl.pq.peekMix (({ sf with pq } : Session).afterPeer header).mixTarget = .ok peeked
      rw [afterPeer, ← agree mixed, ← afterPeer]
      exact can.peeked
    mixed := by
      show ((({ sf with pq } : Session).afterPeer header).commitMix _).mixed = _
      rw [commitMix_mixed, ← mixed]
      rfl }

end

end

/-! ## The whole -/

structure Linked (P : Primitives) (sk : Bytes) (sys : System) (ses : Role → Session) : Prop where
  session : ∀ r, (sys r).session = some (ses r)
  live : ∀ r, Live P sk (sys r).roots (ses r) (sys r).got
  wrote : ∀ r, ∀ m ∈ (sys r).sent, ∃ x, Wrote P sk (sys r).roots (ses r) m x
  lead : ∃ l c, Lead P (ses l) (ses l.peer) (sys l).roots (sys l.peer).roots c
  balanced : ∃ e o, Balanced P e o (fun r => (ses r).pq) (fun r => (sys r).roots.length) (fun r => (sys r).sent)

theorem update_proj {α β : Type*} (g : α → β) (f : Role → α) (r : Role) (v : α) :
    (fun r' => g (update f r v r')) = update (fun r' => g (f r')) r (g v) := by
  funext r'
  by_cases here : r' = r
  · subst here
    simp
  · simp [here]

section
variable {sys : System} {ses : Role → Session} {cfg : Config} {p : Party} {r role : Role}

/-- A message just logged. -/
theorem Wrote.logged (keyed : Keyed P sk p.roots s) {r : Result Bytes}
    (effect : s.EncryptEffect P msgType plaintext rng s' r) {m : Msg}
    (mem : m ∈ p.logged P s msgType plaintext rng r) :
    m.chain + 1 = p.roots.length ∧ ∃ x, Wrote P sk p.roots s' m x := by
  obtain ⟨ck, hk, chain, key, origin, here⟩ := Party.logged_from effect mem
  have started : p.roots.length ≠ 0 := by
    intro none
    cases (keyed.silent none).symm.trans chain
  have last : m.chain + 1 = p.roots.length := by omega
  obtain ⟨chain', key'⟩ := keyed.sending m.chain last
  cases chain'.symm.trans chain
  cases key'.symm.trans key
  refine ⟨last, _, origin, by omega, rfl, ?_, ?_, ?_, by omega⟩
  · rw [origin.header]
    rfl
  all_goals cases effect with
    | refused => cases mem
    | sealed =>
      rw [origin.header]
      first
        | exact le_rfl
        | exact fun _ => ⟨Nat.lt_succ_self _, rfl, rfl, rfl⟩

/-- One side moves without a root step. -/
theorem Linked.keep (linked : Linked P sk sys ses) (role : Role) (keeps : Keeps (ses role) s')
    (session : p.session = some s') (roots : p.roots = (sys role).roots) (live : Live P sk p.roots s' p.got)
    (wrote : ∀ m ∈ p.sent, ∃ x, Wrote P sk p.roots s' m x)
    (balanced : ∃ e o, Balanced P e o (update (fun r => (ses r).pq) role s'.pq)
      (fun r => (sys r).roots.length) (update (fun r => (sys r).sent) role p.sent)) :
    Linked P sk (update sys role p) (update ses role s') where
  session r := by
    by_cases here : r = role
    · subst here
      simpa using session
    · simpa [here] using linked.session r
  live r := by
    by_cases here : r = role
    · subst here
      simpa using live
    · simpa [here] using linked.live r
  wrote r := by
    by_cases here : r = role
    · subst here
      simpa using wrote
    · simpa [here] using linked.wrote r
  lead := by
    obtain ⟨l, c, lead⟩ := linked.lead
    refine ⟨l, c, ?_⟩
    rcases l.eq_or_peer role with rfl | rfl
    · simpa [roots] using lead.keeps keeps (.refl _)
    · simpa [roots, (Role.peer_ne).symm] using lead.keeps (.refl _) keeps
  balanced := by
    have lengths : (fun r => (update sys role p r).roots.length) = fun r => (sys r).roots.length := by
      rw [update_proj fun p : Party => p.roots.length, roots]
      exact update_eq_self role fun r => (sys r).roots.length
    rw [update_proj fun s : Session => s.pq, update_proj fun p : Party => p.sent, lengths]
    exact balanced

theorem Linked.send (ideal : P.Ideal) (linked : Linked P sk sys ses) (role : Role) (msgType : Nat) (plaintext : Bytes)
    (rng : Rng) : Linked P sk (step P cfg sys (.send role msgType plaintext rng))
      (update ses role ((ses role).encrypt P msgType plaintext rng).1) := by
  have live := linked.live role
  have effect := encrypt_effect ideal live.bounded msgType plaintext rng
  have keeps := effect.keeps live.bounded
  unfold step
  dsimp only
  rw [Party.send_eq (linked.session role)]
  refine linked.keep role keeps rfl rfl (live.encrypt ideal effect) ?_ ?_
  · intro m mem
    rcases List.mem_append.1 mem with old | new
    · obtain ⟨x, wrote⟩ := linked.wrote role m old
      exact ⟨x, wrote.keeps keeps⟩
    · exact (Wrote.logged live.keyed effect new).2
  · obtain ⟨e, o, bal⟩ := linked.balanced
    refine ⟨e, o, ?_⟩
    have sent := onSend_effect (P := P) live.bounded.pq.have_le rng
    have logged : ∀ m ∈ (sys role).logged P (ses role) msgType plaintext rng
        ((ses role).encrypt P msgType plaintext rng).2,
        m.header.fragment = ((ses role).pq.onSend P rng).2 ∧ m.chain + 1 = (sys role).roots.length := by
      intro m mem
      obtain ⟨ck, hk, -, -, origin, -⟩ := Party.logged_from effect mem
      exact ⟨by rw [origin.header]; rfl, (Wrote.logged live.keyed effect mem).1⟩
    generalize h : (ses role).encrypt P msgType plaintext rng = result at effect logged ⊢
    obtain ⟨s', r⟩ := result
    cases effect with
    | refused =>
      simp only [Party.logged, List.append_nil]
      rwa [update_eq_self role fun r => (ses r).pq, update_eq_self role fun r => (sys r).sent]
    | sealed => exact bal.send ideal live.bounded.pq sent logged

/-! ### Deliveries -/

/-- One side is exactly one root step ahead. -/
theorem Linked.lengths (linked : Linked P sk sys ses) (r : Role) :
    (sys r).roots.length = (sys r.peer).roots.length + 1 ∨ (sys r.peer).roots.length = (sys r).roots.length + 1 := by
  obtain ⟨l, c, lead⟩ := linked.lead
  have length := congrArg List.length lead.roots
  rw [List.length_append, List.length_singleton] at length
  rcases l.eq_or_peer r with rfl | rfl
  · exact .inl length
  · exact .inr (by rwa [Role.peer_peer])

section

variable (linked : Linked P sk sys ses) {x : Sealing} {m : Msg}
include linked

/-- The side that is ahead is the leader. -/
theorem Linked.leading (ahead : (sys r.peer).roots.length = (sys r).roots.length + 1) :
    ∃ c, Lead P (ses r.peer) (ses r) (sys r.peer).roots (sys r).roots c := by
  obtain ⟨l, c, lead⟩ := linked.lead
  have length := congrArg List.length lead.roots
  rw [List.length_append, List.length_singleton] at length
  rcases l.eq_or_peer r with rfl | rfl
  · omega
  · exact ⟨c, by rwa [Role.peer_peer]⟩

/-- Header keys of chains both sides know are the same. -/
theorem Linked.hkAt_eq {r : Role} {k : Nat} (mine : k ≤ (sys r).roots.length)
    (theirs : k ≤ (sys r.peer).roots.length) : hkAt P sk (sys r.peer).roots k = hkAt P sk (sys r).roots k := by
  obtain ⟨l, c, lead⟩ := linked.lead
  rcases l.eq_or_peer r with rfl | rfl
  · rw [lead.roots, hkAt_append _ (by omega)]
  · rw [Role.peer_peer] at theirs ⊢
    rw [lead.roots, hkAt_append _ (by omega)]

theorem Linked.headerKey
    (wrote : Wrote P sk (sys r.peer).roots (ses r.peer) m x) : x.headerKey = hkAt P sk (sys r).roots m.chain := by
  have known := wrote.known
  have lengths := linked.lengths r
  rw [wrote.headerKey, linked.hkAt_eq (by omega) (by omega)]

theorem Linked.arrival_behind
    (listed : m ∈ (sys r.peer).sent) (wrote : Wrote P sk (sys r.peer).roots (ses r.peer) m x)
    (behind : m.chain + 2 ≤ (sys r).roots.length) :
    Arrival r (fun r => (ses r).pq) (fun r => (sys r).roots.length) (fun r => (sys r).sent) m false := by
  have lengths := linked.lengths r
  exact ⟨listed, wrote.origin.header ▸ wrote.origin.valid.header, wrote.pqHave, by simp, fun _ => behind, by omega⟩

end

section

variable {m : Msg} {x : Sealing} (ideal : P.Ideal) (linked : Linked P sk sys ses) (listed : m ∈ (sys r.peer).sent)
  (wrote : Wrote P sk (sys r.peer).roots (ses r.peer) m x)
include ideal linked listed wrote

/-- A message opened without a root step is on a chain behind us. -/
theorem Linked.arrival_stays {opened : Opened} (h : (ses r).openParsed P (x.parsed P) rng = .ok (s', opened, [])) :
    Arrival r (fun r => (ses r).pq) (fun r => (sys r).roots.length) (fun r => (sys r).sent) m false := by
  obtain ⟨-, k, key, uses⟩ := (linked.live r).keyed.openParsed ideal wrote.origin.valid h
  rw [List.append_nil, linked.headerKey wrote] at key
  obtain rfl := hkAt_inj ideal key
  have past := uses.spent.1
  rw [List.append_nil] at past
  refine linked.arrival_behind listed wrote ?_
  rcases past with before | ⟨here, -⟩ <;> omega

/-- One opened with a root step is on the leader's chain. -/
theorem Linked.arrival_turns (key : x.headerKey = (ses r).nhkr) :
    m.chain = (sys r).roots.length ∧ (sys r.peer).roots.length = (sys r).roots.length + 1 ∧
      Arrival r (fun r => (ses r).pq) (fun r => (sys r).roots.length) (fun r => (sys r).sent) m true := by
  rw [linked.headerKey wrote, (linked.live r).keyed.nextReceiving] at key
  have chain := hkAt_inj ideal key
  have known := wrote.known
  have lengths := linked.lengths r
  have ahead : (sys r.peer).roots.length = (sys r).roots.length + 1 := by omega
  obtain ⟨c, lead⟩ := linked.leading ahead
  have mix := (wrote.current (by omega)).2.2.2
  refine ⟨chain, ahead, listed, wrote.origin.header ▸ wrote.origin.valid.header, wrote.pqHave, fun _ => ⟨chain, ahead, ?_⟩,
    by simp, by omega⟩
  rw [mix, ← lead.mix, lead.mixed]
  exact le_max_right _ _

theorem Linked.stays {opened : Opened} (h : (ses r).openParsed P (x.parsed P) rng = .ok (s', opened, []))
    (outcome : Outcome P (ses r) m.header rng s' []) :
    Linked P sk (update sys r
      { sys r with session := some s', roots := (sys r).roots ++ [], got := (sys r).got ++ [⟨x.wire P, opened⟩] })
      (update ses r s') := by
  have arrival := linked.arrival_stays ideal listed wrote h
  obtain ⟨e, o, bal⟩ := linked.balanced
  obtain ⟨q, e', o', eq, -, -, -, bal'⟩ := bal.receive ideal (linked.live r).bounded.pq arrival rng
  have live := (linked.live r).openParsed ideal wrote.origin.valid h
  cases outcome with
  | stays skipped ckr nr absorbed =>
    cases eq.symm.trans absorbed
    have keeps := Keeps.stays absorbed skipped ckr nr
    refine linked.keep r keeps rfl (List.append_nil _) live ?_ ⟨e', o', ?_⟩
    · intro m' mem
      obtain ⟨y, wrote'⟩ := linked.wrote r m' mem
      rw [List.append_nil]
      exact ⟨y, wrote'.keeps keeps⟩
    · simp only [mixedBy, Bool.false_eq_true, if_false, Nat.add_zero] at bal'
      rw [update_eq_self r fun r => (sys r).roots.length] at bal'
      rwa [update_eq_self r fun r => (sys r).sent]

theorem Linked.turns {opened : Opened} (h : (ses r).openParsed P (x.parsed P) rng = .ok (s', opened, args))
    (outcome : Outcome P (ses r) m.header rng s' args) (key : x.headerKey = (ses r).nhkr) (some : args ≠ []) :
    Linked P sk (update sys r
      { sys r with session := .some s', roots := (sys r).roots ++ args, got := (sys r).got ++ [⟨x.wire P, opened⟩] })
      (update ses r s') := by
  obtain ⟨chain, ahead, arrival⟩ := linked.arrival_turns ideal listed wrote key
  obtain ⟨c, lead⟩ := linked.leading ahead
  obtain ⟨-, dhPub, -, mix⟩ := wrote.current (by omega)
  obtain ⟨e, o, bal⟩ := linked.balanced
  obtain ⟨q, e', o', eq, -, synced, up, bal'⟩ := bal.receive ideal (linked.live r).bounded.pq arrival rng
  have live := (linked.live r).openParsed ideal wrote.origin.valid h
  have other : r ≠ r.peer := (Role.peer_ne).symm
  cases outcome with
  | stays => exact absurd rfl some
  | @turns pq taken peeked skipped ckr nr absorbed can =>
    cases eq.symm.trans absorbed
    have mixKnown : m.header.mixEpoch ≤ e' :=
      (arrival.next rfl).2.2.trans ((bal.bounds r.peer).2.2.1.trans up)
    have target : q.mixTarget ≤ e' := by simpa using synced.target_le r
    have folded := lead.folds absorbed can dhPub mix
    have lead' := lead.turn ideal absorbed can dhPub mix
      (target.trans (by simpa using synced.have_ge r.peer))
      (fun mixed => by
        have peek := (synced.mix r mixKnown).peek r (by simpa using mixed) target
        simpa using peek)
      skipped ckr nr
    refine ⟨fun r' => ?_, fun r' => ?_, fun r' => ?_,
      ⟨r, ({ ses r with pq := q } : Session).ownArgs P m.header rng peeked, ?_⟩, ⟨e', o', ?_⟩⟩
    · by_cases here : r' = r
      · subst here
        simp
      · simpa [here] using linked.session r'
    · by_cases here : r' = r
      · subst here
        simpa using live
      · simpa [here] using linked.live r'
    · by_cases here : r' = r
      · subst here
        rw [update_self, update_self]
        intro m' mem
        obtain ⟨y, wrote'⟩ := linked.wrote r' m' mem
        refine ⟨y, wrote'.turned _ _ ?_ rfl⟩
        have grows := (absorbPq_frame absorbed).1
        exact ((grows.trans (commitMix_grows)).trans (commitMix_grows)).pqHave
      · simpa [here] using linked.wrote r'
    · rw [update_self, update_self, update_of_ne other.symm, update_of_ne other.symm, folded]
      exact lead'
    · rw [update_proj fun s : Session => s.pq, update_proj fun p : Party => p.roots.length, update_proj fun p : Party => p.sent,
        update_eq_self r fun r => (sys r).sent, List.length_append]
      exact bal'

theorem Linked.opened {opened : Opened} (h : (ses r).openParsed P (x.parsed P) rng = .ok (s', opened, args)) :
    Linked P sk (update sys r
      { sys r with session := some s', roots := (sys r).roots ++ args, got := (sys r).got ++ [⟨x.wire P, opened⟩] })
      (update ses r s') := by
  obtain ⟨outcome, key⟩ := Outcome.of_openParsed ideal wrote.origin.valid h
  rw [← wrote.origin.header] at outcome
  by_cases stays : args = []
  · subst stays
    exact linked.stays ideal listed wrote h outcome
  · exact linked.turns ideal listed wrote h outcome (key.resolve_left stays) stays

end

/-- A delivery does nothing, or the message opens. -/
theorem Linked.deliver_cases (ideal : P.Ideal) (linked : Linked P sk sys ses) {i : Nat} {rng : Rng} :
    step P cfg sys (.deliver role i rng) = sys ∨ ∃ m x s' opened args, (sys role.peer).sent[i]? = some m ∧
      Wrote P sk (sys role.peer).roots (ses role.peer) m x ∧
      (ses role).openParsed P (x.parsed P) rng = .ok (s', opened, args) ∧
      step P cfg sys (.deliver role i rng) = update sys role
        { sys role with
          session := some s', roots := (sys role).roots ++ args, got := (sys role).got ++ [⟨x.wire P, opened⟩] } := by
  unfold step
  dsimp only
  split
  · exact .inl rfl
  rename_i m get
  obtain ⟨x, wrote⟩ := linked.wrote role.peer m (List.mem_of_getElem? get)
  rw [wrote.origin.wire]
  rcases (sys role).receive_cases cfg ideal wrote.origin.valid rng with same | ⟨s, s', opened, args, origin, h, eq⟩
  · exact .inl (by rw [same, update_eq_self])
  · have present := linked.session role
    obtain rfl : s = ses role := by
      rcases origin with session | ⟨absent, -⟩
      · exact Option.some.inj (session.symm.trans present)
      · cases absent.symm.trans present
    exact .inr ⟨m, x, s', opened, args, get, wrote, h, by rw [eq]⟩

theorem Linked.deliver (ideal : P.Ideal) (linked : Linked P sk sys ses) (role : Role) (i : Nat) (rng : Rng) :
    ∃ ses', Linked P sk (step P cfg sys (.deliver role i rng)) ses' := by
  rcases linked.deliver_cases ideal with same | ⟨m, x, s', opened, args, get, wrote, h, eq⟩
  · rw [same]
    exact ⟨ses, linked⟩
  · rw [eq]
    exact ⟨_, linked.opened ideal (List.mem_of_getElem? get) wrote h⟩

theorem Linked.step (ideal : P.Ideal) (linked : Linked P sk sys ses) (act : Action) :
    ∃ ses', Linked P sk (step P cfg sys act) ses' := by
  cases act with
  | send role msgType plaintext rng => exact ⟨_, linked.send ideal role msgType plaintext rng⟩
  | deliver role i rng => exact linked.deliver ideal role i rng

end

end Osl.Ratchet
