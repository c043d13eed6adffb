import Osl.Ratchet.Runs
import Osl.Ratchet.Waiting

/-!
# First deliveries succeed

As long as the receiver's store has room, every message it has not accepted yet is
one it can open: it is on the chain the receiver expects next, or the receiver is
`Waiting` for it (`Pending`). The epochs never stand in the way, since `Balanced`
leaves every fragment room and every mix its secrets.
-/

namespace Osl.Ratchet

open Base PqRatchet Function

/-! ## Which key opens a header -/

namespace Session

variable {P : Primitives} {s : Session} {hk : Bytes} {x : Sealing} {rng : Rng} {which : Opener}

theorem find_current (key : s.hkr = some hk) : s.candidates.find? (·.2 = hk) = some (.current, hk) := by
  simp [candidates, key]

theorem find_next (other : s.hkr ≠ some s.nhkr) : s.candidates.find? (·.2 = s.nhkr) = some (.next, s.nhkr) := by
  cases key : s.hkr with
  | none => simp [candidates, key]
  | some hk =>
    have ne : hk ≠ s.nhkr := fun eq => other (key.trans (congrArg some eq))
    simp [candidates, key, ne]

theorem find_stored (stored : hk ∈ s.skipped.headerKeys) (current : s.hkr ≠ some hk) (next : s.nhkr ≠ hk) :
    s.candidates.find? (·.2 = hk) = some (.stored hk, hk) := by
  have listed : (Opener.stored hk, hk) ∈ s.candidates := by
    simpa [candidates, stored] using fun eq => current eq.symm
  obtain ⟨⟨which, key⟩, found⟩ : ∃ c, s.candidates.find? (·.2 = hk) = some c :=
    Option.isSome_iff_exists.1 (List.find?_isSome.2 ⟨_, listed, by simp⟩)
  obtain rfl : key = hk := by simpa using List.find?_some found
  rw [found]
  have mem := List.mem_of_find?_eq_some found
  simp only [candidates, List.mem_append, Option.mem_toList, Option.map_eq_some_iff, Prod.mk.injEq, List.mem_singleton,
    List.mem_map] at mem
  rcases mem with (⟨_, has, -, rfl⟩ | ⟨-, eq⟩) | ⟨_, -, rfl, rfl⟩
  · exact absurd has current
  · exact absurd eq.symm next
  · rfl

theorem Spacious.fits (ideal : P.Ideal) (valid : x.Valid P) (spacious : s.Spacious P (x.parsed P) rng)
    (found : s.candidates.find? (·.2 = x.headerKey) = some (which, hk)) :
    s.Fits P x.header which ∧ ∀ {t key args}, s.AdvanceEffect P x.header rng which t key args →
      t.skipped.NothingExpires := by
  obtain ⟨fits, keep⟩ := spacious which x.header (by
    show openHeader P (headerNonce x.nonce) (adHeader ++ x.head) (x.headerCt P) s.candidates = _
    rw [Sealing.openHeader_eq ideal valid, found])
  exact ⟨fits, fun effect => keep _ _ _ ((advanceFor_iff ideal).2 effect)⟩

end Session

variable {P : Primitives} {cfg : Config} {sk plaintext : Bytes} {sys : System} {ses : Role → Session}
  {k n msgType i : Nat} {roots : List RootArgs} {s s' v : Session} {r : Role} {x : Sealing} {rng hsRng : Rng} {act : Action}

theorem Keyed.receives_on (ideal : P.Ideal) (keyed : Keyed P sk roots s)
    (key : s.hkr = some (hkAt P sk roots k)) : k + 2 = roots.length := by
  by_cases early : roots.length < 2
  · cases (keyed.deaf early).2.symm.trans key
  · have current := (keyed.receiving (roots.length - 2) (by omega)).2
    have := hkAt_inj ideal (Option.some.inj (current.symm.trans key))
    omega

theorem Keyed.waiting_known (ideal : P.Ideal) (keyed : Keyed P sk roots s)
    (w : s.Waiting (hkAt P sk roots k) n) : k + 2 ≤ roots.length := by
  rcases w with ⟨current, -⟩ | ⟨v, held⟩
  · exact (keyed.receives_on ideal current).le
  · obtain ⟨j, same, -, past⟩ := keyed.stock.origin held
    obtain rfl := hkAt_inj ideal same
    rcases past with before | ⟨here, -⟩ <;> omega

/-! ## The right key -/

theorem Linked.mkAt_eq (linked : Linked P sk sys ses) (mine : k < (sys r).roots.length)
    (theirs : k < (sys r.peer).roots.length) : mkAt P sk (sys r.peer).roots k n = mkAt P sk (sys r).roots k n := by
  obtain ⟨l, c, lead⟩ := linked.lead
  rcases l.eq_or_peer r with rfl | rfl
  · rw [lead.roots, mkAt_append _ theirs]
  · rw [Role.peer_peer] at theirs ⊢
    rw [lead.roots, mkAt_append _ mine]

section
variable {m : Msg} {x : Sealing} {rng : Rng}

section

variable (ideal : P.Ideal) (linked : Linked P sk sys ses) (listed : m ∈ (sys r.peer).sent)
  (wrote : Wrote P sk (sys r.peer).roots (ses r.peer) m x) {args : List RootArgs}
include ideal linked listed wrote

/-- The key that receiving arrives at is the one the message was sealed under. -/
theorem Linked.key_eq {which : Opener} {t : Session} {key : Bytes} (mem : (which, x.headerKey) ∈ (ses r).candidates)
    (effect : (ses r).AdvanceEffect P x.header rng which t key args) : key = x.messageKey := by
  have keyed := (linked.live r).keyed
  have lengths := linked.lengths r
  have known := wrote.known
  obtain ⟨-, k, same, uses⟩ := keyed.advance ideal mem wrote.origin.valid.header effect
  rw [linked.headerKey wrote, ← hkAt_append args (by omega)] at same
  obtain rfl := hkAt_inj ideal same
  rw [uses.key, wrote.messageKey, ← wrote.origin.header]
  have behind : args = [] → mkAt P sk ((sys r).roots ++ args) m.chain m.header.n =
      mkAt P sk (sys r.peer).roots m.chain m.header.n := by
    rintro rfl
    have past := uses.spent.1
    rw [List.append_nil] at past ⊢
    have : m.chain + 2 ≤ (sys r).roots.length := by
      rcases past with before | ⟨here, -⟩ <;> omega
    exact (linked.mkAt_eq (by omega) known).symm
  cases effect with
  | stored => exact behind rfl
  | current => exact behind rfl
  | next absorbed can =>
    obtain ⟨chain, ahead, -⟩ := linked.arrival_turns ideal listed wrote (by simpa [Session.candidates] using mem)
    obtain ⟨c, lead⟩ := linked.leading ahead
    obtain ⟨-, dhPub, -, mix⟩ := wrote.current (by omega)
    rw [wrote.origin.header] at dhPub mix
    rw [lead.folds absorbed can dhPub mix, ← List.singleton_append, ← List.append_assoc, ← lead.roots, mkAt_append _ known]

/-! ## Opening what is waited for -/

/-- A message behind us is received by the receiving chain or from the store. -/
theorem Linked.advances_behind (w : (ses r).Waiting (hkAt P sk (sys r).roots m.chain) x.header.n)
    (spacious : (ses r).Spacious P (x.parsed P) rng) :
    ∃ which t key, (ses r).candidates.find? (·.2 = x.headerKey) = some (which, x.headerKey) ∧
      (ses r).AdvanceEffect P x.header rng which t key [] := by
  have keyed := (linked.live r).keyed
  have known := keyed.waiting_known ideal w
  obtain ⟨e, o, bal⟩ := linked.balanced
  obtain ⟨q, -, -, absorbed, -⟩ :=
    bal.receive ideal (linked.live r).bounded.pq (linked.arrival_behind listed wrote known) rng
  rw [wrote.origin.header] at absorbed
  rw [← linked.headerKey wrote] at w
  have take : ∀ {v}, Holds (ses r).skipped.chains x.headerKey x.header.n v →
      ∃ skipped, (ses r).skipped.take x.headerKey x.header.n = some (v.1, skipped) :=
    fun held => SkippedKeys.take_of_holds keyed.stock.distinct held
  by_cases current : m.chain + 2 = (sys r).roots.length
  · obtain ⟨chain, key⟩ := keyed.receiving m.chain current
    rw [← linked.headerKey wrote] at key
    have found := Session.find_current key
    obtain ⟨limit, -⟩ := (spacious.fits ideal wrote.origin.valid found).1
    by_cases old : x.header.n < (ses r).nr
    · obtain ⟨v, held⟩ := w.resolve_left fun ahead => by omega
      obtain ⟨skipped, taken⟩ := take held
      exact ⟨_, _, _, found, .current absorbed key (.late old taken)⟩
    · exact ⟨_, _, _, found, .current absorbed key (.ahead (Nat.le_of_not_lt old) limit chain)⟩
  · -- Neither the receiving chain nor the next one: only the store is left.
    have notCurrent : (ses r).hkr ≠ some x.headerKey := by
      rw [linked.headerKey wrote]
      exact fun key => current (keyed.receives_on ideal key)
    have notNext : (ses r).nhkr ≠ x.headerKey := by
      intro key
      rw [linked.headerKey wrote, keyed.nextReceiving] at key
      have := hkAt_inj ideal key
      omega
    obtain ⟨v, held⟩ := w.resolve_left fun ahead => notCurrent ahead.1
    obtain ⟨skipped, taken⟩ := take held
    obtain ⟨c, mem, same, -⟩ := held
    exact ⟨_, _, _, Session.find_stored (List.mem_map.2 ⟨c, mem, same⟩) notCurrent notNext, .stored absorbed taken⟩

/-- A message on the chain expected next is received by a root step. -/
theorem Linked.advances_next (next : m.chain = (sys r).roots.length)
    (spacious : (ses r).Spacious P (x.parsed P) rng) :
    ∃ which t key args, (ses r).candidates.find? (·.2 = x.headerKey) = some (which, x.headerKey) ∧
      (ses r).AdvanceEffect P x.header rng which t key args := by
  have keyed := (linked.live r).keyed
  have headerKey : x.headerKey = (ses r).nhkr := by rw [linked.headerKey wrote, next, keyed.nextReceiving]
  obtain ⟨-, ahead, arrival⟩ := linked.arrival_turns ideal listed wrote headerKey
  obtain ⟨c, lead⟩ := linked.leading ahead
  obtain ⟨-, -, -, mix⟩ := wrote.current (by omega)
  obtain ⟨e, o, bal⟩ := linked.balanced
  obtain ⟨q, e', o', absorbed, -, synced, up, -⟩ := bal.receive ideal (linked.live r).bounded.pq arrival rng
  have mixKnown : m.header.mixEpoch ≤ e' := (arrival.next rfl).2.2.trans ((bal.bounds r.peer).2.2.1.trans up)
  have target : (q.commitMix m.header.mixEpoch).mixTarget ≤ e' := by
    rw [mixTarget_commitMix]
    simpa using synced.target_le r
  obtain ⟨peeked, peek⟩ := (synced.mix r mixKnown).peek_ok r target
  have pqHave : e' ≤ q.pqHave := by simpa using synced.have_ge r
  rw [wrote.origin.header] at absorbed mix mixKnown peek
  have notCurrent : (ses r).hkr ≠ some (ses r).nhkr := by
    rw [keyed.nextReceiving]
    intro key
    have := keyed.receives_on ideal key
    omega
  have found := Session.find_next notCurrent
  rw [← headerKey] at found
  obtain ⟨closing, skip, -⟩ := (spacious.fits ideal wrote.origin.valid found).1
  have can : ({ ses r with pq := q }).CanTurn x.header c.pqSecrets peeked := {
    drain := by
      intro deaf
      by_cases early : (sys r).roots.length < 2
      · rw [show ({ ses r with pq := q } : Session).ckr = none from (keyed.deaf early).1] at deaf
        cases deaf
      · exact (closing _ (keyed.receiving ((sys r).roots.length - 2) (by omega)).2).1
    skip := skip
    known := .inr (mixKnown.trans pqHave)
    taken := lead.peek absorbed mix
    peeked := by simpa [Session.afterPeer] using peek }
  have limit : x.header.n - 0 ≤ ((ses r).drainChain P x.header.pn).params.maxSkipPerMessage := by
    rwa [Session.drainChain_params]
  exact ⟨_, _, _, _, found, .next absorbed can (.ahead (Nat.zero_le _) limit rfl)⟩

theorem Linked.opens
    (w : m.chain = (sys r).roots.length ∨ (ses r).Waiting (hkAt P sk (sys r).roots m.chain) m.header.n)
    (spacious : (ses r).Spacious P (x.parsed P) rng) :
    ∃ s' args, (ses r).openParsed P (x.parsed P) rng = .ok (s', ⟨m.msgType, m.plaintext⟩, args) := by
  obtain ⟨which, t, key, args, found, effect⟩ : ∃ which t key args,
      (ses r).candidates.find? (·.2 = x.headerKey) = some (which, x.headerKey) ∧
        (ses r).AdvanceEffect P x.header rng which t key args := by
    rcases w with next | w
    · exact linked.advances_next ideal listed wrote next spacious
    · rw [wrote.origin.header] at w
      obtain ⟨which, t, key, advanced⟩ := linked.advances_behind ideal listed wrote w spacious
      exact ⟨which, t, key, [], advanced⟩
  obtain rfl := linked.key_eq ideal listed wrote (List.mem_of_find?_eq_some found) effect
  rw [wrote.origin.msgType, wrote.origin.plaintext]
  exact ⟨_, _, Session.openParsed_of_advance ideal wrote.origin.valid found ((Session.advanceFor_iff ideal).2 effect)⟩

end

end

/-! ## No message is lost -/

/-- What `r` has not accepted of its peer's messages, it can still open. -/
structure Pending (P : Primitives) (sk : Bytes) (sys : System) (ses : Role → Session) (r : Role) : Prop where
  distinct : ((sys r.peer).sent.map fun m => (m.chain, m.header.n)).Nodup
  behind : (sys r).roots.length = (sys r.peer).roots.length + 1 → (ses r).nr ≤ (ses r.peer).ns
  waiting : ∀ m ∈ (sys r.peer).sent, m.wire ∈ (sys r).got.map (·.wire) ∨ m.chain = (sys r).roots.length ∨
    (ses r).Waiting (hkAt P sk (sys r).roots m.chain) m.header.n

theorem Session.EncryptEffect.waiting
    {result : Result Bytes} (effect : s.EncryptEffect P msgType plaintext rng s' result) :
    s'.nr = s.nr ∧ ∀ {hk n}, s.Waiting hk n → s'.Waiting hk n := by
  cases effect <;> exact ⟨rfl, id⟩

theorem Pending.send (ideal : P.Ideal) (linked : Linked P sk sys ses) (pending : ∀ r, Pending P sk sys ses r) (role : Role)
    (msgType : Nat) (plaintext : Bytes) (rng : Rng) (r : Role) :
    Pending P sk (step P cfg sys (.send role msgType plaintext rng))
      (update ses role ((ses role).encrypt P msgType plaintext rng).1) r := by
  have live := linked.live role
  have effect := Session.encrypt_effect ideal live.bounded msgType plaintext rng
  have other := pending r
  unfold step
  dsimp only
  rw [Party.send_eq (linked.session role)]
  rcases role.eq_or_peer r with rfl | rfl
  · -- Its own receiving side does not change.
    obtain ⟨nr, waiting⟩ := effect.waiting
    refine ⟨?_, ?_, ?_⟩
    · simpa using other.distinct
    · simpa [nr] using other.behind
    · intro m mem
      have := other.waiting m (by simpa using mem)
      simpa using this.imp_right (Or.imp_right waiting)
  · obtain ⟨distinct, behind, waiting⟩ := other
    rw [Role.peer_peer] at distinct behind waiting
    have new : ∀ m ∈ (sys role).logged P (ses role) msgType plaintext rng
        ((ses role).encrypt P msgType plaintext rng).2,
        m.chain + 1 = (sys role).roots.length ∧ m.header.n = (ses role).ns := by
      intro m mem
      obtain ⟨ck, hk, -, -, origin, -⟩ := Party.logged_from effect mem
      exact ⟨(Wrote.logged live.keyed effect mem).1, by rw [origin.header]; rfl⟩
    refine ⟨?_, ?_, ?_⟩
    · rw [Role.peer_peer, update_self, List.map_append, List.nodup_append]
      refine ⟨distinct, ?_, ?_⟩
      · cases ((ses role).encrypt P msgType plaintext rng).2 <;> simp [Party.logged]
      · rintro _ old _ last rfl
        obtain ⟨m, mem, rfl⟩ := List.mem_map.1 old
        obtain ⟨m', mem', eq⟩ := List.mem_map.1 last
        obtain ⟨chain, n⟩ := Prod.mk.inj eq
        obtain ⟨x, wrote⟩ := linked.wrote role m mem
        obtain ⟨chain', n'⟩ := new m' mem'
        have := (wrote.current (by omega)).1
        omega
    · simpa using fun ahead => (behind ahead).trans (effect.keeps live.bounded).ns
    · intro m mem
      rw [Role.peer_peer, update_self] at mem
      rw [update_of_ne (Role.peer_ne), update_of_ne (Role.peer_ne)]
      rcases List.mem_append.1 mem with old | last
      · exact waiting m old
      · obtain ⟨chain, n⟩ := new m last
        right
        rcases linked.lengths role with mine | theirs
        · exact .inl (by omega)
        · have current : m.chain + 2 = (sys role.peer).roots.length := by omega
          exact .inr (.inl ⟨((linked.live role.peer).keyed.receiving _ current).2, n ▸ behind theirs⟩)

section
variable {role : Role} {m : Msg} {s' : Session} {opened : Opened} {args : List RootArgs}

section

variable (ideal : P.Ideal) (linked : Linked P sk sys ses)
include ideal linked

/-- Opening with a root step: the message is the first one seen of the leader's chain. -/
theorem Linked.turned (listed : m ∈ (sys role.peer).sent)
    (wrote : Wrote P sk (sys role.peer).roots (ses role.peer) m x)
    (h : (ses role).openParsed P (x.parsed P) rng = .ok (s', opened, args)) (turned : args ≠ []) :
    m.chain = (sys role).roots.length ∧ (sys role.peer).roots.length = (sys role).roots.length + 1 := by
  obtain ⟨-, key⟩ := Outcome.of_openParsed ideal wrote.origin.valid h
  obtain ⟨chain, ahead, -⟩ := linked.arrival_turns ideal listed wrote (key.resolve_left turned)
  exact ⟨chain, ahead⟩

section
variable (pending : Pending P sk sys ses role) (listed : m ∈ (sys role.peer).sent)
   (wrote : Wrote P sk (sys role.peer).roots (ses role.peer) m x)
   (h : (ses role).openParsed P (x.parsed P) rng = .ok (s', opened, args)) {m' : Msg}
include pending listed wrote h

theorem Pending.opened_behind   (ahead : (sys role).roots.length + args.length = (sys role.peer).roots.length + 1) :
    s'.nr ≤ (ses role.peer).ns := by
  have turned := linked.turned ideal listed wrote h
  have sent : m.chain + 1 = (sys role.peer).roots.length → x.header.n + 1 ≤ (ses role.peer).ns := by
    rw [← wrote.origin.header]
    exact fun here => (wrote.current here).1
  have n := wrote.origin.valid.header.n
  obtain ⟨which, t, found, advanced, rfl, -⟩ := Session.openParsed_ok ideal wrote.origin.valid h
  have mem := List.mem_of_find?_eq_some found
  cases (Session.advanceFor_iff ideal).1 advanced with
  | stored => exact pending.behind ahead
  | @current _ hk _ _ _ key chain =>
    obtain rfl : x.headerKey = hk := by simpa [Session.candidates, key] using mem
    rw [linked.headerKey wrote] at key
    have place := (linked.live role).keyed.receives_on ideal key
    rw [List.length_nil] at ahead
    rcases chain.nr n with same | next
    · exact same.trans_le (pending.behind ahead)
    · exact next.trans_le (sent (by omega))
  | next _ _ chain =>
    obtain ⟨place, up⟩ := turned (by simp)
    have room := sent (by omega)
    rcases chain.nr n with same | next
    · exact same.trans_le (Nat.zero_le _)
    · exact next.trans_le room

theorem Pending.opened_waiting (spacious : (ses role).Spacious P (x.parsed P) rng) (mem' : m' ∈ (sys role.peer).sent)
    (w : m'.chain = (sys role).roots.length ∨ (ses role).Waiting (hkAt P sk (sys role).roots m'.chain) m'.header.n) :
    m' = m ∨ m'.chain = ((sys role).roots ++ args).length ∨
      s'.Waiting (hkAt P sk ((sys role).roots ++ args) m'.chain) m'.header.n := by
  have keyed := (linked.live role).keyed
  have turned := linked.turned ideal listed wrote h
  obtain ⟨y, wrote'⟩ := linked.wrote role.peer m' mem'
  have known := wrote'.known
  have lengths := linked.lengths role
  by_cases stays : args = [] ∧ m'.chain = (sys role).roots.length
  · obtain ⟨rfl, here⟩ := stays
    exact .inr (.inl (by rwa [List.append_nil]))
  obtain ⟨which, t, found, advanced, rfl, -⟩ := Session.openParsed_ok ideal wrote.origin.valid h
  have effect := (Session.advanceFor_iff ideal).1 advanced
  obtain ⟨fits, keep⟩ := spacious.fits ideal wrote.origin.valid found
  have after : (hkAt P sk (sys role).roots m'.chain = x.headerKey ∧ m'.header.n = x.header.n) ∨
      t.Waiting (hkAt P sk (sys role).roots m'.chain) m'.header.n := by
    refine effect.waiting ideal keyed (List.mem_of_find?_eq_some found) wrote.origin.valid.header fits ?_
    rcases w with next | w
    · exact .inr ⟨fun none => stays ⟨none, next⟩, by rw [next, keyed.nextReceiving]⟩
    · refine .inl ⟨w, fun turn key => ?_⟩
      -- The chain being closed: its length is what the new chain's header says.
      obtain ⟨here, ahead⟩ := turned turn
      have closing := keyed.receives_on ideal key
      rw [← wrote.origin.header, (wrote.current (by omega)).2.2.1]
      exact wrote'.previous (by omega)
  rw [hkAt_append _ (by omega)]
  rcases after with ⟨key, n⟩ | w
  · left
    rw [linked.headerKey wrote] at key
    rw [← wrote.origin.header] at n
    exact List.inj_on_of_nodup_map pending.distinct mem' listed (Prod.ext (hkAt_inj ideal key) n)
  · exact .inr (.inr (w.commit (keep effect)))

end

theorem Pending.receive (pending : ∀ r, Pending P sk sys ses r)
    (listed : m ∈ (sys role.peer).sent) (wrote : Wrote P sk (sys role.peer).roots (ses role.peer) m x)
    (h : (ses role).openParsed P (x.parsed P) rng = .ok (s', opened, args))
    (spacious : (ses role).Spacious P (x.parsed P) rng) (r : Role) :
    Pending P sk (update sys role
      { sys role with
        session := some s', roots := (sys role).roots ++ args, got := (sys role).got ++ [⟨x.wire P, opened⟩] })
      (update ses role s') r := by
  rcases role.eq_or_peer r with rfl | rfl
  · refine ⟨by simpa using (pending r).distinct, ?_, ?_⟩
    · simpa using (pending r).opened_behind ideal linked listed wrote h
    · intro m' mem
      rw [update_of_ne (Role.peer_ne)] at mem
      rw [update_self, update_self, List.map_append, List.mem_append]
      rcases (pending r).waiting m' mem with got | w
      · exact .inl (.inl got)
      · rcases (pending r).opened_waiting ideal linked listed wrote h spacious mem w with rfl | w
        · exact .inl (.inr (by simp [wrote.origin.wire]))
        · exact .inr w
  · -- The other direction: what was sent stays sent, and a root step makes this side the leader.
    obtain ⟨distinct, behind, waiting⟩ := pending role.peer
    rw [Role.peer_peer] at distinct behind waiting
    refine ⟨by simpa using distinct, ?_, by simpa using waiting⟩
    have lengths := linked.lengths role
    simp only [update_of_ne (Role.peer_ne), Role.peer_peer, update_self, List.length_append]
    intro ahead
    cases (Outcome.of_openParsed ideal wrote.origin.valid h).1 with
    | stays => exact behind ahead
    | turns =>
      simp only [List.length_cons, List.length_nil] at ahead
      omega

end

end

/-! ## Runs in which the stores have room -/

/-- The session a wire is opened with; for a party that has none yet, the one the
wire's preamble makes. -/
def Party.receiving (P : Primitives) (cfg : Config) (p : Party) (parsed : ParsedWire) : Result Session :=
  match p.session with
  | some s => .ok s
  | none => Session.forBootstrap P cfg.prekeys parsed cfg.binding (cfg.params .responder)

/-- No gap in front of the wire exceeds the skip limit, no cap of the store is hit and
no stored key ages out. -/
def Gentle (P : Primitives) (cfg : Config) (sys : System) : Action → Prop
  | .send .. => True
  | .deliver role i rng => ∀ m parsed s, (sys role.peer).sent[i]? = some m →
    (decodeWire P m.wire).bind ParsedWire.parse = .ok parsed → (sys role).receiving P cfg parsed = .ok s →
    s.Spacious P parsed rng

theorem Sealing.Valid.decoded (ideal : P.Ideal) (valid : x.Valid P) :
    (Ratchet.decodeWire P (x.wire P)).bind ParsedWire.parse = .ok (x.parsed P) := by
  rw [valid.decodeWire ideal]
  exact valid.parse ideal

structure Delivering (P : Primitives) (sk : Bytes) (sys : System) (ses : Role → Session) : Prop where
  linked : Linked P sk sys ses
  pending : ∀ r, Pending P sk sys ses r

theorem Delivering.step (ideal : P.Ideal) (d : Delivering P sk sys ses) (gentle : Gentle P cfg sys act) :
    ∃ ses', Delivering P sk (step P cfg sys act) ses' := by
  cases act with
  | send role msgType plaintext rng =>
    exact ⟨_, d.linked.send ideal role msgType plaintext rng, Pending.send ideal d.linked d.pending role msgType plaintext rng⟩
  | deliver role i rng =>
    rcases d.linked.deliver_cases ideal with same | ⟨m, x, s', opened, args, get, wrote, h, eq⟩
    · rw [same]
      exact ⟨ses, d⟩
    · have listed := List.mem_of_getElem? get
      have spacious := gentle m (x.parsed P) (ses role) get
        (by rw [wrote.origin.wire, wrote.origin.valid.decoded ideal])
        (by rw [Party.receiving, d.linked.session role])
      rw [eq]
      exact ⟨_, d.linked.opened ideal listed wrote h, Pending.receive ideal d.linked d.pending listed wrote h spacious⟩

/-- A responder session made early has the room the real one has. -/
theorem Gentle.present (ideal : P.Ideal) (sound : Sound P sys) {preamble : Preamble} (boot : Booting P preamble sys)
    (made : ∀ parsed : ParsedWire, parsed.preamble = some preamble →
      Session.forBootstrap P cfg.prekeys parsed cfg.binding (cfg.params .responder) = .ok v)
    (gentle : Gentle P cfg sys act) : Gentle P cfg (present v sys) act := by
  cases act with
  | send => trivial
  | deliver role i rng =>
    intro m parsed s get decoded receiving
    refine gentle m parsed s get decoded ?_
    cases session : (sys role).session with
    | some t =>
      rw [Ratchet.present, Party.fill_eq session] at receiving
      exact receiving
    | none =>
      have listed := List.mem_of_getElem? get
      obtain ⟨x, origin⟩ := (sound.parties role.peer).genuine m listed
      rw [origin.wire, origin.valid.decoded ideal] at decoded
      cases decoded
      simp only [Party.receiving, Ratchet.present, Party.fill, session, Option.getD_none] at receiving ⊢
      rw [made _ (boot.carried ideal session listed origin)]
      exact receiving

section
variable (ideal : P.Ideal) (honest : Honest P cfg) (begin : start P cfg hsRng rng = .ok sys)
include ideal honest begin

theorem Delivering.start : ∃ ses, Delivering P (cfg.key P hsRng) (present (cfg.responder P hsRng) sys) ses := by
  obtain ⟨ses, linked⟩ := Linked.start ideal honest begin
  obtain ⟨initiator, responder⟩ := start_eq ideal begin
  have unsent : ∀ r, (present (cfg.responder P hsRng) sys r).sent = [] := by
    rintro (_ | _)
    · exact congrArg Party.sent initiator
    · exact congrArg Party.sent responder
  have unread : ∀ r, (ses r).nr = 0 := by
    intro r
    have session := linked.session r
    cases r with
    | initiator =>
      rw [present, Party.fill, initiator] at session
      rw [← Option.some.inj session]
      rfl
    | responder =>
      rw [present, Party.fill, responder] at session
      rw [← Option.some.inj session]
      rfl
  refine ⟨ses, linked, fun r => ⟨?_, ?_, ?_⟩⟩
  · rw [unsent]
    exact List.nodup_nil
  · rw [unread]
    exact fun _ => Nat.zero_le _
  · rw [unsent]
    simp

theorem run_delivering {acts : List Action} (gentle : AllSteps (step P cfg) (Gentle P cfg) sys acts) :
    let after := run (step P cfg) sys acts
    Running.Invariant P cfg hsRng after ∧
      ∃ ses, Delivering P (cfg.key P hsRng) (present (cfg.responder P hsRng) after) ses := by
  refine run_invariant_of
    (I := fun s => Running.Invariant P cfg hsRng s ∧
      ∃ ses, Delivering P (cfg.key P hsRng) (present (cfg.responder P hsRng) s) ses) (fun s act inv room => ?_)
    ⟨run_linked ideal honest begin [], Delivering.start ideal honest begin⟩ gentle
  obtain ⟨inv, ses, d⟩ := inv
  have made : ∀ parsed : ParsedWire, parsed.preamble = some (cfg.preamble P hsRng) →
      Session.forBootstrap P cfg.prekeys parsed cfg.binding (cfg.params .responder) = .ok (cfg.responder P hsRng) :=
    fun _ carries => honest.forBootstrap ideal hsRng carries
  obtain ⟨ses', d'⟩ := d.step ideal (room.present ideal inv.sound inv.booting made)
  rw [step_present ideal inv.sound inv.booting rfl made] at d'
  exact ⟨inv.step ideal honest act, ses', d'⟩

end

/-! ## First deliveries -/

/-- What a step does to one party. -/
theorem step_party (P : Primitives) (cfg : Config) (sys : System) (act : Action) (r : Role) :
    step P cfg sys act r = sys r ∨
      (∃ msgType plaintext rng, step P cfg sys act r = (sys r).send P msgType plaintext rng) ∨
      ∃ i rng m, act = .deliver r i rng ∧ (sys r.peer).sent[i]? = some m ∧
        step P cfg sys act r = (sys r).receive P cfg m.wire rng := by
  cases act with
  | send role msgType plaintext rng =>
    by_cases here : r = role
    · subst here
      exact .inr (.inl ⟨msgType, plaintext, rng, by simp [step]⟩)
    · exact .inl (by simp [step, here])
  | deliver role i rng =>
    cases get : (sys role.peer).sent[i]? with
    | none => exact .inl (by simp [step, get])
    | some m =>
      by_cases here : r = role
      · subst here
        exact .inr (.inr ⟨i, rng, m, rfl, get, by simp [step, get]⟩)
      · exact .inl (by simp [step, get, here])

theorem step_sent : (sys r).sent <+: (step P cfg sys act r).sent := by
  rcases step_party P cfg sys act r with same | ⟨msgType, plaintext, rng, eq⟩ | ⟨i, rng, m, -, -, eq⟩
  · rw [same]
  · rw [eq]
    cases session : (sys r).session with
    | none =>
      unfold Party.send
      rw [session]
    | some s =>
      rw [Party.send_eq session]
      exact List.prefix_append _ _
  · rw [eq]
    unfold Party.receive
    split <;> exact List.prefix_refl _

/-- What was accepted was delivered. -/
theorem accepted_delivered (fresh : ∀ r, (sys r).got = []) {acts : List Action} {a : Accepted}
    (mem : a ∈ (run (step P cfg) sys acts r).got) :
    ∃ i rng m, Action.deliver r i rng ∈ acts ∧ (run (step P cfg) sys acts r.peer).sent[i]? = some m ∧ m.wire = a.wire := by
  induction acts using List.reverseRecOn with
  | nil =>
    rw [run_nil, fresh] at mem
    cases mem
  | append_singleton acts act ih =>
    rw [run_snoc] at mem ⊢
    have sent : ∀ {i : Nat} {m}, (run (step P cfg) sys acts r.peer).sent[i]? = some m →
        (step P cfg (run (step P cfg) sys acts) act r.peer).sent[i]? = some m := by
      intro i m get
      obtain ⟨more, eq⟩ := step_sent
      rw [← eq, List.getElem?_append_left (List.getElem?_eq_some_iff.1 get).1, get]
    have origin : a ∈ (run (step P cfg) sys acts r).got ∨ ∃ i rng m, act = .deliver r i rng ∧
        (run (step P cfg) sys acts r.peer).sent[i]? = some m ∧ m.wire = a.wire := by
      rcases step_party P cfg (run (step P cfg) sys acts) act r with
        same | ⟨msgType, plaintext, rng, eq⟩ | ⟨i, rng, m, delivered, get, eq⟩
      · exact .inl (same ▸ mem)
      · rw [eq, (Party.send_logs _ _ _ _).1] at mem
        exact .inl mem
      · rw [eq] at mem
        unfold Party.receive at mem
        split at mem
        · refine (List.mem_append.1 mem).imp_right fun last => ?_
          obtain rfl := List.mem_singleton.1 last
          exact ⟨i, rng, m, delivered, get, rfl⟩
        · exact .inl mem
    rcases origin with old | ⟨i, rng, m, rfl, get, wire⟩
    · obtain ⟨i, rng, m, delivered, get, wire⟩ := ih old
      exact ⟨i, rng, m, List.mem_append_left _ delivered, sent get, wire⟩
    · exact ⟨i, rng, m, by simp, sent get, wire⟩

/-- A wire that was never delivered has not been accepted. -/
theorem Delivering.unaccepted (ideal : P.Ideal) (d : Delivering P sk sys ses) {m : Msg}
    (get : (sys r.peer).sent[i]? = some m)
    (delivered : ∀ a ∈ (sys r).got, ∃ j m', j ≠ i ∧ (sys r.peer).sent[j]? = some m' ∧ m'.wire = a.wire) :
    m.wire ∉ (sys r).got.map (·.wire) := by
  intro accepted
  obtain ⟨a, mem, wire⟩ := List.mem_map.1 accepted
  obtain ⟨j, m', other, get', wire'⟩ := delivered a mem
  obtain ⟨x, wrote⟩ := d.linked.wrote r.peer m (List.mem_of_getElem? get)
  obtain ⟨y, wrote'⟩ := d.linked.wrote r.peer m' (List.mem_of_getElem? get')
  have same : x.wire P = y.wire P := by rw [← wrote.origin.wire, ← wrote'.origin.wire, wire', wire]
  obtain ⟨header, key, -⟩ := wrote.origin.valid.wire_inj ideal wrote'.origin.valid same
  -- One message key has one place in the schedule, and one place there is used once.
  rw [wrote.messageKey, wrote'.messageKey] at key
  obtain ⟨chain, n⟩ := mkAt_inj ideal key
  obtain ⟨short, -⟩ := List.getElem?_eq_some_iff.1 get
  refine other ((List.getElem?_inj (by simpa using short) (d.pending r).distinct).1 ?_).symm
  rw [List.getElem?_map, List.getElem?_map, get, get', Option.map_some, Option.map_some, chain, n]

/-- In a run of two sessions with matching keys in which the receivers' stores have
room, the first delivery of every wire succeeds and gives what was encrypted. -/
theorem first_delivery_succeeds (ideal : P.Ideal) (honest : Honest P cfg) {hsRng rng : Rng}
    (begin : start P cfg hsRng rng = .ok sys) {acts : List Action} {role : Role} {i : Nat} {fresh : Rng}
    (gentle : AllSteps (step P cfg) (Gentle P cfg) sys (acts ++ [.deliver role i fresh]))
    (first : ∀ any, Action.deliver role i any ∉ acts) {m : Msg}
    (sent : (run (step P cfg) sys acts role.peer).sent[i]? = some m) :
    ∃ s args, (run (step P cfg) sys acts role).openWire P cfg m.wire fresh = .ok (s, ⟨m.msgType, m.plaintext⟩, args) := by
  obtain ⟨before, now, -⟩ := (allSteps_append ..).1 gentle
  obtain ⟨inv, ses, d⟩ := run_delivering ideal honest begin before
  obtain ⟨initiator, responder⟩ := start_eq ideal begin
  have unread : ∀ r, (sys r).got = [] := by
    rintro (_ | _)
    · exact congrArg Party.got initiator
    · exact congrArg Party.got responder
  have made : ∀ parsed : ParsedWire, parsed.preamble = some (cfg.preamble P hsRng) →
      Session.forBootstrap P cfg.prekeys parsed cfg.binding (cfg.params .responder) = .ok (cfg.responder P hsRng) :=
    fun _ carries => honest.forBootstrap ideal hsRng carries
  generalize eq : run (step P cfg) sys acts = after at *
  have unaccepted : m.wire ∉ (after role).got.map (·.wire) := by
    refine d.unaccepted ideal sent fun a mem => ?_
    obtain ⟨j, any, m', delivered, get, wire⟩ := accepted_delivered unread (eq ▸ mem)
    exact ⟨j, m', fun same => first any (same ▸ delivered), eq ▸ get, wire⟩
  have listed := List.mem_of_getElem? sent
  obtain ⟨x, wrote⟩ := d.linked.wrote role.peer m listed
  have spacious := now.present ideal inv.sound inv.booting made m (x.parsed P) (ses role) sent
    (by rw [wrote.origin.wire, wrote.origin.valid.decoded ideal]) (by rw [Party.receiving, d.linked.session role])
  obtain ⟨s, args, opens⟩ := d.linked.opens ideal listed wrote
    (((d.pending role).waiting m listed).resolve_left unaccepted) spacious
  refine ⟨s, args, ?_⟩
  rw [wrote.origin.wire, ← Party.fill_openWire ideal wrote.origin.valid
    fun absent => made _ (inv.booting.carried ideal absent listed wrote.origin)]
  unfold Party.openWire
  rw [show ((after role).fill (cfg.responder P hsRng)).session = some (ses role) from d.linked.session role]
  dsimp only
  rw [Session.decrypt_wire ideal wrote.origin.valid, opens]

/-! ### A run with room -/

/-- A first message needs no room. -/
theorem Session.spacious_first (ideal : P.Ideal) (valid : x.Valid P) (n : x.header.n = 0)
    (deaf : s.hkr = none) (empty : s.skipped.chains = []) : s.Spacious P (x.parsed P) rng := by
  intro which header opens
  have drained : s.drainChain P x.header.pn = s.skipped := by
    unfold Session.drainChain
    split <;> simp_all
  obtain ⟨rfl, rfl⟩ : which = .next ∧ header = x.header := by
    change openHeader P (headerNonce x.nonce) (adHeader ++ x.head) (x.headerCt P) s.candidates = _ at opens
    rw [Sealing.openHeader_eq ideal valid] at opens
    split at opens
    · rename_i found
      cases opens
      have mem := List.mem_of_find?_eq_some found
      simp only [candidates, deaf, SkippedKeys.headerKeys, empty, Option.map_none, Option.toList_none, List.nil_append,
        List.map_nil, List.filter_nil, List.append_nil, List.mem_singleton, Prod.mk.injEq] at mem
      exact ⟨mem.1, rfl⟩
    · cases opens
  refine ⟨⟨by simp [deaf], by omega, .inl n⟩, fun t key args advanced => ?_⟩
  cases (advanceFor_iff ideal).1 advanced with
  | next absorbed can chain =>
    have kept : t.skipped = s.skipped := by
      cases chain with
      | late old => exact absurd old (by rw [n]; exact Nat.lt_irrefl 0)
      | ahead =>
        rw [n]
        exact drained
    intro hk counter v held
    rw [kept, empty] at held
    obtain ⟨c, mem, -⟩ := held
    cases mem

/-- The initiator's first message: it is sent, and the responder has room for it. -/
theorem first_message (ideal : P.Ideal) (honest : Honest P cfg)
    (begin : start P cfg hsRng rng = .ok sys) (short : plaintext.length ≤ 60 * 1024) {r r' : Rng} :
    (∃ m, (run (step P cfg) sys [.send .initiator msgType plaintext r] .initiator).sent[0]? = some m) ∧
      AllSteps (step P cfg) (Gentle P cfg) sys
        ([.send .initiator msgType plaintext r] ++ [.deliver .responder 0 r']) := by
  obtain ⟨initiator, responder⟩ := start_eq ideal begin
  generalize made : Session.initiator P (cfg.key P hsRng) (cfg.params .initiator) cfg.bundle.signedPrekey
    (cfg.preamble P hsRng) rng = s at initiator
  have bounded : s.Bounded := made ▸
    Session.initiator_bounded ideal (honest.pq .initiator) (Handshake.preamble_valid ideal cfg.opk_id)
  have carries : s.bootstrap = some (cfg.preamble P hsRng) := made ▸ rfl
  have unused : s.ns = 0 := made ▸ rfl
  obtain ⟨ck, chain⟩ : ∃ ck, s.cks = some ck := made ▸ ⟨_, rfl⟩
  obtain ⟨hk, key⟩ : ∃ hk, s.hks = some hk := made ▸ ⟨_, rfl⟩
  have effect := Session.encrypt_effect ideal bounded msgType plaintext r
  have ok := Session.encrypt_ok ideal bounded chain key (unused ▸ by decide) msgType short r
  have sent : (run (step P cfg) sys [.send .initiator msgType plaintext r] .initiator).sent =
      (sys .initiator).logged P s msgType plaintext r (s.encrypt P msgType plaintext r).2 := by
    simp only [run_cons, run_nil, step, update_self]
    rw [Party.send_eq (congrArg Party.session initiator), initiator]
    rfl
  refine ⟨?_, trivial, fun m parsed t get decoded receiving => ?_, trivial⟩
  · rw [sent, ok]
    exact ⟨_, rfl⟩
  · have listed := List.mem_of_getElem? get
    change m ∈ (run (step P cfg) sys [.send .initiator msgType plaintext r] .initiator).sent at listed
    rw [sent] at listed
    obtain ⟨_, _, -, -, origin, -⟩ := Party.logged_from effect listed
    rw [origin.wire, origin.valid.decoded ideal] at decoded
    cases decoded
    have absent : (step P cfg sys (.send .initiator msgType plaintext r) .responder).session = none := by
      simp [step, responder]
    unfold Party.receiving at receiving
    rw [absent] at receiving
    rw [honest.forBootstrap ideal hsRng carries] at receiving
    cases receiving
    exact Session.spacious_first ideal origin.valid unused rfl rfl

theorem first_delivery_succeeds_sample :
    ∃ sys m, start symbolicPrimitives sampleConfig sampleRng sampleRng = .ok sys ∧
      let after := run (step symbolicPrimitives sampleConfig) sys [.send .initiator 1 [104, 105] sampleRng]
      (after .initiator).sent[0]? = some m ∧
        ∃ s args, (after .responder).openWire symbolicPrimitives sampleConfig m.wire sampleRng =
          .ok (s, ⟨m.msgType, m.plaintext⟩, args) := by
  obtain ⟨sys, begin⟩ := start_ok sampleConfig symbolicPrimitives_ideal (sample_honest.pq _) (sample_honest.skip _)
    sampleRng sampleRng
  obtain ⟨⟨m, sent⟩, gentle⟩ := first_message symbolicPrimitives_ideal sample_honest begin
    (by decide : [104, 105].length ≤ 60 * 1024)
  exact ⟨sys, m, begin, sent, first_delivery_succeeds symbolicPrimitives_ideal sample_honest begin gentle (by simp) sent⟩

end Osl.Ratchet
