import Osl.Ratchet.Safety
import Osl.RnStore.Pins

/-!
# Stored sessions (`send_rn_after_gate` and `receive_rn_after_gate` of `wire_rn.rs`)

A call loads the stored session, advances it in its own memory, saves it and only
then returns. Nothing keeps a second call from loading the same session in between.
A save replaces the file as a whole or reports an error and leaves it.
-/

namespace Osl.RnStore.Sessions

open Base Ratchet Session

def maxSkippedKeysPolicy : Nat := 4096

/-- What a call does once its session is loaded. -/
inductive Request where
  | send (msgType : Nat) (plaintext : Bytes) (rng : Rng)
  | receive (wire : Bytes) (rng : Rng)

inductive Phase where
  | begun
  | loaded (s : Session)
  | ended

def Phase.holding : Phase → Bool
  | .loaded _ => true
  | .begun | .ended => false

/-- A wire a caller got, with the chain key and the number it was encrypted under. -/
structure Sent where
  chainKey : Bytes
  number : Nat
  wire : Bytes

/-- How the end of a call goes: its save fails, or the process is gone before the call
returns, or neither. -/
inductive Ending where
  | returned
  | unsaved
  | unreturned

structure State where
  stored : Option Session
  calls : List (Request × Phase)
  returned : List Sent

def State.init (s : Session) : State := ⟨some s, [], []⟩

inductive Action where
  | start (r : Request)
  | load (i : Nat)
  | finish (i : Nat) (ending : Ending)
  | crash

def loadSession (stored : Option Session) : Except RnError Session :=
  match stored with
  | none => .error (.protocol "no OSL-RN session on file")
  | some s =>
    let claimed := s.skipped.params.maxTotalKeys
    if claimed > maxSkippedKeysPolicy then .error (.skippedCacheTooLarge claimed maxSkippedKeysPolicy) else .ok s

def Phase.ofLoad : Except RnError Session → Phase
  | .ok s => .loaded s
  | .error _ => .ended

section

variable (P : Primitives)

/-- The session to save, and for a send what is to be returned. -/
def advance (s : Session) : Request → Result (Session × Option Sent)
  | .send msgType plaintext rng =>
    match s.encrypt P msgType plaintext rng with
    | (s', .ok wire) => .ok (s', s.cks.map fun chainKey => ⟨chainKey, s.ns, wire⟩)
    | (_, .error e) => .error e
  | .receive wire rng => (s.decrypt P wire rng).map fun (s', _, _) => (s', none)

/-- The state after a call that made `session` and `sent`. -/
def State.finish (st : State) (session : Session) (sent : Option Sent) : Ending → State
  | .returned => { st with stored := some session, returned := st.returned ++ sent.toList }
  | .unsaved => st
  | .unreturned => { st with stored := some session }

def State.end (st : State) (i : Nat) (r : Request) : State := { st with calls := st.calls.set i (r, .ended) }

def step (st : State) : Action → State
  | .start r => { st with calls := st.calls ++ [(r, .begun)] }
  | .load i =>
    match st.calls[i]? with
    | some (r, .begun) => { st with calls := st.calls.set i (r, .ofLoad (loadSession st.stored)) }
    | _ => st
  | .finish i ending =>
    match st.calls[i]? with
    | some (r, .loaded s) =>
      match advance P s r with
      | .error _ => st.end i r
      | .ok (session, sent) => (st.end i r).finish session sent ending
    | _ => st
  | .crash => { st with calls := [] }

/-- The session was made by a handshake. -/
inductive Begun : Session → Prop where
  | initiated {identity : Bytes} {peer : PeerBundle} {binding : Option Bytes} {params : SessionParams} {hsRng rng : Rng}
      {s : Session} {roots : List RootArgs}
      (made : initiateBound P identity peer binding params hsRng rng = .ok (s, roots)) : Begun s
  | accepted {prekeys : LocalPrekeys} {wire : Bytes} {binding : Option Bytes} {params : SessionParams} {rng : Rng}
      {s : Session} {opened : Opened} {roots : List RootArgs}
      (made : acceptBound P prekeys wire binding params rng = .ok (s, opened, roots)) : Begun s

end

/-- A call loads the session only while no other call holds it. -/
def Exclusive (st : State) : Action → Prop
  | .load i => (∃ r, st.calls[i]? = some (r, .begun)) → ∀ call ∈ st.calls, call.2.holding = false
  | _ => True

/-! ## The sending chain -/

/-- The part of the key schedule that sending depends on. It holds whatever wires are
received. -/
structure Sends (P : Primitives) (sk : Bytes) (roots : List RootArgs) (s : Session) : Prop where
  root : s.root = rootAt P sk roots roots.length
  silent : roots.length = 0 → s.cks = none
  sending : ∀ k, k + 1 = roots.length → s.cks = some (ckAt P sk roots k s.ns)
  small : s.ns ≤ u32Max

/-- `x` was sent in a chain that is over, or earlier in the present one. -/
def Used (P : Primitives) (sk : Bytes) (roots : List RootArgs) (ns : Nat) (x : Sent) : Prop :=
  ∃ k, x.chainKey = ckAt P sk roots k x.number ∧ (k + 1 < roots.length ∨ k + 1 = roots.length ∧ x.number < ns)

variable {P : Primitives} {sk : Bytes} {roots args : List RootArgs} {s s' : Session} {rng : Rng} {st : State}
  {r : Request} {sent : Option Sent} {i n msgType : Nat} {stored : Option Session}

theorem Sends.of_same (sends : Sends P sk roots s) (root : s'.root = s.root) (cks : s'.cks = s.cks) (ns : s'.ns = s.ns) :
    Sends P sk roots s' := by
  refine ⟨root.trans sends.root, fun none => cks.trans (sends.silent none), fun k here => ?_, ns.symm ▸ sends.small⟩
  rw [cks, ns]
  exact sends.sending k here

theorem Sends.chain {hk messageKey : Bytes} (sends : Sends P sk roots s)
    (effect : s.ChainEffect P hk n s' messageKey) : Sends P sk roots s' ∧ s'.ns = s.ns := by
  cases effect with
  | late => exact ⟨sends.of_same rfl rfl rfl, rfl⟩
  | ahead => exact ⟨sends.of_same rfl rfl rfl, rfl⟩

theorem Sends.turn (sends : Sends P sk roots s) (header : RatchetHeader) (rng : Rng) (taken peeked : List Bytes) :
    Sends P sk (roots ++ [s.peerArgs P header taken, s.ownArgs P header rng peeked])
      (s.turn P header rng taken peeked) := by
  generalize named : roots ++ [s.peerArgs P header taken, s.ownArgs P header rng peeked] = roots'
  have length : roots'.length = roots.length + 2 := by simp [← named]
  have first : stepAt P sk roots' roots.length = rootStep P s.root (s.peerArgs P header taken) := by
    rw [sends.root, ← named]
    exact stepAt_snoc
  have second : stepAt P sk roots' (roots.length + 1) =
      rootStep P (stepAt P sk roots' roots.length).rootKey (s.ownArgs P header rng peeked) := by
    unfold stepAt
    congr 1
    simp [← named]
  refine ⟨?_, ?_, ?_, Nat.zero_le _⟩
  · rw [length, rootAt_succ, second, first]
    rfl
  · omega
  · intro k here
    obtain rfl : k = roots.length + 1 := by omega
    rw [ckAt.eq_def, second, first]
    rfl

theorem Used.append {ns ns' : Nat} {x : Sent} (used : Used P sk roots ns x)
    (later : args = [] → ns ≤ ns') : Used P sk (roots ++ args) ns' x := by
  obtain ⟨k, key, place⟩ := used
  have known : k < roots.length := by omega
  refine ⟨k, by rw [ckAt_append _ known, key], ?_⟩
  rw [List.length_append]
  cases args with
  | nil =>
    have le := later rfl
    omega
  | cons a args =>
    rw [List.length_cons]
    omega

theorem Sends.decrypt (ideal : P.Ideal) (sends : Sends P sk roots s) {parsed : ParsedWire} {opened : Opened}
    (h : s.openParsed P parsed rng = .ok (s', opened, args)) :
    Sends P sk (roots ++ args) s' ∧ (args = [] → s.ns ≤ s'.ns) := by
  obtain ⟨⟨which, header⟩, _, h⟩ := bind_ok.1 h
  obtain ⟨⟨t, messageKey, args'⟩, advanced, h⟩ := bind_ok.1 h
  obtain ⟨plaintext, _, h⟩ := bind_ok.1 h
  cases h
  have committed : Sends P sk (roots ++ args) t → (args = [] → s.ns ≤ t.ns) →
      Sends P sk (roots ++ args) t.commit ∧ (args = [] → s.ns ≤ t.commit.ns) :=
    fun sends le => ⟨sends.of_same rfl rfl rfl, le⟩
  cases (advanceFor_iff ideal).1 advanced with
  | stored =>
    rw [List.append_nil] at committed ⊢
    exact committed (sends.of_same rfl rfl rfl) fun _ => le_rfl
  | @current pq _ _ _ _ _ chain =>
    rw [List.append_nil] at committed ⊢
    have pqSends : Sends P sk roots { s with pq } := sends.of_same rfl rfl rfl
    obtain ⟨sends', same⟩ := pqSends.chain chain
    exact committed sends' fun _ => same.ge
  | @next pq _ _ _ _ _ _ chain =>
    have pqSends : Sends P sk roots { s with pq } := sends.of_same rfl rfl rfl
    exact committed ((pqSends.turn ..).chain chain).1 nofun

/-- What a send that succeeded has done to the sending chain. -/
theorem encrypt_sent {plaintext wire : Bytes} (small : s.ns ≤ u32Max)
    (h : s.encrypt P msgType plaintext rng = (s', .ok wire)) :
    s.ns < u32Max ∧ ∃ ck, s.cks = some ck ∧ s'.cks = some (chainStep P ck).2 ∧ s'.ns = s.ns + 1 ∧ s'.root = s.root := by
  have attempt := encrypt_attempt (P := P) s msgType plaintext rng
  generalize s.encrypt P msgType plaintext rng = out at h attempt
  cases attempt with
  | refused => cases h
  | oversized => cases h
  | @sealed ck _ chain _ last _ =>
    obtain ⟨rfl, -⟩ := Prod.mk.inj h
    have left : s.ns < u32Max := Nat.lt_of_le_of_ne small last
    exact ⟨left, ck, chain, rfl, u32_succ left, rfl⟩

theorem Sends.advance (ideal : P.Ideal) (sends : Sends P sk roots s) (h : advance P s r = .ok (s', sent)) :
    ∃ args, Sends P sk (roots ++ args) s' ∧ (args = [] → s.ns ≤ s'.ns) ∧
      ∀ x ∈ sent, args = [] ∧ x.number = s.ns ∧ s.ns < s'.ns ∧
        ∃ k, k + 1 = roots.length ∧ x.chainKey = ckAt P sk roots k x.number := by
  cases r with
  | receive wire rng =>
    obtain ⟨⟨t, opened, args⟩, decrypted, same⟩ := map_ok.1 h
    cases same
    obtain ⟨raw, _, decrypted⟩ := bind_ok.1 decrypted
    obtain ⟨parsed, _, decrypted⟩ := bind_ok.1 decrypted
    obtain ⟨sends', le⟩ := sends.decrypt ideal decrypted
    exact ⟨args, sends', le, nofun⟩
  | send msgType plaintext rng =>
    rcases outcome : s.encrypt P msgType plaintext rng with ⟨t, e | wire⟩
    · rw [Sessions.advance, outcome] at h
      cases h
    · rw [Sessions.advance, outcome] at h
      cases h
      obtain ⟨left, ck, chain, chain', ns, root⟩ := encrypt_sent sends.small outcome
      obtain ⟨k, here⟩ : ∃ k, k + 1 = roots.length := by
        cases none : roots.length with
        | zero => cases chain.symm.trans (sends.silent none)
        | succ k => exact ⟨k, rfl⟩
      have key : ck = ckAt P sk roots k s.ns := Option.some.inj (chain.symm.trans (sends.sending k here))
      refine ⟨[], ?_, fun _ => by omega, fun x mem => ?_⟩
      · rw [List.append_nil]
        refine ⟨root.trans sends.root, by omega, fun j there => ?_, by omega⟩
        obtain rfl : j = k := by omega
        rw [chain', ns, key]
        rfl
      · rw [chain] at mem
        cases mem
        exact ⟨rfl, rfl, by omega, k, here, key⟩

theorem Begun.sends (ideal : P.Ideal) (begun : Begun P s) : ∃ sk roots, Sends P sk roots s := by
  have of_keyed : ∀ {sk roots s}, Keyed P sk roots s → s.ns = 0 → Sends P sk roots s := fun keyed zero =>
    ⟨keyed.root, keyed.silent, fun k here => (keyed.sending k here).1, zero ▸ Nat.zero_le _⟩
  cases begun with
  | initiated made =>
    obtain ⟨_, rfl, rfl⟩ := initiateBound_ok ideal made
    exact ⟨_, _, of_keyed Keyed.initiator rfl⟩
  | accepted made =>
    obtain ⟨parsed, sk, -, -, opened⟩ := acceptBound_ok made
    exact ⟨sk, _, (Sends.decrypt ideal (of_keyed Keyed.responder rfl) opened).1⟩

/-! ## Calls that exclude each other -/

def Sent.key (x : Sent) : Bytes × Nat := (x.chainKey, x.number)

/-- The call that holds the session holds the stored one. -/
structure Serial (P : Primitives) (sk : Bytes) (st : State) : Prop where
  chain : ∃ roots s, st.stored = some s ∧ Sends P sk roots s ∧ ∀ x ∈ st.returned, Used P sk roots s.ns x
  once : (st.returned.map Sent.key).Nodup
  held : ∀ {i : Nat} {r : Request} {s : Session}, st.calls[i]? = some (r, .loaded s) → st.stored = some s
  alone : ∀ {i j : Nat} {call other : Request × Phase}, i ≠ j → st.calls[i]? = some call → st.calls[j]? = some other →
    call.2.holding = false ∨ other.2.holding = false

theorem Serial.set (serial : Serial P sk st) {phase : Phase} (here : ∀ s, phase = .loaded s → st.stored = some s)
    (others : phase.holding = false ∨ ∀ call ∈ st.calls, call.2.holding = false) :
    Serial P sk { st with calls := st.calls.set i (r, phase) } := by
  refine ⟨serial.chain, serial.once, fun there => ?_, fun apart first second => ?_⟩
  · rcases getElem?_set_cases there with ⟨_, same⟩ | ⟨_, old⟩
    · cases same
      exact here _ rfl
    · exact serial.held old
  · rcases getElem?_set_cases first with ⟨rfl, rfl⟩ | ⟨_, old⟩
    · rcases getElem?_set_cases second with ⟨rfl, _⟩ | ⟨_, old⟩
      · exact absurd rfl apart
      · exact others.imp id fun none => none _ (List.mem_of_getElem? old)
    · rcases getElem?_set_cases second with ⟨_, rfl⟩ | ⟨_, old'⟩
      · exact others.symm.imp (fun none => none _ (List.mem_of_getElem? old)) id
      · exact serial.alone apart old old'

/-- A new key is one that no returned wire has. -/
theorem Used.key_ne (ideal : P.Ideal) {ns k : Nat} {x y : Sent} (used : Used P sk roots ns y) (here : k + 1 = roots.length)
    (key : x.chainKey = ckAt P sk roots k x.number) (number : x.number = ns) : y.key ≠ x.key := by
  intro same
  obtain ⟨sameKey, sameNumber⟩ := Prod.mk.inj same
  obtain ⟨j, key', place⟩ := used
  obtain ⟨rfl, _⟩ := ckAt_inj ideal (key'.symm.trans (sameKey.trans key))
  omega

/-- The end of the one call that holds the session. -/
theorem Serial.finish (ideal : P.Ideal) (serial : Serial P sk st) (idle : ∀ call ∈ st.calls, call.2.holding = false)
    (stored : st.stored = some s) (h : advance P s r = .ok (s', sent))
    (ending : Ending) : Serial P sk (st.finish s' sent ending) := by
  obtain ⟨roots, t, there, sends, used⟩ := serial.chain
  cases stored.symm.trans there
  obtain ⟨args, sends', le, new⟩ := sends.advance ideal h
  have used' : ∀ x ∈ st.returned, Used P sk (roots ++ args) s'.ns x := fun x mem => (used x mem).append le
  have held : ∀ {i : Nat} {r : Request} {u : Session}, st.calls[i]? = some (r, .loaded u) → some s' = some u :=
    fun there => absurd (idle _ (List.mem_of_getElem? there)) nofun
  cases ending with
  | unsaved => exact serial
  | unreturned => exact ⟨⟨_, s', rfl, sends', used'⟩, serial.once, held, serial.alone⟩
  | returned =>
    cases sent with
    | none =>
      refine ⟨⟨_, s', rfl, sends', ?_⟩, ?_, held, serial.alone⟩
      · rwa [State.finish, Option.toList_none, List.append_nil]
      · rw [State.finish, Option.toList_none, List.append_nil]
        exact serial.once
    | some x =>
      obtain ⟨rfl, number, lt, k, here, key⟩ := new x rfl
      refine ⟨⟨_, s', rfl, sends', fun y mem => ?_⟩, ?_, held, serial.alone⟩
      · rcases List.mem_append.1 mem with old | fresh
        · exact used' y old
        · obtain rfl := List.mem_singleton.1 fresh
          rw [List.append_nil]
          exact ⟨k, key, .inr ⟨here, by omega⟩⟩
      · show ((st.returned ++ [x]).map Sent.key).Nodup
        rw [List.map_append, List.nodup_append]
        refine ⟨serial.once, List.nodup_singleton _, fun a old b fresh same => ?_⟩
        obtain ⟨y, mem, rfl⟩ := List.mem_map.1 old
        obtain rfl := List.mem_singleton.1 fresh
        exact (used y mem).key_ne ideal here key number same

theorem Serial.start (serial : Serial P sk st) (r : Request) : Serial P sk { st with calls := st.calls ++ [(r, .begun)] } := by
  have origin : ∀ {j : Nat} {call : Request × Phase}, (st.calls ++ [(r, Phase.begun)])[j]? = some call →
      call = (r, .begun) ∨ st.calls[j]? = some call := by
    intro j call there
    rw [List.getElem?_append] at there
    split at there
    · exact .inr there
    · exact .inl (List.mem_singleton.1 (List.mem_of_getElem? there))
  refine ⟨serial.chain, serial.once, fun there => ?_, fun apart first second => ?_⟩
  · rcases origin there with new | old
    · cases new
    · exact serial.held old
  · rcases origin first with rfl | old
    · exact .inl rfl
    · rcases origin second with rfl | old'
      · exact .inr rfl
      · exact serial.alone apart old old'

theorem loadSession_ok (ok : loadSession stored = .ok s) : stored = some s := by
  cases stored with
  | none => cases ok
  | some t =>
    unfold loadSession at ok
    dsimp only at ok
    split at ok
    · cases ok
    · cases ok
      rfl

theorem Serial.load (serial : Serial P sk st) (i : Nat) (r : Request) (idle : ∀ call ∈ st.calls, call.2.holding = false) :
    Serial P sk { st with calls := st.calls.set i (r, .ofLoad (loadSession st.stored)) } := by
  cases outcome : loadSession st.stored with
  | error e => exact serial.set (fun _ same => by cases same) (.inl rfl)
  | ok t =>
    refine serial.set (fun s loaded => ?_) (.inr idle)
    cases loaded
    exact loadSession_ok outcome

/-- Once its call is ended, nobody holds the session. -/
theorem Serial.idle (serial : Serial P sk st) (there : st.calls[i]? = some (r, .loaded s)) :
    ∀ call ∈ (st.end i r).calls, call.2.holding = false := by
  intro call mem
  obtain ⟨j, found⟩ := List.mem_iff_getElem?.1 mem
  rcases getElem?_set_cases found with ⟨_, rfl⟩ | ⟨apart, old⟩
  · rfl
  · exact (serial.alone apart old there).resolve_right nofun

theorem Serial.step (ideal : P.Ideal) (serial : Serial P sk st) {a : Action} (exclusive : Exclusive st a) :
    Serial P sk (step P st a) := by
  cases a with
  | start r => exact serial.start r
  | load i =>
    unfold Sessions.step
    dsimp only
    split
    · rename_i r there
      exact serial.load i r (exclusive ⟨r, there⟩)
    · exact serial
  | finish i ending =>
    unfold Sessions.step
    dsimp only
    split
    · rename_i r s there
      have ended : Serial P sk (st.end i r) := serial.set (fun _ same => by cases same) (.inl rfl)
      cases outcome : Sessions.advance P s r with
      | error e => exact ended
      | ok result => exact ended.finish ideal (serial.idle there) (serial.held there) outcome ending
    · exact serial
  | crash => exact ⟨serial.chain, serial.once, nofun, nofun⟩

/-- If a call loads the session only while no other call holds it, then whatever saves
fail, no two wires that callers get are encrypted under one chain key and number. -/
theorem exclusive_sends_use_fresh_keys (P : Primitives) (ideal : P.Ideal) (s : Session) (begun : Begun P s)
    (acts : List Action) (exclusive : AllSteps (step P) Exclusive (.init s) acts) :
    ((run (step P) (.init s) acts).returned.map Sent.key).Nodup := by
  obtain ⟨sk, roots, sends⟩ := begun.sends ideal
  have start : Serial P sk (.init s) := ⟨⟨roots, s, rfl, sends, nofun⟩, List.nodup_nil, nofun, nofun⟩
  exact (run_invariant_of (fun _ _ serial => serial.step ideal) start exclusive).once

/-- A session as a first contact stores it. -/
theorem sample_session : ∃ s, Begun symbolicPrimitives s ∧ loadSession (some s) = .ok s ∧ s.ns = 0 ∧
    ∃ ck, s.cks = some ck ∧ ∀ plaintext : Bytes, plaintext.length ≤ 60 * 1024 →
      ∃ s' wire, advance symbolicPrimitives s (.send 1 plaintext sampleRng) = .ok (s', some ⟨ck, 0, wire⟩) := by
  have ideal := symbolicPrimitives_ideal
  obtain ⟨sys, begin⟩ := start_ok sampleConfig ideal ⟨by decide, by decide, by decide⟩ rfl sampleRng sampleRng
  obtain ⟨⟨s, roots⟩, made, _⟩ := bind_ok.1 begin
  have begun := Begun.initiated made
  obtain ⟨valid, same, _⟩ := initiateBound_ok ideal made
  have bounded : s.Bounded := by
    rw [same]
    exact initiator_bounded ideal valid (Handshake.preamble_valid ideal sampleConfig.opk_id)
  obtain ⟨ck, hk, chain, key, zero, loads⟩ : ∃ ck hk, s.cks = some ck ∧ s.hks = some hk ∧ s.ns = 0 ∧
      loadSession (some s) = .ok s := by
    rw [same]
    exact ⟨_, _, rfl, rfl, rfl, rfl⟩
  refine ⟨s, begun, loads, zero, ck, chain, fun plaintext short => ?_⟩
  have ok := encrypt_ok ideal bounded chain key (by rw [zero]; decide) 1 short sampleRng
  rcases outcome : s.encrypt symbolicPrimitives 1 plaintext sampleRng with ⟨s', r⟩
  rw [outcome] at ok
  cases ok
  refine ⟨s', (s.nextSealing symbolicPrimitives hk ck 1 plaintext sampleRng).wire symbolicPrimitives, ?_⟩
  rw [advance, outcome]
  rw [chain, zero]
  rfl

def firstSend : Request := .send 1 [104, 105] sampleRng

def secondSend : Request := .send 1 [98, 121, 101] sampleRng

theorem sends_in_turn_use_fresh_keys : ∃ s, Begun symbolicPrimitives s ∧ ((run (step symbolicPrimitives) (.init s)
      [.start firstSend, .load 0, .finish 0 .returned, .start secondSend, .load 1, .finish 1 .unsaved]).returned.map
        Sent.key).Nodup := by
  obtain ⟨s, begun, loads, _, ck, _, sends⟩ := sample_session
  obtain ⟨s', wire, sent⟩ := sends [104, 105] (by decide)
  refine ⟨s, begun, exclusive_sends_use_fresh_keys symbolicPrimitives symbolicPrimitives_ideal s begun _ ?_⟩
  have loaded : step symbolicPrimitives (step symbolicPrimitives (.init s) (.start firstSend)) (.load 0) =
      ⟨some s, [(firstSend, .loaded s)], []⟩ := by
    show State.mk (some s) [(firstSend, .ofLoad (loadSession (some s)))] [] = _
    rw [loads]
    rfl
  have finished : step symbolicPrimitives ⟨some s, [(firstSend, .loaded s)], []⟩ (.finish 0 .returned) =
      ⟨some s', [(firstSend, .ended)], [⟨ck, 0, wire⟩]⟩ := by
    unfold step
    dsimp only [List.getElem?_cons_zero]
    rw [firstSend, sent]
    rfl
  refine ⟨trivial, fun _ call mem => ?_, trivial, trivial, fun _ call mem => ?_, trivial, trivial⟩
  · cases List.mem_singleton.1 mem
    rfl
  · rw [loaded, finished] at mem
    rcases List.mem_cons.1 mem with rfl | mem
    · rfl
    · cases List.mem_singleton.1 mem
      rfl

/-- Both calls load the session before either saves it. -/
theorem overlapping_sends_share_key : ∃ s, Begun symbolicPrimitives s ∧
    ¬((run (step symbolicPrimitives) (.init s)
      [.start firstSend, .start secondSend, .load 0, .load 1, .finish 0 .returned, .finish 1 .returned]).returned.map
        Sent.key).Nodup := by
  obtain ⟨s, begun, loads, _, ck, _, sends⟩ := sample_session
  obtain ⟨s', wire, sent⟩ := sends [104, 105] (by decide)
  obtain ⟨s'', wire', sent'⟩ := sends [98, 121, 101] (by decide)
  refine ⟨s, begun, ?_⟩
  have returned : (run (step symbolicPrimitives) (.init s)
      [.start firstSend, .start secondSend, .load 0, .load 1, .finish 0 .returned, .finish 1 .returned]).returned =
      [⟨ck, 0, wire⟩, ⟨ck, 0, wire'⟩] := by
    have loaded : run (step symbolicPrimitives) (.init s) [.start firstSend, .start secondSend, .load 0, .load 1] =
        ⟨some s, [(firstSend, .loaded s), (secondSend, .loaded s)], []⟩ := by
      show State.mk (some s) [(firstSend, .ofLoad (loadSession (some s))), (secondSend, .ofLoad (loadSession (some s)))] [] = _
      rw [loads]
      rfl
    have finished : step symbolicPrimitives ⟨some s, [(firstSend, .loaded s), (secondSend, .loaded s)], []⟩ (.finish 0 .returned) =
        ⟨some s', [(firstSend, .ended), (secondSend, .loaded s)], [⟨ck, 0, wire⟩]⟩ := by
      unfold step
      dsimp only [List.getElem?_cons_zero]
      rw [firstSend, sent]
      rfl
    have finished' : step symbolicPrimitives ⟨some s', [(firstSend, .ended), (secondSend, .loaded s)], [⟨ck, 0, wire⟩]⟩
        (.finish 1 .returned) = ⟨some s'', [(firstSend, .ended), (secondSend, .ended)], [⟨ck, 0, wire⟩, ⟨ck, 0, wire'⟩]⟩ := by
      unfold step
      dsimp only [List.getElem?_cons_succ, List.getElem?_cons_zero]
      rw [secondSend, sent']
      rfl
    have split := @run_append _ _ (step symbolicPrimitives) (.init s)
      [.start firstSend, .start secondSend, .load 0, .load 1] [.finish 0 .returned, .finish 1 .returned]
    rw [loaded, run_cons, run_cons, run_nil, finished, finished'] at split
    exact congrArg State.returned split
  rw [returned]
  simp [Sent.key]

end Osl.RnStore.Sessions
