import Osl.Base.Run
import Osl.Ratchet.Wire

/-!
# Two sessions and a network

The initiator's session exists from the start; the responder's is made by the
first bootstrap wire it accepts. Each side encrypts what it likes, and the
network hands any wire a side has produced to the other one, in any order, any
number of times or never.

A `Party` logs what its session did: the wires it produced, the wires it
accepted with what they opened to, and the inputs of its root steps. Chain `k` of
a run is the one its `k`-th root step makes.
-/

namespace Osl.Ratchet

open Base

def Role.peer : Role → Role
  | .initiator => .responder
  | .responder => .initiator

/-- The keys and parameters two parties start from. A one-time prekey's id is a
`u32`. -/
structure Config where
  identity : Bytes
  bundle : PeerBundle
  prekeys : LocalPrekeys
  binding : Option Bytes
  params : Role → SessionParams
  opk_id : ∀ opk ∈ bundle.oneTimePrekey, opk.1 ≤ u32Max

/-- A message on its way: what was passed to `encrypt`, the wire it gave, and where
in the sender's chains it stands. -/
structure Msg where
  wire : Bytes
  msgType : Nat
  plaintext : Bytes
  chain : Nat
  header : RatchetHeader

structure Accepted where
  wire : Bytes
  opened : Opened

structure Party where
  session : Option Session
  roots : List RootArgs
  sent : List Msg
  got : List Accepted

abbrev System := Role → Party

inductive Action where
  | send (role : Role) (msgType : Nat) (plaintext : Bytes) (rng : Rng)
  /-- The peer's `i`-th wire reaches `role`. -/
  | deliver (role : Role) (i : Nat) (rng : Rng)

variable (P : Primitives) (cfg : Config)

namespace Party

def send (p : Party) (msgType : Nat) (plaintext : Bytes) (rng : Rng) : Party :=
  match p.session with
  | none => p
  | some s =>
    match s.encrypt P msgType plaintext rng with
    | (s', .ok wire) =>
      { p with
        session := some s'
        sent := p.sent ++
          [⟨wire, msgType, plaintext, p.roots.length - 1, (s.nextHeader P msgType rng).2⟩] }
    | (s', .error _) => { p with session := some s' }

/-- `decrypt`, or `accept_bound` for a party that has no session yet. -/
def openWire (p : Party) (wire : Bytes) (rng : Rng) : Result (Session × Opened × List RootArgs) :=
  match p.session with
  | some s => s.decrypt P wire rng
  | none => Session.acceptBound P cfg.prekeys wire cfg.binding (cfg.params .responder) rng

def receive (p : Party) (wire : Bytes) (rng : Rng) : Party :=
  match p.openWire P cfg wire rng with
  | .ok (s, opened, args) =>
    { p with session := some s, roots := p.roots ++ args, got := p.got ++ [⟨wire, opened⟩] }
  | .error _ => p

end Party

def step (sys : System) : Action → System
  | .send role msgType plaintext rng =>
    Function.update sys role ((sys role).send P msgType plaintext rng)
  | .deliver role i rng =>
    match (sys role.peer).sent[i]? with
    | none => sys
    | some m => Function.update sys role ((sys role).receive P cfg m.wire rng)

/-- The initiator's session is made, nothing has been sent. -/
def start (hsRng rng : Rng) : Result System := do
  let (s, args) ← Session.initiateBound P cfg.identity cfg.bundle cfg.binding (cfg.params .initiator) hsRng rng
  .ok fun
    | .initiator => ⟨some s, args, [], []⟩
    | .responder => ⟨none, [], [], []⟩

end Osl.Ratchet
