import Osl.SenderKeys.System

/-!
# One chain

Without rotation a receiver accepts every message at most once, whatever arrives in
whatever order (`Once`). A distribution message applied again sets the counter back
to zero: that is harmless only while it is zero.
-/

namespace Osl.SenderKeys

open Base Crypto ReceiverChain SkippedKeyCache SenderChain

/-- Not a rotation. -/
def Action.SameChain : Action → Prop
  | .rotate _ _ => False
  | .send _ _ | .deliver _ _ | .applySkdm _ => True

/-- A send or a delivery. -/
def Action.Plain : Action → Prop
  | .send _ _ | .deliver _ _ => True
  | .rotate _ _ | .applySkdm _ => False

/-- A distribution message is applied only before the first message is decrypted. -/
def Quiet (sys : System) : Action → Prop
  | .applySkdm _ => sys.receiver.n = 0
  | _ => True

variable {P : Primitives} {ctx : SenderContext} {device : PhysicalDeviceId} {sys : System} {c chainId : Nat} {a : Action}

structure Once (c : Nat) (sys : System) : Prop where
  single : ∀ {c' root}, sys.roots c' = some root → c' = c
  sender : sys.sender.chainId = c
  receiver : sys.receiver.chainId = c
  count : sys.sent.length = sys.sender.n
  indexed : ∀ {i : Nat} {m : Sent}, sys.sent[i]? = some m → m.position = (c, i)
  below : ∀ a ∈ sys.accepted, a.position.2 < sys.receiver.n
  cacheBelow : ∀ e ∈ sys.receiver.skipped, e.n < sys.receiver.n
  distinct : (sys.receiver.skipped.map SkippedKey.position).Nodup
  apart : ∀ a ∈ sys.accepted, ¬sys.receiver.Caches a.position
  once : (sys.accepted.map Accepted.position).Nodup

theorem Once.start {s : SenderChain} (fresh : s.Fresh P) : Once s.chainId (.start P s) where
  single known := (System.start_roots.1 known).1
  sender := rfl
  receiver := rfl
  count := fresh.n.symm
  indexed there := by cases there
  below a mem := by cases mem
  cacheBelow e mem := by cases mem
  distinct := List.nodup_nil
  apart a mem := by cases mem
  once := List.nodup_nil

theorem Once.send (once : Once c sys) (plaintext : Bytes) (nonces : MessageNonces) :
    Once c (sys.send P ctx plaintext nonces) := by
  by_cases more : sys.sender.n = u32Max
  · unfold System.send encrypt
    rw [if_pos more]
    exact { once with }
  · rw [System.send_eq more]
    refine { once with count := ?_, indexed := fun {i m} there => ?_ }
    · rw [List.length_append, once.count]
      rfl
    · rw [List.getElem?_append] at there
      split at there
      case isTrue => exact once.indexed there
      rename_i late
      have count := once.count
      have last : i - sys.sent.length = 0 := by
        by_contra other
        rw [List.getElem?_singleton, if_neg other] at there
        cases there
      rw [last] at there
      cases there
      refine Prod.ext once.sender ?_
      show sys.sender.n = i
      omega

/-- The slot is no longer cached once its only entry is used. -/
theorem without_not_caches {keys : List SkippedKey} (distinct : (keys.map SkippedKey.position).Nodup) {p : Position} :
    ∀ e ∈ without p keys, e.position ≠ p := by
  induction keys with
  | nil => intro e mem; cases mem
  | cons k keys ih =>
    obtain ⟨new, distinct⟩ := List.nodup_cons.1 distinct
    intro e mem
    unfold without at mem
    rw [List.eraseP_cons] at mem
    by_cases here : k.position = p
    · rw [decide_eq_true here, cond_true] at mem
      intro same
      exact new (List.mem_map.2 ⟨e, mem, same.trans here.symm⟩)
    · rw [decide_eq_false here, cond_false] at mem
      rcases List.mem_cons.1 mem with rfl | later
      · exact here
      · exact ih distinct e later

section
variable (once : Once c sys) {m : Sent}
include once

theorem Once.refused (i now : Nat) (m : Sent) (e : Error) :
    Once c (sys.receive i m (sys.receiver.rejected now e)) := by
  have accepted : (sys.receive i m (sys.receiver.rejected now e)).accepted = sys.accepted := List.append_nil _
  refine { once with
    below := fun a mem => once.below a (accepted ▸ mem)
    cacheBelow := fun e mem => once.cacheBelow e (mem_swept mem)
    distinct := (List.filter_sublist.map _).nodup once.distinct
    apart := fun a mem => ?_
    once := accepted ▸ once.once }
  rintro ⟨e, held, here⟩
  exact once.apart a (accepted ▸ mem) ⟨e, mem_swept held, here⟩

theorem Once.accepts {p : Position} (plaintext : Bytes) (new : ∀ a ∈ sys.accepted, a.position ≠ p) :
    ((sys.accepted ++ [Accepted.mk p plaintext]).map Accepted.position).Nodup := by
  rw [List.map_append]
  refine List.nodup_append.2 ⟨once.once, List.nodup_singleton _, ?_⟩
  intro q before q' last same
  obtain ⟨a, mem, here⟩ := List.mem_map.1 before
  cases List.mem_singleton.1 last
  exact new a mem (here.trans same)

theorem Once.cached (i now : Nat) (held : (sys.receiver.swept now).Caches m.position) :
    Once c (sys.receive i m (sys.receiver.taken m now)) := by
  have older : ∀ {e}, e ∈ without m.position (sys.receiver.swept now).skipped → e ∈ sys.receiver.skipped :=
    fun mem => mem_swept (List.mem_of_mem_eraseP mem)
  have kept : ((sys.receiver.swept now).skipped.map SkippedKey.position).Nodup :=
    (List.filter_sublist.map _).nodup once.distinct
  obtain ⟨e, mem, here⟩ := held
  have old := mem_swept mem
  refine { once with
    below := fun a mem => ?_
    cacheBelow := fun e mem => once.cacheBelow e (older mem)
    distinct := (List.eraseP_sublist.map _).nodup kept
    apart := fun a mem => ?_
    once := once.accepts m.plaintext fun a mem same => once.apart a mem ⟨e, old, here.trans same.symm⟩ }
  · rcases List.mem_append.1 mem with before | new
    · exact once.below a before
    · cases List.mem_singleton.1 new
      rw [← here]
      exact once.cacheBelow e old
  · rintro ⟨e', held', same⟩
    rcases List.mem_append.1 mem with before | new
    · exact once.apart a before ⟨e', older held', same⟩
    · cases List.mem_singleton.1 new
      exact without_not_caches kept e' held' same

theorem Once.ahead (i now : Nat) (root : Bytes) (ahead : sys.receiver.Ahead m.position) :
    Once c (sys.receive i m (sys.receiver.reached P root m now)) := by
  obtain ⟨_, low, _⟩ := ahead
  -- The cache is old keys, all below the counter, and keys of the slots passed, all from it on.
  have origin : ∀ {e}, e ∈ ((sys.receiver.swept now).advanced P root m.position.2 now).skipped →
      (e ∈ sys.receiver.skipped ∧ e.n < sys.receiver.n) ∨ (sys.receiver.n ≤ e.n ∧ e.n < m.position.2) := by
    intro e mem
    rcases mem_insertAll.1 (.inr mem) with old | new
    · have old := mem_swept old
      exact .inl ⟨old, once.cacheBelow e old⟩
    · obtain ⟨_, first, last, _⟩ := mem_passed new
      exact .inr ⟨first, by omega⟩
  refine { once with
    below := fun a mem => ?_
    cacheBelow := fun e mem => ?_
    distinct := ?_
    apart := fun a mem => ?_
    once := once.accepts m.plaintext fun a mem same => ?_ }
  · show a.position.2 < m.position.2 + 1
    rcases List.mem_append.1 mem with before | new
    · have := once.below a before
      omega
    · cases List.mem_singleton.1 new
      exact Nat.lt_succ_self _
  · show e.n < m.position.2 + 1
    have := origin mem
    omega
  · refine ((insertAll_sublist).map _).nodup ?_
    rw [List.map_append]
    refine List.nodup_append.2 ⟨(List.filter_sublist.map _).nodup once.distinct, passed_nodup _, ?_⟩
    intro p old q new same
    obtain ⟨e, mem, here⟩ := List.mem_map.1 old
    obtain ⟨e', mem', here'⟩ := List.mem_map.1 new
    have before := once.cacheBelow e (mem_swept mem)
    have after : sys.receiver.n ≤ e'.n := (mem_passed mem').2.1
    have numbers : e.n = e'.n := congrArg Prod.snd (here.trans (same.trans here'.symm))
    omega
  · rintro ⟨e, held, same⟩
    have numbers : e.n = a.position.2 := congrArg Prod.snd same
    rcases List.mem_append.1 mem with before | new
    · have low := once.below a before
      rcases origin held with ⟨old, _⟩ | slot
      · exact once.apart a before ⟨e, old, same⟩
      · omega
    · cases List.mem_singleton.1 new
      have numbers : e.n = m.position.2 := numbers
      rcases origin held with slot | slot <;> omega
  · have below := once.below a mem
    rw [same] at below
    omega

end

theorem Once.deliver (ideal : P.Ideal) (sound : Sound P ctx device sys) (once : Once c sys) (i now : Nat) :
    Once c (sys.deliver P ctx i now) := by
  unfold System.deliver
  split
  case h_1 => exact once
  rename_i m there
  obtain ⟨root, keyed⟩ := sound.receiver
  obtain ⟨root', header, genuine⟩ := sound.sent m (List.mem_of_getElem? there)
  have effect := decryptAt_effect ideal genuine keyed now
  generalize sys.receiver.decryptAt P m.wire ctx now = d at effect
  cases effect with
  | cached held => exact once.cached i now held
  | ahead _ ahead => exact once.ahead i now root ahead
  | refused _ _ e => exact once.refused i now m e

/-- Before the first message a repeated distribution changes nothing. -/
theorem Once.applySkdm_eq (sound : Sound P ctx device sys) (once : Once c sys) (first : sys.receiver.n = 0) :
    sys.applySkdm P chainId = sys := by
  unfold System.applySkdm
  split
  case h_1 => rfl
  rename_i root known
  obtain ⟨root', keyed⟩ := sound.receiver
  have ids : chainId = sys.receiver.chainId := (once.single known).trans once.receiver.symm
  have roots : root' = root := by
    rw [ids, keyed.known] at known
    exact Option.some.inj known
  have chain := keyed.chain
  rw [first, roots] at chain
  have same : sys.receiver.rotateTo P chainId root = sys.receiver := by
    unfold rotateTo
    rw [ids, ← first]
    show { sys.receiver with ck := ckAt P root sys.receiver.chainId 0 } = sys.receiver
    rw [← chain]
  rw [same]

/-- The rule for one chain: the run keeps both invariants. -/
theorem Once.step (ideal : P.Ideal) (sound : Sound P ctx device sys) (once : Once c sys)
    (same : a.SameChain) (quiet : Quiet sys a) : Once c (sys.step P ctx a) := by
  cases a with
  | send plaintext nonces => exact once.send plaintext nonces
  | rotate root now => exact same.elim
  | deliver i now => exact once.deliver ideal sound i now
  | applySkdm chainId =>
    show Once c (sys.applySkdm P chainId)
    rwa [once.applySkdm_eq sound quiet]

/-! ## Any order, loss and duplication -/

/-- The deliveries so far are the first `k` messages in turn, and all were accepted. -/
structure InTurn (c k : Nat) (sys : System) : Prop where
  n : sys.receiver.n = k
  empty : sys.receiver.skipped = []
  accepted : sys.accepted.map Accepted.position = (List.range k).map fun n => (c, n)

theorem Once.deliver_inTurn (ideal : P.Ideal) (sound : Sound P ctx device sys) (once : Once c sys)
    (turn : ∀ k, sys.delivered = List.range k → InTurn c k sys) {i now k : Nat}
    (order : (sys.deliver P ctx i now).delivered = List.range k) : InTurn c k (sys.deliver P ctx i now) := by
  cases there : sys.sent[i]? with
  | none =>
    have same : sys.deliver P ctx i now = sys := by
      unfold System.deliver
      rw [there]
    rw [same] at order ⊢
    exact turn k order
  | some m =>
    have longer : (sys.deliver P ctx i now).delivered = sys.delivered ++ [i] := by
      unfold System.deliver
      rw [there]
      rfl
    rw [longer] at order
    obtain ⟨k, rfl⟩ : ∃ k', k = k' + 1 := by
      have length := congrArg List.length order
      rw [List.length_append, List.length_range] at length
      exact ⟨k - 1, by rw [← length]; rfl⟩
    rw [List.range_succ] at order
    obtain ⟨before, last⟩ := List.append_inj' order rfl
    obtain rfl : i = k := List.head_eq_of_cons_eq last
    have turn := turn i before
    have next : m.position = (sys.receiver.chainId, sys.receiver.n) := by
      rw [once.indexed there, once.receiver, turn.n]
    obtain ⟨ck, delivered⟩ := @Sound.deliver_next _ _ _ _ ideal sound i now m there next turn.empty
    rw [delivered]
    refine ⟨congrArg (· + 1) turn.n, rfl, ?_⟩
    show (sys.accepted ++ [Accepted.mk m.position m.plaintext]).map Accepted.position = _
    rw [List.map_append, turn.accepted, List.range_succ, List.map_append, List.map_singleton, List.map_singleton,
      once.indexed there]

theorem InTurn.start (P : Primitives) (s : SenderChain) (k : Nat) (order : (System.start P s).delivered = List.range k) :
    InTurn s.chainId k (.start P s) := by
  obtain rfl : k = 0 := List.length_range.symm.trans (congrArg List.length order.symm)
  exact ⟨rfl, rfl, rfl⟩

theorem System.send_delivered (plaintext : Bytes) (nonces : MessageNonces) :
    (sys.send P ctx plaintext nonces).delivered = sys.delivered ∧ (sys.send P ctx plaintext nonces).receiver = sys.receiver ∧
      (sys.send P ctx plaintext nonces).accepted = sys.accepted := by
  unfold System.send
  split <;> exact ⟨rfl, rfl, rfl⟩

theorem Once.step_inTurn (ideal : P.Ideal) (sound : Sound P ctx device sys) (once : Once c sys)
    (turn : ∀ k, sys.delivered = List.range k → InTurn c k sys) (same : a.SameChain) (quiet : Quiet sys a)
    (k : Nat) (order : (sys.step P ctx a).delivered = List.range k) : InTurn c k (sys.step P ctx a) := by
  cases a with
  | send plaintext nonces =>
    obtain ⟨delivered, receiver, accepted⟩ := sys.send_delivered (P := P) plaintext nonces
    obtain ⟨n, empty, before⟩ := turn k (delivered.symm.trans order)
    exact ⟨(congrArg _ receiver).trans n, (congrArg _ receiver).trans empty, (congrArg _ accepted).trans before⟩
  | rotate root now => exact same.elim
  | deliver i now => exact once.deliver_inTurn ideal sound turn order
  | applySkdm chainId =>
    have noop : sys.step P ctx (.applySkdm chainId) = sys := once.applySkdm_eq sound quiet
    rw [noop] at order ⊢
    exact turn k order

/-- In a run on one chain in which the distribution message is applied again only before the
first message is decrypted, no message is accepted twice, and messages delivered in turn are
all accepted, however many there are. -/
theorem repeated_skdm_is_noop (P : Primitives) (ideal : P.Ideal) (ctx : SenderContext) (s : SenderChain)
    (fresh : s.Fresh P) (acts : List Action) (same : ∀ a ∈ acts, a.SameChain)
    (quiet : AllSteps (System.step P ctx) Quiet (.start P s) acts) :
    ((run (System.step P ctx) (.start P s) acts).accepted.map Accepted.position).Nodup ∧
    ∀ k, (run (System.step P ctx) (.start P s) acts).delivered = List.range k →
      (run (System.step P ctx) (.start P s) acts).accepted.map Accepted.position =
        (List.range k).map fun n => (s.chainId, n) := by
  obtain ⟨_, once, turn⟩ : Sound P ctx s.physicalDeviceId (run (System.step P ctx) (.start P s) acts) ∧
      Once s.chainId (run (System.step P ctx) (.start P s) acts) ∧
      ∀ k, (run (System.step P ctx) (.start P s) acts).delivered = List.range k →
        InTurn s.chainId k (run (System.step P ctx) (.start P s) acts) := by
    refine run_invariant_of (I := fun sys => Sound P ctx s.physicalDeviceId sys ∧ Once s.chainId sys ∧
      ∀ k, sys.delivered = List.range k → InTurn s.chainId k sys) ?_ ⟨.start fresh, .start fresh, InTurn.start P s⟩
      (quiet.and_forall same)
    rintro sys a ⟨sound, once, turn⟩ ⟨same, quiet⟩
    exact ⟨sound.step ideal a, once.step ideal sound same quiet, once.step_inTurn ideal sound turn same quiet⟩
  exact ⟨once.once, fun k order => (turn k order).accepted⟩

theorem repeated_skdm_is_noop_sample :
    (run (System.step symbolicPrimitives sampleContext) (.start symbolicPrimitives sampleSender)
      [.applySkdm 0, .send [104, 105] sampleNonces, .deliver 0 0]).accepted.map Accepted.position = [(0, 0)] :=
  (repeated_skdm_is_noop symbolicPrimitives symbolicPrimitives_ideal sampleContext sampleSender (new_fresh ..)
    [.applySkdm 0, .send [104, 105] sampleNonces, .deliver 0 0]
    (by rintro a (_ | ⟨_, _ | ⟨_, _ | ⟨_, mem⟩⟩⟩) <;> first | exact trivial | cases mem)
    ⟨rfl, trivial, trivial, trivial⟩).2 1 rfl

/-- A chain's first message, decrypted in turn, is decrypted again after the distribution
message of the chain has been applied again. -/
theorem Sound.accepts_again (ideal : P.Ideal) (sound : Sound P ctx device sys) {i now now' : Nat} {m : Sent} {root : Bytes}
    (there : sys.sent[i]? = some m) (position : m.position = (sys.receiver.chainId, 0)) (first : sys.receiver.n = 0)
    (empty : sys.receiver.skipped = []) (known : sys.roots sys.receiver.chainId = some root) :
    (((sys.deliver P ctx i now).applySkdm P sys.receiver.chainId).deliver P ctx i now').accepted.map Accepted.position =
      sys.accepted.map Accepted.position ++ [m.position, m.position] := by
  have again := (sound.deliver ideal i now).applySkdm sys.receiver.chainId
  obtain ⟨ck, delivered⟩ := @Sound.deliver_next _ _ _ _ ideal sound i now m there (first ▸ position) empty
  have reset : ∀ d, (sys.receive i m d).applySkdm P sys.receiver.chainId = { sys.receive i m d with
      receiver := d.receiver.rotateTo P sys.receiver.chainId root } := by
    intro d
    unfold System.applySkdm
    rw [show (sys.receive i m d).roots _ = _ from known]
    rfl
  rw [delivered, reset] at again
  obtain ⟨ck', second⟩ := @Sound.deliver_next _ _ _ _ ideal again i now' m there position rfl
  rw [delivered, reset, second]
  show (sys.accepted ++ [Accepted.mk m.position m.plaintext] ++ [Accepted.mk m.position m.plaintext]).map Accepted.position = _
  rw [List.append_assoc, List.map_append]
  rfl

/-- The sender repeats its distribution message after one message; the message delivered again
is accepted again. -/
theorem reapplied_skdm_accepts_twice :
    (run (System.step symbolicPrimitives sampleContext) (.start symbolicPrimitives sampleSender)
      [.send [104, 105] sampleNonces, .deliver 0 0, .applySkdm 0, .deliver 0 1]).accepted.map Accepted.position =
        [(0, 0), (0, 0)] := by
  have more : (System.start symbolicPrimitives sampleSender).sender.n ≠ u32Max := by decide
  have sound : Sound symbolicPrimitives sampleContext sampleDevice
      ((System.start symbolicPrimitives sampleSender).send symbolicPrimitives sampleContext [104, 105] sampleNonces) :=
    (Sound.start (new_fresh ..)).send ..
  have known : (System.start symbolicPrimitives sampleSender).roots 0 = some (List.replicate 32 7) :=
    System.start_roots.2 ⟨rfl, rfl⟩
  simp only [run_cons, run_nil, System.step]
  rw [System.send_eq more] at sound ⊢
  exact @Sound.accepts_again _ _ _ _ symbolicPrimitives_ideal sound 0 0 1 _ _ rfl rfl rfl rfl known

end Osl.SenderKeys
