import Osl.SenderKeys.System

/-!
# Messages of a chain the receiver has left

`rotate_to` keeps the cache and drops the chain key. What is left of the old chain
are the keys of the slots that had been passed over.
-/

namespace Osl.SenderKeys

open Base Crypto ReceiverChain

variable {P : Primitives} {ctx : SenderContext} {device : PhysicalDeviceId} {sys : System} {m : Sent}

theorem Sound.other_chain_iff (ideal : P.Ideal) (sound : Sound P ctx device sys) (mem : m ∈ sys.sent)
    (other : m.position.1 ≠ sys.receiver.chainId) {now : Nat} (there : ¬sys.Gone now m.position) :
    (sys.receiver.decryptAt P m.wire ctx now).result = .ok m.plaintext ↔ m.position.2 < sys.furthest m.position.1 := by
  obtain ⟨root, keyed⟩ := sound.receiver
  obtain ⟨root', header, genuine⟩ := sound.sent m mem
  have effect := decryptAt_effect ideal genuine keyed now
  generalize sys.receiver.decryptAt P m.wire ctx now = d at effect
  cases effect with
  | cached cached =>
    obtain ⟨e, mem, here⟩ := cached
    have below := sound.stored e (mem_swept mem)
    obtain ⟨ids, numbers⟩ := Prod.mk.inj (here : (e.chainId, e.n) = (m.position.1, m.position.2))
    rw [ids, numbers] at below
    exact ⟨fun _ => below, fun _ => rfl⟩
  | ahead _ ahead => exact absurd ahead.1.symm other
  | refused absent _ e =>
    constructor
    · intro ok
      cases ok
    · intro below
      exact absurd (sound.caches there below) absent

/-- A message of a chain that is not the receiver's present one, whose key was neither
used, evicted nor expired, is decrypted if and only if its number is below the counter the
receiver had reached on that chain. -/
theorem late_message_decrypts_iff (P : Primitives) (ideal : P.Ideal) (ctx : SenderContext) (s : SenderChain)
    (fresh : s.Fresh P) (acts : List Action) (m : Sent) (now : Nat)
    (mem : m ∈ (run (System.step P ctx) (.start P s) acts).sent)
    (other : m.position.1 ≠ (run (System.step P ctx) (.start P s) acts).receiver.chainId)
    (there : ¬(run (System.step P ctx) (.start P s) acts).Gone now m.position) :
    ((run (System.step P ctx) (.start P s) acts).receiver.decryptAt P m.wire ctx now).result = .ok m.plaintext ↔
      m.position.2 < (run (System.step P ctx) (.start P s) acts).furthest m.position.1 :=
  (run_sound ideal fresh).other_chain_iff ideal mem other there

/-! ## Two messages and a rotation -/

/-- Two messages; the receiver gets the first, or only the second; then both rotate. -/
def rotateAfter (i : Nat) : List Action :=
  [.send [104, 105] sampleNonces, .send [98, 121, 101] sampleNonces, .deliver i 0, .rotate (List.replicate 32 8) 1, .applySkdm 1]

def twoSent : System :=
  run (System.step symbolicPrimitives sampleContext) (.start symbolicPrimitives sampleSender) ((rotateAfter 0).take 2)

theorem twoSent_sound : Sound symbolicPrimitives sampleContext sampleDevice twoSent :=
  run_sound symbolicPrimitives_ideal (SenderChain.new_fresh ..)

/-- The sender rotates and the receiver follows. -/
theorem System.rotate_applySkdm (more : sys.sender.chainId ≠ u32Max) (root : Bytes) (now : Nat) :
    ∃ sender roots, (sys.rotate P root now).applySkdm P (sys.sender.chainId + 1) =
      { sys with sender, roots, receiver := sys.receiver.rotateTo P (sys.sender.chainId + 1) root } := by
  unfold System.rotate SenderChain.rotate
  rw [if_neg more]
  unfold System.applySkdm
  dsimp only
  rw [Function.update_self]
  exact ⟨_, _, rfl⟩

/-- What the run of `rotateAfter i` ends in, from the outcome of its delivery. -/
theorem run_rotateAfter {i : Nat} {d : Decrypted}
    (delivered : twoSent.deliver symbolicPrimitives sampleContext i 0 = twoSent.receive i m d) :
    ∃ sender roots,
      run (System.step symbolicPrimitives sampleContext) (.start symbolicPrimitives sampleSender) (rotateAfter i) =
        { twoSent.receive i m d with
          sender, roots, receiver := d.receiver.rotateTo symbolicPrimitives 1 (List.replicate 32 8) } := by
  have zero : (twoSent.receive i m d).sender.chainId = 0 := rfl
  have more : (twoSent.receive i m d).sender.chainId ≠ u32Max := by
    rw [zero]
    decide
  obtain ⟨sender, roots, followed⟩ := System.rotate_applySkdm (P := symbolicPrimitives) more (List.replicate 32 8) 1
  have split : run (System.step symbolicPrimitives sampleContext) (.start symbolicPrimitives sampleSender) (rotateAfter i) =
      ((twoSent.deliver symbolicPrimitives sampleContext i 0).rotate symbolicPrimitives (List.replicate 32 8) 1).applySkdm
        symbolicPrimitives 1 := rfl
  rw [delivered] at split
  exact ⟨sender, roots, split.trans followed⟩

theorem late_message_decrypts :
    ∃ m ∈ (run (System.step symbolicPrimitives sampleContext) (.start symbolicPrimitives sampleSender) (rotateAfter 1)).sent,
      m.position.1 < (run (System.step symbolicPrimitives sampleContext) (.start symbolicPrimitives sampleSender)
        (rotateAfter 1)).receiver.chainId ∧
      ((run (System.step symbolicPrimitives sampleContext) (.start symbolicPrimitives sampleSender)
        (rotateAfter 1)).receiver.decryptAt symbolicPrimitives m.wire sampleContext 1).result = .ok m.plaintext := by
  obtain ⟨m, first⟩ : ∃ m, twoSent.sent[0]? = some m := ⟨_, rfl⟩
  obtain ⟨m', second⟩ : ∃ m', twoSent.sent[1]? = some m' := ⟨_, rfl⟩
  have here : m.position = (0, 0) := by
    cases first
    rfl
  have next : m'.position = (0, 1) := by
    cases second
    rfl
  have ahead : twoSent.receiver.Ahead m'.position := by
    rw [next]
    exact ⟨rfl, by decide, by decide⟩
  obtain ⟨root, delivered⟩ := @Sound.deliver_ahead _ _ _ _ symbolicPrimitives_ideal twoSent_sound 1 0 m' second
    (not_caches rfl) ahead
  obtain ⟨sender, roots, ends⟩ := run_rotateAfter delivered
  have late := late_message_decrypts_iff symbolicPrimitives symbolicPrimitives_ideal sampleContext sampleSender
    (SenderChain.new_fresh ..) (rotateAfter 1) m 1
  generalize run (System.step symbolicPrimitives sampleContext) _ (rotateAfter 1) = after at ends late ⊢
  unfold reached at ends
  have mem : m ∈ after.sent := by
    rw [ends]
    exact List.mem_of_getElem? first
  have left : m.position.1 < after.receiver.chainId := by
    rw [ends, here]
    exact Nat.zero_lt_one
  refine ⟨m, mem, left, (late mem left.ne ?_).2 ?_⟩
  · rw [ends, here, next]
    rintro (⟨a, taken, same⟩ | gone)
    · cases List.mem_singleton.1 taken
      cases next.symm.trans same
    · exact List.not_mem_nil gone
  · rw [ends, here, next]
    exact Nat.zero_lt_two

/-- The receiver had the first message only; after the rotation the second one has no key. -/
theorem unreceived_message_never_decrypts :
    ∃ m ∈ (run (System.step symbolicPrimitives sampleContext) (.start symbolicPrimitives sampleSender) (rotateAfter 0)).sent,
      m.position.1 < (run (System.step symbolicPrimitives sampleContext) (.start symbolicPrimitives sampleSender)
        (rotateAfter 0)).receiver.chainId ∧
      ¬(run (System.step symbolicPrimitives sampleContext) (.start symbolicPrimitives sampleSender)
        (rotateAfter 0)).Gone 1 m.position ∧
      ((run (System.step symbolicPrimitives sampleContext) (.start symbolicPrimitives sampleSender)
        (rotateAfter 0)).receiver.decryptAt symbolicPrimitives m.wire sampleContext 1).result ≠ .ok m.plaintext := by
  have sound : Sound symbolicPrimitives sampleContext sampleDevice
      (run (System.step symbolicPrimitives sampleContext) (.start symbolicPrimitives sampleSender) (rotateAfter 0)) :=
    run_sound symbolicPrimitives_ideal (SenderChain.new_fresh ..)
  obtain ⟨m, second⟩ : ∃ m, twoSent.sent[1]? = some m := ⟨_, rfl⟩
  have here : m.position = (0, 1) := by
    cases second
    rfl
  obtain ⟨ck, delivered⟩ := @Sound.deliver_next _ _ _ _ symbolicPrimitives_ideal twoSent_sound 0 0 _ rfl rfl rfl
  obtain ⟨sender, roots, ends⟩ := run_rotateAfter delivered
  generalize run (System.step symbolicPrimitives sampleContext) _ (rotateAfter 0) = after at ends sound ⊢
  have mem : m ∈ after.sent := by
    rw [ends]
    exact List.mem_of_getElem? second
  have left : m.position.1 < after.receiver.chainId := by
    rw [ends, here]
    exact Nat.zero_lt_one
  have there : ¬after.Gone 1 m.position := by
    rw [ends, here]
    rintro (⟨a, taken, same⟩ | gone)
    · cases List.mem_singleton.1 taken
      cases same
    · exact List.not_mem_nil gone
  refine ⟨m, mem, left, there, fun ok => ?_⟩
  have below := (sound.other_chain_iff symbolicPrimitives_ideal mem left.ne there).1 ok
  rw [ends, here] at below
  exact Nat.lt_irrefl 1 below

/-! ## Left out of a rotation -/

/-- The receiver is not on chain `c` and has never been. -/
structure LeftOut (c : Nat) (sys : System) : Prop where
  current : sys.receiver.chainId ≠ c
  furthest : sys.furthest c = 0

theorem Sound.effect (ideal : P.Ideal) (sound : Sound P ctx device sys) (mem : m ∈ sys.sent) (now : Nat) :
    ∃ root, Effect P sys.receiver m now root (sys.receiver.decryptAt P m.wire ctx now) := by
  obtain ⟨root, keyed⟩ := sound.receiver
  obtain ⟨root', header, genuine⟩ := sound.sent m mem
  exact ⟨root, decryptAt_effect ideal genuine keyed now⟩

theorem LeftOut.step {c : Nat} {a : Action} (ideal : P.Ideal) (sound : Sound P ctx device sys) (out : LeftOut c sys)
    (given : a ≠ .applySkdm c) : LeftOut c (sys.step P ctx a) := by
  cases a with
  | send | rotate =>
    simp only [System.step, System.send, System.rotate]
    split <;> exact ⟨out.current, out.furthest⟩
  | applySkdm chainId =>
    simp only [System.step, System.applySkdm]
    split
    · exact out
    · exact ⟨fun same => given (congrArg Action.applySkdm same), out.furthest⟩
  | deliver i now =>
    simp only [System.step, System.deliver]
    split
    case h_1 => exact out
    rename_i m there
    obtain ⟨root, effect⟩ := sound.effect ideal (List.mem_of_getElem? there) now
    generalize sys.receiver.decryptAt P m.wire ctx now = d at effect
    -- no outcome changes the chain
    cases effect <;> exact ⟨out.current, (Function.update_of_ne out.current.symm ..).trans out.furthest⟩

/-- Without its distribution message a receiver reads no message of a chain, whatever else it gets. -/
theorem ungiven_chain_unread (ideal : P.Ideal) {s : SenderChain} (fresh : s.Fresh P) (acts : List Action) {c : Nat}
    (other : c ≠ s.chainId) (ungiven : .applySkdm c ∉ acts) :
    let sys := run (System.step P ctx) (.start P s) acts
    ∀ m ∈ sys.sent, m.position.1 = c → ∀ now, ∃ e, (sys.receiver.decryptAt P m.wire ctx now).result = .error e := by
  intro sys m mem here now
  have ⟨sound, out⟩ := run_invariant_of (I := fun sys => Sound P ctx s.physicalDeviceId sys ∧ LeftOut c sys)
    (C := fun _ a => a ≠ .applySkdm c) (fun _ a inv given => ⟨inv.1.step ideal a, inv.2.step ideal inv.1 given⟩)
    ⟨.start fresh, other.symm, rfl⟩ (allSteps_of_forall fun a (mem : a ∈ acts) _ same => ungiven (by rwa [same] at mem))
  obtain ⟨root, effect⟩ := sound.effect ideal mem now
  generalize sys.receiver.decryptAt P m.wire ctx now = d at effect
  cases effect with
  | cached held =>
    obtain ⟨e, mem, same⟩ := held
    have chain : e.chainId = c := (congrArg Prod.fst same).trans here
    have below := sound.stored e (mem_swept mem)
    rw [chain, out.furthest] at below
    exact absurd below (Nat.not_lt_zero _)
  | ahead _ ahead => exact absurd (ahead.1.trans here) out.current
  | refused _ _ e => exact ⟨e, rfl⟩

theorem ungiven_chain_unread_sample :
    let sys := run (System.step symbolicPrimitives sampleContext) (.start symbolicPrimitives sampleSender)
      [.rotate [8] 0, .send [104, 105] sampleNonces]
    ∃ m ∈ sys.sent, ∃ e, (sys.receiver.decryptAt symbolicPrimitives m.wire sampleContext 0).result = .error e :=
  ⟨_, List.mem_singleton_self _, ungiven_chain_unread symbolicPrimitives_ideal (SenderChain.new_fresh ..) _
    Nat.one_ne_zero (by simp) _ (List.mem_singleton_self _) rfl 0⟩

end Osl.SenderKeys
