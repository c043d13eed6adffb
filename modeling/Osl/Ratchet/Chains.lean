import Osl.Ratchet.Receiving
import Osl.Ratchet.Schedule

/-!
# A session's keys follow the schedule

`Keyed` places every key of a session in the schedule of its root steps: with `t`
root steps behind it, it sends on chain `t - 1`, receives on chain `t - 2` and
expects chain `t`. A message key is `Spent` once the session is past it without
holding it; receiving uses a key that is not spent and spends it (`Uses`), and
nothing restores a spent key.
-/

namespace Osl.Ratchet

open Base Session SkippedKeys

section
variable (P : Primitives) (sk : Bytes) (roots : List RootArgs) (s : Session)

/-- The session has passed message `n` of chain `k`. -/
def Past (k n : Nat) : Prop := k + 2 < roots.length ∨ k + 2 = roots.length ∧ n < s.nr

/-- `past` messages of the schedule, in one bucket a chain. -/
structure Stock (past : Nat → Nat → Prop) (chains : List ChainBucket) : Prop where
  distinct : Distinct chains
  origin : ∀ {hk n v}, Holds chains hk n v → ∃ k, hk = hkAt P sk roots k ∧ v.1 = mkAt P sk roots k n ∧ past k n

structure Keyed : Prop where
  root : s.root = rootAt P sk roots roots.length
  silent : roots.length = 0 → s.cks = none
  sending : ∀ k, k + 1 = roots.length → s.cks = some (ckAt P sk roots k s.ns) ∧ s.hks = some (hkAt P sk roots k)
  nextSending : s.nhks = hkAt P sk roots (roots.length + 1)
  deaf : roots.length < 2 → s.ckr = none ∧ s.hkr = none
  receiving : ∀ k, k + 2 = roots.length → s.ckr = some (ckAt P sk roots k s.nr) ∧ s.hkr = some (hkAt P sk roots k)
  nextReceiving : s.nhkr = hkAt P sk roots roots.length
  stock : Stock P sk roots (Past roots s) s.skipped.chains

def Spent (k n : Nat) : Prop := Past roots s k n ∧ ∀ v, ¬ Holds s.skipped.chains (hkAt P sk roots k) n v

/-- From `roots` and `s` to `roots'` and `s'`, the key of message `n` of chain `k`
was used. -/
structure Uses (roots' : List RootArgs) (s' : Session) (k n : Nat) (messageKey : Bytes) : Prop where
  key : messageKey = mkAt P sk roots' k n
  fresh : ¬ Spent P sk roots s k n
  spent : Spent P sk roots' s' k n
  kept : ∀ {j m}, Spent P sk roots s j m → Spent P sk roots' s' j m

end

variable {P : Primitives} {sk messageKey hk plaintext : Bytes} {roots args : List RootArgs} {s s' t : Session} {rng : Rng}
  {header : RatchetHeader} {past past' : Nat → Nat → Prop} {n k msgType : Nat} {skipped : SkippedKeys}

theorem Stock.mono {chains : List ChainBucket} (stock : Stock P sk roots past chains)
    (more : ∀ j m, past j m → past' j m) : Stock P sk roots past' chains :=
  ⟨stock.distinct, fun h =>
    have ⟨k, same, key, before⟩ := stock.origin h
    ⟨k, same, key, more _ _ before⟩⟩

theorem Stock.lesser {old new : List ChainBucket} (stock : Stock P sk roots past old)
    (distinct : Distinct new) (lesser : Lesser new old) : Stock P sk roots past new :=
  ⟨distinct, fun h => stock.origin (lesser h)⟩

/-! ## Skipping -/

section
variable {hk hk' ck : Bytes} {k c gap i : Nat} {st : SkippedKeys}

theorem skipKeys_chain (fits : c + gap ≤ u32Max) :
    (skipKeys P hk gap st (ckAt P sk roots k c) c).2 = (ckAt P sk roots k (c + gap), c + gap) := by
  induction gap generalizing st c with
  | zero => rfl
  | succ gap ih =>
    unfold skipKeys
    rw [chainStep_ckAt, u32_succ (by omega)]
    rw [ih (by omega), Nat.add_right_comm, Nat.add_assoc]

theorem holds_skipKeys (fits : c + gap ≤ u32Max) {v : Bytes × Nat}
    (h : Holds (skipKeys P hk gap st (ckAt P sk roots k c) c).1.chains hk' i v) :
    (hk' = hk ∧ c ≤ i ∧ i < c + gap ∧ v.1 = mkAt P sk roots k i) ∨ Holds st.chains hk' i v := by
  induction gap generalizing st c with
  | zero => exact .inr h
  | succ gap ih =>
    unfold skipKeys at h
    rw [chainStep_ckAt, u32_succ (by omega)] at h
    rcases ih (by omega) h with ⟨same, lo, hi, key⟩ | h
    · exact .inl ⟨same, by omega, by omega, key⟩
    · rcases holds_insert h with ⟨rfl, rfl, rfl⟩ | old
      · exact .inl ⟨rfl, le_rfl, by omega, rfl⟩
      · exact .inr old

theorem distinct_skipKeys (distinct : Distinct st.chains) :
    Distinct (skipKeys P hk gap st ck c).1.chains := by
  induction gap generalizing st ck c with
  | zero => exact distinct
  | succ gap ih =>
    exact ih (distinct_insert distinct)

/-- Skipping adds messages of the chain skipped in. -/
theorem Stock.skipKeys {past' : Nat → Nat → Prop} (stock : Stock P sk roots past st.chains)
    (fits : c + gap ≤ u32Max) (more : ∀ j m, past j m → past' j m) (skipped : ∀ i, c ≤ i → i < c + gap → past' k i) :
    Stock P sk roots past'
      (skipKeys P (hkAt P sk roots k) gap st (ckAt P sk roots k c) c).1.chains where
  distinct := distinct_skipKeys stock.distinct
  origin h := by
    rcases holds_skipKeys fits h with ⟨same, lo, hi, key⟩ | old
    · exact ⟨k, same, key, skipped _ lo hi⟩
    · exact (stock.mono more).origin old

end

/-! ## Taking a key -/

theorem Keyed.take (keyed : Keyed P sk roots s) (taken : s.skipped.take hk n = some (messageKey, skipped)) :
    Keyed P sk roots { s with skipped } ∧ ∃ k, hk = hkAt P sk roots k ∧
      Uses P sk roots s roots { s with skipped } k n messageKey := by
  obtain ⟨⟨tick, held⟩, distinct, lesser, gone⟩ := take_some keyed.stock.distinct taken
  obtain ⟨k, rfl, key, past⟩ := keyed.stock.origin held
  refine ⟨{ keyed with stock := keyed.stock.lesser distinct lesser }, k, rfl, key, ?_, ⟨past, gone⟩, ?_⟩
  · exact fun spent => spent.2 _ held
  · exact fun spent => ⟨spent.1, fun v h => spent.2 v (lesser h)⟩

/-! ## The receiving chain -/

section

variable (ideal : P.Ideal) (keyed : Keyed P sk roots s) {hk : Bytes}
include ideal keyed

theorem Keyed.chain {k : Nat} (current : k + 2 = roots.length) (key : hk = hkAt P sk roots k) (fits : n < u32Max)
    (effect : s.ChainEffect P hk n s' messageKey) :
    Keyed P sk roots s' ∧ Uses P sk roots s roots s' k n messageKey := by
  subst key
  cases effect with
  | late old taken =>
    obtain ⟨keyed', j, same, uses⟩ := keyed.take taken
    obtain rfl := hkAt_inj ideal same
    exact ⟨keyed', uses⟩
  | @ahead ck new limit chain =>
    obtain ⟨receiving, key⟩ := keyed.receiving k current
    cases receiving.symm.trans chain
    have upTo : s.nr + (n - s.nr) = n := by omega
    have stock : Stock P sk roots (fun j m => j + 2 < roots.length ∨ j + 2 = roots.length ∧ m < n + 1)
        (skipKeys P (hkAt P sk roots k) (n - s.nr) s.skipped (ckAt P sk roots k s.nr) s.nr).1.chains := by
      refine keyed.stock.skipKeys (by omega) ?_ ?_
      · rintro j m (before | ⟨here, lt⟩)
        · exact .inl before
        · exact .inr ⟨here, by omega⟩
      · exact fun i _ lt => .inr ⟨current, by omega⟩
    have fresh : ∀ {j m v}, Past roots s j m ∨ j = k ∧ m = n →
        Holds (skipKeys P (hkAt P sk roots k) (n - s.nr) s.skipped (ckAt P sk roots k s.nr) s.nr).1.chains
          (hkAt P sk roots j) m v → Holds s.skipped.chains (hkAt P sk roots j) m v := by
      intro j m v known h
      rcases holds_skipKeys (by omega) h with ⟨same, lo, hi, -⟩ | old
      · obtain rfl := hkAt_inj ideal same
        rcases known with (before | ⟨-, lt⟩) | ⟨-, rfl⟩ <;> omega
      · exact old
    have notPast : ¬ Past roots s k n := by
      rintro (before | ⟨-, lt⟩) <;> omega
    rw [skipKeys_chain (by omega), upTo, chainStep_ckAt, u32_succ fits]
    refine ⟨{ keyed with deaf := ?_, receiving := ?_, stock }, rfl, fun spent => notPast spent.1, ⟨?_, ?_⟩, ?_⟩
    · intro early
      omega
    · intro j here
      obtain rfl : j = k := by omega
      exact ⟨rfl, key⟩
    · exact .inr ⟨current, Nat.lt_succ_self n⟩
    · intro v h
      obtain ⟨j, same, -, past⟩ := keyed.stock.origin (fresh (.inr ⟨rfl, rfl⟩) h)
      obtain rfl := hkAt_inj ideal same
      exact notPast past
    · rintro j m ⟨past, gone⟩
      refine ⟨?_, fun v h => gone v (fresh (.inl past) h)⟩
      rcases past with before | ⟨here, lt⟩
      · exact .inl before
      · exact .inr ⟨here, by dsimp only; omega⟩

/-! ## A Diffie-Hellman step -/

/-- The keys left in the chain being closed go to the store. -/
theorem Keyed.drain {pn : Nat} (fits : pn ≤ u32Max) :
    Stock P sk roots (fun j _ => j + 2 ≤ roots.length) (s.drainChain P pn).chains ∧
      ∀ {j m}, Spent P sk roots s j m → ∀ v, ¬ Holds (s.drainChain P pn).chains (hkAt P sk roots j) m v := by
  have wider : ∀ j m, Past roots s j m → j + 2 ≤ roots.length := by
    rintro j m (before | ⟨here, -⟩) <;> omega
  unfold drainChain
  by_cases early : roots.length < 2
  · rw [(keyed.deaf early).1]
    exact ⟨keyed.stock.mono wider, fun spent => spent.2⟩
  · obtain ⟨k, current⟩ : ∃ k, k + 2 = roots.length := ⟨roots.length - 2, by omega⟩
    obtain ⟨chain, key⟩ := keyed.receiving k current
    rw [chain, key]
    by_cases none : pn ≤ s.nr
    · rw [Nat.sub_eq_zero_of_le none]
      exact ⟨keyed.stock.mono wider, fun spent => spent.2⟩
    · have fits' : s.nr + (pn - s.nr) ≤ u32Max := by omega
      refine ⟨keyed.stock.skipKeys fits' wider fun i _ _ => current.le, fun {j m} spent v h => ?_⟩
      rcases holds_skipKeys fits' h with ⟨same, lo, -, -⟩ | old
      · obtain rfl := hkAt_inj ideal same
        rcases spent.1 with before | ⟨-, lt⟩ <;> omega
      · exact spent.2 v old

theorem Keyed.turn (fits : header.pn ≤ u32Max) (rng : Rng) (taken peeked : List Bytes) :
    let roots' := roots ++ [s.peerArgs P header taken, s.ownArgs P header rng peeked]
    Keyed P sk roots' (s.turn P header rng taken peeked) ∧
      ∀ {j m}, Spent P sk roots s j m → Spent P sk roots' (s.turn P header rng taken peeked) j m := by
  intro roots'
  have length : roots'.length = roots.length + 2 := by simp [roots']
  have first : stepAt P sk roots' roots.length = rootStep P s.root (s.peerArgs P header taken) := by
    rw [keyed.root]
    exact stepAt_snoc
  have second : stepAt P sk roots' (roots.length + 1) =
      rootStep P (stepAt P sk roots' roots.length).rootKey (s.ownArgs P header rng peeked) := by
    unfold stepAt
    congr 1
    simp [roots']
  have sameKey : ∀ {k}, k ≤ roots.length + 1 → hkAt P sk roots' k = hkAt P sk roots k :=
    fun known => hkAt_append _ known
  obtain ⟨stock, gone⟩ := keyed.drain ideal fits
  refine ⟨⟨?_, ?_, ?_, ?_, ?_, ?_, ?_, ?_, ?_⟩, ?_⟩
  · rw [length, rootAt_succ, second, first]
    rfl
  · omega
  · intro k here
    obtain rfl : k = roots.length + 1 := by omega
    rw [sameKey le_rfl, ← keyed.nextSending, ckAt.eq_def, second, first]
    exact ⟨rfl, rfl⟩
  · rw [length, hkAt, second, first]
    rfl
  · omega
  · intro k here
    obtain rfl : k = roots.length := by omega
    rw [sameKey (by omega), ← keyed.nextReceiving, ckAt.eq_def, first]
    exact ⟨rfl, rfl⟩
  · rw [length, hkAt, first]
    rfl
  · exact stock.distinct
  · intro hk n v held
    obtain ⟨k, same, key, known⟩ := stock.origin held
    refine ⟨k, ?_, ?_, .inl (by omega)⟩
    · rwa [sameKey (by omega)]
    · rwa [mkAt_append _ (by omega)]
  · intro j m spent
    have past := spent.1
    have known : j + 2 ≤ roots.length := by
      rcases past with before | ⟨here, -⟩ <;> omega
    refine ⟨.inl (by omega), ?_⟩
    rw [sameKey (by omega)]
    exact gone spent

end

/-! ## Receiving -/

theorem Uses.after {roots' roots'' : List RootArgs} (uses : Uses P sk roots' t roots'' s' k n messageKey)
    (kept : ∀ {j m}, Spent P sk roots s j m → Spent P sk roots' t j m) :
    Uses P sk roots s roots'' s' k n messageKey :=
  ⟨uses.key, fun h => uses.fresh (kept h), uses.spent, fun h => uses.kept (kept h)⟩

theorem Keyed.pq (keyed : Keyed P sk roots s) (pq : PqRatchet) : Keyed P sk roots { s with pq } :=
  { keyed with }

theorem Keyed.advance (ideal : P.Ideal) (keyed : Keyed P sk roots s) {which : Opener}
    (mem : (which, hk) ∈ s.candidates) (valid : header.Valid)
    (effect : s.AdvanceEffect P header rng which s' messageKey args) :
    Keyed P sk (roots ++ args) s' ∧ ∃ k, hk = hkAt P sk (roots ++ args) k ∧
      Uses P sk roots s (roots ++ args) s' k header.n messageKey := by
  cases effect with
  | @stored pq hk' _ _ _ taken =>
    obtain ⟨-, rfl⟩ : _ ∧ hk = hk' := by simpa [candidates] using mem
    rw [List.append_nil]
    obtain ⟨keyed', k, same, uses⟩ := (keyed.pq pq).take taken
    exact ⟨keyed', k, same, uses.after id⟩
  | @current pq hk' _ _ _ key chain =>
    obtain rfl : hk = hk' := by simpa [candidates, key] using mem
    obtain ⟨k, current⟩ : ∃ k, k + 2 = roots.length := by
      refine ⟨roots.length - 2, ?_⟩
      have : ¬ roots.length < 2 := fun early => by simp [(keyed.deaf early).2] at key
      omega
    cases (keyed.receiving k current).2.symm.trans key
    rw [List.append_nil]
    obtain ⟨keyed', uses⟩ := (keyed.pq pq).chain ideal current rfl valid.n chain
    exact ⟨keyed', k, rfl, uses.after id⟩
  | @next pq taken peeked _ _ _ _ chain =>
    obtain rfl : hk = s.nhkr := by simpa [candidates] using mem
    obtain ⟨turned, kept⟩ := (keyed.pq pq).turn ideal valid.pn rng taken peeked
    have key : s.nhkr = hkAt P sk (roots ++ [({ s with pq }).peerArgs P header taken,
        ({ s with pq }).ownArgs P header rng peeked]) roots.length := by
      rw [hkAt_append _ (by omega), keyed.nextReceiving]
    obtain ⟨keyed', uses⟩ := turned.chain ideal (by simp) key valid.n chain
    exact ⟨keyed', roots.length, key, uses.after kept⟩

theorem Keyed.commit (keyed : Keyed P sk roots s) :
    Keyed P sk roots s.commit ∧ ∀ {j m}, Spent P sk roots s j m → Spent P sk roots s.commit j m := by
  have stock := keyed.stock.lesser (distinct_advanceTick keyed.stock.distinct) advanceTick_lesser
  exact ⟨{ keyed with stock }, fun spent => ⟨spent.1, fun v h => spent.2 v (advanceTick_lesser h)⟩⟩

/-- Opening a genuine message uses its key. -/
theorem Keyed.openParsed (ideal : P.Ideal) (keyed : Keyed P sk roots s) {x : Sealing} (valid : x.Valid P)
    {opened : Opened} (h : s.openParsed P (x.parsed P) rng = .ok (s', opened, args)) :
    Keyed P sk (roots ++ args) s' ∧ ∃ k, x.headerKey = hkAt P sk (roots ++ args) k ∧
      Uses P sk roots s (roots ++ args) s' k x.header.n x.messageKey := by
  obtain ⟨which, t, found, advanced, rfl, -⟩ := openParsed_ok ideal valid h
  obtain ⟨keyed', k, key, uses⟩ :=
    keyed.advance ideal (List.mem_of_find?_eq_some found) valid.header ((advanceFor_iff ideal).1 advanced)
  obtain ⟨keyed'', kept⟩ := keyed'.commit
  exact ⟨keyed'', k, key, uses.key, uses.fresh, kept uses.spent, fun h => kept (uses.kept h)⟩

/-! ## Sending -/

theorem Keyed.encrypt (keyed : Keyed P sk roots s) {r : Result Bytes}
    (effect : s.EncryptEffect P msgType plaintext rng s' r) :
    Keyed P sk roots s' ∧ ∀ {j m}, Spent P sk roots s j m → Spent P sk roots s' j m := by
  cases effect with
  | refused => exact ⟨keyed, id⟩
  | @sealed ck hk r chain key left out =>
    refine ⟨{ keyed with silent := ?_, sending := ?_ }, id⟩
    · intro none
      rw [keyed.silent none] at chain
      cases chain
    · intro k here
      obtain ⟨same, key⟩ := keyed.sending k here
      cases same.symm.trans chain
      exact ⟨rfl, key⟩

end Osl.Ratchet
