import Osl.Ratchet.Chains

/-!
# What a session can still open

A message is waited for while its key is in the store or still to come in the
receiving chain. With room in the store (`Spacious`), receiving one message loses
no other: every message waited for stays so but the one received
(`AdvanceEffect.waiting`).
-/

namespace Osl.Ratchet

open Base SkippedKeys Session

namespace Session

/-- Message `n` under header key `hk` can be opened without a root step. -/
def Waiting (s : Session) (hk : Bytes) (n : Nat) : Prop :=
  s.hkr = some hk ∧ s.nr ≤ n ∨ ∃ v, Holds s.skipped.chains hk n v

section
variable (P : Primitives)

/-- The gaps in front of `header`'s message are within the limit and fit the store. -/
def Fits (s : Session) (header : RatchetHeader) : Opener → Prop
  | .stored _ => True
  | .current => header.n - s.nr ≤ s.skipped.params.maxSkipPerMessage ∧
    ∀ hk ∈ s.hkr, s.skipped.HasRoom hk (header.n - s.nr)
  | .next => (∀ hk ∈ s.hkr, header.pn - s.nr ≤ s.skipped.params.maxSkipPerMessage ∧
      s.skipped.HasRoom hk (header.pn - s.nr)) ∧
    header.n ≤ s.skipped.params.maxSkipPerMessage ∧ (s.drainChain P header.pn).HasRoom s.nhkr header.n

/-- For the wire under way, no skip limit, no cap and no age limit is reached. -/
def Spacious (s : Session) (parsed : ParsedWire) (rng : Rng) : Prop :=
  ∀ which header, openHeader P (headerNonce parsed.headerNonce) (adHeader ++ parsed.prefixBytes) parsed.headerCt
      s.candidates = .ok (which, header) →
    s.Fits P header which ∧
      ∀ t key args, s.advanceFor P which header rng = .ok (t, key, args) → t.skipped.NothingExpires

end

variable {P : Primitives} {s s' : Session} {hk hk' messageKey : Bytes} {n i : Nat} {header : RatchetHeader} {rng : Rng}

/-! ## Skipping with room -/

section
variable {st : SkippedKeys} {ck : Bytes} {c gap : Nat}

@[simp] theorem skipKeys_params : (skipKeys P hk gap st ck c).1.params = st.params := by
  induction gap generalizing st ck c with
  | zero => rfl
  | succ gap ih =>
    unfold skipKeys
    rw [ih, insert_params]

@[simp] theorem drainChain_params (s : Session) (pn : Nat) : (s.drainChain P pn).params = s.skipped.params := by
  unfold drainChain
  split
  · exact skipKeys_params
  · rfl

theorem skipKeys_counter (fits : c + gap ≤ u32Max) : (skipKeys P hk gap st ck c).2.2 = c + gap := by
  induction gap generalizing st ck c with
  | zero => rfl
  | succ gap ih =>
    unfold skipKeys
    rw [u32_succ (by omega), ih (by omega), Nat.add_right_comm, Nat.add_assoc]

/-- Nothing is evicted, and what was skipped is there. -/
theorem skipKeys_keeps (distinct : Distinct st.chains) (room : st.HasRoom hk gap) (fits : c + gap ≤ u32Max)
    (h : (∃ v, Holds st.chains hk' i v) ∨ hk' = hk ∧ c ≤ i ∧ i < c + gap) :
    ∃ v, Holds (skipKeys P hk gap st ck c).1.chains hk' i v := by
  induction gap generalizing st ck c with
  | zero => exact h.resolve_right (by omega)
  | succ gap ih =>
    unfold skipKeys
    rw [u32_succ (by omega)]
    refine ih (distinct_insert distinct) room.insert (by omega) ?_
    by_cases here : hk' = hk ∧ i = c
    · obtain ⟨rfl, rfl⟩ := here
      exact .inl ⟨_, holds_insert_self room⟩
    · rcases h with ⟨v, old⟩ | ⟨same, lo, hi⟩
      · exact .inl ⟨v, holds_insert_of_room distinct room old here⟩
      · have later : i ≠ c := fun eq => here ⟨same, eq⟩
        exact .inr ⟨same, by omega, by omega⟩

end

/-! ## Receiving with room -/

theorem ChainEffect.waiting (effect : s.ChainEffect P hk n s' messageKey) (distinct : Distinct s.skipped.chains)
    (key : s.hkr = some hk) (fits : n < u32Max) (room : s.skipped.HasRoom hk (n - s.nr)) (w : s.Waiting hk' i) :
    (hk' = hk ∧ i = n) ∨ s'.Waiting hk' i := by
  by_cases here : hk' = hk ∧ i = n
  · exact .inl here
  right
  cases effect with
  | late old taken =>
    rcases w with ahead | ⟨v, held⟩
    · exact .inl ahead
    · exact .inr ⟨v, holds_take distinct taken held here⟩
  | @ahead ck new limit chain =>
    have keeps : (∃ v, Holds s.skipped.chains hk' i v) ∨ hk' = hk ∧ s.nr ≤ i ∧ i < s.nr + (n - s.nr) →
        ∃ v, Holds (skipKeys P hk (n - s.nr) s.skipped ck s.nr).1.chains hk' i v :=
      skipKeys_keeps distinct room (by omega)
    rcases w with ⟨current, above⟩ | held
    · obtain rfl : hk = hk' := Option.some.inj (key.symm.trans current)
      by_cases before : i < n
      · exact .inr (keeps (.inr ⟨rfl, above, by omega⟩))
      · have later : i ≠ n := fun eq => here ⟨rfl, eq⟩
        refine .inl ⟨key, ?_⟩
        dsimp only
        rw [skipKeys_counter (by omega), u32_succ (by omega)]
        omega
    · exact .inr (keeps (.inl held))

theorem ChainEffect.nr (effect : s.ChainEffect P hk n s' messageKey) (fits : n < u32Max) :
    s'.nr = s.nr ∨ s'.nr = n + 1 := by
  cases effect with
  | late => exact .inl rfl
  | ahead new =>
    right
    rw [skipKeys_counter (by omega), Nat.add_sub_cancel' new, u32_succ fits]

end Session

variable {P : Primitives} {sk : Bytes} {roots : List RootArgs} {s t : Session} {hk hk' messageKey : Bytes} {i : Nat}
  {header : RatchetHeader} {rng : Rng} {args : List RootArgs} {which : Opener}

/-- Closing a chain leaves the keys of its messages, if its length is right. -/
theorem Keyed.waiting_turn (keyed : Keyed P sk roots s) (fits : header.pn ≤ u32Max)
    (room : ∀ hk ∈ s.hkr, s.skipped.HasRoom hk (header.pn - s.nr)) {taken peeked : List Bytes} (w : s.Waiting hk i)
    (closed : s.hkr = some hk → i < header.pn) : (s.turn P header rng taken peeked).Waiting hk i := by
  right
  show ∃ v, Holds (s.drainChain P header.pn).chains hk i v
  unfold drainChain
  by_cases early : roots.length < 2
  · obtain ⟨deaf, keyless⟩ := keyed.deaf early
    rw [deaf]
    rcases w with ⟨current, -⟩ | held
    · cases keyless.symm.trans current
    · exact held
  · obtain ⟨chain, key⟩ := keyed.receiving (roots.length - 2) (by omega)
    rw [chain, key]
    by_cases none : header.pn ≤ s.nr
    · rw [Nat.sub_eq_zero_of_le none]
      rcases w with ⟨current, above⟩ | held
      · have := closed current
        omega
      · exact held
    · refine skipKeys_keeps keyed.stock.distinct (room _ key) (by omega) ?_
      rcases w with ⟨current, above⟩ | held
      · have := closed current
        exact .inr ⟨Option.some.inj (current.symm.trans key), above, by omega⟩
      · exact .inl held

/-- Receiving takes the key of one message only. A root step adds the messages of
the chain it starts. -/
theorem Session.AdvanceEffect.waiting (ideal : P.Ideal) (effect : s.AdvanceEffect P header rng which t messageKey args)
    (keyed : Keyed P sk roots s) (mem : (which, hk) ∈ s.candidates) (valid : header.Valid)
    (fits : s.Fits P header which)
    (w : s.Waiting hk' i ∧ (args ≠ [] → s.hkr = some hk' → i < header.pn) ∨ args ≠ [] ∧ hk' = s.nhkr) :
    (hk' = hk ∧ i = header.n) ∨ t.Waiting hk' i := by
  cases effect with
  | @stored pq hk₀ _ _ absorbed taken =>
    obtain ⟨-, rfl⟩ : _ ∧ hk = hk₀ := by simpa [candidates] using mem
    by_cases here : hk' = hk ∧ i = header.n
    · exact .inl here
    right
    obtain ⟨w, -⟩ := w.resolve_right (by simp)
    rcases w with ahead | ⟨v, held⟩
    · exact .inl ahead
    · exact .inr ⟨v, holds_take keyed.stock.distinct taken held here⟩
  | @current pq hk₀ _ _ absorbed key chain =>
    obtain rfl : hk = hk₀ := by simpa [candidates, key] using mem
    obtain ⟨w, -⟩ := w.resolve_right (by simp)
    exact chain.waiting keyed.stock.distinct key valid.n (fits.2 _ key) w
  | @next pq taken peeked _ _ absorbed can chain =>
    obtain rfl : hk = s.nhkr := by simpa [candidates] using mem
    obtain ⟨closing, -, room⟩ := fits
    obtain ⟨turned, -⟩ := (keyed.pq pq).turn ideal valid.pn rng taken peeked
    refine chain.waiting turned.stock.distinct rfl valid.n room ?_
    rcases w with ⟨w, closed⟩ | ⟨-, rfl⟩
    · exact (keyed.pq pq).waiting_turn valid.pn (fun hk key => (closing hk key).2) w (closed (by simp))
    · exact .inl ⟨rfl, Nat.zero_le _⟩

theorem Session.Waiting.commit (w : s.Waiting hk i) (keep : s.skipped.NothingExpires) : s.commit.Waiting hk i := by
  rcases w with ahead | ⟨v, held⟩
  · exact .inl ahead
  · exact .inr ⟨v, holds_advanceTick keep held⟩

end Osl.Ratchet
