import Osl.Base.Outcome
import Osl.DoubleRatchet.Schedule

/-!
# What one delivery does

`decrypt_at` refuses a message and changes nothing but the expired keys, or takes its
key from the cache, from the present receiving chain or from a new one (`Effect`).
Whatever the message, the key it takes is not spent before and spent afterwards, and
nothing restores a spent key (`Uses`).
-/

namespace Osl.DoubleRatchet

open Base Crypto

variable {P : Primitives} {s s' s'' : DoubleRatchet} {plaintext key ck secret : Bytes}
  {keys skipped new : List SkippedKey} {idx t t' t'' now : Nat} {entry : SkippedKey} {sk : SessionKey P}
  {past past' : Nat → Nat → Prop} {msg : EncryptedMessage} {header : Header}

/-! ## The four outcomes -/

section

variable (P : Primitives) (s : DoubleRatchet) (msg : EncryptedMessage) (now : Nat) (secret : Bytes)

/-- `new` goes to the cache and the receiving chain stands after slot `n` of `ck`. -/
structure Advances (s' : DoubleRatchet) (new : List SkippedKey) (ck : Bytes) (n : Nat) : Prop where
  chain : s'.receivingChain = some (advance P ck)
  counter : s'.receivingCounter = n + 1
  skipped : s'.skipped = new.foldl SkippedKeyCache.insert (s.swept now).skipped

inductive Effect : DoubleRatchet → Result Bytes → Prop where
  | refused (e : Error) : Effect (s.swept now) (.error e)
  | cached {idx : Nat} {entry : SkippedKey} {header : Header} {plaintext : Bytes}
      (found : (s.swept now).skipped[idx]? = some entry)
      (opened : s.openBody P msg entry.messageKey header = .ok plaintext) :
      Effect { s.swept now with skipped := (s.swept now).skipped.eraseIdx idx } (.ok plaintext)
  | same {s' : DoubleRatchet} {header : Header} {chain hkr plaintext : Bytes} {gap : Nat}
      (held : s.receivingChain = some chain) (root : s'.rootKey = s.rootKey)
      (advances : Advances P s now s' (passed P hkr now chain s.receivingCounter gap) ((advance P)^[gap] chain)
        (s.receivingCounter + gap))
      (opened : s.openBody P msg (messageKey P ((advance P)^[gap] chain)) header = .ok plaintext) : Effect s' (.ok plaintext)
  | turn {s' : DoubleRatchet} {header : Header} {dh1 dh2 plaintext : Bytes} {old : List SkippedKey}
      (drained : s.drainChain P header now = .ok old)
      (root : s'.rootKey = (kdfRkHe P (kdfRkHe P s.rootKey dh1).rootKey dh2).rootKey)
      (advances : Advances P s now s' (old ++ passed P s.nhkr now (kdfRkHe P s.rootKey dh1).chainKey 0 header.counter)
        ((advance P)^[header.counter] (kdfRkHe P s.rootKey dh1).chainKey) header.counter)
      (opened : s.openBody P msg (messageKey P ((advance P)^[header.counter] (kdfRkHe P s.rootKey dh1).chainKey)) header =
        .ok plaintext) : Effect s' (.ok plaintext)

end

theorem tryDecryptSkipped_some (found : s.tryDecryptSkipped P msg = .ok (some (plaintext, skipped))) :
    ∃ idx entry header, s.skipped[idx]? = some entry ∧ s.openBody P msg entry.messageKey header = .ok plaintext ∧
      skipped = s.skipped.eraseIdx idx := by
  unfold tryDecryptSkipped at found
  split at found
  case h_1 => cases found
  rename_i idx _
  split at found
  case h_1 => cases found
  rename_i entry there
  split at found
  case h_1 => cases found
  rename_i header _
  obtain ⟨_, -, found⟩ := bind_ok.1 found
  obtain ⟨plaintext, opened, found⟩ := bind_ok.1 found
  cases found
  exact ⟨idx, entry, header, there, opened, rfl⟩

theorem decryptSameChain_effect :
    Effect P s msg now ((s.swept now).decryptSameChain P msg header now).1 ((s.swept now).decryptSameChain P msg header now).2 := by
  unfold decryptSameChain
  split
  case isTrue => exact .refused _
  rename_i ahead
  split
  case isTrue => exact .refused _
  split
  case h_1 => exact .refused _
  case h_2 => exact .refused _
  rename_i chain hkr held _
  split
  case h_1 e _ => exact .refused e
  rename_i t skipped
  obtain rfl := skipKeys_ok skipped
  split
  case h_1 e _ => exact .refused e
  case h_2 plaintext opened =>
    split
    case isTrue => exact .refused _
    case isFalse => exact .same held rfl ⟨rfl, rfl, rfl⟩ opened

theorem rootSteps_ok {steps : RootStep × RootStep} (made : s.rootSteps P header secret = .ok steps) :
    ∃ dh1 dh2, steps = (kdfRkHe P s.rootKey dh1, kdfRkHe P (kdfRkHe P s.rootKey dh1).rootKey dh2) := by
  obtain ⟨dh1, -, made⟩ := bind_ok.1 made
  obtain ⟨dh2, -, made⟩ := bind_ok.1 made
  cases made
  exact ⟨dh1, dh2, rfl⟩

theorem decryptDhStep_effect :
    Effect P s msg now ((s.swept now).decryptDhStep P msg header now secret).1
      ((s.swept now).decryptDhStep P msg header now secret).2 := by
  unfold decryptDhStep
  split
  case isTrue => exact .refused _
  split
  case isTrue => exact .refused _
  split
  case h_1 e _ => exact .refused e
  rename_i old drained
  split
  case h_1 e _ => exact .refused e
  rename_i step1 step2 made
  obtain ⟨dh1, dh2, steps⟩ := rootSteps_ok made
  obtain ⟨rfl, rfl⟩ := Prod.mk.inj steps
  split
  case h_1 e _ => exact .refused e
  rename_i t skipped
  obtain rfl := skipKeys_ok skipped
  split
  case h_1 e _ => exact .refused e
  rename_i plaintext opened
  split
  case isTrue => exact .refused _
  case isFalse =>
    refine .turn drained rfl ⟨rfl, ?_, rfl⟩ opened
    rw [Nat.zero_add]

theorem decryptAt_effect (s : DoubleRatchet) (msg : EncryptedMessage) (now : Nat) (secret : Bytes) :
    Effect P s msg now (s.decryptAt P msg now secret).1 (s.decryptAt P msg now secret).2 := by
  unfold decryptAt
  split
  case h_1 e _ => exact .refused e
  case h_2 plaintext skipped found =>
    obtain ⟨idx, entry, header, there, opened, rfl⟩ := tryDecryptSkipped_some found
    exact .cached there opened
  case h_3 =>
    unfold decryptFresh
    split
    case h_1 e _ => exact .refused e
    rename_i header isDhStep _
    split
    case h_1 e _ => exact .refused e
    case h_2 =>
      split
      case isTrue => exact decryptDhStep_effect ..
      case isFalse => exact decryptSameChain_effect ..

/-- Whatever is delivered: an error leaves the receiver as it was, apart from expiry. -/
theorem decryptAt_error {e : Error} (failed : (s.decryptAt P msg now secret).2 = .error e) :
    (s.decryptAt P msg now secret).1 = s.swept now := by
  have effect := decryptAt_effect (P := P) s msg now secret
  generalize s.decryptAt P msg now secret = r at failed effect
  obtain ⟨s', result⟩ := r
  cases effect with
  | refused => rfl
  | cached => cases failed
  | same => cases failed
  | turn => cases failed

/-! ## The cache -/

theorem insert_sublist :
    (SkippedKeyCache.insert keys entry).Sublist (keys ++ [entry]) := by
  unfold SkippedKeyCache.insert
  split
  · exact (List.drop_sublist 1 keys).append_right [entry]
  · exact List.Sublist.refl _

theorem foldl_insert_sublist (keys new : List SkippedKey) : (new.foldl SkippedKeyCache.insert keys).Sublist (keys ++ new) := by
  induction new generalizing keys with
  | nil => exact (List.append_nil keys).symm ▸ List.Sublist.refl keys
  | cons entry new ih =>
    have first : (SkippedKeyCache.insert keys entry ++ new).Sublist (keys ++ [entry] ++ new) :=
      (insert_sublist).append_right new
    rw [List.append_assoc] at first
    exact (ih _).trans first

/-- In a list without repeated keys an erased entry's key is gone. -/
theorem key_not_mem_eraseIdx (distinct : (keys.map SkippedKey.messageKey).Nodup) (there : keys[idx]? = some entry) :
    entry.messageKey ∉ (keys.eraseIdx idx).map SkippedKey.messageKey := by
  induction keys generalizing idx with
  | nil => cases there
  | cons e keys ih =>
    obtain ⟨new, distinct⟩ := List.nodup_cons.1 distinct
    cases idx with
    | zero =>
      cases there
      exact new
    | succ idx =>
      intro mem
      rcases List.mem_cons.1 mem with same | later
      · exact new (same ▸ List.mem_map_of_mem (List.mem_of_getElem? there))
      · exact ih distinct there later

theorem length_foldl_insert (cap : keys.length ≤ maxSkippedPerChain) :
    (new.foldl SkippedKeyCache.insert keys).length ≤ maxSkippedPerChain := by
  induction new generalizing keys with
  | nil => exact cap
  | cons entry new ih =>
    refine ih ?_
    have some : 0 < maxSkippedPerChain := by decide
    unfold SkippedKeyCache.insert
    split
    · rw [List.length_append, List.length_drop, List.length_singleton]
      omega
    · rw [List.length_append, List.length_singleton]
      omega

/-! ## Spent keys -/

section

variable (P : Primitives) (sk : SessionKey P) (t : Nat) (s : DoubleRatchet)

/-- After `t` root steps the receiving chain is chain `t - 2`; the session has passed slot
`n` of chain `k`. -/
def Past (k n : Nat) : Prop := k + 2 < t ∨ k + 2 = t ∧ n < s.receivingCounter

/-- The cache holds different keys of `past` slots, and not too many. -/
structure Stock (past : Nat → Nat → Prop) (keys : List SkippedKey) : Prop where
  origin : ∀ e ∈ keys, ∃ k n, MessageKeyAt P sk k n e.messageKey ∧ past k n
  distinct : (keys.map SkippedKey.messageKey).Nodup
  cap : keys.length ≤ maxSkippedPerChain

structure Keyed : Prop where
  root : RootAt P sk t s.rootKey
  receiving : ∀ chain, s.receivingChain = some chain → ∃ k, k + 2 = t ∧ ChainKeyAt P sk k s.receivingCounter chain
  stock : Stock P sk (Past t s) s.skipped

def Spent (key : Bytes) : Prop :=
  (∃ k n, MessageKeyAt P sk k n key ∧ Past t s k n) ∧ key ∉ s.skipped.map SkippedKey.messageKey

structure Uses (t' : Nat) (s' : DoubleRatchet) (key : Bytes) : Prop where
  fresh : ¬Spent P sk t s key
  spent : Spent P sk t' s' key
  kept : ∀ {key'}, Spent P sk t s key' → Spent P sk t' s' key'

end

theorem Stock.sublist (stock : Stock P sk past keys) (less : new.Sublist keys) : Stock P sk past new where
  origin e mem := stock.origin e (less.subset mem)
  distinct := (less.map _).nodup stock.distinct
  cap := less.length_le.trans stock.cap

/-- New keys of slots that were not past go in. -/
theorem Stock.extend (ideal : P.Ideal) (stock : Stock P sk past keys) (more : ∀ {k n}, past k n → past' k n)
    (slots : ∀ e ∈ new, ∃ k n, MessageKeyAt P sk k n e.messageKey ∧ ¬past k n ∧ past' k n)
    (distinct : (new.map SkippedKey.messageKey).Nodup) : Stock P sk past' (new.foldl SkippedKeyCache.insert keys) where
  origin e mem := by
    rcases List.mem_append.1 ((foldl_insert_sublist keys new).subset mem) with old | new
    · obtain ⟨k, n, place, before⟩ := stock.origin e old
      exact ⟨k, n, place, more before⟩
    · obtain ⟨k, n, place, -, after⟩ := slots e new
      exact ⟨k, n, place, after⟩
  distinct := by
    refine ((foldl_insert_sublist keys new).map _).nodup ?_
    rw [List.map_append]
    refine List.nodup_append.2 ⟨stock.distinct, distinct, fun key old key' fresh same => ?_⟩
    obtain ⟨e, mem, rfl⟩ := List.mem_map.1 old
    obtain ⟨e', mem', rfl⟩ := List.mem_map.1 fresh
    obtain ⟨k, n, place, before⟩ := stock.origin e mem
    obtain ⟨k', n', place', after, -⟩ := slots e' mem'
    obtain ⟨rfl, rfl⟩ := (same ▸ place).unique ideal place'
    exact after before
  cap := length_foldl_insert stock.cap

theorem Keyed.swept (keyed : Keyed P sk t s) (now : Nat) :
    Keyed P sk t (s.swept now) ∧ ∀ {key}, Spent P sk t s key → Spent P sk t (s.swept now) key := by
  have less : (s.swept now).skipped.Sublist s.skipped := List.filter_sublist
  exact ⟨⟨keyed.root, keyed.receiving, keyed.stock.sublist less⟩,
    fun spent => ⟨spent.1, fun held => spent.2 ((less.map _).subset held)⟩⟩

/-- A key of the cache is used. -/
theorem Keyed.cached (keyed : Keyed P sk t s) (found : s.skipped[idx]? = some entry) :
    Keyed P sk t { s with skipped := s.skipped.eraseIdx idx } ∧
      Uses P sk t s t { s with skipped := s.skipped.eraseIdx idx } entry.messageKey := by
  have less : (s.skipped.eraseIdx idx).Sublist s.skipped := List.eraseIdx_sublist ..
  have mem := List.mem_of_getElem? found
  refine ⟨⟨keyed.root, keyed.receiving, keyed.stock.sublist less⟩, ?_, ⟨keyed.stock.origin entry mem, ?_⟩, ?_⟩
  · intro spent
    exact spent.2 (List.mem_map_of_mem mem)
  · exact key_not_mem_eraseIdx keyed.stock.distinct found
  · exact fun spent => ⟨spent.1, fun held => spent.2 ((less.map _).subset held)⟩

/-- The chain advances to a slot that was not past. -/
theorem Advances.uses (ideal : P.Ideal) (keyed : Keyed P sk t s) {k n : Nat} (advances : Advances P s now s' new ck n)
    (root : RootAt P sk t' s'.rootKey) (present : k + 2 = t') (place : ChainKeyAt P sk k n ck) (ahead : ¬Past t s k n)
    (more : ∀ {j m}, Past t s j m → Past t' s' j m)
    (slots : ∀ e ∈ new, ∃ j m, MessageKeyAt P sk j m e.messageKey ∧ ¬Past t s j m ∧ Past t' s' j m ∧ (j, m) ≠ (k, n))
    (distinct : (new.map SkippedKey.messageKey).Nodup) :
    Keyed P sk t' s' ∧ Uses P sk t s t' s' (messageKey P ck) := by
  have swept := (keyed.swept now).1
  have stock : Stock P sk (Past t' s') s'.skipped := by
    rw [advances.skipped]
    refine swept.stock.extend ideal more (fun e mem => ?_) distinct
    obtain ⟨j, m, at_, before, after, -⟩ := slots e mem
    exact ⟨j, m, at_, before, after⟩
  have here : MessageKeyAt P sk k n (messageKey P ck) := ⟨ck, place, rfl⟩
  -- A key in the new cache was in the old one or is of a slot passed over now.
  have origin : ∀ {key}, key ∈ s'.skipped.map SkippedKey.messageKey → key ∈ s.skipped.map SkippedKey.messageKey ∨
      ∃ j m, MessageKeyAt P sk j m key ∧ ¬Past t s j m ∧ (j, m) ≠ (k, n) := by
    intro key held
    obtain ⟨e, mem, rfl⟩ := List.mem_map.1 held
    rw [advances.skipped] at mem
    rcases List.mem_append.1 ((foldl_insert_sublist _ new).subset mem) with old | fresh
    · exact .inl (List.mem_map_of_mem (List.filter_sublist.subset old))
    · obtain ⟨j, m, at_, before, -, other⟩ := slots e fresh
      exact .inr ⟨j, m, at_, before, other⟩
  refine ⟨⟨root, fun chain held => ⟨k, present, ?_⟩, stock⟩, ?_, ⟨⟨k, n, here, .inr ⟨present, ?_⟩⟩, ?_⟩, ?_⟩
  · cases advances.chain.symm.trans held
    rw [advances.counter]
    exact place.advance 1
  · rintro ⟨⟨j, m, at_, before⟩, -⟩
    obtain ⟨rfl, rfl⟩ := at_.unique ideal here
    exact ahead before
  · rw [advances.counter]
    exact Nat.lt_succ_self n
  · intro held
    rcases origin held with old | ⟨j, m, at_, -, other⟩
    · obtain ⟨e, mem, same⟩ := List.mem_map.1 old
      obtain ⟨j, m, at_, before⟩ := keyed.stock.origin e mem
      obtain ⟨rfl, rfl⟩ := (same ▸ at_).unique ideal here
      exact ahead before
    · obtain ⟨rfl, rfl⟩ := at_.unique ideal here
      exact other rfl
  · rintro key' ⟨⟨j, m, at_, before⟩, gone⟩
    refine ⟨⟨j, m, at_, more before⟩, fun held => ?_⟩
    rcases origin held with old | ⟨j', m', at', before', -⟩
    · exact gone old
    · obtain ⟨rfl, rfl⟩ := at_.unique ideal at'
      exact before' before

theorem Uses.after (uses : Uses P sk t' s' t'' s'' key)
    (kept : ∀ {key}, Spent P sk t s key → Spent P sk t' s' key) : Uses P sk t s t'' s'' key :=
  ⟨fun spent => uses.fresh (kept spent), uses.spent, fun spent => uses.kept (kept spent)⟩

section

variable (ideal : P.Ideal) (keyed : Keyed P sk t s) {old : List SkippedKey} {gap : Nat}
include ideal keyed

theorem Keyed.same {chain hkr : Bytes} (held : s.receivingChain = some chain) (root : s'.rootKey = s.rootKey)
    (advances : Advances P s now s' (passed P hkr now chain s.receivingCounter gap) ((advance P)^[gap] chain)
      (s.receivingCounter + gap)) :
    Keyed P sk t s' ∧ Uses P sk t s t s' (messageKey P ((advance P)^[gap] chain)) := by
  obtain ⟨k, present, place⟩ := keyed.receiving chain held
  have counter := advances.counter
  refine advances.uses ideal keyed (root ▸ keyed.root) present (place.advance gap) ?_ ?_ ?_ (passed_nodup ideal place)
  · rintro (before | ⟨-, below⟩) <;> omega
  · rintro j m (before | ⟨here, below⟩)
    · exact .inl before
    · exact .inr ⟨here, by omega⟩
  · intro e mem
    obtain ⟨low, high, key⟩ := mem_passed mem place
    refine ⟨k, e.counter, key, ?_, .inr ⟨present, by omega⟩, ?_⟩
    · rintro (before | ⟨-, below⟩) <;> omega
    · intro same
      have := congrArg Prod.snd same
      omega

/-- What is left of the old chain is keys of slots not yet past. -/
theorem Keyed.drain (drained : s.drainChain P header now = .ok old) :
    (∀ e ∈ old, ∃ k n, k + 2 = t ∧ MessageKeyAt P sk k n e.messageKey ∧ ¬Past t s k n) ∧
      (old.map SkippedKey.messageKey).Nodup := by
  unfold drainChain at drained
  split at drained
  case h_2 =>
    cases drained
    exact ⟨fun e mem => absurd mem List.not_mem_nil, List.nodup_nil⟩
  case h_1 chain hkr held _ =>
    obtain ⟨k, present, place⟩ := keyed.receiving chain held
    obtain ⟨tentative, skipped, rfl⟩ := map_ok.1 drained
    obtain rfl := skipKeys_ok skipped
    refine ⟨fun e mem => ?_, passed_nodup ideal place⟩
    obtain ⟨low, -, key⟩ := mem_passed mem place
    have low : s.receivingCounter ≤ e.counter := low
    refine ⟨k, e.counter, present, key, ?_⟩
    rintro (before | ⟨-, below⟩) <;> omega

theorem Keyed.turn {dh1 dh2 : Bytes} (drained : s.drainChain P header now = .ok old)
    (root : s'.rootKey = (kdfRkHe P (kdfRkHe P s.rootKey dh1).rootKey dh2).rootKey)
    (advances : Advances P s now s' (old ++ passed P s.nhkr now (kdfRkHe P s.rootKey dh1).chainKey 0 header.counter)
      ((advance P)^[header.counter] (kdfRkHe P s.rootKey dh1).chainKey) header.counter) :
    Keyed P sk (t + 2) s' ∧ Uses P sk t s (t + 2) s'
      (messageKey P ((advance P)^[header.counter] (kdfRkHe P s.rootKey dh1).chainKey)) := by
  have counter := advances.counter
  have place : ChainKeyAt P sk t 0 (kdfRkHe P s.rootKey dh1).chainKey := ⟨_, dh1, keyed.root, rfl⟩
  have last := place.advance header.counter
  rw [Nat.zero_add] at last
  have later : ∀ {n}, ¬Past t s t n := by
    rintro n (before | ⟨here, -⟩) <;> omega
  obtain ⟨left, distinct⟩ := keyed.drain ideal drained
  refine advances.uses ideal keyed (root ▸ (keyed.root.step dh1).step dh2) rfl last later ?_ ?_ ?_
  · rintro j m (before | ⟨here, -⟩)
    · exact .inl (by omega)
    · exact .inl (by omega)
  · intro e mem
    rcases List.mem_append.1 mem with fromOld | fromNew
    · obtain ⟨k, n, present, key, before⟩ := left e fromOld
      refine ⟨k, n, key, before, .inl (by omega), fun same => ?_⟩
      have := congrArg Prod.fst same
      omega
    · obtain ⟨-, high, key⟩ := mem_passed fromNew place
      refine ⟨t, e.counter, key, later, .inr ⟨rfl, by omega⟩, fun same => ?_⟩
      have := congrArg Prod.snd same
      omega
  · rw [List.map_append]
    refine List.nodup_append.2 ⟨distinct, passed_nodup ideal place, fun key fromOld key' fromNew same => ?_⟩
    obtain ⟨e, mem, rfl⟩ := List.mem_map.1 fromOld
    obtain ⟨e', mem', rfl⟩ := List.mem_map.1 fromNew
    obtain ⟨k, n, present, key, -⟩ := left e mem
    obtain ⟨-, -, key'⟩ := mem_passed mem' place
    have chains := ((same ▸ key).unique ideal key').1
    omega

/-- The ciphertext of the message is `plaintext` under `key`. -/
def Holds (P : Primitives) (msg : EncryptedMessage) (key plaintext : Bytes) : Prop :=
  ∃ ad, msg.ciphertext = aeadSeal P key msg.messageNonce ad plaintext

/-- A message that is accepted, whoever made it, uses the key it is under. -/
theorem Keyed.decryptAt (msg : EncryptedMessage) (now : Nat) (secret : Bytes) :
    ∃ t', Keyed P sk t' (s.decryptAt P msg now secret).1 ∧
      (∀ {key}, Spent P sk t s key → Spent P sk t' (s.decryptAt P msg now secret).1 key) ∧
      ∀ plaintext, (s.decryptAt P msg now secret).2 = .ok plaintext →
        ∃ key, Holds P msg key plaintext ∧ Uses P sk t s t' (s.decryptAt P msg now secret).1 key := by
  have holds : ∀ {key plaintext header}, s.openBody P msg key header = .ok plaintext → Holds P msg key plaintext :=
    fun opened => ⟨_, (aeadOpen_ok_iff ideal).1 opened⟩
  have effect := decryptAt_effect (P := P) s msg now secret
  generalize s.decryptAt P msg now secret = r at effect
  obtain ⟨s', result⟩ := r
  obtain ⟨swept, kept⟩ := keyed.swept now
  cases effect with
  | refused e => exact ⟨t, swept, kept, fun plaintext ok => by cases ok⟩
  | cached found opened =>
    obtain ⟨keyed', uses⟩ := swept.cached found
    have uses := uses.after kept
    refine ⟨t, keyed', uses.kept, fun plaintext ok => ?_⟩
    cases ok
    exact ⟨_, holds opened, uses⟩
  | same held root advances opened =>
    obtain ⟨keyed', uses⟩ := keyed.same ideal held root advances
    refine ⟨t, keyed', uses.kept, fun plaintext ok => ?_⟩
    cases ok
    exact ⟨_, holds opened, uses⟩
  | turn drained root advances opened =>
    obtain ⟨keyed', uses⟩ := keyed.turn ideal drained root advances
    refine ⟨t + 2, keyed', uses.kept, fun plaintext ok => ?_⟩
    cases ok
    exact ⟨_, holds opened, uses⟩

end

end Osl.DoubleRatchet
