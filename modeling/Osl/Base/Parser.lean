import Osl.Base.Ideal
import Osl.Base.Outcome

/-!
# Parsers

A parser is a computation on the input not yet read that may fail. What a
successful parser of several parts has read is what its parts have read: each
control structure has one lemma that says so as an equivalence.
-/

namespace Base

abbrev Parser (ε σ α : Type) := StateT σ (Except ε) α

namespace Parser

variable {ε σ α β : Type} {p q : Parser ε σ α} {f : α → Parser ε σ β} {s t u : σ} {a a' : α} {b : β} {e : ε} {c : Prop}

theorem bind_ok_iff : (p >>= f) s = .ok (b, t) ↔ ∃ a u, p s = .ok (a, u) ∧ f a u = .ok (b, t) := by
  change (p s >>= fun r => f r.1 r.2) = _ ↔ _
  rw [bind_ok]
  constructor
  · rintro ⟨⟨a, u⟩, first, rest⟩
    exact ⟨a, u, first, rest⟩
  · rintro ⟨a, u, first, rest⟩
    exact ⟨(a, u), first, rest⟩

theorem pure_ok_iff : (pure a : Parser ε σ α) s = .ok (a', t) ↔ a = a' ∧ s = t := by
  change Except.ok (a, s) = Except.ok (a', t) ↔ _
  rw [Except.ok.injEq, Prod.mk.injEq]

theorem get_ok_iff : (get : Parser ε σ σ) s = .ok (u, t) ↔ u = s ∧ t = s := by
  change Except.ok (s, s) = Except.ok (u, t) ↔ _
  rw [Except.ok.injEq, Prod.mk.injEq, eq_comm, eq_comm (a := s)]

theorem throw_ok_iff : (throw e : Parser ε σ α) s = .ok (a, t) ↔ False := by
  constructor
  · intro h
    cases h
  · exact False.elim

theorem ite_ok_iff [Decidable c] :
    (if c then p else q) s = .ok (a, t) ↔ c ∧ p s = .ok (a, t) ∨ ¬c ∧ q s = .ok (a, t) := by
  split <;> simp [*]

/-- A check that fails before going on. -/
theorem guard_ok_iff [Decidable c] {k : β → Parser ε σ α} :
    (if c then throw e >>= k else q) s = .ok (a, t) ↔ ¬c ∧ q s = .ok (a, t) := by
  simp only [ite_ok_iff, bind_ok_iff, throw_ok_iff, false_and, exists_false, and_false, false_or]

theorem lift_ok_iff {x : Except ε α} : (StateT.lift x : Parser ε σ α) s = .ok (a, t) ↔ x = .ok a ∧ s = t := by
  change (x >>= fun a => Except.ok (a, s)) = _ ↔ _
  rw [bind_ok]
  simp only [Except.ok.injEq, Prod.mk.injEq]
  constructor
  · rintro ⟨a', made, rfl, rfl⟩
    exact ⟨made, rfl⟩
  · rintro ⟨made, rfl⟩
    exact ⟨a, made, rfl, rfl⟩

/-- The body `n` times, each time on what the time before gave. -/
def loop (body : α → Parser ε σ α) : Nat → α → Parser ε σ α
  | 0, a => pure a
  | n + 1, a => do
    let a ← body a
    loop body n a

/-- Only the first component is kept. -/
theorem map_fst_ok_iff : (p s).map (·.1) = .ok a ↔ ∃ t, p s = .ok (a, t) := by
  rw [map_ok]
  constructor
  · rintro ⟨⟨a', t⟩, read, rfl⟩
    exact ⟨t, read⟩
  · rintro ⟨t, read⟩
    exact ⟨(a, t), read, rfl⟩

end Parser

/-! ## Canonical encodings -/

/-- Every symbol is a byte. -/
def AreBytes (buf : Bytes) : Prop := ∀ b ∈ buf, b < 256

theorem AreBytes.append {xs ys : Bytes} : AreBytes (xs ++ ys) ↔ AreBytes xs ∧ AreBytes ys := by
  unfold AreBytes
  rw [List.forall_mem_append]

theorem AreBytes.cons {x : Nat} {xs : Bytes} : AreBytes (x :: xs) ↔ x < 256 ∧ AreBytes xs := by
  unfold AreBytes
  rw [List.forall_mem_cons]

/-! ## Loops over records -/

section

variable {ε α ρ : Type} {body : α → Parser ε Bytes α} {fits : ρ → Prop} {bytes : ρ → Bytes} {put : α → ρ → α}

/-- A loop whose body reads back one record reads back a list of them. -/
theorem Parser.loop_bytes (read : ∀ a r rest, fits r → body a (bytes r ++ rest) = .ok (put a r, rest)) {records : List ρ}
    (all : ∀ r ∈ records, fits r) (a : α) (rest : Bytes) :
    loop body records.length a (records.flatMap bytes ++ rest) = .ok (records.foldl put a, rest) := by
  induction records generalizing a with
  | nil => rfl
  | cons r records ih =>
    rw [List.forall_mem_cons] at all
    rw [List.length_cons, loop, bind_ok_iff, List.flatMap_cons, List.append_assoc]
    exact ⟨put a r, _, read a r _ all.1, ih all.2 (put a r)⟩

/-- A loop whose body accepts only records accepts only lists of them. -/
theorem Parser.loop_ok
    (made : ∀ a buf a' rest, AreBytes buf → body a buf = .ok (a', rest) → ∃ r, fits r ∧ buf = bytes r ++ rest ∧ a' = put a r)
    {n : Nat} {a a' : α} {buf rest : Bytes} (small : AreBytes buf) (looped : loop body n a buf = .ok (a', rest)) :
    ∃ records : List ρ, records.length = n ∧ (∀ r ∈ records, fits r) ∧ buf = records.flatMap bytes ++ rest ∧
      a' = records.foldl put a := by
  induction n generalizing a buf with
  | zero =>
    obtain ⟨rfl, rfl⟩ := pure_ok_iff.1 looped
    exact ⟨[], rfl, fun r mem => (by cases mem), rfl, rfl⟩
  | succ n ih =>
    rw [loop, bind_ok_iff] at looped
    obtain ⟨b, buf', first, later⟩ := looped
    obtain ⟨r, fit, rfl, rfl⟩ := made a buf b buf' small first
    obtain ⟨records, rfl, all, rfl, rfl⟩ := ih (AreBytes.append.1 small).2 later
    refine ⟨r :: records, rfl, List.forall_mem_cons.2 ⟨fit, all⟩, ?_, rfl⟩
    rw [List.flatMap_cons, List.append_assoc]

end

/-- `decode` accepts exactly the encodings of the valid values, and gives the value back. -/
structure Canonical {ε δ α : Type} (encode : α → Except ε Bytes) (decode : Bytes → Except δ α) (valid : α → Prop) :
    Prop where
  round_trip : ∀ v, valid v → ∃ b, encode v = .ok b ∧ decode b = .ok v
  reencode : ∀ b v, AreBytes b → decode b = .ok v → valid v ∧ encode v = .ok b
  injective : ∀ b b' v, AreBytes b → AreBytes b' → decode b = .ok v → decode b' = .ok v → b = b'

/-- The same for a parser that may leave input. -/
structure CanonicalParser {ε δ α : Type} (encode : α → Except ε Bytes) (decode : Parser δ Bytes α) (valid : α → Prop) :
    Prop where
  round_trip : ∀ v, valid v → ∃ b, encode v = .ok b ∧ ∀ rest, decode (b ++ rest) = .ok (v, rest)
  reencode : ∀ b v rest, AreBytes b → decode b = .ok (v, rest) → valid v ∧ ∃ used, encode v = .ok used ∧ b = used ++ rest
  injective : ∀ b b' v rest, AreBytes b → AreBytes b' → decode b = .ok (v, rest) → decode b' = .ok (v, rest) → b = b'

section

variable {ε δ α : Type} {encode : α → Except ε Bytes} {valid : α → Prop} {bytes : α → Bytes}

theorem Canonical.of_iff {decode : Bytes → Except δ α} (written : ∀ v, valid v → encode v = .ok (bytes v))
    (read : ∀ v, valid v → decode (bytes v) = .ok v)
    (made : ∀ b v, AreBytes b → decode b = .ok v → valid v ∧ b = bytes v) : Canonical encode decode valid where
  round_trip v ok := ⟨bytes v, written v ok, read v ok⟩
  reencode b v small decoded := by
    obtain ⟨ok, rfl⟩ := made b v small decoded
    exact ⟨ok, written v ok⟩
  injective b b' v small small' decoded decoded' :=
    (made b v small decoded).2.trans (made b' v small' decoded').2.symm

theorem CanonicalParser.of_iff {decode : Parser δ Bytes α} (written : ∀ v, valid v → encode v = .ok (bytes v))
    (read : ∀ v, valid v → ∀ rest, decode (bytes v ++ rest) = .ok (v, rest))
    (made : ∀ b v rest, AreBytes b → decode b = .ok (v, rest) → valid v ∧ b = bytes v ++ rest) :
    CanonicalParser encode decode valid where
  round_trip v ok := ⟨bytes v, written v ok, read v ok⟩
  reencode b v rest small decoded := by
    obtain ⟨ok, same⟩ := made b v rest small decoded
    exact ⟨ok, bytes v, written v ok, same⟩
  injective b b' v rest small small' decoded decoded' :=
    (made b v rest small decoded).2.trans (made b' v rest small' decoded').2.symm

end

end Base
