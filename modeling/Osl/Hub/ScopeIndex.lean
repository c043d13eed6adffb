import Osl.Base.Run
import Osl.Base.TreeMap
import Osl.Bytes

/-!
# The scope index of a service account

`service_scope_index.rs`: a scope is registered before it is written to, and a burn freezes
the account with a manifest of its scopes, journals a step for each, and clears the account
when all are done. The journal is kept by manifest, and `finish_burn` asks nothing else:
with the manifest of a burn that is over it clears the account again.

The document in memory is modelled, of which a failed `persist` undoes nothing. A manifest
is its contents, as if no two had one digest; the calls are those that pass
`validate_registration` and `verify_manifest`.
-/

namespace Osl.Hub.ScopeIndex

open Base Std

def maxAccounts : Nat := 128
def maxScopesPerAccount : Nat := 8192
def maxBurnJournal : Nat := 8192

inductive CoverageState | legacyIncomplete | cleanPostIndex | trustedEnumeration
deriving DecidableEq

def CoverageState.complete (c : CoverageState) : Bool := c ≠ .legacyIncomplete

/-- Without the account, which is always the same one. -/
structure Manifest (S : Type) where
  generation : Nat
  scopes : List (Text × S)
deriving DecidableEq

inductive BurnStepState | pending | complete
deriving DecidableEq

/-- `BurnJournalRecord`. -/
structure Record (S : Type) where
  manifest : Manifest S
  steps : List (Text × BurnStepState)
  keys : steps.map Prod.fst = manifest.scopes.map Prod.fst

/-- `AccountScopeIndex`. -/
structure Account (S : Type) where
  generation : Nat := 1
  frozen : Bool := false
  coverage : CoverageState
  scopes : ExtTreeMap Text S := ∅

/-- The document; of the other accounts, of the same identity and of others, it matters how
many there are, and whether one of the former is frozen. -/
structure Index (S : Type) where
  account : Option (Account S) := none
  journal : List (Record S) := []
  siblings : Nat := 0
  siblingFrozen : Bool := false
  others : Nat := 0
  otherBurns : Nat := 0

variable {S : Type}

def Account.buildManifest (a : Account S) (generation : Nat) : Manifest S := ⟨generation, a.scopes.toList⟩

/-- `checked_add(1)`. -/
def next (generation : Nat) : Except String Nat :=
  if generation + 1 < 2 ^ 64 then .ok (generation + 1) else .error "OSL service scope generation exhausted"

def initializeCleanAccount (i : Index S) : Index S × Except String Unit :=
  if i.account.isSome then (i, .error "OSL service scope coverage was already initialized")
  else if maxAccounts ≤ i.siblings + i.others then (i, .error "OSL service scope index account limit reached")
  else ({ i with account := some { coverage := .cleanPostIndex } }, .ok ())

/-- The callback is entered when the result is `ok`. -/
def withRegisteredWrite (i : Index S) (key : Text) (scope : S) : Index S × Except String Unit :=
  if i.account.isNone ∧ maxAccounts ≤ i.siblings + i.others then
    (i, .error "OSL service scope index account limit reached")
  else
    let a := i.account.getD { coverage := .legacyIncomplete }
    if a.frozen then ({ i with account := some a }, .error "OSL service account is frozen for cryptographic burn")
    else if key ∉ a.scopes ∧ maxScopesPerAccount ≤ a.scopes.size then
      ({ i with account := some a }, .error "OSL service scope index scope limit reached")
    else
      let a := { a with scopes := a.scopes.insert key scope }
      match next a.generation with
      | .error e => ({ i with account := some a }, .error e)
      | .ok g => ({ i with account := some { a with generation := g } }, .ok ())

/-- `remove_identity` of the identity the account is of. -/
def removeIdentity (i : Index S) : Index S × Except String Nat :=
  if i.account.any (·.frozen) || i.siblingFrozen then (i, .error "OSL identity has a service burn in progress")
  else ({ i with account := none, siblings := 0 }, .ok (i.siblings + i.account.toList.length))

/-- A scope of the manifest is burned. -/
def Record.burn (r : Record S) (key : Text) : Record S where
  manifest := r.manifest
  steps := r.steps.map fun p => if p.1 = key then (p.1, .complete) else p
  keys := by
    rw [← r.keys, List.map_map]
    refine List.map_congr_left fun p _ => ?_
    simp only [Function.comp_apply]
    split <;> rfl

variable [DecidableEq S]

/-- The record under the burn id of a manifest. -/
def Index.journaled (i : Index S) (m : Manifest S) : Option (Record S) := i.journal.find? (·.manifest = m)

def freezeCompleteManifest (i : Index S) : Index S × Except String (Manifest S) :=
  match i.account with
  | none => (i, .error "OSL service scope coverage is incomplete")
  | some a =>
    if !a.coverage.complete then (i, .error "OSL cannot prove complete scope coverage for this legacy service account")
    else if a.frozen then
      (i, if (i.journaled (a.buildManifest a.generation)).isSome then .ok (a.buildManifest a.generation)
        else .error "OSL service account is frozen without a valid burn journal")
    else
      match next a.generation with
      | .error e => (i, .error e)
      | .ok g =>
        let m := a.buildManifest g
        let frozen := { i with account := some { a with frozen := true, generation := g } }
        if (i.journaled m).isSome then (frozen, .ok m)
        else if maxBurnJournal ≤ i.journal.length + i.otherBurns then (frozen, .error "OSL service burn journal is full")
        else ({ frozen with journal := ⟨m, m.scopes.map fun p => (p.1, .pending), by simp⟩ :: i.journal }, .ok m)

def markScopeBurned (i : Index S) (m : Manifest S) (key : Text) : Index S × Except String Unit :=
  match i.journaled m with
  | none => (i, .error "OSL service burn journal is missing")
  | some r =>
    if r.steps.any (·.1 = key) then
      ({ i with journal := i.journal.map fun r => if r.manifest = m then r.burn key else r }, .ok ())
    else (i, .error "OSL service burn scope is outside its manifest")

def finishBurn (i : Index S) (m : Manifest S) : Index S × Except String Unit :=
  match i.journaled m with
  | none => (i, .error "OSL service burn journal is missing")
  | some r =>
    if r.steps.any fun p => p.2 ≠ .complete then (i, .error "OSL service burn still has pending scopes")
    else
      match i.account with
      | none => (i, .error "OSL service burn account disappeared")
      | some a =>
        let a := { a with scopes := ∅, frozen := false }
        match next a.generation with
        | .error e => ({ i with account := some a }, .error e)
        | .ok g => ({ i with account := some { a with generation := g } }, .ok ())

/-! ## Runs -/

inductive Call (S : Type)
  | initializeCleanAccount
  | withRegisteredWrite (key : Text) (scope : S)
  | freezeCompleteManifest
  | markScopeBurned (m : Manifest S) (key : Text)
  | finishBurn (m : Manifest S)
  | removeIdentity

/-- The manifest of the burn the account is frozen for. -/
def Index.burning (i : Index S) : Option (Manifest S) :=
  (i.account.filter (·.frozen)).map fun a => a.buildManifest a.generation

/-- With each scope that was written to and not burned since, the manifests frozen since. -/
abbrev Owed (S : Type) := Text → Option (List (Manifest S))

structure World (S : Type) where
  index : Index S := {}
  owed : Owed S := fun _ => none

/-- A manifest is frozen while the account is and the manifest is journaled. A `persist` that
fails would owe less and freeze no less. -/
def step (w : World S) : Call S → World S
  | .initializeCleanAccount => { w with index := (initializeCleanAccount w.index).1 }
  | .withRegisteredWrite key scope =>
    let (index, result) := withRegisteredWrite w.index key scope
    ⟨index, if result.isOk then Function.update w.owed key (some []) else w.owed⟩
  | .freezeCompleteManifest =>
    let index := (freezeCompleteManifest w.index).1
    ⟨index, fun key => (w.owed key).map ((index.burning.filter fun m => (index.journaled m).isSome).toList ++ ·)⟩
  | .markScopeBurned m key =>
    let marked := (w.index.journaled m).any fun r => r.steps.any (·.1 = key)
    ⟨(markScopeBurned w.index m key).1, fun k => (w.owed k).filter fun since => ¬ (marked ∧ k = key ∧ m ∈ since)⟩
  | .finishBurn m => { w with index := (finishBurn w.index m).1 }
  | .removeIdentity => { w with index := (removeIdentity w.index).1 }

def Index.registered (i : Index S) (key : Text) : Prop := ∃ a ∈ i.account, key ∈ a.scopes

/-- A frozen manifest has all that is owed, and finishing a burn drops and unfreezes nothing
but its own. -/
def Covers (w : World S) : Call S → Prop
  | .freezeCompleteManifest => ∀ m, (freezeCompleteManifest w.index).2 = .ok m →
    ∀ key, (w.owed key).isSome → key ∈ m.scopes.map Prod.fst
  | .finishBurn m =>
    let after := (finishBurn w.index m).1
    (∀ key, w.index.registered key → ¬ after.registered key → key ∈ m.scopes.map Prod.fst) ∧
      ∀ newer, w.index.burning = some newer → after.burning = none → newer = m
  | _ => True

/-- A burn is finished with its own manifest, an account is frozen with a manifest that is
not journaled yet, and an identity is removed when nothing is registered. -/
def InOrder (w : World S) : Call S → Prop
  | .freezeCompleteManifest =>
    ∀ a ∈ w.index.account, a.frozen = false → (w.index.journaled (a.buildManifest (a.generation + 1))).isNone
  | .finishBurn m => w.index.burning = some m
  | .removeIdentity => ∀ a ∈ w.index.account, a.scopes.isEmpty
  | _ => True

instance (w : World S) : ∀ c, Decidable (InOrder w c)
  | .freezeCompleteManifest => inferInstanceAs (Decidable (∀ a ∈ w.index.account, _ → _))
  | .finishBurn m => inferInstanceAs (Decidable (w.index.burning = some m))
  | .removeIdentity => inferInstanceAs (Decidable (∀ a ∈ w.index.account, _))
  | .initializeCleanAccount | .withRegisteredWrite _ _ | .markScopeBurned _ _ => .isTrue trivial

/-! ## What is owed stays registered -/

/-- What is owed is registered, and not done in the record of the burn that is going on. -/
structure Owing (i : Index S) (owed : Owed S) : Prop where
  registered : ∀ key, (owed key).isSome → i.registered key
  pending : ∀ r ∈ i.journal, i.burning = some r.manifest →
    ∀ key since, owed key = some since → r.manifest ∈ since ∧ (key, .complete) ∉ r.steps

section Lemmas

omit [DecidableEq S]

variable {i i' : Index S} {owed : Owed S} {m : Manifest S} {key k : Text}

theorem Owing.thawed (thawed : i.burning = none) (registered : ∀ key, (owed key).isSome → i.registered key) :
    Owing i owed :=
  ⟨registered, fun _ _ burning => by simp [thawed] at burning⟩

theorem Owing.nothing (nothing : ∀ key, owed key = none) : Owing i owed :=
  ⟨fun key => by simp [nothing], fun _ _ _ key => by simp [nothing]⟩

/-- Where nothing is registered, nothing is owed. -/
theorem Owing.replaced (inv : Owing i owed) (empty : ∀ key, ¬ i.registered key) : Owing i' owed := by
  refine .nothing fun key => ?_
  by_contra owes
  exact empty key (inv.registered key (Option.isSome_iff_ne_none.2 owes))

theorem burning_eq_some :
    i.burning = some m ↔ ∃ a ∈ i.account, a.frozen = true ∧ a.buildManifest a.generation = m := by
  simp [Index.burning, Option.filter_eq_some_iff, and_assoc]

theorem registered_iff {a : Account S} {g : Nat} (account : i.account = some a) :
    i.registered key ↔ key ∈ (a.buildManifest g).scopes.map Prod.fst := by
  simp [Index.registered, account, Account.buildManifest]

theorem owing_initialize (inv : Owing i owed) : Owing (initializeCleanAccount i).1 owed := by
  unfold initializeCleanAccount
  split
  · exact inv
  split
  · exact inv
  · rename_i absent _
    exact inv.replaced fun key ⟨a, account, _⟩ => absent (Option.isSome_of_eq_some account)

theorem owing_remove (inv : Owing i owed) (empty : ∀ a ∈ i.account, a.scopes.isEmpty) :
    Owing (removeIdentity i).1 owed := by
  unfold removeIdentity
  split
  · exact inv
  · refine inv.replaced fun key ⟨a, account, mem⟩ => ?_
    simp [ExtTreeMap.isEmpty_iff.1 (empty a account)] at mem

theorem mem_burn {r : Record S} (ne : k ≠ key) {state : BurnStepState}
    (mem : (k, state) ∈ (r.burn key).steps) : (k, state) ∈ r.steps := by
  obtain ⟨p, mem, eq⟩ := List.mem_map.1 mem
  split at eq
  · exact absurd (by simp_all) ne
  · exact eq ▸ mem

end Lemmas

variable {i i' : Index S} {owed : Owed S} {m : Manifest S} {key : Text} {w : World S}

theorem owing_write (inv : Owing w.index w.owed) (key : Text) (scope : S) :
    let w' := step w (.withRegisteredWrite key scope)
    Owing w'.index w'.owed := by
  simp only [step, withRegisteredWrite]
  split
  · exact inv
  generalize opened : w.index.account.getD { coverage := .legacyIncomplete } = a
  have known k (owes : (w.owed k).isSome) : k ∈ a.scopes := by
    obtain ⟨b, account, mem⟩ := inv.registered k owes
    simpa [← opened, Option.mem_def.1 account] using mem
  by_cases frozen : a.frozen
  · have account : w.index.account = some a := by
      cases account : w.index.account with
      | none => simp [← opened, account] at frozen
      | some b => simp [← opened, account]
    rw [if_pos frozen, ← account]
    exact inv
  rw [if_neg frozen]
  split
  · exact .thawed (by simp [Index.burning, frozen]) fun k owes => ⟨a, rfl, known k owes⟩
  split
  · exact .thawed (by simp [Index.burning, frozen]) fun k owes =>
      ⟨_, rfl, ExtTreeMap.mem_insert.2 (.inr (known k owes))⟩
  refine .thawed (by simp [Index.burning, frozen]) fun k owes => ⟨_, rfl, ExtTreeMap.mem_insert.2 ?_⟩
  by_cases eq : k = key
  · exact .inl (by simp [eq])
  · exact .inr (known k (by simpa [eq, Except.isOk, Except.toBool] using owes))

/-- The records of the manifest that is frozen now have nothing done that is owed. -/
theorem Owing.freeze (inv : Owing i owed) (kept : ∀ key, i.registered key → i'.registered key)
    (undone : ∀ r ∈ i'.journal, i'.burning = some r.manifest → ∀ key, (owed key).isSome → (key, .complete) ∉ r.steps) :
    Owing i' fun key => (owed key).map ((i'.burning.filter fun m => (i'.journaled m).isSome).toList ++ ·) := by
  refine ⟨fun key owes => kept key (inv.registered key (by simpa using owes)), fun r mem burning key since owes => ?_⟩
  obtain ⟨before, _, rfl⟩ := Option.map_eq_some_iff.1 owes
  have found : (i'.journaled r.manifest).isSome := List.find?_isSome.2 ⟨r, mem, by simp⟩
  exact ⟨by simp [burning, found], undone r mem burning key (Option.isSome_of_eq_some ‹_›)⟩

theorem freeze_spec (inv : Owing w.index w.owed) (order : InOrder w .freezeCompleteManifest) :
    Covers w .freezeCompleteManifest ∧ Owing (step w .freezeCompleteManifest).index (step w .freezeCompleteManifest).owed := by
  have same := inv.freeze (fun key (known : w.index.registered key) => known) fun r mem burning key owes =>
    (inv.pending r mem burning key _ (Option.some_get owes).symm).2
  simp only [Covers, step, freezeCompleteManifest]
  cases account : w.index.account with
  | none => exact ⟨nofun, same⟩
  | some a =>
    have covers g m (ok : Except.ok (a.buildManifest g) = (Except.ok m : Except String _)) key (owes : (w.owed key).isSome) :
        key ∈ m.scopes.map Prod.fst := by
      cases ok
      exact (registered_iff account).1 (inv.registered key owes)
    have kept key : w.index.registered key → key ∈ a.scopes := by simp [Index.registered, account]
    dsimp only
    split
    · exact ⟨nofun, same⟩
    split
    · split
      · exact ⟨covers _, same⟩
      · exact ⟨nofun, same⟩
    rename_i thawed
    by_cases room : a.generation + 1 < 2 ^ 64
    case neg =>
      simp only [next, if_neg room]
      exact ⟨nofun, same⟩
    have fresh := order a account (by simpa using thawed)
    have new : ∀ r ∈ w.index.journal, r.manifest ≠ a.buildManifest (a.generation + 1) := by
      simpa [Index.journaled] using fresh
    simp only [next, if_pos room, Option.isNone_iff_eq_none.1 fresh, Option.isSome_none, Bool.false_eq_true, if_false]
    split
    · refine ⟨nofun, inv.freeze (fun key mem => ⟨_, rfl, kept key mem⟩) fun r mem burning => ?_⟩
      exact absurd (Option.some.inj burning).symm (new r mem)
    · refine ⟨covers _, inv.freeze (fun key mem => ⟨_, rfl, kept key mem⟩) fun r mem burning key owes => ?_⟩
      rcases List.mem_cons.1 mem with rfl | mem
      · simp
      · exact absurd (Option.some.inj burning).symm (new r mem)

theorem owing_mark (inv : Owing w.index w.owed) (m : Manifest S) (key : Text) :
    let w' := step w (.markScopeBurned m key)
    Owing w'.index w'.owed := by
  have fewer : Owing w.index (step w (.markScopeBurned m key)).owed :=
    ⟨fun k left => inv.registered k (Option.isSome_of_isSome_filter _ _ left),
      fun r mem burning k since left => inv.pending r mem burning k since (Option.filter_eq_some_iff.1 left).1⟩
  simp only [step, markScopeBurned] at fewer ⊢
  cases found : w.index.journaled m with
  | none => simpa [found] using fewer
  | some r₀ =>
    by_cases mem : r₀.steps.any (·.1 = key) = true
    · simp only [found, mem, if_true, Option.any_some, true_and] at fewer ⊢
      refine ⟨fewer.registered, fun r' mem' burning k since left => ?_⟩
      obtain ⟨r, listed, rfl⟩ := List.mem_map.1 mem'
      by_cases same : r.manifest = m
      · rw [if_pos same] at burning ⊢
        have before := fewer.pending r listed burning k since left
        refine ⟨before.1, fun done => before.2 (mem_burn ?_ done)⟩
        rintro rfl
        have other := (Option.filter_eq_some_iff.1 left).2
        simp [← same, before.1] at other
      · rw [if_neg same] at burning ⊢
        exact fewer.pending r listed burning k since left
    · simpa [found, mem] using fewer

theorem owing_finish (inv : Owing i owed) (burning : i.burning = some m) : Owing (finishBurn i m).1 owed := by
  obtain ⟨a, account, -, rfl⟩ := burning_eq_some.1 burning
  unfold finishBurn
  cases found : i.journaled (a.buildManifest a.generation) with
  | none => exact inv
  | some r =>
    have manifest : r.manifest = a.buildManifest a.generation := by simpa using List.find?_some found
    dsimp only
    split
    · exact inv
    rename_i all
    refine .nothing fun key => ?_
    by_contra owes
    obtain ⟨since, owes⟩ := Option.ne_none_iff_exists'.1 owes
    have listed : key ∈ r.steps.map Prod.fst := by
      rw [r.keys, manifest]
      exact (registered_iff account).1 (inv.registered key (by simp [owes]))
    obtain ⟨⟨_, state⟩, step, rfl⟩ := List.mem_map.1 listed
    cases state with
    | pending => exact all (List.any_eq_true.2 ⟨_, step, by simp⟩)
    | complete => exact (inv.pending r (List.mem_of_find?_eq_some found) (manifest ▸ burning) _ since owes).2 step

theorem owing_step (inv : Owing w.index w.owed) :
    ∀ c, InOrder w c → Owing (step w c).index (step w c).owed
  | .initializeCleanAccount, _ => owing_initialize inv
  | .withRegisteredWrite key scope, _ => owing_write inv key scope
  | .freezeCompleteManifest, order => (freeze_spec inv order).2
  | .markScopeBurned m key, _ => owing_mark inv m key
  | .finishBurn _, order => owing_finish inv order
  | .removeIdentity, order => owing_remove inv order

theorem covers_of_owing (inv : Owing w.index w.owed) : ∀ c, InOrder w c → Covers w c
  | .freezeCompleteManifest, order => (freeze_spec inv order).1
  | .finishBurn m, order => by
    refine ⟨fun key known _ => ?_, fun newer burning _ => Option.some.inj (burning.symm.trans order)⟩
    obtain ⟨a, account, -, rfl⟩ := burning_eq_some.1 order
    exact (registered_iff account).1 known
  | .initializeCleanAccount, _ | .withRegisteredWrite _ _, _ | .markScopeBurned _ _, _ | .removeIdentity, _ => trivial

/-- Burns in order cover what was written to, and end nothing but themselves. -/
theorem burns_cover_writes (i : Index S) (calls : List (Call S))
    (order : AllSteps step InOrder ⟨{ i with account := none, journal := [] }, fun _ => none⟩ calls) :
    AllSteps step Covers ⟨{ i with account := none, journal := [] }, fun _ => none⟩ calls :=
  order.of_invariant (I := fun w => Owing w.index w.owed) (fun _ c inv => owing_step inv c)
    (fun _ c inv => covers_of_owing inv c) (.nothing fun _ => rfl)

def first : Manifest Unit := ⟨3, [("a".toList, ())]⟩

/-- A burn of `a`, and then a write to `b`. -/
def burned : List (Call Unit) :=
  [.initializeCleanAccount, .withRegisteredWrite "a".toList (), .freezeCompleteManifest,
    .markScopeBurned first "a".toList, .finishBurn first, .withRegisteredWrite "b".toList ()]

theorem two_burns_cover_writes : AllSteps step Covers {} (burned ++ [.freezeCompleteManifest]) :=
  burns_cover_writes {} _ (by decide +kernel)

/-- The manifest of the burn that is over drops `b`, and ends a burn of `b`. -/
theorem finished_manifest_drops_later_write :
    let w := run step {} (burned ++ [.finishBurn first])
    let w' := run step {} (burned ++ [.freezeCompleteManifest])
    (w.owed "b".toList = some [] ∧ (freezeCompleteManifest w.index).2 = .ok ⟨7, []⟩) ∧
      w'.index.burning = some ⟨6, [("b".toList, ())]⟩ ∧ (finishBurn w'.index first).1.burning = none :=
  ⟨⟨rfl, rfl⟩, rfl, rfl⟩

end Osl.Hub.ScopeIndex
