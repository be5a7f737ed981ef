import RivetLua.Lib.Totals
import RivetLua.Runtime.AllocationLedger

namespace RivetLua.Runtime.Allocation

open StateProg
open Totals

/-!
# Runtime — the books are balanced

The balances of the ledger are totals over the owners that are alive: `Balanced` says so for given
totals.  Each operation on the books changes the totals by what one owner contributes.

* `Balanced.refundOnDrop`, `Balanced.addReserved`, `Balanced.commit` — one change of the balances;
* `reserveAt_triple`, `commitCharge_apply`, `normalize_triple` — the programs of the ledger.
-/

/-! ### What an owner contributes -/

/-- The bytes of a reservation in a domain. -/
def Reservation.bytesIn (domain : Domain) (r : Reservation) : Nat :=
  if r.domain = domain then r.bytes else 0

/-- The bytes of a charge in a domain. -/
def Charge.bytesIn (domain : Domain) (charge : Charge) : Nat :=
  if charge.domain = domain then charge.bytes else 0

/-- Whether `bytes` and a token are the pair `x` of token and bytes. -/
def holdsToken (x : Nat × Nat) (token : Option Nat) (bytes : Nat) : Nat :=
  if token.map (·, bytes) = some x then 1 else 0

/-- Whether a reservation holds a token for its bytes. -/
def Reservation.holds (x : Nat × Nat) (r : Reservation) : Nat := holdsToken x r.token r.bytes

/-- Whether a charge holds a token for its bytes. -/
def Charge.holds (x : Nat × Nat) (charge : Charge) : Nat := holdsToken x charge.token charge.bytes

/-- A part of a pair is a charge of the Lua heap. -/
def LuaChargePart.charge (part : LuaChargePart) : Charge := ⟨part.bytes, .luaHeap, part.token⟩

/-- What both parts of a pair contribute. -/
def PairedLuaCharges.sum (μ : Charge → Nat) (pair : PairedLuaCharges) : Nat :=
  μ pair.first.charge + μ pair.second.charge

/-! ### The books for given totals -/

/-- The balances are the given totals, in each domain and together; every token that was admitted
    has been released or is held, each time for the same bytes. -/
structure Balanced (books : Books) (reserved committed : Domain → Nat) (held : Nat × Nat → Nat) :
    Prop where
  clean : books.state.poisoned = false
  reservedOf : ∀ domain, books.state.reservedOf domain = reserved domain
  committedOf : ∀ domain, books.state.committedOf domain = committed domain
  reserved_eq : books.state.reserved = reserved .luaHeap + reserved .host
  committed_eq : books.state.committed = committed .luaHeap + committed .host
  fits : books.state.committed + books.state.reserved ≤ usizeMax
  tokens : ∀ x, books.admitted.count x = books.released.count x + held x

variable {books : Books} {ρ ρ' γ γ' : Domain → Nat} {η η' : Nat × Nat → Nat}

theorem Balanced.congr (h : Balanced books ρ γ η) (hρ : ∀ d, ρ' d = ρ d) (hγ : ∀ d, γ' d = γ d)
    (hη : ∀ x, η' x = η x) : Balanced books ρ' γ' η' := by
  rw [funext hρ, funext hγ, funext hη]
  exact h

@[simp] theorem Books.release_state (token : Option Nat) (bytes : Nat) :
    (books.release token bytes).state = books.state := by
  cases token <;> rfl

@[simp] theorem Books.release_external (token : Option Nat) (bytes : Nat) :
    (books.release token bytes).external = books.external := by
  cases token <;> rfl

@[simp] theorem Books.release_admitted (token : Option Nat) (bytes : Nat) :
    (books.release token bytes).admitted = books.admitted := by
  cases token <;> rfl

theorem Books.count_release (token : Option Nat) (bytes : Nat) (x : Nat × Nat) :
    (books.release token bytes).released.count x
      = books.released.count x + holdsToken x token bytes := by
  cases token with
  | none => simp [Books.release, holdsToken]
  | some token =>
    by_cases hx : (token, bytes) = x
    · simp [Books.release, holdsToken, hx]
    · simp [Books.release, holdsToken, hx]

/-- Giving a token back. -/
theorem Balanced.release (h : Balanced books ρ γ η) {token : Option Nat} {bytes : Nat}
    (hη : ∀ x, η x = η' x + holdsToken x token bytes) :
    Balanced (books.release token bytes) ρ γ η' := by
  constructor
  · simpa using h.clean
  · simpa using h.reservedOf
  · simpa using h.committedOf
  · simpa using h.reserved_eq
  · simpa using h.committed_eq
  · simpa using h.fits
  · intro x
    have htokens := h.tokens x
    rw [Books.count_release, Books.release_admitted, htokens, hη x]
    omega

/-- Giving committed bytes back. -/
theorem Balanced.refundOnDrop (h : Balanced books ρ γ η) {bytes : Nat} {domain : Domain}
    (hγ : ∀ d, γ d = γ' d + if domain = d then bytes else 0) :
    Balanced { books with state := books.state.refundOnDrop bytes domain } ρ γ' η := by
  have hclean := h.clean
  have hreserved := h.reservedOf
  have hcommitted := h.committedOf
  have hsum := h.reserved_eq
  have htotal := h.committed_eq
  have hfits := h.fits
  have hlua := hγ .luaHeap
  have hhost := hγ .host
  have hof := hcommitted domain
  have hroom : ¬ (books.state.committed < bytes ∨ books.state.committedOf domain < bytes
      ∨ books.state.poisoned = true) := by
    rw [hclean]
    cases domain <;> simp at hlua hhost ⊢ <;> omega
  constructor
  all_goals simp only [LedgerState.refundOnDrop, if_neg hroom]
  · cases domain <;> exact hclean
  · intro d
    rw [← hreserved d]
    cases domain <;> cases d <;> rfl
  · intro d
    have hd := hcommitted d
    have hd' := hγ d
    cases domain <;> cases d <;>
      simp [LedgerState.setCommittedOf, LedgerState.committedOf] at hd hd' hof ⊢ <;> omega
  · cases domain <;> exact hsum
  · cases domain <;> simp [LedgerState.setCommittedOf] at hlua hhost ⊢ <;> omega
  · cases domain <;> simp [LedgerState.setCommittedOf] <;> omega
  · exact h.tokens

/-- **Dropping a charge.** -/
theorem Balanced.dropCharge (h : Balanced books ρ γ η) {charge : Charge}
    (hγ : ∀ d, γ d = γ' d + charge.bytesIn d) (hη : ∀ x, η x = η' x + charge.holds x) :
    Balanced (books.dropCharge charge) ρ γ' η' :=
  (h.release hη).refundOnDrop hγ

/-- Giving reserved bytes back. -/
theorem Balanced.unreserve (h : Balanced books ρ γ η) {bytes : Nat} {domain : Domain}
    (hρ : ∀ d, ρ d = ρ' d + if domain = d then bytes else 0) :
    Balanced { books with state := books.state.unreserve bytes domain } ρ' γ η := by
  have hclean := h.clean
  have hreserved := h.reservedOf
  have hcommitted := h.committedOf
  have hsum := h.reserved_eq
  have htotal := h.committed_eq
  have hfits := h.fits
  have hlua := hρ .luaHeap
  have hhost := hρ .host
  have hof := hreserved domain
  have hroom : ¬ books.state.reserved < bytes := by
    cases domain <;> simp at hlua hhost ⊢ <;> omega
  have hroom' : ¬ books.state.reservedOf domain < bytes := by
    cases domain <;> simp at hlua hhost ⊢ <;> omega
  constructor
  all_goals simp only [LedgerState.unreserve, if_neg hroom, if_neg hroom']
  · cases domain <;> exact hclean
  · intro d
    have hd := hreserved d
    have hd' := hρ d
    cases domain <;> cases d <;>
      simp [LedgerState.setReservedOf, LedgerState.reservedOf] at hd hd' hof ⊢ <;> omega
  · intro d
    rw [← hcommitted d]
    cases domain <;> cases d <;> rfl
  · cases domain <;> simp [LedgerState.setReservedOf] at hlua hhost ⊢ <;> omega
  · cases domain <;> exact htotal
  · cases domain <;> simp [LedgerState.setReservedOf] <;> omega
  · exact h.tokens

/-- **Dropping a reservation.** -/
theorem Balanced.dropReservation (h : Balanced books ρ γ η) {r : Reservation}
    (hρ : ∀ d, ρ d = ρ' d + r.bytesIn d) (hη : ∀ x, η x = η' x + r.holds x) :
    Balanced (books.dropReservation r) ρ' γ η' :=
  (h.release hη).unreserve hρ

/-! ### Programs of the books -/

/-- The balances of the ledger. -/
structure Balances where
  committed : Nat
  reserved : Nat
  luaHeapBytes : Nat
  hostAllocationBytes : Nat
  luaReserved : Nat
  hostReserved : Nat
  deriving DecidableEq, Repr

/-- The balances in a state. -/
def LedgerState.balances (state : LedgerState) : Balances :=
  ⟨state.committed, state.reserved, state.luaHeapBytes, state.hostAllocationBytes,
    state.luaReserved, state.hostReserved⟩

/-- Balanced books depend on the balances only, not on the trace or the limit. -/
theorem Balanced.of_balances (h : Balanced books ρ γ η) {state : LedgerState}
    (hclean : state.poisoned = false) (heq : state.balances = books.state.balances) :
    Balanced { books with state := state } ρ γ η := by
  simp only [LedgerState.balances, Balances.mk.injEq] at heq
  obtain ⟨hcommitted, hreserved, hlua, hhost, hluaReserved, hhostReserved⟩ := heq
  refine ⟨hclean, ?_, ?_, ?_, ?_, ?_, h.tokens⟩
  · intro domain
    rw [← h.reservedOf domain]
    cases domain with
    | luaHeap => exact hluaReserved
    | host => exact hhostReserved
  · intro domain
    rw [← h.committedOf domain]
    cases domain with
    | luaHeap => exact hlua
    | host => exact hhost
  · show state.reserved = _
    rw [hreserved, h.reserved_eq]
  · show state.committed = _
    rw [hcommitted, h.committed_eq]
  · show state.committed + state.reserved ≤ usizeMax
    rw [hcommitted, hreserved]
    exact h.fits

/-- Two ledgers that are balanced for the same totals have the same balances. -/
theorem Balanced.balances_eq {books' : Books} (h : Balanced books ρ γ η)
    (h' : Balanced books' ρ γ η') : books'.state.balances = books.state.balances := by
  have hreserved := h.reserved_eq.trans h'.reserved_eq.symm
  have hcommitted := h.committed_eq.trans h'.committed_eq.symm
  have hlua := (h.committedOf .luaHeap).trans (h'.committedOf .luaHeap).symm
  have hhost := (h.committedOf .host).trans (h'.committedOf .host).symm
  have hluaReserved := (h.reservedOf .luaHeap).trans (h'.reservedOf .luaHeap).symm
  have hhostReserved := (h.reservedOf .host).trans (h'.reservedOf .host).symm
  simp only [LedgerState.committedOf] at hlua hhost
  simp only [LedgerState.reservedOf] at hluaReserved hhostReserved
  simp only [LedgerState.balances, Balances.mk.injEq]
  exact ⟨hcommitted.symm, hreserved.symm, hlua.symm, hhost.symm, hluaReserved.symm,
    hhostReserved.symm⟩

/-- Books that are balanced for the given totals, with an admission of the host or without. -/
def BooksAt (external : Bool) (ρ γ : Domain → Nat) (η : Nat × Nat → Nat) (books : Books) : Prop :=
  books.external = external ∧ Balanced books ρ γ η

variable {external : Bool}

/-- Writing the trace down keeps the books. -/
theorem BooksAt.trace (h : BooksAt external ρ γ η books) {state : LedgerState}
    (hclean : state.poisoned = books.state.poisoned)
    (heq : state.balances = books.state.balances) :
    BooksAt external ρ γ η { books with state := state } :=
  ⟨h.1, h.2.of_balances (hclean.trans h.2.clean) heq⟩

/-- A token that is admitted is held for its bytes; the state stays as it is. -/
theorem admission_triple (bytes : Nat) (answer : Option Nat) (state : LedgerState) :
    Triple (fun books => books.state = state ∧ BooksAt external ρ γ η books) (admission bytes answer)
      (fun token books => books.state = state
        ∧ BooksAt external ρ γ (fun x => η x + holdsToken x token bytes) books)
      (fun _ _ => False) := by
  intro books ⟨hstate, h⟩
  cases hanswer : if books.external then answer else some 1 with
  | none =>
    have hadmitted : admission bytes answer books = (.ok none, books) := by
      simp only [admission, hanswer]
    rw [hadmitted]
    refine ⟨hstate, h.1, h.2.congr (fun _ => rfl) (fun _ => rfl) ?_⟩
    intro x
    simp [holdsToken]
  | some token =>
    have hadmitted : admission bytes answer books = (.ok (some token),
        { books with admitted := books.admitted ++ [(token, bytes)] }) := by
      simp only [admission, hanswer]
    rw [hadmitted]
    refine ⟨hstate, h.1, h.2.clean, h.2.reservedOf, h.2.committedOf, h.2.reserved_eq,
      h.2.committed_eq, h.2.fits, ?_⟩
    intro x
    have htokens := h.2.tokens x
    by_cases hx : (token, bytes) = x
    · simp [holdsToken, hx, htokens]
      omega
    · simp [holdsToken, hx, htokens]

/-- Holding no token is holding nothing. -/
theorem BooksAt.of_none {bytes : Nat}
    (h : BooksAt external ρ γ (fun x => η x + holdsToken x none bytes) books) :
    BooksAt external ρ γ η books := by
  refine ⟨h.1, h.2.congr (fun _ => rfl) (fun _ => rfl) ?_⟩
  intro x
  simp [holdsToken]

/-- The token of a reservation. -/
theorem takeToken_triple (bytes : Nat) (attempt : Attempt) (answer : Option Nat)
    (state : LedgerState) :
    Triple (fun books => books.state = state ∧ BooksAt external ρ γ η books)
      (takeToken bytes attempt answer)
      (fun token books => books.state = state
        ∧ BooksAt external ρ γ (fun x => η x + holdsToken x token bytes) books)
      (fun _ => BooksAt external ρ γ η) := by
  refine Triple.ite (fun _ => ?_) (fun _ => ?_)
  · refine Triple.return_of fun books h => ⟨h.1, h.2.1, ?_⟩
    refine h.2.2.congr (fun _ => rfl) (fun _ => rfl) ?_
    intro x
    simp [holdsToken]
  · refine Triple.bind ((admission_triple bytes answer state).conseq (fun _ h => h) (fun _ _ h => h)
      (fun _ _ h => h.elim)) ?_
    intro token
    cases token with
    | some token => exact Triple.return_of fun _ h => h
    | none =>
      intro books ⟨_, h⟩
      exact h.of_none.trace rfl rfl

/-- Peaks that can be counted are recorded, and nothing else changes. -/
theorem LedgerState.recordPeaks_of_fits (state : LedgerState)
    (h : state.committed + state.reserved ≤ usizeMax) :
    ∃ state', state.recordPeaks = .ok state' ∧ state'.balances = state.balances
      ∧ state'.poisoned = state.poisoned ∧ state'.limit = state.limit := by
  refine ⟨_, if_neg (by omega), rfl, rfl, rfl⟩

/-- **Reserving bytes that can be counted.** -/
theorem Balanced.addReserved (h : Balanced books ρ γ η) (bytes : Nat) (domain : Domain)
    (hroom : books.state.committed + books.state.reserved + bytes ≤ usizeMax) :
    ∃ state, books.state.addReserved bytes domain = .ok state
      ∧ state.committed + state.reserved = books.state.committed + books.state.reserved + bytes
      ∧ state.limit = books.state.limit
      ∧ Balanced { books with state := state } (fun d => ρ d + if domain = d then bytes else 0)
          γ η := by
  have hclean := h.clean
  have hreserved := h.reservedOf
  have hcommitted := h.committedOf
  have hof := hreserved domain
  have hsum := h.reserved_eq
  have htotal := h.committed_eq
  have hle : books.state.reservedOf domain ≤ books.state.reserved := by
    rw [hof, hsum]
    cases domain <;> simp
  -- what the state holds before the peaks are recorded
  let next := { books.state with reserved := books.state.reserved + bytes }.setReservedOf domain
    (books.state.reservedOf domain + bytes)
  have hnext : next.committed = books.state.committed
      ∧ next.reserved = books.state.reserved + bytes ∧ next.limit = books.state.limit := by
    cases domain <;> exact ⟨rfl, rfl, rfl⟩
  obtain ⟨hnc, hnr, hnl⟩ := hnext
  obtain ⟨state, hpeaks, hbalances, hpoisoned, hlimit⟩ :=
    LedgerState.recordPeaks_of_fits next (by omega)
  have hmoved : Balanced { books with state := next }
      (fun d => ρ d + if domain = d then bytes else 0) γ η := by
    refine ⟨?_, ?_, ?_, ?_, ?_, ?_, h.tokens⟩
    · cases domain <;> exact hclean
    · intro d
      have hd := hreserved d
      cases domain <;> cases d <;>
        simp [next, LedgerState.setReservedOf, LedgerState.reservedOf] at hd ⊢ <;> omega
    · intro d
      rw [← hcommitted d]
      cases domain <;> cases d <;> rfl
    · show next.reserved = _
      cases domain <;> simp <;> omega
    · exact hnc.trans htotal
    · show next.committed + next.reserved ≤ usizeMax
      omega
  have hsame := hbalances
  simp only [LedgerState.balances, Balances.mk.injEq] at hsame
  refine ⟨state, ?_, by omega, hlimit.trans hnl,
    hmoved.of_balances (hpoisoned.trans hmoved.clean) hbalances⟩
  rw [LedgerState.addReserved, if_neg (by simp [hclean]), if_neg (by omega), if_neg (by omega)]
  exact hpeaks

/-- **Committing reserved bytes** never fails. -/
theorem Balanced.commit (h : Balanced books ρ γ η) (bytes : Nat) (domain : Domain)
    (hρ : ∀ d, ρ d = ρ' d + if domain = d then bytes else 0) :
    ∃ state, books.state.commit bytes domain = .ok state
      ∧ Balanced { books with state := state } ρ'
          (fun d => γ d + if domain = d then bytes else 0) η := by
  have hclean := h.clean
  have hreserved := h.reservedOf
  have hcommitted := h.committedOf
  have hof := hreserved domain
  have hof' := hcommitted domain
  have hsum := h.reserved_eq
  have htotal := h.committed_eq
  have hfits := h.fits
  have hlua := hρ .luaHeap
  have hhost := hρ .host
  have hle : bytes ≤ books.state.reservedOf domain := by
    have hd := hρ domain
    simp only [if_true] at hd
    omega
  have hle' : books.state.reservedOf domain ≤ books.state.reserved := by
    rw [hof, hsum]
    cases domain <;> simp
  have hle'' : books.state.committedOf domain ≤ books.state.committed := by
    rw [hof', htotal]
    cases domain <;> simp
  let next := ({ books.state with
    reserved := books.state.reserved - bytes
    committed := books.state.committed + bytes }.setReservedOf
      domain (books.state.reservedOf domain - bytes)).setCommittedOf
      domain (books.state.committedOf domain + bytes)
  have hnext : next.committed = books.state.committed + bytes
      ∧ next.reserved = books.state.reserved - bytes := by
    cases domain <;> exact ⟨rfl, rfl⟩
  obtain ⟨hnc, hnr⟩ := hnext
  obtain ⟨state, hpeaks, hbalances, hpoisoned, -⟩ :=
    LedgerState.recordPeaks_of_fits next (by omega)
  have hmoved : Balanced { books with state := next } ρ'
      (fun d => γ d + if domain = d then bytes else 0) η := by
    refine ⟨?_, ?_, ?_, ?_, ?_, ?_, h.tokens⟩
    · cases domain <;> exact hclean
    · intro d
      have hd := hreserved d
      have hd' := hρ d
      cases domain <;> cases d <;>
        simp [next, LedgerState.setReservedOf, LedgerState.setCommittedOf,
          LedgerState.reservedOf] at hd hd' ⊢ <;> omega
    · intro d
      have hd := hcommitted d
      cases domain <;> cases d <;>
        simp [next, LedgerState.setReservedOf, LedgerState.setCommittedOf,
          LedgerState.committedOf] at hd ⊢ <;> omega
    · show next.reserved = _
      cases domain <;> simp at hlua hhost <;> omega
    · show next.committed = _
      cases domain <;> simp <;> omega
    · show next.committed + next.reserved ≤ usizeMax
      omega
  refine ⟨state, ?_, hmoved.of_balances (hpoisoned.trans hmoved.clean) hbalances⟩
  rw [LedgerState.commit, if_neg (by simp [hclean]), if_neg (by omega), if_neg (by omega),
    if_neg (by omega), if_neg (by omega)]
  exact hpeaks

/-- What a reservation adds to the books. -/
def BooksAt.Reserved (external : Bool) (ρ γ : Domain → Nat) (η : Nat × Nat → Nat) (r : Reservation)
    (books : Books) : Prop :=
  BooksAt external (fun d => ρ d + r.bytesIn d) γ (fun x => η x + r.holds x) books
    ∧ books.state.committed + books.state.reserved ≤ books.state.limit

/-- The end of `reserve_at`, where the limit has been checked. -/
theorem publish_triple (bytes : Nat) (domain : Domain) (attempt : Attempt) (token : Option Nat)
    (state : LedgerState) (hmax : state.committed + state.reserved + bytes ≤ usizeMax)
    (hlimit : state.committed + state.reserved + bytes ≤ state.limit) :
    Triple (fun books => BooksAt external ρ γ (fun x => η x + holdsToken x token bytes) books
        ∧ books.state.balances = state.balances ∧ books.state.limit = state.limit)
      (publish bytes domain attempt token)
      (BooksAt.Reserved external ρ γ η)
      (fun _ => BooksAt external ρ γ η) := by
  intro books ⟨h, hbalances, hsame⟩
  simp only [LedgerState.balances, Balances.mk.injEq] at hbalances
  obtain ⟨next, hadd, hout, hnext, hbalanced⟩ := h.2.addReserved bytes domain (by omega)
  have hpublish : publish bytes domain attempt token books
      = (.ok ⟨bytes, domain, attempt, token⟩, { books with state := next }) := by
    rw [publish, Prog.bind_apply_ok (Prog.get_apply books)]
    simp only [hadd]
    rfl
  rw [hpublish]
  refine ⟨⟨h.1, hbalanced⟩, ?_⟩
  show next.committed + next.reserved ≤ next.limit
  omega

/-- Publishing a trace leaves the books as they were. -/
theorem setState_triple {E : VmError → Books → Prop} {old state : LedgerState}
    (hclean : state.poisoned = old.poisoned) (heq : state.balances = old.balances) :
    Triple (fun books => old = books.state ∧ BooksAt external ρ γ η books) (setState state)
      (fun _ books => books.state = state ∧ BooksAt external ρ γ η books) E := by
  intro books ⟨hold, h⟩
  subst hold
  exact ⟨rfl, h.trace hclean heq⟩

/-- A refusal leaves the books as they were. -/
theorem refuse_triple {α : Type} {Q : α → Books → Prop} {old state : LedgerState}
    (hclean : state.poisoned = old.poisoned) (heq : state.balances = old.balances)
    (attempt : Attempt) (kind : FailureKind) (error : VmError) :
    Triple (fun books => old = books.state ∧ BooksAt external ρ γ η books)
      (refuse state attempt kind error) Q (fun _ => BooksAt external ρ γ η) := by
  intro books ⟨hold, h⟩
  subst hold
  exact h.trace hclean heq

/-- **`reserve_at`**: the reservation is added to the books and within the limit, or nothing
    changes. -/
theorem reserveAt_triple (bytes : Nat) (domain : Domain) (point : Option FailPoint)
    (answer : Option Nat) :
    Triple (BooksAt external ρ γ η) (reserveAt bytes domain point answer)
      (BooksAt.Reserved external ρ γ η) (fun _ => BooksAt external ρ γ η) := by
  refine Triple.bind (Q := fun old books => old.state = books.state ∧ BooksAt external ρ γ η books)
    (fun books h => ⟨rfl, h⟩) ?_
  intro old
  refine Triple.ite (fun _ => ?_) (fun _ => ?_)
  · exact fun _ h => h.2
  refine Triple.ite (fun _ => ?_) (fun _ => ?_)
  · exact fun _ h => h.2
  refine Triple.ite (fun _ => refuse_triple (by rfl) (by rfl) _ _ _) (fun _ => ?_)
  refine Triple.ite (fun _ => refuse_triple (by rfl) (by rfl) _ _ _) (fun hmax => ?_)
  refine Triple.ite (fun _ => refuse_triple (by rfl) (by rfl) _ _ _) (fun hlimit => ?_)
  refine Triple.ite (fun _ => refuse_triple (by rfl) (by rfl) _ _ _) (fun _ => ?_)
  -- the budget allows the bytes, so the trace is published and the admission is asked
  refine Triple.bind (setState_triple (by rfl) (by rfl)) ?_
  intro _
  refine Triple.bind (takeToken_triple bytes _ answer _) ?_
  intro token
  refine (publish_triple bytes domain _ token old.state (by simpa using hmax)
    (by simpa using hlimit)).conseq ?_ (fun _ _ h => h) (fun _ _ h => h)
  intro books ⟨hstate, h⟩
  refine ⟨h, ?_, ?_⟩
  · rw [hstate]
    rfl
  · rw [hstate]

theorem BooksAt.Reserved.trace {r : Reservation} (h : BooksAt.Reserved external ρ γ η r books)
    {state : LedgerState} (hclean : state.poisoned = books.state.poisoned)
    (heq : state.balances = books.state.balances) (hlimit : state.limit = books.state.limit) :
    BooksAt.Reserved external ρ γ η r { books with state := state } := by
  refine ⟨h.1.trace hclean heq, ?_⟩
  have hbound := h.2
  simp only [LedgerState.balances, Balances.mk.injEq] at heq
  show state.committed + state.reserved ≤ state.limit
  omega

theorem checkpointAt_keeps {r : Reservation} (point : FailPoint) :
    Keeps (BooksAt.Reserved external ρ γ η r) (checkpointAt point) := by
  refine Keeps.get_bind fun books h => ?_
  have hclean := h.1.2.clean
  by_cases hfail : books.state.failOnce = some point
  · simp only [hclean, Bool.false_eq_true, if_false, hfail, if_true]
    exact h.trace hclean.symm rfl rfl
  · simp only [hclean, Bool.false_eq_true, if_false, hfail]
    exact h

/-- A reservation that is dropped again leaves the books as they were. -/
theorem BooksAt.drop {r : Reservation}
    (h : BooksAt external (fun d => ρ d + r.bytesIn d) γ (fun x => η x + r.holds x) books) :
    BooksAt external ρ γ η (books.dropReservation r) := by
  refine ⟨?_, h.2.dropReservation (fun _ => rfl) (fun _ => rfl)⟩
  show (books.release r.token r.bytes).external = external
  rw [Books.release_external, h.1]

/-- **`reserve_vec`** and its kind: a failure behind the reservation drops it. -/
theorem reserveBacking_triple (bytes : Nat) (domain : Domain) (point : FailPoint)
    (answer : Option Nat) (room : Bool) :
    Triple (BooksAt external ρ γ η) (reserveBacking bytes domain point answer room)
      (BooksAt.Reserved external ρ γ η) (fun _ => BooksAt external ρ γ η) := by
  refine Triple.bind (reserveAt_triple bytes domain (some point) answer) ?_
  intro r
  have hfailure : ∀ kind, Keeps (BooksAt.Reserved external ρ γ η r) (recordFailure r.attempt kind) :=
    fun kind => Keeps.modify fun _ h => h.trace rfl rfl rfl
  refine Triple.bind (Triple.onError (F := fun _ => BooksAt.Reserved external ρ γ η r) ?_ ?_)
    fun _ => Triple.pure r
  · refine Triple.bind (Keeps.onError (checkpointAt_keeps point) (hfailure .injection)) ?_
    intro _
    refine Triple.ite (fun _ => Triple.return_of fun _ h => h) (fun _ => ?_)
    exact Triple.bind (hfailure .rustReserve) fun _ _ h => h
  · intro _ books h
    exact h.1.drop

/-! ### Committing -/

/-- **`commit_charge`** never fails: the bytes and the token of the reservation become those of
    the charge. -/
theorem commitCharge_apply {r : Reservation}
    (h : BooksAt external (fun d => ρ d + r.bytesIn d) γ (fun x => η x + r.holds x) books) :
    ∃ books', commitCharge r books = (.ok ⟨r.bytes, r.domain, r.token⟩, books')
      ∧ BooksAt external ρ (fun d => γ d + r.bytesIn d) (fun x => η x + r.holds x) books' := by
  obtain ⟨state, hcommit, hbalanced⟩ :=
    h.2.commit r.bytes r.domain (fun d => rfl)
  refine ⟨{ books with state := state }, ?_, h.1, hbalanced⟩
  rw [commitCharge, Prog.bind_apply_ok (Prog.get_apply books)]
  simp only [hcommit]
  rfl

/-- A charge without bytes and without token gives nothing back. -/
theorem Books.dropCharge_empty (hclean : books.state.poisoned = false) (domain : Domain) :
    books.dropCharge ⟨0, domain, none⟩ = books := by
  have hstate : books.state.refundOnDrop 0 domain = books.state := by
    rw [LedgerState.refundOnDrop, if_neg (by simp [hclean])]
    cases domain <;> rfl
  simp only [Books.dropCharge, Books.release, hstate]

/-- **`commit`** without an admission of the host: the charge is given away. -/
theorem commit_apply {r : Reservation}
    (h : BooksAt false (fun d => ρ d + r.bytesIn d) γ (fun x => η x + r.holds x) books) :
    ∃ books', commit r books = (.ok ⟨r.bytes, r.domain, r.token⟩, books')
      ∧ BooksAt false ρ (fun d => γ d + r.bytesIn d) (fun x => η x + r.holds x) books' := by
  obtain ⟨books', hcharge, hat⟩ := commitCharge_apply h
  refine ⟨books', ?_, hat⟩
  rw [commit, Prog.bind_apply_ok (Prog.get_apply books), h.1, if_neg Bool.false_ne_true,
    Prog.bind_apply_ok hcharge]
  show (_, books'.dropCharge ⟨0, r.domain, none⟩) = _
  rw [Books.dropCharge_empty hat.2.clean]

/-- **`commit`** with an admission of the host is refused, and drops its reservation. -/
theorem commit_apply_external {r : Reservation} (h : books.external = true) :
    commit r books = (.error .ledgerInvariant, books.dropReservation r) := by
  rw [commit, Prog.bind_apply_ok (Prog.get_apply books), if_pos h]
  rfl

/-! ### Pairs and batches -/

/-- Dropping a charge that the books count. -/
theorem BooksAt.dropCharge (charge : Charge)
    (h : BooksAt external ρ (fun d => γ d + charge.bytesIn d) (fun x => η x + charge.holds x)
      books) : BooksAt external ρ γ η (books.dropCharge charge) := by
  refine ⟨?_, h.2.dropCharge (fun _ => rfl) (fun _ => rfl)⟩
  show (books.release charge.token charge.bytes).external = external
  rw [Books.release_external, h.1]

/-- Books for the same totals, written another way. -/
theorem BooksAt.congr (h : BooksAt external ρ γ η books) (hρ : ∀ d, ρ' d = ρ d)
    (hγ : ∀ d, γ' d = γ d) (hη : ∀ x, η' x = η x) : BooksAt external ρ' γ' η' books :=
  ⟨h.1, h.2.congr hρ hγ hη⟩

/-- Dropping the charges of a batch. -/
theorem BooksAt.dropCharges {charges : List Charge}
    (h : BooksAt external ρ (fun d => γ d + total (Charge.bytesIn d) charges)
      (fun x => η x + total (Charge.holds x) charges) books) :
    BooksAt external ρ γ η (books.dropCharges charges) := by
  induction charges generalizing books with
  | nil => exact h
  | cons charge rest ih =>
    refine ih (BooksAt.dropCharge charge (h.congr (fun _ => rfl) ?_ ?_))
    · intro d
      simp only [total_cons]
      omega
    · intro x
      simp only [total_cons]
      omega

/-- The bytes of a charge are in one domain or in the other. -/
theorem Charge.bytes_eq (charge : Charge) :
    charge.bytes = charge.bytesIn .luaHeap + charge.bytesIn .host := by
  cases hdomain : charge.domain <;> simp [Charge.bytesIn, hdomain]

/-- A sum that can be counted is counted. -/
theorem totalBytes_eq {batch : List Charge} (h : total Charge.bytes batch ≤ usizeMax) :
    totalBytes batch = .ok (total Charge.bytes batch) := by
  have hfold : ∀ (charges : List Charge) (n : Nat), n + total Charge.bytes charges ≤ usizeMax →
      charges.foldlM (fun total charge =>
        if total + charge.bytes > usizeMax then Except.error VmError.arithmeticOverflow
        else .ok (total + charge.bytes)) n = .ok (n + total Charge.bytes charges) := by
    intro charges
    induction charges with
    | nil => intro n _; rfl
    | cons charge rest ih =>
      intro n hn
      rw [total_cons] at hn
      rw [List.foldlM_cons, if_neg (by omega)]
      show List.foldlM _ (n + charge.bytes) rest = _
      rw [ih (n + charge.bytes) (by omega), total_cons, Nat.add_assoc]
  rw [totalBytes, hfold batch 0 (by omega), Nat.zero_add]

/-- All charges of a batch are in one domain. -/
def Uniform (batch : List Charge) : Prop := ∀ c ∈ batch, ∀ c' ∈ batch, c.domain = c'.domain

theorem Uniform.total_bytesIn {first : Charge} {rest : List Charge}
    (h : Uniform (first :: rest)) (d : Domain) :
    total (Charge.bytesIn d) (first :: rest)
      = if first.domain = d then total Charge.bytes (first :: rest) else 0 := by
  have hall : ∀ charges : List Charge, (∀ c ∈ charges, c.domain = first.domain) →
      total (Charge.bytesIn d) charges
        = if first.domain = d then total Charge.bytes charges else 0 := by
    intro charges
    induction charges with
    | nil => intro _; simp
    | cons charge rest ih =>
      intro hsame
      have hcharge := hsame charge (List.mem_cons_self ..)
      have hrest := ih fun c hc => hsame c (List.mem_cons_of_mem _ hc)
      simp only [total_cons, hrest, Charge.bytesIn, hcharge]
      split <;> rfl
  exact hall _ fun c hc => h c hc first (List.mem_cons_self ..)

/-- Every token of a batch is given back. -/
theorem BooksAt.releaseAll {charges : List Charge}
    (h : BooksAt external ρ γ (fun x => η x + total (Charge.holds x) charges) books) :
    BooksAt external ρ γ η
        (charges.foldl (fun books charge => books.release charge.token charge.bytes) books)
      ∧ (charges.foldl (fun books charge => books.release charge.token charge.bytes) books).state
        = books.state := by
  induction charges generalizing books with
  | nil => exact ⟨h, rfl⟩
  | cons charge rest ih =>
    have hrelease : BooksAt external ρ γ (fun x => η x + total (Charge.holds x) rest)
        (books.release charge.token charge.bytes) := by
      refine ⟨by rw [Books.release_external, h.1], h.2.release fun x => ?_⟩
      simp only [total_cons, Charge.holds]
      omega
    obtain ⟨hat, hstate⟩ := ih hrelease
    exact ⟨hat, hstate.trans (Books.release_state ..)⟩

/-- Charges that were emptied give nothing back. -/
theorem Books.dropCharges_emptied (hclean : books.state.poisoned = false) (charges : List Charge) :
    books.dropCharges (charges.map fun charge => { charge with bytes := 0, token := none })
      = books := by
  induction charges with
  | nil => rfl
  | cons charge rest ih =>
    show Books.dropCharges (books.dropCharge { charge with bytes := 0, token := none }) _ = books
    rw [Books.dropCharge_empty hclean, ih]

/-- The commit of a partial case is a refund of the excess, and every old token is given back. -/
theorem BooksAt.commitPartial {batch : List Charge} {domain : Domain} {excess : Nat}
    (h : BooksAt external ρ (fun d => γ d + if domain = d then excess else 0)
      (fun x => η x + total (Charge.holds x) batch) books) :
    BooksAt external ρ γ η (books.commitPartial books.state batch domain excess) := by
  obtain ⟨hat, hstate⟩ := h.releaseAll
  generalize hreleased : batch.foldl (fun books charge => books.release charge.token charge.bytes)
    books = released at hat hstate
  have hcommitted := hat.2.committedOf domain
  have htotal := hat.2.committed_eq
  have hroom : ¬ (released.state.committed < excess ∨ released.state.committedOf domain < excess
      ∨ released.state.poisoned = true) := by
    rw [hat.2.clean]
    simp only [if_true] at hcommitted
    cases domain <;> simp at hcommitted htotal ⊢ <;> omega
  have hcommit : books.commitPartial books.state batch domain excess
      = { released with state := released.state.refundOnDrop excess domain } := by
    rw [Books.commitPartial, hreleased, Books.dropCharges_emptied hat.2.clean,
      LedgerState.refundOnDrop, if_neg hroom, hstate]
  rw [hcommit]
  exact ⟨hat.1, hat.2.refundOnDrop fun _ => rfl⟩

/-- **The partial case of `normalize`**: the bytes of the batch become those of one charge. -/
theorem normalizePartial_triple {first : Charge} {rest : List Charge} {actual : Nat}
    (huniform : Uniform (first :: rest)) (hactual : actual < total Charge.bytes (first :: rest))
    (answer : Option Nat) (room : Bool) :
    Triple (BooksAt external ρ (fun d => γ d + total (Charge.bytesIn d) (first :: rest))
        (fun x => η x + total (Charge.holds x) (first :: rest)))
      (normalizePartial (first :: rest) first (total Charge.bytes (first :: rest)) actual answer
        room)
      (fun next => fun books => BooksAt external ρ (fun d => γ d + total (Charge.bytesIn d) next)
        (fun x => η x + total (Charge.holds x) next) books ∧ Uniform next)
      (fun _ => BooksAt external ρ (fun d => γ d + total (Charge.bytesIn d) (first :: rest))
        (fun x => η x + total (Charge.holds x) (first :: rest))) := by
  refine Triple.bind (Q := fun before books => books.state = before.state
    ∧ BooksAt external ρ (fun d => γ d + total (Charge.bytesIn d) (first :: rest))
      (fun x => η x + total (Charge.holds x) (first :: rest)) books) (fun books h => ⟨rfl, h⟩) ?_
  intro before
  refine Triple.ite (fun _ => fun _ h => h.2) (fun hguard => ?_)
  refine Triple.bind ((admission_triple actual answer before.state).conseq (fun _ h => h)
    (fun _ _ h => h) (fun _ _ h => h.elim)) ?_
  intro token
  cases token with
  | none => exact fun books ⟨_, h⟩ => h.of_none
  | some token =>
    cases room with
    | false =>
      intro books ⟨_, h⟩
      refine ⟨h.1, h.2.release fun x => ?_⟩
      rfl
    | true =>
      intro books ⟨hstate, h⟩
      let charge : Charge := ⟨actual, first.domain, some token⟩
      show BooksAt external ρ (fun d => γ d + total (Charge.bytesIn d) [charge])
        (fun x => η x + total (Charge.holds x) [charge])
        (books.commitPartial before.state (first :: rest) first.domain _) ∧ Uniform [charge]
      refine ⟨?_, by simp [Uniform]⟩
      rw [← hstate]
      refine BooksAt.commitPartial (h.congr (fun _ => rfl) ?_ ?_)
      · intro d
        rw [huniform.total_bytesIn d]
        generalize total Charge.bytes (first :: rest) = bytes at hactual ⊢
        simp only [total_cons, total_nil, Charge.bytesIn, charge]
        split <;> omega
      · intro x
        simp only [total_cons, total_nil, Charge.holds, charge]
        omega

/-- **`normalize`**: the batch that is returned stands for the bytes and tokens it gives, or
    nothing changes. -/
theorem normalize_triple {batch : List Charge} (huniform : Uniform batch) (actual : Nat)
    (answer : Option Nat) (room : Bool) :
    Triple (BooksAt external ρ (fun d => γ d + total (Charge.bytesIn d) batch)
        (fun x => η x + total (Charge.holds x) batch))
      (normalize batch actual answer room)
      (fun next books => BooksAt external ρ (fun d => γ d + total (Charge.bytesIn d) next)
        (fun x => η x + total (Charge.holds x) next) books ∧ Uniform next)
      (fun _ => BooksAt external ρ (fun d => γ d + total (Charge.bytesIn d) batch)
        (fun x => η x + total (Charge.holds x) batch)) := by
  by_cases hfits : total Charge.bytes batch ≤ usizeMax
  case neg =>
    -- the bytes of a batch are committed, and those can be counted
    intro books h
    have htotal := h.2.committed_eq
    have hmax := h.2.fits
    rw [total_add Charge.bytes_eq] at hfits
    omega
  rw [normalize, totalBytes_eq hfits]
  refine Triple.bind (Q := fun n books => n = total Charge.bytes batch
    ∧ BooksAt external ρ (fun d => γ d + total (Charge.bytesIn d) batch)
      (fun x => η x + total (Charge.holds x) batch) books) (fun _ h => ⟨rfl, h⟩) ?_
  intro n
  refine Triple.of_pure fun hn => ?_
  subst hn
  refine Triple.ite (fun _ => fun _ h => h) (fun hle => ?_)
  refine Triple.ite (fun _ => fun _ h => ⟨h, huniform⟩) (fun hne => ?_)
  refine Triple.ite (fun _ => ?_) (fun _ => ?_)
  · intro books h
    exact ⟨h.dropCharges, by simp [Uniform]⟩
  · cases batch with
    | nil => exact fun _ h => h
    | cons first rest => exact normalizePartial_triple huniform (by omega) answer room

end RivetLua.Runtime.Allocation
