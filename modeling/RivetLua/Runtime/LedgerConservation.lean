import RivetLua.Runtime.LedgerBooks

namespace RivetLua.Runtime.Allocation

open StateProg
open Totals

/-!
# Runtime — the ledger is conserved

The operations of a world are those of the books together with a list of owners.  An operation
takes an owner out of a list, puts one in or moves what it holds, and the totals over the lists
follow the balances.

* `World.Sound` — the books agree with the owners;
* `World.Sound.release` — charges that move from owner to owner, or are dropped;
* `ledger_conserved` — every world a ledger can get into.
-/

variable {external : Bool}

/-! ### The books and the owners -/

/-- What the charges contribute that have an owner: alone, in a pair or in a batch. -/
def World.owned (μ : Charge → Nat) (w : World) : Nat :=
  total μ w.charges + total (PairedLuaCharges.sum μ) w.pairs + total (total μ) w.batches

/-- The books agree with the owners that are alive.  A batch has one domain, and only a ledger
    without an admission of the host gives charges away. -/
structure World.Sound (external : Bool) (w : World) : Prop where
  books : BooksAt external (fun d => total (Reservation.bytesIn d) w.reservations)
    (fun d => w.owned (Charge.bytesIn d) + total (Charge.bytesIn d) w.detached)
    (fun x => total (Reservation.holds x) w.reservations + w.owned (Charge.holds x)
      + total (Charge.holds x) w.detached) w.books
  uniform : ∀ batch ∈ w.batches, Uniform batch
  detached : external = true → w.detached = []

/-- The operations that ask for bytes. -/
def Op.reserves : Op → Bool
  | .reserve .. => true
  | .reserveBacking .. => true
  | _ => false

/-- What one operation does: the books agree with the owners again, bytes that were asked for are
    within the limit, and a failure leaves the balances as they were.  The exception is a `commit`
    under an admission of the host, which gives its reservation back. -/
structure World.Fair (external : Bool) (w : World) (op : Op) (outcome : World.Outcome) : Prop where
  sound : outcome.2.Sound external
  within : op.reserves = true → outcome.1 = .ok () →
    outcome.2.books.state.committed + outcome.2.books.state.reserved
      ≤ outcome.2.books.state.limit
  failed : ∀ e, outcome.1 = .error e →
    outcome.2.books.state.balances = w.books.state.balances
      ∨ external = true ∧ ∃ i r, op = .commit i ∧ w.reservations[i]? = some r
        ∧ outcome.2.books = w.books.dropReservation r

variable {w : World} {op : Op}

/-- An operation that cannot fail and asks for nothing. -/
theorem World.Fair.of_ok {w' : World} (h : w'.Sound external) (hop : op.reserves = false) :
    World.Fair external w op (.ok (), w') :=
  ⟨h, fun h => absurd h (by simp [hop]), fun e he => by simp at he⟩

/-- An operation that fails without a trace. -/
theorem World.Fair.of_error (h : w.Sound external) (e : VmError) :
    World.Fair external w op (.error e, w) :=
  ⟨h, fun _ he => by simp at he, fun _ _ => .inl rfl⟩

/-- The owners stay as they are, and so do the totals. -/
theorem World.Sound.of_books {books : Books} (h : w.Sound external)
    (hat : BooksAt external (fun d => total (Reservation.bytesIn d) w.reservations)
      (fun d => w.owned (Charge.bytesIn d) + total (Charge.bytesIn d) w.detached)
      (fun x => total (Reservation.holds x) w.reservations + w.owned (Charge.holds x)
        + total (Charge.holds x) w.detached) books) :
    World.Sound external { w with books := books } :=
  ⟨hat, h.uniform, h.detached⟩

/-- An operation on the books that gives a reservation or changes nothing. -/
theorem World.Sound.keepReservation (h : w.Sound external) {m : BooksM Reservation}
    (hm : ∀ {ρ γ η}, Triple (BooksAt external ρ γ η) m (BooksAt.Reserved external ρ γ η)
      (fun _ => BooksAt external ρ γ η)) :
    World.Fair external w op (w.keepReservation (m w.books)) := by
  rcases hrun : m w.books with ⟨result, books⟩
  cases result with
  | ok r =>
    obtain ⟨hat, hbound⟩ := hm.ok h.books hrun
    refine ⟨⟨hat.congr (fun d => ?_) (fun _ => rfl) (fun x => ?_), h.uniform, h.detached⟩,
      fun _ _ => hbound, fun e he => by simp [World.keepReservation] at he⟩
    · simp only [World.keepReservation, total_cons]
      omega
    · simp only [World.keepReservation, World.owned, total_cons]
      omega
  | error e =>
    have hat := hm.error h.books hrun
    refine ⟨h.of_books hat, fun _ he => by simp [World.keepReservation] at he, fun _ _ => .inl ?_⟩
    exact h.books.2.balances_eq hat.2

/-- The totals without the reservation that an operation uses up. -/
theorem World.Sound.take (h : w.Sound external) {i : Nat} {r : Reservation}
    (hr : w.reservations[i]? = some r) :
    BooksAt external
      (fun d => total (Reservation.bytesIn d) (w.reservations.eraseIdx i) + r.bytesIn d)
      (fun d => w.owned (Charge.bytesIn d) + total (Charge.bytesIn d) w.detached)
      (fun x => total (Reservation.holds x) (w.reservations.eraseIdx i) + w.owned (Charge.holds x)
        + total (Charge.holds x) w.detached + r.holds x) w.books := by
  refine h.books.congr (fun d => ?_) (fun _ => rfl) (fun x => ?_)
  · rw [total_eraseIdx hr]
  · rw [total_eraseIdx hr]
    omega

theorem World.Sound.dropReservation (h : w.Sound external) {i : Nat} {r : Reservation}
    (hr : w.reservations[i]? = some r) :
    World.Sound external { w with
      books := w.books.dropReservation r, reservations := w.reservations.eraseIdx i } :=
  ⟨(h.take hr).drop, h.uniform, h.detached⟩

theorem World.Sound.commitCharge (h : w.Sound external) {i : Nat} {r : Reservation}
    (hr : w.reservations[i]? = some r) :
    World.Fair external w (.commitCharge i) (w.stepCommitCharge i r) := by
  obtain ⟨books, hcommit, hat⟩ := commitCharge_apply (h.take hr)
  have hstep : w.stepCommitCharge i r = (.ok (), { w with
      books := books, reservations := w.reservations.eraseIdx i
      charges := ⟨r.bytes, r.domain, r.token⟩ :: w.charges }) := by
    simp only [World.stepCommitCharge, hcommit]
  rw [hstep]
  refine World.Fair.of_ok ⟨hat.congr (fun _ => rfl) (fun d => ?_) (fun x => ?_), h.uniform,
    h.detached⟩ rfl
  · simp only [World.owned, total_cons, Charge.bytesIn, Reservation.bytesIn]
    omega
  · simp only [World.owned, total_cons, Charge.holds, Reservation.holds]
    omega

theorem World.Sound.commit (h : w.Sound external) {i : Nat} {r : Reservation}
    (hr : w.reservations[i]? = some r) :
    World.Fair external w (.commit i) (w.stepCommit i r) := by
  cases external with
  | true =>
    have hstep : w.stepCommit i r = (.error .ledgerInvariant, { w with
        books := w.books.dropReservation r, reservations := w.reservations.eraseIdx i }) := by
      simp only [World.stepCommit, commit_apply_external h.books.1]
    rw [hstep]
    exact ⟨h.dropReservation hr, fun _ he => by simp at he,
      fun _ _ => .inr ⟨rfl, i, r, rfl, hr, rfl⟩⟩
  | false =>
    obtain ⟨books, hcommit, hat⟩ := commit_apply (h.take hr)
    have hstep : w.stepCommit i r = (.ok (), { w with
        books := books, reservations := w.reservations.eraseIdx i
        detached := ⟨r.bytes, r.domain, r.token⟩ :: w.detached }) := by
      simp only [World.stepCommit, hcommit]
    rw [hstep]
    refine World.Fair.of_ok ⟨hat.congr (fun _ => rfl) (fun d => ?_) (fun x => ?_), h.uniform,
      fun he => absurd he Bool.false_ne_true⟩ rfl
    · simp only [World.owned, total_cons, Charge.bytesIn, Reservation.bytesIn]
      omega
    · simp only [World.owned, total_cons, Charge.holds, Reservation.holds]
      omega

/-- Charges that move from owner to owner, except those that are dropped.  A part that is empty
    counts for nothing. -/
theorem World.Sound.release (h : w.Sound external) {w' : World} (given : List Charge)
    (hreservations : w'.reservations = w.reservations) (hdetached : w'.detached = w.detached)
    (howned : ∀ μ : Charge → Nat, μ LuaChargePart.empty.charge = 0 →
      w.owned μ = w'.owned μ + total μ given)
    (huniform : ∀ batch ∈ w'.batches, Uniform batch)
    (hbooks : w'.books = w.books.dropCharges given) : w'.Sound external := by
  refine ⟨?_, huniform, fun he => hdetached.trans (h.detached he)⟩
  rw [hbooks]
  refine BooksAt.dropCharges (h.books.congr (fun d => ?_) (fun d => ?_) (fun x => ?_))
  · rw [hreservations]
  · have hempty : Charge.bytesIn d LuaChargePart.empty.charge = 0 := by
      cases d <;> rfl
    rw [hdetached, howned (Charge.bytesIn d) hempty]
    omega
  · have hempty : Charge.holds x LuaChargePart.empty.charge = 0 := rfl
    rw [hreservations, hdetached, howned (Charge.holds x) hempty]
    omega

theorem World.Sound.dropCharge (h : w.Sound external) {c : Nat} {charge : Charge}
    (hc : w.charges[c]? = some charge) :
    World.Sound external { w with
      books := w.books.dropCharge charge, charges := w.charges.eraseIdx c } := by
  refine h.release [charge] rfl rfl (fun μ _ => ?_) h.uniform rfl
  have hcharges := total_eraseIdx (μ := μ) hc
  simp only [World.owned, total_cons, total_nil]
  omega

/-- A charge of the Lua heap moves into a part of a pair, and the part that was there is
    released. -/
theorem World.Sound.replace (h : w.Sound external) {p c : Nat} {pair next : PairedLuaCharges}
    {charge : Charge} (part : LuaChargePart) (hp : w.pairs[p]? = some pair)
    (hc : w.charges[c]? = some charge)
    (hsum : ∀ μ : Charge → Nat, next.sum μ + μ part.charge = pair.sum μ + μ charge) :
    World.Sound external (w.stepReplace p c
      (next, (w.books.takePart charge).2.releasePart part)).2 := by
  refine h.release [part.charge] rfl rfl (fun μ _ => ?_) h.uniform ?_
  · have hcharges := total_eraseIdx (μ := μ) hc
    have hpairs := total_set (μ := PairedLuaCharges.sum μ) hp next
    have hnext := hsum μ
    simp only [World.stepReplace, World.owned, total_cons, total_nil]
    omega
  · show (w.books.dropCharge ⟨0, charge.domain, none⟩).dropCharge part.charge = _
    rw [Books.dropCharge_empty h.books.2.clean]
    rfl

theorem World.Sound.clearSecond (h : w.Sound external) {p : Nat} {pair : PairedLuaCharges}
    (hp : w.pairs[p]? = some pair) :
    World.Sound external { w with
      books := w.books.releasePart pair.second
      pairs := w.pairs.set p { pair with second := .empty } } := by
  refine h.release [pair.second.charge] rfl rfl (fun μ hμ => ?_) h.uniform rfl
  have hpairs := total_set (μ := PairedLuaCharges.sum μ) hp { pair with second := .empty }
  simp only [PairedLuaCharges.sum, hμ] at hpairs
  simp only [World.owned, total_cons, total_nil]
  omega

theorem World.Sound.dropPair (h : w.Sound external) {p : Nat} {pair : PairedLuaCharges}
    (hp : w.pairs[p]? = some pair) :
    World.Sound external { w with
      books := w.books.dropPair pair, pairs := w.pairs.eraseIdx p } := by
  refine h.release [pair.first.charge, pair.second.charge] rfl rfl (fun μ _ => ?_)
    h.uniform rfl
  have hpairs := total_eraseIdx (μ := PairedLuaCharges.sum μ) hp
  simp only [PairedLuaCharges.sum] at hpairs
  simp only [World.owned, total_cons, total_nil]
  omega

/-- Batches of one domain stay so when one of them is replaced by such a batch. -/
theorem uniform_set {batches : List (List Charge)} (h : ∀ batch ∈ batches, Uniform batch) (b : Nat)
    {next : List Charge} (hnext : Uniform next) : ∀ batch ∈ batches.set b next, Uniform batch := by
  intro batch hbatch
  rcases List.mem_or_eq_of_mem_set hbatch with hmem | heq
  · exact h batch hmem
  · rw [heq]
    exact hnext

/-- Two batches whose first charges agree, if there are any, form one batch. -/
theorem Uniform.append {batch other : List Charge} (h : Uniform batch) (h' : Uniform other)
    (hfirst : ¬ batch.head?.any fun first => other.head?.any fun next =>
      first.domain ≠ next.domain) : Uniform (batch ++ other) := by
  have hcross : ∀ c ∈ batch, ∀ c' ∈ other, c.domain = c'.domain := by
    intro c hc c' hc'
    cases batch with
    | nil => simp at hc
    | cons first rest =>
      cases other with
      | nil => simp at hc'
      | cons next more =>
        have hsame : first.domain = next.domain := by simpa using hfirst
        rw [h c hc first (List.mem_cons_self ..), hsame]
        exact h' next (List.mem_cons_self ..) c' hc'
  intro c hc c' hc'
  rcases List.mem_append.mp hc with hl | hr <;> rcases List.mem_append.mp hc' with hl' | hr'
  · exact h c hl c' hl'
  · exact hcross c hl c' hr'
  · exact (hcross c' hl' c hr).symm
  · exact h' c hr c' hr'

theorem World.Sound.push (h : w.Sound external) {b c : Nat} {batch : List Charge} {charge : Charge}
    (hb : w.batches[b]? = some batch) (hc : w.charges[c]? = some charge) (room : Bool) :
    World.Fair external w (.tryPush b c room) (w.stepPush b c batch charge room) := by
  by_cases hdomain : batch.head?.any fun first => first.domain ≠ charge.domain
  · simp only [World.stepPush, tryPush, if_pos hdomain]
    exact .of_error h _
  · cases room with
    | false =>
      simp only [World.stepPush, tryPush, if_neg hdomain]
      exact .of_error h _
    | true =>
      simp only [World.stepPush, tryPush, if_neg hdomain]
      have hbatch := h.uniform batch (List.mem_of_getElem? hb)
      have hnext : Uniform (batch ++ [charge]) :=
        hbatch.append (by simp [Uniform]) (by simpa using hdomain)
      refine .of_ok (h.release [] rfl rfl (fun μ _ => ?_) (uniform_set h.uniform b hnext)
        rfl) rfl
      have hcharges := total_eraseIdx (μ := μ) hc
      have hbatches := total_set (μ := total μ) hb (batch ++ [charge])
      simp only [total_append, total_cons, total_nil] at hbatches
      simp only [World.owned, total_nil]
      omega

theorem World.Sound.absorb (h : w.Sound external) {b o : Nat} {batch other : List Charge}
    (hne : b ≠ o) (hb : w.batches[b]? = some batch) (ho : w.batches[o]? = some other)
    (room : Bool) :
    World.Fair external w (.tryAbsorb b o room) (w.stepAbsorb b o batch other room) := by
  by_cases hdomain : batch.head?.any fun first => other.head?.any fun next =>
      first.domain ≠ next.domain
  · simp only [World.stepAbsorb, tryAbsorb, if_pos hdomain]
    exact .of_error h _
  · cases room with
    | false =>
      simp only [World.stepAbsorb, tryAbsorb, if_neg hdomain]
      exact .of_error h _
    | true =>
      simp only [World.stepAbsorb, tryAbsorb, if_neg hdomain]
      have hnext : Uniform (batch ++ other) :=
        (h.uniform batch (List.mem_of_getElem? hb)).append
          (h.uniform other (List.mem_of_getElem? ho)) hdomain
      refine .of_ok (h.release [] rfl rfl (fun μ _ => ?_)
        (uniform_set (uniform_set h.uniform b hnext) o (by simp [Uniform])) rfl) rfl
      have ho' : (w.batches.set b (batch ++ other))[o]? = some other := by
        rw [List.getElem?_set_ne hne, ho]
      have hbatches := total_set (μ := total μ) hb (batch ++ other)
      have hothers := total_set (μ := total μ) ho' []
      simp only [total_append, total_nil] at hbatches hothers
      simp only [World.owned, total_nil]
      omega

theorem World.Sound.dropBatch (h : w.Sound external) {b : Nat} {batch : List Charge}
    (hb : w.batches[b]? = some batch) :
    World.Sound external { w with
      books := w.books.dropCharges batch, batches := w.batches.eraseIdx b } := by
  refine h.release batch rfl rfl (fun μ _ => ?_)
    (fun other hother => h.uniform other (List.mem_of_mem_eraseIdx hother)) rfl
  have hbatches := total_eraseIdx (μ := total μ) hb
  simp only [World.owned]
  omega

theorem World.Sound.normalize (h : w.Sound external) {b : Nat} {batch : List Charge}
    (hb : w.batches[b]? = some batch) (actual : Nat) (answer : Option Nat) (room : Bool) :
    World.Fair external w (.normalize b actual answer room)
      (w.stepNormalize b (Allocation.normalize batch actual answer room w.books)) := by
  have huniform := h.uniform batch (List.mem_of_getElem? hb)
  -- the totals without the batch, whose place becomes empty
  let rest : World := { w with batches := w.batches.set b [] }
  have howned : ∀ μ : Charge → Nat, w.owned μ = rest.owned μ + total μ batch := by
    intro μ
    have hbatches := total_set (μ := total μ) hb []
    simp only [total_nil] at hbatches
    simp only [World.owned, rest]
    omega
  have hat : BooksAt external (fun d => total (Reservation.bytesIn d) w.reservations)
      (fun d => rest.owned (Charge.bytesIn d) + total (Charge.bytesIn d) w.detached
        + total (Charge.bytesIn d) batch)
      (fun x => total (Reservation.holds x) w.reservations + rest.owned (Charge.holds x)
        + total (Charge.holds x) w.detached + total (Charge.holds x) batch) w.books := by
    refine h.books.congr (fun _ => rfl) (fun d => ?_) (fun x => ?_)
    · rw [howned]
      omega
    · rw [howned]
      omega
  have hrun := normalize_triple huniform actual answer room _ hat
  rcases hresult : Allocation.normalize batch actual answer room w.books with ⟨result, books⟩
  rw [hresult] at hrun
  cases result with
  | ok next =>
    obtain ⟨hafter, hnext⟩ := hrun
    refine .of_ok ⟨hafter.congr (fun _ => rfl) (fun d => ?_) (fun x => ?_), ?_, h.detached⟩ rfl
    · simp only [World.owned, rest, total_cons]
      omega
    · simp only [World.owned, rest, total_cons]
      omega
    · intro other hother
      rcases List.mem_cons.mp hother with heq | hmem
      · rw [heq]
        exact hnext
      · exact uniform_set h.uniform b (by simp [Uniform]) other hmem
  | error e =>
    refine ⟨h.of_books (hrun.congr (fun _ => rfl) (fun d => ?_) (fun x => ?_)),
      fun _ he => by simp [World.stepNormalize] at he, fun _ _ => .inl ?_⟩
    · rw [howned]
      omega
    · rw [howned]
      omega
    · exact hat.2.balances_eq hrun.2

/-! ### Every operation, and every run -/

/-- **One operation** on a world whose books agree with its owners. -/
theorem World.Sound.step (h : w.Sound external) {outcome : World.Outcome}
    (hstep : w.step op = some outcome) : World.Fair external w op outcome := by
  cases op with
  | reserve bytes domain point answer =>
    obtain rfl := Option.some.inj hstep
    exact h.keepReservation (reserveAt_triple bytes domain point answer)
  | reserveBacking bytes domain point answer room =>
    obtain rfl := Option.some.inj hstep
    exact h.keepReservation (reserveBacking_triple bytes domain point answer room)
  | commit i =>
    obtain ⟨r, hr, rfl⟩ := Option.map_eq_some_iff.mp hstep
    exact h.commit hr
  | commitCharge i =>
    obtain ⟨r, hr, rfl⟩ := Option.map_eq_some_iff.mp hstep
    exact h.commitCharge hr
  | dropReservation i =>
    obtain ⟨r, hr, rfl⟩ := Option.map_eq_some_iff.mp hstep
    exact .of_ok (h.dropReservation hr) rfl
  | dropCharge c =>
    obtain ⟨charge, hc, rfl⟩ := Option.map_eq_some_iff.mp hstep
    exact .of_ok (h.dropCharge hc) rfl
  | newPair =>
    obtain rfl := Option.some.inj hstep
    refine .of_ok (h.release [] rfl rfl (fun μ hμ => ?_) h.uniform rfl) rfl
    simp only [World.owned, total_cons, total_nil, PairedLuaCharges.sum, PairedLuaCharges.new, hμ]
    omega
  | replaceFirst p c =>
    obtain ⟨pair, hp, hrest⟩ := Option.bind_eq_some_iff.mp hstep
    obtain ⟨charge, hc, hif⟩ := Option.bind_eq_some_iff.mp hrest
    obtain ⟨hdomain, hsome⟩ := Option.ite_none_right_eq_some.mp hif
    obtain rfl := Option.some.inj hsome
    refine .of_ok (h.replace pair.first hp hc fun μ => ?_) rfl
    obtain ⟨bytes, domain, token⟩ := charge
    obtain rfl : domain = .luaHeap := hdomain
    simp only [PairedLuaCharges.sum, LuaChargePart.charge]
    omega
  | replaceSecond p c =>
    obtain ⟨pair, hp, hrest⟩ := Option.bind_eq_some_iff.mp hstep
    obtain ⟨charge, hc, hif⟩ := Option.bind_eq_some_iff.mp hrest
    obtain ⟨hdomain, hsome⟩ := Option.ite_none_right_eq_some.mp hif
    obtain rfl := Option.some.inj hsome
    refine .of_ok (h.replace pair.second hp hc fun μ => ?_) rfl
    obtain ⟨bytes, domain, token⟩ := charge
    obtain rfl : domain = .luaHeap := hdomain
    simp only [PairedLuaCharges.sum, LuaChargePart.charge]
    omega
  | clearSecond p =>
    obtain ⟨pair, hp, rfl⟩ := Option.map_eq_some_iff.mp hstep
    exact .of_ok (h.clearSecond hp) rfl
  | dropPair p =>
    obtain ⟨pair, hp, rfl⟩ := Option.map_eq_some_iff.mp hstep
    exact .of_ok (h.dropPair hp) rfl
  | newBatch =>
    obtain rfl := Option.some.inj hstep
    refine .of_ok (h.release [] rfl rfl (fun μ _ => ?_) ?_ rfl) rfl
    · simp only [World.owned, total_cons, total_nil]
      omega
    · intro batch hbatch
      rcases List.mem_cons.mp hbatch with heq | hmem
      · rw [heq]
        simp [Uniform]
      · exact h.uniform batch hmem
  | tryPush b c room =>
    obtain ⟨batch, hb, hrest⟩ := Option.bind_eq_some_iff.mp hstep
    obtain ⟨charge, hc, hsome⟩ := Option.bind_eq_some_iff.mp hrest
    obtain rfl := Option.some.inj hsome
    exact h.push hb hc room
  | tryAbsorb b o room =>
    obtain ⟨batch, hb, hrest⟩ := Option.bind_eq_some_iff.mp hstep
    obtain ⟨other, ho, hif⟩ := Option.bind_eq_some_iff.mp hrest
    obtain ⟨hne, hsome⟩ := Option.ite_none_left_eq_some.mp hif
    obtain rfl := Option.some.inj hsome
    exact h.absorb hne hb ho room
  | normalize b actual answer room =>
    obtain ⟨batch, hb, rfl⟩ := Option.map_eq_some_iff.mp hstep
    exact h.normalize hb actual answer room
  | dropBatch b =>
    obtain ⟨batch, hb, rfl⟩ := Option.map_eq_some_iff.mp hstep
    exact .of_ok (h.dropBatch hb) rfl
  | setLimit limit =>
    obtain rfl := Option.some.inj hstep
    exact .of_ok (h.of_books (h.books.trace rfl rfl)) rfl
  | failOnceAtOrdinal ordinal =>
    obtain rfl := Option.some.inj hstep
    exact .of_ok (h.of_books (h.books.trace rfl rfl)) rfl
  | failOnceAt point =>
    obtain rfl := Option.some.inj hstep
    exact .of_ok (h.of_books (h.books.trace rfl rfl)) rfl

/-- A new ledger has no owners and empty books. -/
theorem World.sound_new (limit : Nat) (external : Bool) :
    (World.new limit external).Sound external := by
  refine ⟨⟨rfl, rfl, ?_, ?_, rfl, rfl, by simp [World.new, LedgerState.new], ?_⟩, ?_, fun _ => rfl⟩
  · intro d
    cases d <;> rfl
  · intro d
    cases d <;> rfl
  · intro x
    rfl
  · intro batch hbatch
    simp [World.new] at hbatch

theorem World.Reachable.sound {limit : Nat} (h : World.Reachable limit external w) :
    w.Sound external := by
  induction h with
  | new => exact World.sound_new limit external
  | step _ hstep ih => exact (ih.step hstep).sound

/-- **The balances of the ledger are those of its owners.** -/
structure World.Conserved (external : Bool) (w : World) : Prop where
  clean : w.books.state.poisoned = false
  reserved : w.books.state.reserved = total Reservation.bytes w.reservations
  reserved_split : w.books.state.reserved
    = w.books.state.luaReserved + w.books.state.hostReserved
  reservedOf : ∀ d, w.books.state.reservedOf d = total (Reservation.bytesIn d) w.reservations
  committed : w.books.state.committed
    = w.owned Charge.bytes + total Charge.bytes w.detached
  committed_split : w.books.state.committed
    = w.books.state.luaHeapBytes + w.books.state.hostAllocationBytes
  committedOf : ∀ d, w.books.state.committedOf d
    = w.owned (Charge.bytesIn d) + total (Charge.bytesIn d) w.detached
  detached : external = true → w.detached = []
  tokens : ∀ x, w.books.admitted.count x = w.books.released.count x
    + total (Reservation.holds x) w.reservations + w.owned (Charge.holds x)
    + total (Charge.holds x) w.detached

theorem Reservation.bytes_eq (r : Reservation) :
    r.bytes = r.bytesIn .luaHeap + r.bytesIn .host := by
  cases hdomain : r.domain <;> simp [Reservation.bytesIn, hdomain]

/-- What the owners hold is in one domain or in the other. -/
theorem World.owned_bytes (w : World) :
    w.owned Charge.bytes = w.owned (Charge.bytesIn .luaHeap) + w.owned (Charge.bytesIn .host) := by
  have hpair : ∀ pair : PairedLuaCharges, pair.sum Charge.bytes
      = pair.sum (Charge.bytesIn .luaHeap) + pair.sum (Charge.bytesIn .host) := by
    intro pair
    have hfirst := pair.first.charge.bytes_eq
    have hsecond := pair.second.charge.bytes_eq
    simp only [PairedLuaCharges.sum]
    omega
  have hcharges := total_add Charge.bytes_eq w.charges
  have hpairs := total_add hpair w.pairs
  have hbatches := total_add (total_add Charge.bytes_eq) w.batches
  simp only [World.owned]
  omega

theorem World.Sound.conserved (h : w.Sound external) : w.Conserved external := by
  have hbooks := h.books.2
  have hreserved := hbooks.reserved_eq
  have hcommitted := hbooks.committed_eq
  have hlua := hbooks.committedOf .luaHeap
  have hhost := hbooks.committedOf .host
  have hluaReserved := hbooks.reservedOf .luaHeap
  have hhostReserved := hbooks.reservedOf .host
  have hdetached := total_add Charge.bytes_eq w.detached
  have howned := w.owned_bytes
  simp only [LedgerState.committedOf] at hlua hhost
  simp only [LedgerState.reservedOf] at hluaReserved hhostReserved
  refine ⟨hbooks.clean, ?_, by omega, hbooks.reservedOf, by omega, by omega, hbooks.committedOf,
    h.detached, ?_⟩
  · rw [total_add Reservation.bytes_eq]
    exact hreserved
  · intro x
    rw [hbooks.tokens x]
    omega

/-- **The ledger is conserved**: in every world it can get into, the reserved bytes are those of
    the reservations that are alive, the committed bytes are those of the charges that are alive
    or given away, in each domain and together; it is not poisoned; and a token is released as
    often as it was admitted and is not held, each time for the same bytes.  Every operation that
    can follow keeps to the limit, and leaves the balances as they were when it fails. -/
theorem ledger_conserved {limit : Nat} {external : Bool} {w : World}
    (h : World.Reachable limit external w) :
    w.Conserved external
      ∧ ∀ op outcome, w.step op = some outcome → World.Fair external w op outcome :=
  ⟨h.sound.conserved, fun _ _ hstep => h.sound.step hstep⟩

/-- A reservation of eight bytes under an admission of the host that becomes a charge. -/
theorem ledger_conserved_charge :
    ∃ w, World.Reachable 64 true w ∧ w.charges = [⟨8, .luaHeap, some 3⟩] ∧ w.Conserved true
      ∧ ∀ op outcome, w.step op = some outcome → World.Fair true w op outcome := by
  have hreachable : World.Reachable 64 true _ :=
    @World.Reachable.step _ _ _ (.commitCharge 0) _
      (@World.Reachable.step _ _ _ (.reserve 8 .luaHeap none (some 3)) _ .new rfl) rfl
  exact ⟨_, hreachable, by decide, ledger_conserved hreachable⟩

/-- `commit` gives its charge away: the bytes stay committed and nobody holds them.  Under an
    admission of the host it fails, and the reserved bytes change. -/
theorem commit_not_conserved :
    (∃ w, World.Reachable 64 false w ∧ w.books.state.committed = 8 ∧ w.owned Charge.bytes = 0)
      ∧ ∃ w outcome, World.Reachable 64 true w ∧ w.step (.commit 0) = some outcome
        ∧ outcome.1 = .error .ledgerInvariant
        ∧ outcome.2.books.state.balances ≠ w.books.state.balances := by
  constructor
  · have hreachable : World.Reachable 64 false _ :=
      @World.Reachable.step _ _ _ (.commit 0) _
        (@World.Reachable.step _ _ _ (.reserve 8 .luaHeap none none) _ .new rfl) rfl
    exact ⟨_, hreachable, by decide, by decide⟩
  · have hreachable : World.Reachable 64 true _ :=
      @World.Reachable.step _ _ _ (.reserve 8 .luaHeap none (some 3)) _ .new rfl
    exact ⟨_, _, hreachable, rfl, rfl, by decide⟩

end RivetLua.Runtime.Allocation
