import Mathlib.Algebra.Group.Pi.Basic
import Mathlib.Algebra.Group.Prod
import RivetLua.Lib.Ownership
import RivetLua.Runtime.AccountedPair
import RivetLua.Runtime.LedgerConservation
import RivetLua.Runtime.TableRefinement

namespace RivetLua.Runtime.Allocation

open RivetLua.Core StateProg
open Totals

/-!
# Runtime — a raw write that fails leaves no trace

What a raw write takes from the ledger is owned by what it has prepared.  Each part of the preparation
turns what it is given into what it returns, or drops it; so a write that fails has dropped
everything, and it fails before it publishes.

* `Footprint` — the bytes and tokens of an owner;
* `turns_prepareSet`, `turns_prepareRefPair`, `turns_prepareBarrier`, `turns_commitPrepared` — the
  parts of a write;
* `rawSet_unchanged`, `rawSetRefPair_unchanged` — the writes.
-/

/-! ### What an owner holds -/

/-- Reserved bytes, committed bytes and tokens. -/
abbrev Footprint : Type := (Domain → Nat) × (Domain → Nat) × (Nat × Nat → Nat)

/-- What a reservation holds. -/
def Reservation.footprint (r : Reservation) : Footprint :=
  (fun d => r.bytesIn d, 0, fun x => r.holds x)

/-- What a charge holds. -/
def Charge.footprint (charge : Charge) : Footprint :=
  (0, fun d => charge.bytesIn d, fun x => charge.holds x)

/-- What the owner of an optional value holds. -/
def footprint? {α : Type} (μ : α → Footprint) (o : Option α) : Footprint := o.elim 0 μ

@[simp] theorem footprint?_none {α : Type} (μ : α → Footprint) : footprint? μ none = 0 := rfl

@[simp] theorem footprint?_some {α : Type} (μ : α → Footprint) (a : α) :
    footprint? μ (some a) = μ a := rfl

/-- What the charges of a key hold. -/
def KeyCharges.footprint (charges : KeyCharges) : Footprint :=
  footprint? Charge.footprint charges.charge + footprint? Charge.footprint charges.slotCharge
    + footprint? Charge.footprint charges.slotExtraCharge

@[simp] theorem KeyCharges.footprint_none : KeyCharges.none.footprint = 0 := by
  simp [KeyCharges.none, KeyCharges.footprint]

/-- What a new storage holds. -/
def Growth.footprint (growth : Growth) : Footprint :=
  footprint? Reservation.footprint growth.ticket + footprint? Charge.footprint growth.charge

/-- What a mutation holds. -/
def PreparedWrite.footprint (write : PreparedWrite) : Footprint :=
  footprint? Growth.footprint write.growth + write.keyCharges.footprint

/-- What a barrier holds. -/
def TicketedBarrier.footprint (barrier : TicketedBarrier) : Footprint :=
  footprint? Reservation.footprint barrier.rememberedTicket
    + footprint? Charge.footprint barrier.rememberedAccounted

/-- What the growth of a part holds. -/
def RefPairGrowth.footprint {α : Type} (growth : RefPairGrowth α) : Footprint :=
  growth.growth.footprint

/-- What a pair of writes holds. -/
def PreparedRefPair.footprint (pair : PreparedRefPair) : Footprint :=
  footprint? RefPairGrowth.footprint pair.arrayGrowth
    + footprint? RefPairGrowth.footprint pair.hashGrowth

/-! ### The ledger -/

/-- The books where exactly the given bytes and tokens are out. -/
def Out (external : Bool) (f : Footprint) (books : Books) : Prop :=
  BooksAt external f.1 f.2.1 f.2.2 books

variable {external : Bool}

theorem turns_reserveBacking (bytes : Nat) (domain : Domain) (point : FailPoint)
    (answer : Option Nat) (room : Bool) :
    Turns (Out external) 0 (reserveBacking bytes domain point answer room)
      Reservation.footprint := by
  intro f
  rw [add_zero]
  exact (reserveBacking_triple bytes domain point answer room).conseq (fun _ h => h)
    (fun _ _ h => h.1) fun _ _ h => h

theorem turns_reserveVec (s : Surroundings) (site : Site) (bytes : Nat) (domain : Domain)
    (point : FailPoint) :
    Turns (Out external) 0 (s.reserveVec site bytes domain point) Reservation.footprint :=
  turns_reserveBacking _ _ _ _ _

theorem turns_commitCharge (r : Reservation) :
    Turns (Out external) r.footprint (commitCharge r) Charge.footprint := by
  intro f books h
  obtain ⟨books', hrun, hat⟩ := commitCharge_apply h
  rw [hrun]
  exact hat

theorem turns_checkpointAt (point : FailPoint) :
    Turns (Out external) 0 (checkpointAt point) fun _ => 0 := by
  refine Turns.of_keeps fun f => Keeps.get_bind fun books h => ?_
  have hclean := h.2.clean
  by_cases hfail : books.state.failOnce = some point
  · simp only [hclean, Bool.false_eq_true, if_false, hfail, if_true]
    exact h.trace hclean.symm rfl
  · simp only [hclean, Bool.false_eq_true, if_false, hfail]
    exact h

theorem turns_dropReservation (r : Reservation) :
    Turns (Out external) r.footprint (Prog.modify (·.dropReservation r) : BooksM Unit) fun _ => 0 :=
  Turns.modify fun _ _ h => BooksAt.drop h

theorem Out.dropCharge {f : Footprint} {books : Books} {charge : Charge}
    (h : Out external (f + charge.footprint) books) : Out external f (books.dropCharge charge) :=
  BooksAt.dropCharge charge h

theorem Out.dropCharge? {f : Footprint} {books : Books} {charge : Option Charge}
    (h : Out external (f + footprint? Charge.footprint charge) books) :
    Out external f (books.dropCharge? charge) := by
  cases charge with
  | none =>
    rw [footprint?_none, add_zero] at h
    exact h
  | some charge => exact h.dropCharge

theorem Out.dropReservation? {f : Footprint} {books : Books} {r : Option Reservation}
    (h : Out external (f + footprint? Reservation.footprint r) books) :
    Out external f (books.dropReservation? r) := by
  cases r with
  | none =>
    rw [footprint?_none, add_zero] at h
    exact h
  | some r => exact BooksAt.drop h

theorem Books.dropKey_eq (books : Books) (charges : KeyCharges) :
    books.dropKey charges = ((books.dropCharge? charges.charge).dropCharge?
      charges.slotCharge).dropCharge? charges.slotExtraCharge := by
  rcases charges with ⟨_ | _, _ | _, _ | _⟩ <;> rfl

theorem Out.dropKey {f : Footprint} {books : Books} {charges : KeyCharges}
    (h : Out external (f + charges.footprint) books) : Out external f (books.dropKey charges) := by
  rw [Books.dropKey_eq]
  refine Out.dropCharge? (Out.dropCharge? (Out.dropCharge? ?_))
  rwa [show f + footprint? Charge.footprint charges.slotExtraCharge
      + footprint? Charge.footprint charges.slotCharge
      + footprint? Charge.footprint charges.charge = f + charges.footprint by
    unfold KeyCharges.footprint
    abel]

theorem Out.dropGrowth {f : Footprint} {books : Books} {growth : Growth}
    (h : Out external (f + growth.footprint) books) : Out external f (books.dropGrowth growth) := by
  refine Out.dropCharge? (Out.dropReservation? ?_)
  rwa [show f + footprint? Charge.footprint growth.charge
      + footprint? Reservation.footprint growth.ticket = f + growth.footprint by
    unfold Growth.footprint
    abel]

theorem Out.dropWrite {f : Footprint} {books : Books} {write : PreparedWrite}
    (h : Out external (f + write.footprint) books) : Out external f (books.dropWrite write) := by
  have hgrowth : Out external (f + write.keyCharges.footprint)
      (write.growth.elim books books.dropGrowth) := by
    unfold PreparedWrite.footprint at h
    cases hwrite : write.growth with
    | none => simpa [hwrite] using h
    | some growth =>
      rw [hwrite, footprint?_some] at h
      refine Out.dropGrowth ?_
      rwa [show f + write.keyCharges.footprint + growth.footprint
        = f + (growth.footprint + write.keyCharges.footprint) by abel]
  exact hgrowth.dropKey

theorem Out.dropGrowth? {α : Type} {f : Footprint} {books : Books}
    {growth : Option (RefPairGrowth α)}
    (h : Out external (f + footprint? RefPairGrowth.footprint growth) books) :
    Out external f (books.dropGrowth? growth) := by
  cases growth with
  | none =>
    rw [footprint?_none, add_zero] at h
    exact h
  | some growth => exact Out.dropGrowth h

theorem Out.dropRefPair {f : Footprint} {books : Books} {pair : PreparedRefPair}
    (h : Out external (f + pair.footprint) books) : Out external f (books.dropRefPair pair) := by
  refine Out.dropGrowth? (Out.dropGrowth? ?_)
  rwa [show f + footprint? RefPairGrowth.footprint pair.hashGrowth
      + footprint? RefPairGrowth.footprint pair.arrayGrowth = f + pair.footprint by
    unfold PreparedRefPair.footprint
    abel]

/-! ### Keys -/

theorem turns_copyBytes (s : Surroundings) (site : Site) (bytes : List UInt8) :
    Turns (Out external) 0 (s.copyBytes site bytes) Charge.footprint :=
  (turns_reserveVec _ _ _ _ _).bind turns_commitCharge

theorem turns_slotExtra (s : Surroundings) :
    Turns (Out external) 0 s.slotExtra (footprint? Charge.footprint) := by
  unfold Surroundings.slotExtra
  refine Turns.ite (fun _ => Turns.return_of rfl) fun _ => ?_
  refine Turns.ite (fun _ => Turns.fail _) fun _ => ?_
  refine (turns_reserveBacking _ _ _ _ _).bind fun ticket => ?_
  refine (turns_commitCharge ticket).bind fun charge => ?_
  exact Turns.return_of rfl

/-- **A long key** owns up to three charges. -/
theorem turns_longStringKey (s : Surroundings) (source : ObjectRef) (bytes : List UInt8)
    (shared : Bool) :
    Turns (Out external) 0 (s.longStringKey source bytes shared)
      fun key => key.charges.footprint := by
  unfold Surroundings.longStringKey
  refine Turns.bind (k := footprint? Charge.footprint) ?_ fun charge => ?_
  · unfold Surroundings.keyBytes
    refine Turns.ite (fun _ => Turns.return_of rfl) fun _ => ?_
    exact (turns_copyBytes s _ _).map fun _ => rfl
  refine Turns.bind (Turns.onError_zero
    (k := fun slot => slot.1.footprint + footprint? Charge.footprint slot.2) ?_
    (Turns.modify fun _ _ h => h.dropCharge?)) fun slot => ?_
  · refine (turns_reserveVec _ _ _ _ _).bind fun ticket => ?_
    refine (Turns.onError_zero (turns_slotExtra s) (turns_dropReservation ticket)).bind
      fun extra => ?_
    refine Turns.bind (((turns_commitCharge ticket).onError
      (Turns.modify fun _ _ h => h.dropCharge?)).congr (add_comm _ _) fun _ => rfl) fun slot => ?_
    exact Turns.return_of rfl
  · refine Turns.return_of ?_
    simp only [KeyCharges.footprint, footprint?_some]
    abel

/-- What a key that may be absent holds. -/
def ownedFootprint : Option OwnedKey → Footprint := footprint? fun key => key.charges.footprint

/-- **`canonical_key`**. -/
theorem turns_canonicalKey (s : Surroundings) (vm : Vm) (value : Value) :
    Turns (Out external) 0 (s.canonicalKey vm value) ownedFootprint := by
  have hplain : ∀ key : CanonicalKey, Turns (Out external) 0
      (pure (some ⟨key, .none⟩) : BooksM (Option OwnedKey)) ownedFootprint := fun key =>
    Turns.return_of KeyCharges.footprint_none.symm
  cases value with
  | nil => exact Turns.return_of rfl
  | integer i => exact hplain _
  | boolean b => exact hplain _
  | lightUserdata a => exact hplain _
  | cFunction id => exact Turns.ite (fun _ => Turns.fail _) fun _ => hplain _
  | float x =>
    refine Turns.ite (fun _ => Turns.return_of rfl) fun _ => ?_
    cases x.toI64? with
    | some i => exact hplain _
    | none => exact hplain _
  | object source =>
    refine Turns.bind (Turns.ofExcept fun _ _ => rfl) fun kind => ?_
    refine Turns.ite (fun _ => ?_) fun _ => ?_
    · refine Turns.bind (Turns.ofExcept fun _ _ => rfl) fun string => ?_
      refine Turns.ite (fun _ => hplain _) fun _ => ?_
      exact (turns_longStringKey s _ _ _).map fun _ => rfl
    · exact Turns.bind (Turns.ofOption fun _ _ => rfl) fun id => hplain _

/-- **`make_dead`**. -/
theorem turns_makeDead (s : Surroundings) (key : OwnedKey) :
    Turns (Out external) key.charges.footprint (s.makeDead key)
      fun dead => dead.charges.footprint := by
  unfold Surroundings.makeDead
  split
  · exact Turns.return_of rfl
  · refine Turns.bind (Turns.onError_zero (turns_copyBytes s _ _)
      (Turns.modify fun _ _ h => h.dropKey)) fun charge => ?_
    refine Turns.bind (k := fun _ => charge.footprint
      + footprint? Charge.footprint key.charges.slotCharge
      + footprint? Charge.footprint key.charges.slotExtraCharge) ?_ fun _ => ?_
    · intro f books h
      refine Out.dropCharge? ?_
      rwa [show f + (charge.footprint + footprint? Charge.footprint key.charges.slotCharge
          + footprint? Charge.footprint key.charges.slotExtraCharge)
          + footprint? Charge.footprint key.charges.charge
          = f + (charge.footprint + key.charges.footprint) by
        unfold KeyCharges.footprint
        abel]
    · exact Turns.return_of rfl
  · exact Turns.return_of rfl

/-! ### One field -/

/-- What a place holds. -/
def Placement.footprint : Placement → Footprint
  | growArray _ ticket | growHash _ ticket _ => ticket.footprint
  | _ => 0

/-- The reservation of a storage passes a failure point, or is dropped. -/
theorem turns_guarded (r : Reservation) {m : BooksM Unit}
    (hm : Turns (Out external) 0 m fun _ => 0) :
    Turns (Out external) r.footprint (Prog.onError m (Prog.modify (·.dropReservation r)))
      fun _ => r.footprint :=
  (Turns.onError_zero hm (turns_dropReservation r)).congr rfl fun _ => (zero_add _).symm

section OneField

variable [DefaultHasher] (s : Surroundings) (t : Table)

theorem turns_prepareInsert (key : CanonicalKey) :
    Turns (Out external) 0 (prepareInsert s t key) Placement.footprint := by
  refine Turns.ite (fun _ => ?_) fun _ => ?_
  · refine Turns.ite (fun _ => Turns.fail _) fun _ => ?_
    refine Turns.ite (fun _ => Turns.fail _) fun _ => ?_
    refine Turns.ite (fun _ => Turns.fail _) fun _ => ?_
    refine (turns_reserveVec _ _ _ _ _).bind fun ticket => ?_
    refine (turns_guarded ticket ?_).bind fun _ => Turns.return_of rfl
    exact (turns_checkpointAt _).bind fun _ => turns_checkpointAt _
  · refine (turns_checkpointAt _).bind fun _ => ?_
    exact Turns.bind (Turns.ofOption fun _ _ => rfl) fun index => Turns.return_of rfl

theorem turns_prepareAbsent (key : CanonicalKey) (value : Value) :
    Turns (Out external) 0 (prepareAbsent s t key value) Placement.footprint := by
  unfold prepareAbsent
  cases key.arrayIndex with
  | none => exact turns_prepareInsert s t key
  | some index =>
    refine Turns.ite (fun _ => ?_) fun _ => Turns.ite (fun _ => ?_) fun _ =>
      turns_prepareInsert s t key
    · exact (turns_checkpointAt _).bind fun _ => Turns.return_of rfl
    · refine Turns.ite (fun _ => Turns.fail _) fun _ => ?_
      refine Turns.ite (fun _ => Turns.fail _) fun _ => ?_
      refine (turns_reserveVec _ _ _ _ _).bind fun ticket => ?_
      exact (turns_guarded ticket (turns_checkpointAt _)).bind fun _ => Turns.return_of rfl

theorem turns_preparePlacement (key : CanonicalKey) (value : Value) :
    Turns (Out external) 0 (preparePlacement s t key value) Placement.footprint := by
  unfold preparePlacement
  cases t.findAnyHash key with
  | none => exact turns_prepareAbsent s t key value
  | some index =>
    refine Turns.ite (fun _ => ?_) fun _ => turns_prepareAbsent s t key value
    exact (turns_checkpointAt _).bind fun _ => Turns.return_of rfl

/-- **`prepare_set`** owns the storage it needs, and the key if it stores it. -/
theorem turns_prepareSet (key : OwnedKey) (value : Value) :
    Turns (Out external) key.charges.footprint (prepareSet s t key value)
      PreparedWrite.footprint := by
  have hdrop : Turns (Out external) key.charges.footprint
      (Prog.modify (·.dropKey key.charges) : BooksM Unit) fun _ => 0 :=
    Turns.modify fun _ _ h => h.dropKey
  have hempty : ∀ write : PreparedWrite, write.growth = none → write.keyCharges = .none →
      Turns (Out external) 0 (pure write : BooksM PreparedWrite) PreparedWrite.footprint := by
    intro write hgrowth hkey
    refine Turns.return_of ?_
    rw [PreparedWrite.footprint, hgrowth, hkey, KeyCharges.footprint_none]
    rfl
  unfold prepareSet
  split
  · exact hdrop.bind fun _ => hempty _ rfl rfl
  split
  · refine Turns.ite (fun _ => ?_) fun _ => hdrop.bind fun _ => hempty _ rfl rfl
    refine (turns_makeDead s key).bind fun dead => Turns.return_of ?_
    exact (zero_add _).symm
  refine Turns.ite (fun _ => hdrop.bind fun _ => hempty _ rfl rfl) fun _ => ?_
  refine (Turns.onError_zero (turns_preparePlacement s t key.key value) hdrop).bind
    fun placement => ?_
  by_cases hstores : placement.storesKey = true
  · rw [if_pos hstores]
    refine Turns.return_of ?_
    cases placement with
    | arraySlot | growArray => exact absurd hstores Bool.false_ne_true
    | hashReplace | hashInsert => rfl
    | growHash next ticket existingCount =>
      show ticket.footprint + _ = ticket.footprint + 0 + _
      rw [add_zero]
      rfl
  · rw [if_neg hstores]
    refine Turns.bind (k := fun _ => placement.footprint) ?_ fun _ => Turns.return_of ?_
    · exact fun f books h => Out.dropKey (by rwa [add_assoc])
    · cases placement with
      | hashReplace | hashInsert | growHash => exact absurd rfl hstores
      | arraySlot index =>
        show (0 : Footprint) = 0 + KeyCharges.none.footprint
        rw [KeyCharges.footprint_none, add_zero]
      | growArray next ticket =>
        show ticket.footprint = ticket.footprint + 0 + KeyCharges.none.footprint
        rw [KeyCharges.footprint_none, add_zero, add_zero]

end OneField

/-! ### Committing -/

theorem turns_commitInto (ticket : Reservation) (old : Option Charge) :
    Turns (Out external) (ticket.footprint + footprint? Charge.footprint old)
      (commitInto ticket old) Charge.footprint := by
  have hdrop : Turns (Out external) (footprint? Charge.footprint old)
      (Prog.modify (·.dropCharge? old) : BooksM Unit) fun _ => 0 :=
    Turns.modify fun _ _ h => h.dropCharge?
  refine ((turns_commitCharge ticket).onError hdrop).bind fun charge => ?_
  refine Turns.bind (k := fun _ => charge.footprint) ?_ fun _ => Turns.return_of rfl
  exact fun f books h => Out.dropCharge? (by rwa [add_assoc])

theorem turns_growthCommit (growth : Growth) :
    Turns (Out external) growth.footprint growth.commit Growth.footprint := by
  unfold Growth.commit Growth.footprint
  cases growth.ticket with
  | none =>
    rw [footprint?_none, zero_add]
    exact Turns.bind (Turns.modify fun _ _ h => h.dropCharge?) fun _ => Turns.fail _
  | some ticket =>
    exact (turns_commitInto ticket _).bind fun charge => Turns.return_of (zero_add _).symm

theorem PreparedWrite.keyCharges_withGrowth (write : PreparedWrite) (growth : Growth) :
    (write.withGrowth growth).keyCharges = write.keyCharges := by
  cases write <;> rfl

theorem PreparedWrite.growth_withGrowth {write : PreparedWrite} {old : Growth}
    (h : write.growth = some old) (growth : Growth) :
    (write.withGrowth growth).growth = some growth := by
  cases write <;> first | rfl | cases h

/-- **The commit of a mutation.** -/
theorem turns_writeCommit (write : PreparedWrite) :
    Turns (Out external) write.footprint write.commitAccounting PreparedWrite.footprint := by
  unfold PreparedWrite.commitAccounting
  split
  · next growth hgrowth =>
    refine Turns.bind (((turns_growthCommit growth).onError
      (Turns.modify fun _ _ h => h.dropKey)).congr ?_ fun _ => rfl) fun committed =>
        Turns.return_of ?_
    · rw [PreparedWrite.footprint, hgrowth, footprint?_some]
    · rw [PreparedWrite.footprint, PreparedWrite.growth_withGrowth hgrowth, footprint?_some,
        PreparedWrite.keyCharges_withGrowth]
  · exact Turns.return_of rfl

/-- **The commit of a barrier.** -/
theorem turns_barrierCommit (barrier : TicketedBarrier) :
    Turns (Out external) barrier.footprint barrier.commitAccounting
      fun committed => footprint? Charge.footprint committed.rememberedAccounted := by
  unfold TicketedBarrier.commitAccounting TicketedBarrier.footprint
  split
  · next ticket hticket =>
    rw [hticket, footprint?_some]
    exact (turns_commitInto ticket _).bind fun charge => Turns.return_of rfl
  · next hticket =>
    rw [hticket, footprint?_none, zero_add]
    exact Turns.return_of rfl

/-- Both accounts of one field. -/
theorem turns_commitPrepared (barrier : TicketedBarrier) (write : PreparedWrite) :
    Turns (Out external) (barrier.footprint + write.footprint) (commitPrepared barrier write)
      fun committed => committed.2.footprint
        + footprint? Charge.footprint committed.1.rememberedAccounted := by
  refine Turns.bind ((turns_barrierCommit barrier).onError
    (Turns.modify fun _ _ h => h.dropWrite)) fun committed => ?_
  refine Turns.bind (((turns_writeCommit write).onError
    (Turns.modify fun _ _ h => h.dropCharge?)).congr (add_comm _ _) fun _ => rfl) fun written =>
      Turns.return_of rfl

/-! ### The barrier -/

theorem turns_reserveRemembered (s : Surroundings) (st : AccountedVm) :
    Turns (Out external) 0 (s.reserveRemembered st) fun remembered => remembered.1.footprint := by
  refine Turns.ite (fun _ => Turns.fail _) fun _ => ?_
  refine Turns.ite (fun _ => Turns.fail _) fun _ => ?_
  exact (turns_reserveVec _ _ _ _ _).bind fun ticket => Turns.return_of rfl

/-- **`prepare_table_write_barrier_edges`** owns the room for the owner. -/
theorem turns_prepareBarrier (s : Surroundings) (st : AccountedVm) (owner : ObjectRef)
    (first second : RefField × Option ObjectRef) :
    Turns (Out external) 0 (s.prepareBarrier st owner first second)
      TicketedBarrier.footprint := by
  have hread : ∀ {α : Type} (o : Except VmError α),
      Turns (Out external) 0 (Prog.ofExcept o : BooksM α) fun _ => 0 :=
    fun o => Turns.ofExcept fun _ _ => rfl
  refine (hread _).bind fun o => (hread _).bind fun t => (hread _).bind fun black => ?_
  refine (hread _).bind fun edge => (hread _).bind fun edge' => ?_
  refine Turns.ite (fun _ => Turns.fail _) fun _ => ?_
  refine Turns.ite (fun _ => Turns.fail _) fun _ => ?_
  refine Turns.ite (fun _ => Turns.fail _) fun _ => ?_
  refine Turns.ite (fun _ => ?_) fun _ => Turns.return_of (add_zero _).symm
  refine (turns_reserveRemembered s st).bind fun remembered => Turns.return_of ?_
  exact (add_zero _).symm

/-! ### Two fields -/

section TwoFields

variable [DefaultHasher] (s : Surroundings) (t : Table)

theorem turns_refSlot (arrayLength : Nat) (key : Int64) :
    Turns (Out external) 0 (refSlot t arrayLength key) fun _ => 0 := by
  dsimp only [refSlot]
  split
  · exact Turns.return_of rfl
  split
  · exact Turns.ite (fun _ => (turns_checkpointAt _).bind fun _ => Turns.return_of rfl)
      fun _ => Turns.return_of rfl
  · refine (turns_checkpointAt _).bind fun _ => ?_
    split <;> exact Turns.return_of rfl

theorem turns_refSlots (arrayLength : Nat) (values : List (Int64 × Value)) :
    Turns (Out external) 0 (refSlots t arrayLength values) fun _ => 0 := by
  induction values with
  | nil => exact Turns.return_of rfl
  | cons item rest ih =>
    exact (turns_refSlot t arrayLength item.1).bind fun slot => ih.bind fun others =>
      Turns.return_of rfl

omit [DefaultHasher] in
/-- A new storage owns its reservation. -/
theorem RefPairGrowth.footprint_ticket {α : Type} (next : List α) (ticket : Reservation)
    (oldBytes newBytes : Nat) :
    RefPairGrowth.footprint ⟨next, ⟨some ticket, none⟩, oldBytes, newBytes⟩ = ticket.footprint :=
  add_zero _

omit [DefaultHasher] in
theorem turns_growRefArray (arrayLength : Nat) :
    Turns (Out external) 0 (growRefArray s t arrayLength)
      (footprint? RefPairGrowth.footprint) := by
  refine Turns.ite (fun _ => ?_) fun _ => Turns.return_of rfl
  refine Turns.ite (fun _ => Turns.fail _) fun _ => ?_
  refine (turns_reserveVec _ _ _ _ _).bind fun ticket => Turns.return_of ?_
  exact (RefPairGrowth.footprint_ticket _ _ _ _).symm

omit [DefaultHasher] in
theorem turns_growRefHash (hashLength : Nat) :
    Turns (Out external) 0 (growRefHash s t hashLength) (footprint? RefPairGrowth.footprint) := by
  refine Turns.ite (fun _ => ?_) fun _ => Turns.return_of rfl
  refine Turns.ite (fun _ => Turns.fail _) fun _ => ?_
  refine (turns_reserveVec _ _ _ _ _).bind fun ticket => ?_
  refine (turns_guarded ticket (turns_checkpointAt _)).bind fun _ => Turns.return_of ?_
  exact (RefPairGrowth.footprint_ticket _ _ _ _).symm

/-- **`prepare_ref_pair`** owns the storages it needs. -/
theorem turns_prepareRefPair (first second : Int64 × Value) :
    Turns (Out external) 0 (prepareRefPair s t first second) PreparedRefPair.footprint := by
  refine Turns.ite (fun _ => Turns.fail _) fun _ => ?_
  refine Turns.bind (Turns.ofExcept fun _ _ => rfl) fun arrayLength => ?_
  refine (turns_refSlots t _ _).bind fun slots => ?_
  refine (turns_growRefArray s t arrayLength).bind fun arrayGrowth => ?_
  refine Turns.bind (Turns.onError_zero
    (k := fun hash : List RefPairEntry × Option (RefPairGrowth Bucket) =>
      footprint? RefPairGrowth.footprint hash.2) ?_
    (Turns.modify fun _ _ h => h.dropGrowth?)) fun hash => Turns.return_of (add_comm _ _)
  refine Turns.bind (Turns.ofExcept fun _ _ => rfl) fun hashLength => ?_
  refine (turns_growRefHash s t hashLength).bind fun hashGrowth => ?_
  refine Turns.bind (Turns.onError_zero (Turns.ofExcept fun _ _ => rfl)
    (Turns.modify fun _ _ h => h.dropGrowth?)) fun entries => Turns.return_of ?_
  exact zero_add _

end TwoFields

theorem turns_growthCommit? {α : Type} (growth : Option (RefPairGrowth α)) :
    Turns (Out external) (footprint? RefPairGrowth.footprint growth)
      (RefPairGrowth.commit? growth) (footprint? RefPairGrowth.footprint) := by
  cases growth with
  | none => exact Turns.return_of rfl
  | some growth =>
    exact (turns_growthCommit growth.growth).bind fun committed => Turns.return_of rfl

/-- **The commit of a pair**: two storages, or none. -/
theorem turns_pairCommit (pair : PreparedRefPair) :
    Turns (Out external) pair.footprint pair.commitAccounting PreparedRefPair.footprint := by
  refine Turns.ite (fun _ => ?_) fun _ => ?_
  · exact Turns.bind (Turns.modify fun _ _ h => h.dropRefPair) fun _ => Turns.fail _
  refine Turns.bind ((turns_growthCommit? pair.arrayGrowth).onError
    (Turns.modify fun _ _ h => h.dropGrowth?)) fun arrayGrowth => ?_
  refine Turns.bind (((turns_growthCommit? pair.hashGrowth).onError
    (Turns.modify fun _ _ h => h.dropGrowth?)).congr (add_comm _ _) fun _ => rfl) fun hashGrowth =>
      Turns.return_of (add_comm _ _)

/-- Both accounts of two fields. -/
theorem turns_commitPreparedPair (barrier : TicketedBarrier) (pair : PreparedRefPair) :
    Turns (Out external) (barrier.footprint + pair.footprint) (commitPreparedPair barrier pair)
      fun committed => committed.2.footprint
        + footprint? Charge.footprint committed.1.rememberedAccounted := by
  refine Turns.bind ((turns_barrierCommit barrier).onError
    (Turns.modify fun _ _ h => h.dropRefPair)) fun committed => ?_
  refine Turns.bind (((turns_pairCommit pair).onError
    (Turns.modify fun _ _ h => h.dropCharge?)).congr (add_comm _ _) fun _ => rfl) fun written =>
      Turns.return_of rfl

/-! ### The writes -/

/-- The heap is as it was, and exactly the given bytes and tokens are out. -/
def Untouched (external : Bool) (before : AccountedVm) (f : Footprint) (st : AccountedVm) : Prop :=
  st = { before with books := st.books } ∧ Out external f st.books

/-- A program of the books does not touch the heap. -/
theorem turns_liftBooks {α : Type} {before : AccountedVm} {c : Footprint} {m : BooksM α}
    {k : α → Footprint} (h : Turns (Out external) c m k) :
    Turns (Untouched external before) c (liftBooks m) k := by
  intro f st hst
  have hrun := h f st.books hst.2
  unfold Allocation.liftBooks
  rcases hm : m st.books with ⟨r, books⟩
  rw [hm] at hrun
  rw [Prog.focus_apply hm]
  have hsame : ({ st with books := books } : AccountedVm) = { before with books := books } := by
    rw [hst.1]
  cases r with
  | ok a => exact ⟨hsame, hrun⟩
  | error e => exact ⟨hsame, hrun⟩

section Writes

variable {before : AccountedVm} {f : Footprint}

/-- A rest of a write that leaves everything untouched when it fails. -/
def FailsClean (external : Bool) (before : AccountedVm) (f c : Footprint) {α : Type}
    (m : Prog AccountedVm VmError α) : Prop :=
  Triple (Untouched external before (f + c)) m (fun _ _ => True)
    fun _ => Untouched external before f

/-- A part that takes from the ledger, in front of the rest. -/
theorem FailsClean.bind {α β : Type} {c : Footprint} {m : BooksM α} {k : α → Footprint}
    {rest : α → Prog AccountedVm VmError β} (h : Turns (Out external) c m k)
    (hrest : ∀ a, FailsClean external before f (k a) (rest a)) :
    FailsClean external before f c (liftBooks m >>= rest) :=
  Triple.bind (turns_liftBooks h f) hrest

/-- A part that reads the heap, in front of the rest. -/
theorem FailsClean.read {α β : Type} {m : Prog AccountedVm VmError α}
    {rest : α → Prog AccountedVm VmError β}
    (h : Turns (Untouched external before) 0 m fun _ => 0)
    (hrest : ∀ a, FailsClean external before f 0 (rest a)) :
    FailsClean external before f 0 (m >>= rest) :=
  Triple.bind (h f) hrest

theorem FailsClean.fail {α : Type} (e : VmError) :
    FailsClean external before f 0 (Prog.fail e : Prog AccountedVm VmError α) :=
  (Turns.fail (k := fun _ => 0) e f).conseq (fun _ h => h) (fun _ _ _ => trivial) fun _ _ h => h

theorem FailsClean.ite {α : Type} {p : Prop} [Decidable p]
    {m₁ m₂ : Prog AccountedVm VmError α} (h₁ : FailsClean external before f 0 m₁)
    (h₂ : FailsClean external before f 0 m₂) :
    FailsClean external before f 0 (if p then m₁ else m₂) :=
  Triple.ite (fun _ => h₁) fun _ => h₂

/-- The publication does not fail. -/
theorem FailsClean.publish {c : Footprint} (g : AccountedVm → AccountedVm) :
    FailsClean external before f c (Prog.modify g) := fun _ _ => trivial

/-- A write reads the heap before it starts. -/
theorem FailsClean.start {α : Type} {write : AccountedVm → Prog AccountedVm VmError α}
    {st st' : AccountedVm} {e : VmError} (hout : Out external f st.books)
    (h : FailsClean external st f 0 (write st)) (hrun : (Prog.get >>= write) st = (.error e, st')) :
    Untouched external st f st' := by
  rw [Prog.bind_apply_ok (Prog.get_apply st)] at hrun
  refine Triple.error h ⟨rfl, ?_⟩ hrun
  rwa [add_zero]

variable [DefaultHasher] (s : Surroundings)

theorem failsClean_rawSet (table : ObjectRef) (key value : Value) {st st' : AccountedVm}
    {e : VmError} (hout : Out external f st.books)
    (hrun : rawSetWithNewKeySource s table key value st = (.error e, st')) :
    Untouched external st f st' := by
  refine FailsClean.start hout ?_ hrun
  refine .read (Turns.ofExcept fun _ _ => rfl) fun t => ?_
  refine .read (Turns.ofOption fun _ _ => rfl) fun id => ?_
  refine .ite (.fail _) (.ite (.fail _) (.ite (.fail _) ?_))
  refine .bind (turns_canonicalKey s _ key) fun canonical => ?_
  cases canonical with
  | none => exact .fail _
  | some canonical =>
    refine .bind (turns_prepareSet s t canonical value) fun write => ?_
    refine .bind (Turns.onError_zero (turns_prepareBarrier s _ table _ _)
      (Turns.modify fun _ _ h => h.dropWrite)) fun barrier => ?_
    refine .bind (turns_commitPrepared barrier write) fun committed => ?_
    exact Triple.bind (Q := fun _ _ => True) (FailsClean.publish _) fun _ _ _ => trivial

theorem failsClean_rawSetRefPair (table : ObjectRef) (first second : Int64 × Value)
    {st st' : AccountedVm} {e : VmError} (hout : Out external f st.books)
    (hrun : rawSetRefPair s table first second st = (.error e, st')) :
    Untouched external st f st' := by
  refine FailsClean.start hout ?_ hrun
  refine .read (Turns.ofExcept fun _ _ => rfl) fun t => ?_
  refine .read (Turns.ofOption fun _ _ => rfl) fun id => ?_
  refine .ite (.fail _) ?_
  refine .bind (turns_prepareRefPair s t first second) fun pair => ?_
  refine .bind (Turns.onError_zero (turns_prepareBarrier s _ table _ _)
    (Turns.modify fun _ _ h => h.dropRefPair)) fun barrier => ?_
  refine .bind (turns_commitPreparedPair barrier pair) fun committed => ?_
  exact FailsClean.publish _

/-- A state that a failed write has left as it was: every table of the heap with its array, hash,
    metatable, weak mode and version, the collector with the remembered set, the colours and the
    work list, the counters, and the bytes of the ledger. -/
structure Unchanged (st st' : AccountedVm) : Prop where
  vm : st'.vm = st.vm
  barrierCount : st'.barrierCount = st.barrierCount
  transitionCount : st'.transitionCount = st.transitionCount
  rememberedCharge : st'.rememberedCharge = st.rememberedCharge
  rememberedCharges : st'.rememberedCharges = st.rememberedCharges
  accounts : st'.accounts = st.accounts
  balances : st'.books.state.balances = st.books.state.balances

omit [DefaultHasher] in
theorem Untouched.unchanged {st st' : AccountedVm} (hout : Out external f st.books)
    (h : Untouched external st f st') : Unchanged st st' := by
  obtain ⟨hsame, hbooks⟩ := h
  have hbalances := hout.2.balances_eq hbooks.2
  constructor
  case balances => exact hbalances
  all_goals rw [hsame]

/-- **A raw write is atomic.**  Whatever is in the heap and around it, a write of one field or of two
    that fails leaves everything unchanged, if its ledger is one that a ledger can get into. -/
theorem rawSet_atomic {limit : Nat} {w : World} (hw : World.Reachable limit external w)
    {st : AccountedVm} (hbooks : st.books = w.books) (table : ObjectRef) :
    (∀ key value e st', rawSet s table key value st = (.error e, st') → Unchanged st st')
      ∧ ∀ first second e st', rawSetRefPair s table first second st = (.error e, st') →
        Unchanged st st' := by
  have hout : Out external (fun d => total (Reservation.bytesIn d) w.reservations,
      fun d => w.owned (Charge.bytesIn d) + total (Charge.bytesIn d) w.detached,
      fun x => total (Reservation.holds x) w.reservations + w.owned (Charge.holds x)
        + total (Charge.holds x) w.detached) st.books := hbooks ▸ hw.sound.books
  refine ⟨fun key value e st' hrun => ?_, fun first second e st' hrun => ?_⟩
  · rcases hwrite : rawSetWithNewKeySource s table key value st with ⟨_ | edge, st₁⟩
    · unfold rawSet at hrun
      rw [Prog.bind_apply_error hwrite] at hrun
      cases hrun
      exact (failsClean_rawSet s table key value hout hwrite).unchanged hout
    · unfold rawSet at hrun
      rw [Prog.bind_apply_ok hwrite] at hrun
      cases hrun
  · exact (failsClean_rawSetRefPair s table first second hout hrun).unchanged hout

end Writes

/-- Surroundings with room everywhere, for fixed inputs. -/
def Surroundings.sample : Surroundings where
  token := fun _ => none
  room := fun _ => true
  keyCapacity := 1
  stringKeySize := 1
  managedShared := fun _ => false

/-- A heap with one empty table, for fixed inputs. -/
def AccountedVm.sample (books : Books) : AccountedVm where
  vm := (publishObject (.table .sample) .sample).2
  barrierCount := 0
  transitionCount := 0
  rememberedCharge := 0
  rememberedCharges := []
  accounts := fun _ => ⟨.new, []⟩
  books := books

/-- A new ledger that fails once while a hash part grows, for fixed inputs. -/
def World.failing : World :=
  { World.new 1000 false with
    books := { (World.new 1000 false).books with
      state := { LedgerState.new 1000 with failOnce := some .tableRehash } } }

/-- The failure comes behind the reservation of the new hash part. -/
theorem rawSet_atomic_injected : ∃ st',
    @rawSet collidingHasher .sample (.heap ⟨⟨1⟩, 0, ⟨0⟩⟩ (some 0)) (.integer 5) (.boolean true)
        (.sample World.failing.books) = (.error (.injectedFailure .tableRehash), st')
      ∧ Unchanged (.sample World.failing.books) st' := by
  have hw : World.Reachable 1000 false World.failing :=
    @World.Reachable.step _ _ _ (.failOnceAt .tableRehash) (.ok (), .failing) .new rfl
  have hrun : ∃ st', @rawSet collidingHasher .sample (.heap ⟨⟨1⟩, 0, ⟨0⟩⟩ (some 0)) (.integer 5)
      (.boolean true) (.sample World.failing.books)
        = (.error (.injectedFailure .tableRehash), st') := ⟨_, rfl⟩
  obtain ⟨st', hrun⟩ := hrun
  exact ⟨st', hrun, (@rawSet_atomic _ collidingHasher .sample _ _ hw (.sample World.failing.books)
    rfl (.heap ⟨⟨1⟩, 0, ⟨0⟩⟩ (some 0))).1 (.integer 5) (.boolean true) _ _ hrun⟩

end RivetLua.Runtime.Allocation
