import RivetLua.Core.Value
import RivetLua.Lib.PagedBits

namespace RivetLua.Gc

open RivetLua.Core

/-!
# Collector — the state of a cycle

`GcState` is what the collector keeps between two steps: the phase, the colour and
occupancy bits of every slot (in pages of 64), the gray work stack with its announced
capacity, the root snapshot and the cursors.

* `GcState.color` — the colour of an occupied slot, `none` for the others;
* `setColor`, `clearColors`, `publishOccupied`, `retireOrFree`, `truncateSlotPages` — the
  only operations that touch the bits, each with a lemma saying what `color` and
  `occupiedBit` read afterwards;
* `nextOccupied`, `nextReusableFree` — the searches every loop of the collector uses.

Counters that nothing reads back (barriers, transitions, cleared pairs) are left out, and
the byte accounting that decides when a generational cycle is a major one is the answer
stream `majorDue`.
-/

/-- Phase of a cycle. -/
inductive GcPhase where
  | pause | rootMark | propagate | atomic | sweep
  deriving DecidableEq, Repr

/-- The three colours. -/
inductive GcColor where
  | white | gray | black
  deriving DecidableEq, Repr

/-- Age of an object in generational mode. -/
inductive GcAge where
  | young | survivor | old
  deriving DecidableEq, Repr

/-- Collection mode. -/
inductive GcMode where
  | incremental | generational
  deriving DecidableEq, Repr

/-- Kind of the running cycle. -/
inductive GcCycleKind where
  | full | minor | major
  deriving DecidableEq, Repr

/-- Registration state of an object's finalizer. -/
inductive FinalizerState where
  | unregistered | registered | pending | running | finalized
  deriving DecidableEq, Repr

/-- How far the atomic phase of this cycle got. -/
inductive AtomicFinalizerStage where
  | beforeWeakValues | beforeSeparation | afterSeparation
  deriving DecidableEq, Repr

/-- Summary of 64 slots. -/
structure GcSlotBits where
  occupied : BitVec 64
  reusableFree : BitVec 64
  gray : BitVec 64
  black : BitVec 64
  deriving DecidableEq, Repr

/-- A page without any slot. -/
def GcSlotBits.empty : GcSlotBits := ⟨0#64, 0#64, 0#64, 0#64⟩

/-- `size_of::<ObjectRef>()`. -/
def objectRefSize : Nat := 32

/-- The collector's state.  `work` is the gray stack, its head the next object to trace. -/
structure GcState where
  phase : GcPhase
  mode : GcMode
  cycle : GcCycleKind
  slotBits : List GcSlotBits
  occupiedCount : Nat
  workCapacity : Nat
  work : List ObjectRef
  roots : List ObjectRef
  rootCursor : Nat
  rememberedCursor : Nat
  sweepCursor : Nat
  promotionSurvivals : Nat
  remembered : List ObjectRef
  ephemeronCursor : Nat
  atomicFinalizerStage : AtomicFinalizerStage
  charge : Nat
  /-- Slots whose allocation enlarged the work capacity in this cycle. -/
  growthCharges : List Nat
  /-- Whether the `n`-th automatic generational cycle is a major one. -/
  majorDue : Nat → Bool
  cyclesBegun : Nat
  reclaimedObjects : Nat

namespace GcState

/-- The state of a new VM. -/
def new (majorDue : Nat → Bool) : GcState where
  phase := .pause
  mode := .generational
  cycle := .full
  slotBits := []
  occupiedCount := 0
  workCapacity := 0
  work := []
  roots := []
  rootCursor := 0
  rememberedCursor := 0
  sweepCursor := 0
  promotionSurvivals := 2
  remembered := []
  ephemeronCursor := 0
  atomicFinalizerStage := .beforeWeakValues
  charge := 0
  growthCharges := []
  majorDue := majorDue
  cyclesBegun := 0
  reclaimedObjects := 0

/-! ### Bits -/

/-- Colour of an occupied slot. -/
def color (gc : GcState) (index : Nat) : Option GcColor :=
  match gc.slotBits[index / 64]? with
  | none => none
  | some page =>
    let mask := PagedBits.mask index
    if page.occupied &&& mask = 0#64 then none
    else if page.gray &&& mask ≠ 0#64 then some .gray
    else if page.black &&& mask ≠ 0#64 then some .black
    else some .white

/-- Update the page of a slot. -/
def modifyPage (gc : GcState) (index : Nat) (f : GcSlotBits → GcSlotBits) : GcState :=
  { gc with slotBits := gc.slotBits.modify (index / 64) f }

/-- Recolour a slot. -/
def setColor (gc : GcState) (index : Nat) (c : GcColor) : GcState :=
  gc.modifyPage index fun page =>
    let mask := PagedBits.mask index
    let page := { page with gray := page.gray &&& ~~~ mask, black := page.black &&& ~~~ mask }
    match c with
    | .white => page
    | .gray => { page with gray := page.gray ||| mask }
    | .black => { page with black := page.black ||| mask }

/-- All slots become white. -/
def clearColors (gc : GcState) : GcState :=
  { gc with slotBits := gc.slotBits.map fun page => { page with gray := 0#64, black := 0#64 } }

/-- The page of a slot is added when it is the next one. -/
def withPage (gc : GcState) (index : Nat) : GcState :=
  if index / 64 = gc.slotBits.length then { gc with slotBits := gc.slotBits ++ [.empty] } else gc

/-- Room for one more gray object, charged to the slot that needed it. -/
def grow (gc : GcState) (index : Nat) : GcState :=
  { gc with
    growthCharges := gc.growthCharges ++ [index]
    charge := gc.charge + objectRefSize
    workCapacity := gc.workCapacity + 1 }

/-- A slot becomes occupied, white. -/
def publishOccupied (gc : GcState) (index : Nat) : GcState :=
  let gc := gc.modifyPage index fun page =>
    let mask := PagedBits.mask index
    { occupied := page.occupied ||| mask
      reusableFree := page.reusableFree &&& ~~~ mask
      gray := page.gray &&& ~~~ mask
      black := page.black &&& ~~~ mask }
  { gc with occupiedCount := gc.occupiedCount + 1 }

/-- An occupied slot becomes free or retired. -/
def retireOrFree (gc : GcState) (index : Nat) (reusable : Bool) : GcState :=
  let gc := gc.modifyPage index fun page =>
    let mask := PagedBits.mask index
    { occupied := page.occupied &&& ~~~ mask
      reusableFree :=
        if reusable then page.reusableFree ||| mask else page.reusableFree &&& ~~~ mask
      gray := page.gray &&& ~~~ mask
      black := page.black &&& ~~~ mask }
  { gc with occupiedCount := gc.occupiedCount - 1 }

/-- The first occupied slot of a range. -/
def nextOccupied (gc : GcState) (start stop : Nat) : Option Nat :=
  PagedBits.next (gc.slotBits.map GcSlotBits.occupied) start stop

/-- The indices a loop `while let Some(index) = next_occupied(cursor, end)` visits, from
    `cursor` on.  No loop of the collector changes which slots are occupied. -/
def occupiedFrom (gc : GcState) (stop : Nat) : Nat → Nat → List Nat
  | 0, _ => []
  | fuel + 1, cursor =>
    match gc.nextOccupied cursor stop with
    | none => []
    | some index => index :: gc.occupiedFrom stop fuel (index + 1)

/-- The occupied slots below `stop`, in order. -/
def occupiedSlots (gc : GcState) (stop : Nat) : List Nat := gc.occupiedFrom stop stop 0

/-- The first reusable slot of a range. -/
def nextReusableFree (gc : GcState) (start stop : Nat) : Option Nat :=
  PagedBits.next (gc.slotBits.map GcSlotBits.reusableFree) start stop

/-- Drop the pages behind `physicalSlots`, and the bits behind it in the last page. -/
def truncateSlotPages (gc : GcState) (physicalSlots : Nat) : GcState :=
  let wanted := physicalSlots / 64 + (if physicalSlots % 64 ≠ 0 then 1 else 0)
  let pages := gc.slotBits.take wanted
  if physicalSlots % 64 ≠ 0 then
    let valid := PagedBits.lowMask (physicalSlots % 64)
    { gc with
      slotBits := pages.modify (pages.length - 1) fun page =>
        { page with
          reusableFree := page.reusableFree &&& valid
          gray := page.gray &&& valid
          black := page.black &&& valid } }
  else { gc with slotBits := pages }

/-! ### Phases -/

/-- Enter a phase. -/
def transition (gc : GcState) (next : GcPhase) : GcState := { gc with phase := next }

/-- A white object becomes gray and is pushed on the work stack; during the sweep this reopens
    propagation. -/
def pushGray (gc : GcState) (index : Nat) (object : ObjectRef) : GcState :=
  let gc := gc.setColor index .gray
  let gc := { gc with work := object :: gc.work }
  if gc.phase = .sweep then gc.transition .propagate else gc

/-- Forget a finished cycle. -/
def clearCycle (gc : GcState) : GcState :=
  let gc := gc.clearColors
  { gc with
    work := []
    roots := []
    growthCharges := []
    charge := 0
    workCapacity := 0
    rootCursor := 0
    rememberedCursor := 0
    sweepCursor := 0
    ephemeronCursor := 0
    atomicFinalizerStage := .beforeWeakValues
    phase := .pause }

/-- Empty the remembered set. -/
def clearRemembered (gc : GcState) : GcState :=
  { gc with remembered := [], rememberedCursor := 0 }

end GcState

end RivetLua.Gc
