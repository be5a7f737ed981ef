import RivetLua.Gc.State

namespace RivetLua.Gc

open RivetLua.Core

namespace GcState

/-!
# Collector — what the slot bits say after each update

The pages of `slotBits` are read through four functions of a slot index, one for each bit, and
`color`.  Every update of the pages has a lemma here that says what these functions read
afterwards; nothing later looks at a page.

* `occupiedBit`, `freeBit`, `color` — the three readings;
* `color_setColor`, `color_publishOccupied`, `color_retireOrFree`, … — the updates;
* `mem_occupiedSlots` — what the loops over the occupied slots visit.
-/

/-! ### Readings -/

/-- One bit of a slot. -/
def bitAt (gc : GcState) (f : GcSlotBits → BitVec 64) (index : Nat) : Bool :=
  match gc.slotBits[index / 64]? with
  | some page => (f page).getLsbD (index % 64)
  | none => false

def occupiedBit (gc : GcState) (index : Nat) : Bool := gc.bitAt GcSlotBits.occupied index

def freeBit (gc : GcState) (index : Nat) : Bool := gc.bitAt GcSlotBits.reusableFree index

def grayBit (gc : GcState) (index : Nat) : Bool := gc.bitAt GcSlotBits.gray index

def blackBit (gc : GcState) (index : Nat) : Bool := gc.bitAt GcSlotBits.black index

/-- Bits depend on the pages only. -/
theorem bitAt_congr {gc gc' : GcState} (h : gc'.slotBits = gc.slotBits)
    (f : GcSlotBits → BitVec 64) (index : Nat) : gc'.bitAt f index = gc.bitAt f index := by
  simp only [bitAt, h]

/-- So do colours. -/
theorem color_congr {gc gc' : GcState} (h : gc'.slotBits = gc.slotBits) (index : Nat) :
    gc'.color index = gc.color index := by
  simp only [color, h]

theorem bit_map (gc : GcState) (f : GcSlotBits → BitVec 64) (index : Nat) :
    PagedBits.bit (gc.slotBits.map f) index = gc.bitAt f index := by
  unfold PagedBits.bit bitAt
  rw [List.getElem?_map]
  cases gc.slotBits[index / 64]? <;> rfl

/-- The colour by the three bits. -/
theorem color_eq (gc : GcState) (index : Nat) :
    gc.color index =
      if gc.occupiedBit index then
        if gc.grayBit index then some .gray
        else if gc.blackBit index then some .black
        else some .white
      else none := by
  unfold color occupiedBit grayBit blackBit bitAt
  cases gc.slotBits[index / 64]? with
  | none => rfl
  | some page =>
    have h := fun w : BitVec 64 => PagedBits.and_mask_ne_zero_iff w index
    by_cases ho : page.occupied &&& PagedBits.mask index = 0#64
    · have : page.occupied.getLsbD (index % 64) = false := by
        simpa [ho] using (h page.occupied).not
      simp [ho, this]
    · have hocc := (h page.occupied).mp ho
      simp only [ho, if_false, hocc, if_true]
      by_cases hg : page.gray &&& PagedBits.mask index = 0#64
      · have : page.gray.getLsbD (index % 64) = false := by
          simpa [hg] using (h page.gray).not
        simp only [hg, ne_eq, not_true_eq_false, if_false, this, Bool.false_eq_true]
        by_cases hb : page.black &&& PagedBits.mask index = 0#64
        · have : page.black.getLsbD (index % 64) = false := by
            simpa [hb] using (h page.black).not
          simp [hb, this]
        · simp [hb, (h page.black).mp hb]
      · simp [hg, (h page.gray).mp hg]

theorem color_eq_none {gc : GcState} {index : Nat} :
    gc.color index = none ↔ gc.occupiedBit index = false := by
  rw [color_eq]
  by_cases ho : gc.occupiedBit index
  · simp only [ho, if_true]
    by_cases hg : gc.grayBit index
    · simp [hg]
    · by_cases hb : gc.blackBit index <;> simp [hg, hb]
  · simp [ho]

/-! ### Page updates -/

theorem bitAt_modifyPage (gc : GcState) (f : GcSlotBits → BitVec 64) (g : GcSlotBits → GcSlotBits)
    (index j : Nat) :
    (gc.modifyPage index g).bitAt f j =
      if j / 64 = index / 64 then
        match gc.slotBits[j / 64]? with
        | some page => (f (g page)).getLsbD (j % 64)
        | none => false
      else gc.bitAt f j := by
  unfold bitAt modifyPage
  simp only [List.getElem?_modify]
  by_cases h : j / 64 = index / 64
  · rw [if_pos h]
    simp only [h.symm, if_true]
    cases gc.slotBits[j / 64]? <;> rfl
  · rw [if_neg h]
    simp only [Ne.symm h, if_false]
    cases gc.slotBits[j / 64]? <;> rfl

/-- An update that leaves a bit alone. -/
theorem bitAt_modifyPage_same (gc : GcState) {f : GcSlotBits → BitVec 64}
    {g : GcSlotBits → GcSlotBits} (index : Nat) (h : ∀ page, f (g page) = f page) (j : Nat) :
    (gc.modifyPage index g).bitAt f j = gc.bitAt f j := by
  rw [bitAt_modifyPage]
  by_cases hj : j / 64 = index / 64
  · rw [if_pos hj]
    unfold bitAt
    cases gc.slotBits[j / 64]? with
    | none => rfl
    | some page => simp only [h]
  · rw [if_neg hj]

theorem mod_eq_iff {index j : Nat} (h : j / 64 = index / 64) : j % 64 = index % 64 ↔ j = index := by
  have h1 := Nat.div_add_mod j 64
  have h2 := Nat.div_add_mod index 64
  constructor
  · intro hm
    omega
  · rintro rfl
    rfl

/-- An update that sets a bit. -/
theorem bitAt_modifyPage_or (gc : GcState) {f : GcSlotBits → BitVec 64}
    {g : GcSlotBits → GcSlotBits} {index : Nat} (hpage : index / 64 < gc.slotBits.length)
    (h : ∀ page, f (g page) = f page ||| PagedBits.mask index) (j : Nat) :
    (gc.modifyPage index g).bitAt f j = (gc.bitAt f j || decide (j = index)) := by
  rw [bitAt_modifyPage]
  by_cases hj : j / 64 = index / 64
  · rw [if_pos hj]
    unfold bitAt
    rw [List.getElem?_eq_getElem (by omega)]
    simp only [h]
    rw [PagedBits.getLsbD_or_mask _ _ _ (Nat.mod_lt _ (by decide))]
    simp only [mod_eq_iff hj]
  · have hne : j ≠ index := by
      rintro rfl
      exact hj rfl
    rw [if_neg hj]
    simp [hne]

/-- An update that clears a bit. -/
theorem bitAt_modifyPage_and (gc : GcState) {f : GcSlotBits → BitVec 64}
    {g : GcSlotBits → GcSlotBits} {index : Nat}
    (h : ∀ page, f (g page) = f page &&& ~~~ PagedBits.mask index) (j : Nat) :
    (gc.modifyPage index g).bitAt f j = (gc.bitAt f j && !decide (j = index)) := by
  rw [bitAt_modifyPage]
  by_cases hj : j / 64 = index / 64
  · rw [if_pos hj]
    unfold bitAt
    cases gc.slotBits[j / 64]? with
    | none => rfl
    | some page =>
      simp only [h]
      rw [PagedBits.getLsbD_and_not_mask _ _ _ (Nat.mod_lt _ (by decide))]
      simp only [mod_eq_iff hj]
  · have hne : j ≠ index := by
      rintro rfl
      exact hj rfl
    rw [if_neg hj]
    simp [hne]

/-- A bit that is set has a page. -/
theorem page_of_bitAt {gc : GcState} {f : GcSlotBits → BitVec 64} {index : Nat}
    (h : gc.bitAt f index = true) : index / 64 < gc.slotBits.length := by
  unfold bitAt at h
  by_contra hlen
  rw [List.getElem?_eq_none (by omega)] at h
  exact absurd h (by simp)

/-! ### Recolouring -/

section SetColor

variable (gc : GcState) (index : Nat) (c : GcColor)

@[simp] theorem occupiedBit_setColor (j : Nat) :
    (gc.setColor index c).occupiedBit j = gc.occupiedBit j :=
  bitAt_modifyPage_same gc index (fun _ => by cases c <;> rfl) j

@[simp] theorem freeBit_setColor (j : Nat) : (gc.setColor index c).freeBit j = gc.freeBit j :=
  bitAt_modifyPage_same gc index (fun _ => by cases c <;> rfl) j

theorem grayBit_setColor (hpage : index / 64 < gc.slotBits.length) (j : Nat) :
    (gc.setColor index c).grayBit j = if j = index then decide (c = .gray) else gc.grayBit j := by
  by_cases hj : j / 64 = index / 64
  · unfold grayBit setColor
    rw [bitAt_modifyPage, if_pos hj, List.getElem?_eq_getElem (by omega)]
    have hget : gc.bitAt GcSlotBits.gray j = (gc.slotBits[j / 64].gray).getLsbD (j % 64) := by
      unfold bitAt
      rw [List.getElem?_eq_getElem (by omega)]
    have hlt : j % 64 < 64 := Nat.mod_lt _ (by decide)
    cases c <;>
      simp only [PagedBits.getLsbD_or_mask _ _ _ hlt, PagedBits.getLsbD_and_not_mask _ _ _ hlt,
        mod_eq_iff hj, hget] <;>
      by_cases he : j = index <;> simp [he]
  · have hne : j ≠ index := by
      rintro rfl
      exact hj rfl
    unfold grayBit setColor
    rw [bitAt_modifyPage, if_neg hj, if_neg hne]

theorem blackBit_setColor (hpage : index / 64 < gc.slotBits.length) (j : Nat) :
    (gc.setColor index c).blackBit j = if j = index then decide (c = .black) else gc.blackBit j := by
  by_cases hj : j / 64 = index / 64
  · unfold blackBit setColor
    rw [bitAt_modifyPage, if_pos hj, List.getElem?_eq_getElem (by omega)]
    have hget : gc.bitAt GcSlotBits.black j = (gc.slotBits[j / 64].black).getLsbD (j % 64) := by
      unfold bitAt
      rw [List.getElem?_eq_getElem (by omega)]
    have hlt : j % 64 < 64 := Nat.mod_lt _ (by decide)
    cases c <;>
      simp only [PagedBits.getLsbD_or_mask _ _ _ hlt, PagedBits.getLsbD_and_not_mask _ _ _ hlt,
        mod_eq_iff hj, hget] <;>
      by_cases he : j = index <;> simp [he]
  · have hne : j ≠ index := by
      rintro rfl
      exact hj rfl
    unfold blackBit setColor
    rw [bitAt_modifyPage, if_neg hj, if_neg hne]

/-- A slot that is occupied gets the colour, the others keep theirs. -/
theorem color_setColor (h : gc.occupiedBit index = true) (j : Nat) :
    (gc.setColor index c).color j = if j = index then some c else gc.color j := by
  have hpage := page_of_bitAt h
  rw [color_eq, occupiedBit_setColor, grayBit_setColor gc index c hpage,
    blackBit_setColor gc index c hpage]
  by_cases hj : j = index
  · subst hj
    simp only [h, if_true]
    cases c <;> rfl
  · simp only [if_neg hj]
    exact (color_eq gc j).symm

end SetColor

/-- A push changes the colour, the work list and perhaps the phase. -/
theorem pushGray_eq (gc : GcState) (index : Nat) (object : ObjectRef) :
    ∃ phase, gc.pushGray index object
        = { gc.setColor index .gray with work := object :: gc.work, phase := phase } ∧
      (phase = gc.phase ∨ (gc.phase = .sweep ∧ phase = .propagate)) := by
  unfold pushGray
  simp only
  by_cases hs : gc.phase = .sweep
  · exact ⟨.propagate, by rw [if_pos (by exact hs)]; rfl, .inr ⟨hs, rfl⟩⟩
  · exact ⟨gc.phase, by rw [if_neg (by exact hs)]; rfl, .inl rfl⟩

theorem color_pushGray {gc : GcState} {index : Nat} (object : ObjectRef)
    (h : gc.occupiedBit index = true) (j : Nat) :
    (gc.pushGray index object).color j = if j = index then some .gray else gc.color j := by
  obtain ⟨phase, heq, -⟩ := pushGray_eq gc index object
  rw [heq]
  exact color_setColor gc index .gray h j

theorem bitAt_clearColors (gc : GcState) {f : GcSlotBits → BitVec 64}
    (h : ∀ page : GcSlotBits, f { page with gray := 0#64, black := 0#64 } = f page) (j : Nat) :
    gc.clearColors.bitAt f j = gc.bitAt f j := by
  unfold bitAt clearColors
  simp only [List.getElem?_map]
  cases gc.slotBits[j / 64]? with
  | none => rfl
  | some page => simp [h]

@[simp] theorem occupiedBit_clearColors (gc : GcState) (j : Nat) :
    gc.clearColors.occupiedBit j = gc.occupiedBit j :=
  bitAt_clearColors gc (fun _ => rfl) j

@[simp] theorem freeBit_clearColors (gc : GcState) (j : Nat) :
    gc.clearColors.freeBit j = gc.freeBit j :=
  bitAt_clearColors gc (fun _ => rfl) j

/-- Every occupied slot is white. -/
theorem color_clearColors (gc : GcState) (j : Nat) :
    gc.clearColors.color j = if gc.occupiedBit j then some .white else none := by
  have hzero : ∀ f : GcSlotBits → BitVec 64,
      (∀ page : GcSlotBits, f { page with gray := 0#64, black := 0#64 } = 0#64) →
      gc.clearColors.bitAt f j = false := by
    intro f hf
    unfold bitAt clearColors
    simp only [List.getElem?_map]
    cases gc.slotBits[j / 64]? with
    | none => rfl
    | some page => simp [hf]
  rw [color_eq, occupiedBit_clearColors, grayBit, hzero _ fun _ => rfl, blackBit,
    hzero _ fun _ => rfl]
  simp

/-! ### Publishing and freeing -/

section Publish

variable {gc : GcState} {index : Nat}

theorem occupiedBit_publishOccupied (hpage : index / 64 < gc.slotBits.length) (j : Nat) :
    (gc.publishOccupied index).occupiedBit j = (gc.occupiedBit j || decide (j = index)) :=
  bitAt_modifyPage_or gc hpage (fun _ => rfl) j

theorem freeBit_publishOccupied (j : Nat) :
    (gc.publishOccupied index).freeBit j = (gc.freeBit j && !decide (j = index)) :=
  bitAt_modifyPage_and gc (fun _ => rfl) j

/-- A published slot is white. -/
theorem color_publishOccupied (hpage : index / 64 < gc.slotBits.length) (j : Nat) :
    (gc.publishOccupied index).color j = if j = index then some .white else gc.color j := by
  have hgray : (gc.publishOccupied index).grayBit j = (gc.grayBit j && !decide (j = index)) :=
    bitAt_modifyPage_and gc (fun _ => rfl) j
  have hblack : (gc.publishOccupied index).blackBit j = (gc.blackBit j && !decide (j = index)) :=
    bitAt_modifyPage_and gc (fun _ => rfl) j
  rw [color_eq, occupiedBit_publishOccupied hpage, hgray, hblack]
  by_cases hj : j = index
  · simp [hj]
  · simp only [hj, decide_false, Bool.or_false, Bool.not_false, Bool.and_true, if_false]
    exact (color_eq gc j).symm

end Publish

section Retire

variable {gc : GcState} {index : Nat} {reusable : Bool}

theorem occupiedBit_retireOrFree (j : Nat) :
    (gc.retireOrFree index reusable).occupiedBit j = (gc.occupiedBit j && !decide (j = index)) :=
  bitAt_modifyPage_and gc (fun _ => rfl) j

theorem freeBit_retireOrFree (hpage : index / 64 < gc.slotBits.length) (j : Nat) :
    (gc.retireOrFree index reusable).freeBit j =
      if j = index then reusable else gc.freeBit j := by
  cases reusable with
  | true =>
    have : (gc.retireOrFree index true).freeBit j = (gc.freeBit j || decide (j = index)) :=
      bitAt_modifyPage_or gc hpage (fun _ => rfl) j
    rw [this]
    by_cases hj : j = index <;> simp [hj]
  | false =>
    have : (gc.retireOrFree index false).freeBit j = (gc.freeBit j && !decide (j = index)) :=
      bitAt_modifyPage_and gc (fun _ => rfl) j
    rw [this]
    by_cases hj : j = index <;> simp [hj]

/-- A freed slot has no colour. -/
theorem color_retireOrFree (j : Nat) :
    (gc.retireOrFree index reusable).color j = if j = index then none else gc.color j := by
  have hgray : (gc.retireOrFree index reusable).grayBit j
      = (gc.grayBit j && !decide (j = index)) := bitAt_modifyPage_and gc (fun _ => rfl) j
  have hblack : (gc.retireOrFree index reusable).blackBit j
      = (gc.blackBit j && !decide (j = index)) := bitAt_modifyPage_and gc (fun _ => rfl) j
  rw [color_eq, occupiedBit_retireOrFree, hgray, hblack]
  by_cases hj : j = index
  · simp [hj]
  · simp only [hj, decide_false, Bool.not_false, Bool.and_true, if_false]
    exact (color_eq gc j).symm

end Retire

/-! ### Pages added and dropped -/

/-- A new page has no bit set. -/
theorem bitAt_append (gc : GcState) {f : GcSlotBits → BitVec 64} (hf : f .empty = 0#64) (j : Nat) :
    bitAt { gc with slotBits := gc.slotBits ++ [.empty] } f j = gc.bitAt f j := by
  unfold bitAt
  simp only
  by_cases h : j / 64 < gc.slotBits.length
  · rw [List.getElem?_append_left h]
  · rw [List.getElem?_append_right (by omega), List.getElem?_eq_none (l := gc.slotBits) (by omega)]
    by_cases h0 : j / 64 - gc.slotBits.length = 0
    · simp [h0, hf]
    · rw [List.getElem?_eq_none (by simp; omega)]

theorem bitAt_withPage (gc : GcState) (index : Nat) {f : GcSlotBits → BitVec 64}
    (hf : f .empty = 0#64) (j : Nat) : (gc.withPage index).bitAt f j = gc.bitAt f j := by
  unfold withPage
  by_cases hp : index / 64 = gc.slotBits.length
  · rw [if_pos hp]
    exact bitAt_append gc hf j
  · rw [if_neg hp]

/-- A new page changes no colour. -/
theorem color_withPage (gc : GcState) (index j : Nat) : (gc.withPage index).color j = gc.color j := by
  have hocc : (gc.withPage index).occupiedBit j = gc.occupiedBit j := bitAt_withPage gc index rfl j
  have hgray : (gc.withPage index).grayBit j = gc.grayBit j := bitAt_withPage gc index rfl j
  have hblack : (gc.withPage index).blackBit j = gc.blackBit j := bitAt_withPage gc index rfl j
  rw [color_eq, color_eq, hocc, hgray, hblack]

/-- Pages behind `n` slots are dropped; the bits of the last page are cut off, those of
    `occupied` excepted. -/
theorem bitAt_truncate (gc : GcState) {n : Nat} {f : GcSlotBits → BitVec 64} (cut : Bool)
    (hf : ∀ (page : GcSlotBits) (valid : BitVec 64),
      f { page with
        reusableFree := page.reusableFree &&& valid
        gray := page.gray &&& valid
        black := page.black &&& valid } = if cut then f page &&& valid else f page)
    (hpages : gc.slotBits.length = (n + 64) / 64)
    (hcut : cut ∨ ∀ j, n ≤ j → gc.bitAt f j = false) (j : Nat) :
    (gc.truncateSlotPages n).bitAt f j = (gc.bitAt f j && decide (j < n)) := by
  have hn := Nat.div_add_mod n 64
  have hj := Nat.div_add_mod j 64
  have hjlt : j % 64 < 64 := Nat.mod_lt _ (by decide)
  have hnlt : n % 64 < 64 := Nat.mod_lt _ (by decide)
  unfold truncateSlotPages
  by_cases h0 : n % 64 = 0
  · simp only [h0, ne_eq, not_true_eq_false, if_false, Nat.add_zero]
    unfold bitAt
    simp only [List.getElem?_take]
    by_cases hlt : j < n
    · rw [if_pos (by omega)]
      cases gc.slotBits[j / 64]? <;> simp [hlt]
    · rw [if_neg (by omega)]
      simp [hlt]
  · simp only [h0, ne_eq, not_false_eq_true, if_true]
    have htake : gc.slotBits.take (n / 64 + 1) = gc.slotBits := List.take_of_length_le (by omega)
    rw [htake]
    by_cases hout : gc.slotBits.length ≤ j / 64
    · unfold bitAt
      simp only [List.getElem?_modify]
      rw [List.getElem?_eq_none hout]
      rfl
    · have hget : gc.bitAt f j = (f gc.slotBits[j / 64]).getLsbD (j % 64) := by
        unfold bitAt
        rw [List.getElem?_eq_getElem (by omega)]
      by_cases hlast : gc.slotBits.length - 1 = j / 64
      · have hiff : (j % 64 < n % 64) ↔ j < n := by omega
        unfold bitAt
        simp only [List.getElem?_modify, hlast, if_true]
        rw [List.getElem?_eq_getElem (by omega)]
        simp only [Option.map_eq_map, Option.map_some, hf]
        cases cut with
        | true =>
          simp only [if_true, BitVec.getLsbD_and, PagedBits.getLsbD_lowMask _ _ hnlt, hiff]
        | false =>
          simp only [Bool.false_eq_true, if_false]
          rw [← hget]
          by_cases hlt : j < n
          · simp [hlt]
          · have : gc.bitAt f j = false := hcut.resolve_left (by simp) j (Nat.le_of_not_lt hlt)
            simp [this]
      · have hlt : j < n := by omega
        unfold bitAt
        simp only [List.getElem?_modify, hlast, if_false, hlt, decide_true, Bool.and_true]
        cases gc.slotBits[j / 64]? <;> rfl

theorem length_truncate (gc : GcState) {n : Nat} (hpages : gc.slotBits.length = (n + 64) / 64) :
    (gc.truncateSlotPages n).slotBits.length = (n + 63) / 64 := by
  unfold truncateSlotPages
  by_cases h0 : n % 64 = 0
  · simp only [h0, ne_eq, not_true_eq_false, if_false, List.length_take]
    omega
  · simp only [h0, ne_eq, not_false_eq_true, if_true, List.length_modify, List.length_take]
    omega

/-- Dropping pages changes no colour when nothing behind `n` is occupied. -/
theorem color_truncate (gc : GcState) {n : Nat} (hpages : gc.slotBits.length = (n + 64) / 64)
    (hocc : ∀ j, n ≤ j → gc.occupiedBit j = false) (j : Nat) :
    (gc.truncateSlotPages n).color j = gc.color j := by
  have h1 : (gc.truncateSlotPages n).occupiedBit j = (gc.occupiedBit j && decide (j < n)) :=
    bitAt_truncate gc false (fun _ _ => rfl) hpages (.inr hocc) j
  have h2 : (gc.truncateSlotPages n).grayBit j = (gc.grayBit j && decide (j < n)) :=
    bitAt_truncate gc true (fun _ _ => rfl) hpages (.inl rfl) j
  have h3 : (gc.truncateSlotPages n).blackBit j = (gc.blackBit j && decide (j < n)) :=
    bitAt_truncate gc true (fun _ _ => rfl) hpages (.inl rfl) j
  rw [color_eq, color_eq, h1, h2, h3]
  by_cases hj : j < n
  · simp [hj]
  · simp [hj, hocc j (Nat.le_of_not_lt hj)]

/-! ### Searching -/

theorem nextOccupied_eq_some {gc : GcState} {start stop i : Nat}
    (h : gc.nextOccupied start stop = some i) :
    start ≤ i ∧ i < stop ∧ gc.occupiedBit i = true ∧
      ∀ j, start ≤ j → j < i → gc.occupiedBit j = false := by
  have hnext := PagedBits.next_eq_some h
  simp only [bit_map] at hnext
  exact hnext

theorem nextOccupied_eq_none {gc : GcState} {start stop : Nat}
    (h : gc.nextOccupied start stop = none) :
    ∀ j, start ≤ j → j < stop → gc.occupiedBit j = false := by
  have hnext := PagedBits.next_eq_none h
  simp only [bit_map] at hnext
  exact hnext

theorem nextReusableFree_eq_some {gc : GcState} {start stop i : Nat}
    (h : gc.nextReusableFree start stop = some i) : i < stop ∧ gc.freeBit i = true := by
  have := PagedBits.next_eq_some h
  simp only [bit_map] at this
  exact ⟨this.2.1, this.2.2.1⟩

theorem mem_occupiedFrom {gc : GcState} {stop : Nat} :
    ∀ {fuel cursor : Nat}, stop ≤ cursor + fuel → ∀ {i : Nat},
      i ∈ gc.occupiedFrom stop fuel cursor ↔ cursor ≤ i ∧ i < stop ∧ gc.occupiedBit i = true
  | 0, cursor, hfuel, i => by
    simp only [occupiedFrom, List.not_mem_nil, false_iff]
    omega
  | fuel + 1, cursor, hfuel, i => by
    unfold occupiedFrom
    cases hn : gc.nextOccupied cursor stop with
    | none =>
      have hnone := nextOccupied_eq_none hn
      simp only [List.not_mem_nil, false_iff]
      rintro ⟨hle, hlt, hbit⟩
      rw [hnone i hle hlt] at hbit
      exact absurd hbit (by simp)
    | some k =>
      obtain ⟨hk, hks, hkb, hmin⟩ := nextOccupied_eq_some hn
      have ih := @mem_occupiedFrom gc stop fuel (k + 1) (by omega) i
      rw [List.mem_cons, ih]
      constructor
      · rintro (rfl | ⟨h1, h2, h3⟩)
        · exact ⟨hk, hks, hkb⟩
        · exact ⟨by omega, h2, h3⟩
      · rintro ⟨h1, h2, h3⟩
        rcases Nat.lt_trichotomy i k with h | h | h
        · rw [hmin i h1 h] at h3
          exact absurd h3 (by simp)
        · exact .inl h
        · exact .inr ⟨h, h2, h3⟩

/-- The loops over the occupied slots visit exactly these. -/
theorem mem_occupiedSlots {gc : GcState} {stop i : Nat} :
    i ∈ gc.occupiedSlots stop ↔ i < stop ∧ gc.occupiedBit i = true := by
  unfold occupiedSlots
  rw [mem_occupiedFrom (by omega)]
  simp

theorem pairwise_occupiedFrom (gc : GcState) (stop : Nat) :
    ∀ fuel cursor, (gc.occupiedFrom stop fuel cursor).Pairwise (· < ·) ∧
      ∀ i ∈ gc.occupiedFrom stop fuel cursor, cursor ≤ i
  | 0, _ => ⟨.nil, by simp [occupiedFrom]⟩
  | fuel + 1, cursor => by
    unfold occupiedFrom
    cases hn : gc.nextOccupied cursor stop with
    | none => exact ⟨.nil, by simp⟩
    | some k =>
      obtain ⟨hk, -⟩ := nextOccupied_eq_some hn
      obtain ⟨hpair, hge⟩ := pairwise_occupiedFrom gc stop fuel (k + 1)
      refine ⟨List.pairwise_cons.mpr ⟨fun i hi => hge i hi, hpair⟩, ?_⟩
      intro i hi
      rcases List.mem_cons.mp hi with rfl | hi
      · exact hk
      · exact le_trans (by omega) (hge i hi)

/-- Every slot is visited once. -/
theorem nodup_occupiedSlots (gc : GcState) (stop : Nat) : (gc.occupiedSlots stop).Nodup :=
  (pairwise_occupiedFrom gc stop stop 0).1.imp fun h => Nat.ne_of_lt h

end GcState

end RivetLua.Gc
