import RivetLua.Compiler.BuilderLaws

namespace RivetLua.Compiler

open RivetLua.Bytecode (Register Instruction InstructionOffset Demand)

/-!
# Compiler — stretches of emitted code

What lowering an expression does to the core of a builder.

* `Emits` — the new code writes only registers from a floor on, control passes through it, its
  windows are placed and its calls have windows;
* `Emits.trans`, `Emits.push`, … — how stretches are put together.
-/

/-- `c'` is `c` with a stretch of code that writes only registers from `floor` on and, if `quiet`
    holds, runs no function. -/
structure Emits (captured : Nat → Prop) (floor : Nat) (quiet : Prop) (c c' : Core) : Prop where
  code : c.code <+: c'.code
  above : StaysAbove c'.code floor c.pc c'.pc
  silent : quiet → QuietCode c'.code c.pc c'.pc
  next_le : c.next ≤ c'.next
  waiting : c'.waiting = c.waiting
  listWrites : c.listWrites ⊆ c'.listWrites
  windows : ∃ new, c'.windows = c.windows ++ new ∧ ∀ w ∈ new, w.Placed c'.code captured
    ∧ w.ready ≤ c'.pc ∧ ∀ pc, w.Covers pc → c.pc ≤ pc
  calls : ∀ pc, c.pc ≤ pc → pc < c'.pc → HasWindow c'.code c'.windows c'.listWrites pc

variable {captured : Nat → Prop} {floor : Nat} {quiet : Prop} {c c' c'' : Core}

theorem getElem?_append_kept {α : Type} {l l' : List α} (h : l <+: l') {pc : Nat}
    (hpc : pc < l.length) : l'[pc]? = l[pc]? := by
  obtain ⟨t, rfl⟩ := h
  exact List.getElem?_append_left hpc

theorem Emits.pc_le (h : Emits captured floor quiet c c') : c.pc ≤ c'.pc := h.code.length_le

theorem Emits.getElem? (h : Emits captured floor quiet c c') {pc : Nat} (hpc : pc < c.pc) :
    c'.code[pc]? = c.code[pc]? :=
  getElem?_append_kept h.code hpc

/-- A call that has its window keeps it when code and windows are added. -/
theorem HasWindow.mono {code code' : List Instruction} {windows windows' : List Window}
    {listWrites listWrites' : List Nat} {pc : Nat} (h : HasWindow code windows listWrites pc)
    (hcode : ∀ q ≤ pc, code'[q]? = code[q]?) (hwindows : windows ⊆ windows')
    (hwrites : listWrites ⊆ listWrites') : HasWindow code' windows' listWrites' pc := by
  intro instruction base argCount hpc hcallee
  rw [hcode pc le_rfl] at hpc
  rcases h instruction base argCount hpc hcallee with hmem | ⟨w, hw, hbase, hready, hclose, hcount⟩
  · exact .inl (hwrites hmem)
  · refine .inr ⟨w, hwindows hw, hbase, hready, fun q hq hlt => ?_,
      hcount.congr fun q producer r hlt hq _ => ?_⟩
    · rw [hcode q hlt.le]
      exact hclose q hq hlt
    · rw [hcode q (by omega)]
      exact hq

theorem StaysAbove.congr {code code' : List Instruction} {start stop : Nat}
    (h : StaysAbove code floor start stop)
    (hcode : ∀ pc, start ≤ pc → pc < stop → code'[pc]? = code[pc]?) :
    StaysAbove code' floor start stop := by
  intro pc instruction hstart hstop hpc
  rw [hcode pc hstart hstop] at hpc
  exact h pc instruction hstart hstop hpc

theorem StaysAbove.append {code : List Instruction} {start middle stop : Nat}
    (h₁ : StaysAbove code floor start middle) (h₂ : StaysAbove code floor middle stop)
    (hle : middle ≤ stop) : StaysAbove code floor start stop := by
  intro pc instruction hstart hstop hpc
  by_cases hpm : pc < middle
  · obtain ⟨hwrites, htargets⟩ := h₁ pc instruction hstart hpm hpc
    exact ⟨hwrites, fun target ht =>
      ⟨(htargets target ht).1, (htargets target ht).2.trans hle⟩⟩
  · exact h₂ pc instruction (not_lt.mp hpm) hstop hpc

theorem StaysAbove.mono {code : List Instruction} {floor' start stop : Nat}
    (h : StaysAbove code floor start stop) (hfloor : floor' ≤ floor) :
    StaysAbove code floor' start stop :=
  fun pc instruction hstart hstop hpc =>
    ⟨fun register hw => hfloor.trans ((h pc instruction hstart hstop hpc).1 register hw),
      (h pc instruction hstart hstop hpc).2⟩

theorem QuietCode.congr {code code' : List Instruction} {start stop : Nat}
    (h : QuietCode code start stop)
    (hcode : ∀ pc, start ≤ pc → pc < stop → code'[pc]? = code[pc]?) :
    QuietCode code' start stop := by
  intro pc instruction hstart hstop hpc
  rw [hcode pc hstart hstop] at hpc
  exact h pc instruction hstart hstop hpc

theorem QuietCode.append {code : List Instruction} {start middle stop : Nat}
    (h₁ : QuietCode code start middle) (h₂ : QuietCode code middle stop) :
    QuietCode code start stop := by
  intro pc instruction hstart hstop hpc
  by_cases hpm : pc < middle
  · exact h₁ pc instruction hstart hpm hpc
  · exact h₂ pc instruction (not_lt.mp hpm) hstop hpc

/-! ### Putting stretches together -/

theorem Emits.refl : Emits captured floor quiet c c where
  code := List.prefix_rfl
  above := fun pc instruction hstart hstop _ => absurd hstart hstop.not_ge
  silent := fun _ pc instruction hstart hstop _ => absurd hstart hstop.not_ge
  next_le := le_rfl
  waiting := rfl
  listWrites := List.Subset.refl _
  windows := ⟨[], by simp, by simp⟩
  calls := fun pc hstart hstop => absurd hstart hstop.not_ge

theorem Emits.trans (h₁ : Emits captured floor quiet c c') (h₂ : Emits captured floor quiet c' c'') :
    Emits captured floor quiet c c'' where
  code := h₁.code.trans h₂.code
  above := (h₁.above.congr fun pc _ hlt => h₂.getElem? hlt).append h₂.above h₂.pc_le
  silent := fun hq =>
    ((h₁.silent hq).congr fun pc _ hlt => h₂.getElem? hlt).append (h₂.silent hq)
  next_le := h₁.next_le.trans h₂.next_le
  waiting := h₂.waiting.trans h₁.waiting
  listWrites := List.Subset.trans h₁.listWrites h₂.listWrites
  windows := by
    obtain ⟨new₁, heq₁, hnew₁⟩ := h₁.windows
    obtain ⟨new₂, heq₂, hnew₂⟩ := h₂.windows
    refine ⟨new₁ ++ new₂, by rw [heq₂, heq₁, List.append_assoc], fun w hw => ?_⟩
    rcases List.mem_append.mp hw with hw | hw
    · obtain ⟨hplaced, hready, hcovers⟩ := hnew₁ w hw
      refine ⟨hplaced.congr fun pc hpc => ?_, hready.trans h₂.pc_le, hcovers⟩
      exact h₂.getElem? (hpc.1.trans_le hready)
    · obtain ⟨hplaced, hready, hcovers⟩ := hnew₂ w hw
      exact ⟨hplaced, hready, fun pc hpc => h₁.pc_le.trans (hcovers pc hpc)⟩
  calls := by
    intro pc hstart hstop
    by_cases hpm : pc < c'.pc
    · obtain ⟨new, hnew, -⟩ := h₂.windows
      refine (h₁.calls pc hstart hpm).mono (fun q hq => h₂.getElem? (by omega)) ?_ h₂.listWrites
      rw [hnew]
      exact List.subset_append_left ..
    · exact h₂.calls pc (not_lt.mp hpm) hstop

theorem Emits.mono {floor' : Nat} {quiet' : Prop} (h : Emits captured floor quiet c c')
    (hfloor : floor' ≤ floor) (hquiet : quiet' → quiet) : Emits captured floor' quiet' c c' :=
  { h with
    above := h.above.mono hfloor
    silent := fun hq => h.silent (hquiet hq) }

/-- Taking registers. -/
theorem Emits.take {n : Nat} (h : c.next ≤ n) : Emits captured floor quiet c { c with next := n } :=
  { Emits.refl (c := c) with next_le := h }

/-- One instruction that control passes. -/
theorem Emits.single {instruction : Instruction} {writes : List Nat}
    (htargets : ∀ pc, instruction.targets pc = [pc + 1])
    (hwrites : ∀ register, instruction.writes register → floor ≤ register)
    (hquiet : quiet → instruction.mayRun = false) (hlist : c.listWrites ⊆ writes)
    (hcall : ∀ base demand, instruction.demand = some (base, demand) →
      c.pc ∈ writes ∨ ∃ w ∈ c.windows, w.base = base ∧ w.ready = c.pc
        ∧ w.Feeds c.code demand) :
    Emits captured floor quiet c { c.push instruction with listWrites := writes } := by
  have hlast : ∀ pc i, c.pc ≤ pc → pc < (c.push instruction).pc →
      (c.push instruction).code[pc]? = some i → pc = c.pc ∧ i = instruction := by
    intro pc i hstart hstop hpc
    obtain rfl : pc = c.code.length := by
      rw [Core.push_pc] at hstop
      exact (Nat.le_of_lt_succ hstop).antisymm hstart
    rw [Core.push_code, List.getElem?_concat_length] at hpc
    cases hpc
    exact ⟨rfl, rfl⟩
  refine ⟨List.prefix_append .., ?_, ?_, le_rfl, rfl, hlist, ⟨[], by simp, by simp⟩, ?_⟩
  · intro pc i hstart hstop hpc
    obtain ⟨rfl, rfl⟩ := hlast pc i hstart hstop hpc
    refine ⟨hwrites, fun target htarget => ?_⟩
    rw [htargets, List.mem_singleton] at htarget
    rw [htarget]
    exact ⟨Nat.lt_succ_self _, (Core.push_pc c i).ge⟩
  · intro hq pc i hstart hstop hpc
    obtain ⟨rfl, rfl⟩ := hlast pc i hstart hstop hpc
    exact hquiet hq
  · intro pc hstart hstop i base argCount hpc hcallee
    obtain ⟨rfl, rfl⟩ := hlast pc i hstart hstop hpc
    rcases hcall base argCount hcallee with hmem | ⟨w, hw, hbase, hready, hcount⟩
    · exact .inl hmem
    · refine .inr ⟨w, hw, hbase, hready.le, fun q hq hlt => ?_,
        hcount.congr fun q producer r hlt hq _ => ?_⟩
      · exact absurd hlt (hready.symm.le.trans hq).not_gt
      · rw [← hq]
        exact getElem?_append_kept (List.prefix_append ..) (hlt.trans_eq hready)

/-- An instruction that control passes and that is no call. -/
def Passes (instruction : Instruction) : Prop :=
  instruction.demand = none ∧ ∀ pc, instruction.targets pc = [pc + 1]

/-- One instruction that is no call and no jump. -/
theorem Emits.push {instruction : Instruction} (hpasses : Passes instruction)
    (hwrites : ∀ register, instruction.writes register → floor ≤ register)
    (hquiet : quiet → instruction.mayRun = false) :
    Emits captured floor quiet c (c.push instruction) :=
  Emits.single hpasses.2 hwrites hquiet (List.Subset.refl _) fun base argCount hcallee => by
    rw [hpasses.1] at hcallee
    cases hcallee

/-- A window is ready for an instruction that takes its values from `base` on. -/
def Core.ReadyFor (c : Core) (base : Register) (demand : Demand) : Prop :=
  ∃ w ∈ c.windows, w.base = base ∧ w.ready = c.pc ∧ w.Feeds c.code demand

/-- A call whose window is ready. -/
theorem Emits.call {base : Register} {argCount : UInt16} {mode : RivetLua.Bytecode.ResultMode}
    (hready : c.ReadyFor base (.arguments argCount)) (hfloor : floor ≤ base.toNat) :
    Emits captured floor False c (c.push (.call base argCount mode)) := by
  refine Emits.single (fun _ => rfl) (fun register h => hfloor.trans h) False.elim
    (List.Subset.refl _) ?_
  rintro base' demand ⟨⟩
  exact .inr hready

/-- The window that has just been recorded. -/
def Core.record (c : Core) (w : Window) : Core := { c with windows := c.windows ++ [w] }

@[simp] theorem Core.record_code (c : Core) (w : Window) : (c.record w).code = c.code := rfl

@[simp] theorem Core.record_pc (c : Core) (w : Window) : (c.record w).pc = c.pc := rfl

@[simp] theorem Core.record_next (c : Core) (w : Window) : (c.record w).next = c.next := rfl

/-- A stretch at the end of which a window is recorded. -/
theorem Emits.record {w : Window} (h : Emits captured floor quiet c c') (hplaced : w.Placed c'.code captured)
    (hready : w.ready = c'.pc) (hcovers : ∀ pc, w.Covers pc → c.pc ≤ pc) :
    Emits captured floor quiet c (c'.record w) where
  code := h.code
  above := h.above
  silent := h.silent
  next_le := h.next_le
  waiting := h.waiting
  listWrites := h.listWrites
  windows := by
    obtain ⟨new, heq, hnew⟩ := h.windows
    refine ⟨new ++ [w], ?_, fun w' hw' => ?_⟩
    · show c'.windows ++ [w] = _
      rw [heq, List.append_assoc]
    · rcases List.mem_append.mp hw' with hw' | hw'
      · exact hnew w' hw'
      · rw [List.mem_singleton.mp hw']
        exact ⟨hplaced, hready.le, hcovers⟩
  calls := fun pc hstart hstop => (h.calls pc hstart hstop).mono (fun _ _ => rfl)
    (List.subset_append_left ..) (List.Subset.refl _)

/-! ### Patches -/

@[simp] theorem Core.patch_pc (c : Core) (index : Nat) (i : Instruction) :
    (c.patch index i).pc = c.pc := by
  simp [Core.patch, Core.pc]

@[simp] theorem Core.patch_next (c : Core) (index : Nat) (i : Instruction) :
    (c.patch index i).next = c.next := rfl

theorem Core.patch_getElem?_ne (c : Core) {index pc : Nat} (i : Instruction) (h : pc ≠ index) :
    (c.patch index i).code[pc]? = c.code[pc]? :=
  List.getElem?_set_ne h.symm

theorem Core.patch_getElem?_self (c : Core) {index : Nat} (i : Instruction) (h : index < c.pc) :
    (c.patch index i).code[index]? = some i :=
  List.getElem?_set_self h

/-- A patch of an instruction that is neither a call nor a close leaves the calls their windows. -/
theorem HasWindow.patch {index : Nat} {old new : Instruction} {pc : Nat}
    (h : HasWindow c.code c.windows c.listWrites pc) (hold : c.code[index]? = some old)
    (hclose : ∀ register count, old ≠ .close register count) (hopen : openBase old = none)
    (hcallee : new.demand = none) :
    HasWindow (c.patch index new).code c.windows c.listWrites pc := by
  have hindex : index < c.pc := (List.getElem?_eq_some_iff.mp hold).1
  intro instruction base argCount hpc hcalls
  by_cases hne : pc = index
  · subst hne
    rw [Core.patch_getElem?_self c new hindex] at hpc
    cases hpc
    rw [hcallee] at hcalls
    cases hcalls
  · rw [Core.patch_getElem?_ne c new hne] at hpc
    rcases h instruction base argCount hpc hcalls with hmem | ⟨w, hw, hbase, hready, hc, hcount⟩
    · exact .inl hmem
    · refine .inr ⟨w, hw, hbase, hready, fun q hq hlt => ?_,
        hcount.congr fun q producer r _ hq hproducer => ?_⟩
      · obtain ⟨register, count, hq⟩ := hc q hq hlt
        have hqi : q ≠ index := by
          rintro rfl
          exact hclose register count (Option.some.inj (hold.symm.trans hq))
        rw [Core.patch_getElem?_ne c new hqi]
        exact ⟨register, count, hq⟩
      · have hqi : q ≠ index := by
          rintro rfl
          cases hold.symm.trans hq
          cases hopen.symm.trans hproducer
        rw [Core.patch_getElem?_ne c new hqi]
        exact hq

/-- A jump over a stretch, patched when the stretch is complete. -/
theorem Emits.skip {condition : Register} {target : InstructionOffset}
    (h₁ : Emits captured floor quiet c c')
    (h₂ : Emits captured floor quiet (c'.push (.jumpIfFalse condition placeholder)) c'')
    (htarget : target.toNat = c''.pc) :
    Emits captured floor quiet c (c''.patch c'.pc (.jumpIfFalse condition target)) := by
  set jump : Instruction := .jumpIfFalse condition target
  have hold : c''.code[c'.pc]? = some (.jumpIfFalse condition placeholder) := by
    rw [h₂.getElem? (by simp)]
    exact List.getElem?_concat_length
  have hlt : c'.pc < c''.pc := by
    have := h₂.pc_le
    rw [Core.push_pc] at this
    exact this
  have hsame : ∀ {pc}, pc ≠ c'.pc → (c''.patch c'.pc jump).code[pc]? = c''.code[pc]? :=
    fun h => c''.patch_getElem?_ne jump h
  have hbefore : ∀ {pc}, pc < c'.pc → (c''.patch c'.pc jump).code[pc]? = c'.code[pc]? := by
    intro pc hpc
    rw [hsame hpc.ne, h₂.getElem? (by simp; omega)]
    exact getElem?_append_kept (List.prefix_append ..) hpc
  refine ⟨?_, ?_, ?_, ?_, ?_, ?_, ?_, ?_⟩
  · have hpre : c.code <+: c''.code := h₁.code.trans ((List.prefix_append ..).trans h₂.code)
    obtain ⟨t, ht⟩ := hpre
    refine ⟨t.set (c'.pc - c.pc) jump, ?_⟩
    show _ = c''.code.set c'.pc jump
    rw [← ht, List.set_append_right _ _ h₁.pc_le]
    rfl
  · intro pc instruction hstart hstop hpc
    rw [Core.patch_pc] at hstop ⊢
    rcases lt_trichotomy pc c'.pc with hpc' | rfl | hpc'
    · rw [hbefore hpc'] at hpc
      obtain ⟨hwrites, htargets⟩ := h₁.above pc instruction hstart hpc' hpc
      exact ⟨hwrites, fun target ht =>
        ⟨(htargets target ht).1, (htargets target ht).2.trans hlt.le⟩⟩
    · rw [Core.patch_getElem?_self c'' jump hlt] at hpc
      cases hpc
      refine ⟨fun _ h => h.elim, fun target' ht => ?_⟩
      rcases List.mem_cons.mp ht with rfl | ht
      · omega
      · rw [List.mem_singleton.mp ht]
        omega
    · rw [hsame hpc'.ne'] at hpc
      exact h₂.above pc instruction ((Core.push_pc ..).trans_le hpc') hstop hpc
  · intro hq pc instruction hstart hstop hpc
    rw [Core.patch_pc] at hstop
    rcases lt_trichotomy pc c'.pc with hpc' | rfl | hpc'
    · rw [hbefore hpc'] at hpc
      exact h₁.silent hq pc instruction hstart hpc' hpc
    · rw [Core.patch_getElem?_self c'' jump hlt] at hpc
      cases hpc
      rfl
    · rw [hsame hpc'.ne'] at hpc
      exact h₂.silent hq pc instruction ((Core.push_pc ..).trans_le hpc') hstop hpc
  · exact h₁.next_le.trans h₂.next_le
  · exact h₂.waiting.trans h₁.waiting
  · exact List.Subset.trans h₁.listWrites h₂.listWrites
  · obtain ⟨new₁, heq₁, hnew₁⟩ := h₁.windows
    obtain ⟨new₂, heq₂, hnew₂⟩ := h₂.windows
    refine ⟨new₁ ++ new₂, ?_, fun w hw => ?_⟩
    · show c''.windows = _
      rw [heq₂, Core.push_windows, heq₁, List.append_assoc]
    · rw [Core.patch_pc]
      rcases List.mem_append.mp hw with hw | hw
      · obtain ⟨hplaced, hready, hcovers⟩ := hnew₁ w hw
        exact ⟨hplaced.congr fun pc hpc => hbefore (hpc.1.trans_le hready),
          hready.trans hlt.le, hcovers⟩
      · obtain ⟨hplaced, hready, hcovers⟩ := hnew₂ w hw
        have hcovers' : ∀ pc, w.Covers pc → c'.pc < pc := fun pc hpc =>
          (Core.push_pc ..).symm.trans_le (hcovers pc hpc)
        exact ⟨hplaced.congr fun pc hpc => hsame (hcovers' pc hpc).ne', hready,
          fun pc hpc => h₁.pc_le.trans (hcovers' pc hpc).le⟩
  · intro pc hstart hstop
    rw [Core.patch_pc] at hstop
    refine HasWindow.patch ?_ hold (by simp) rfl rfl
    rcases lt_trichotomy pc c'.pc with hpc' | rfl | hpc'
    · obtain ⟨new, hnew, -⟩ := h₂.windows
      refine (h₁.calls pc hstart hpc').mono (fun q hq => ?_) ?_ h₂.listWrites
      · rw [← hbefore (by omega), hsame (by omega)]
      · rw [hnew]
        exact List.subset_append_left ..
    · intro instruction base argCount hpc hcallee
      rw [hold] at hpc
      cases hpc
      cases hcallee
    · exact h₂.calls pc ((Core.push_pc ..).trans_le hpc') hstop

end RivetLua.Compiler
