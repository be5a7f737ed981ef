import RivetLua.Compiler.Emits

namespace RivetLua.Compiler

open StateExcept
open RivetLua.Bytecode (Register Instruction)

/-!
# Compiler — filling windows

The inputs of a window are evaluated one after the other and then copied into it.

* `Input.Kept` — an input that is still in its register;
* `Copied` — inputs that have been copied one by one;
* `Window.placed_of_copied` — then the window is placed, if no copy overwrites an input that is
  still to be copied.
-/

variable {ctx : BuilderContext} {captured : Nat → Prop}

theorem KeepsRegister.append {code : List Instruction} {register start middle stop : Nat}
    (h₁ : KeepsRegister code captured register start middle)
    (h₂ : KeepsRegister code captured register middle stop) (hle : middle ≤ stop) :
    KeepsRegister code captured register start stop := by
  intro pc instruction hstart hstop hpc
  by_cases hpm : pc < middle
  · obtain ⟨hwrites, hrun, htargets⟩ := h₁ pc instruction hstart hpm hpc
    exact ⟨hwrites, hrun, fun target ht =>
      ⟨(htargets target ht).1, (htargets target ht).2.trans hle⟩⟩
  · exact h₂ pc instruction (not_lt.mp hpm) hstop hpc

theorem KeepsRegister.congr {code code' : List Instruction} {register start stop : Nat}
    (h : KeepsRegister code captured register start stop)
    (hcode : ∀ pc, pc < stop → code'[pc]? = code[pc]?) :
    KeepsRegister code' captured register start stop := by
  intro pc instruction hstart hstop hpc
  rw [hcode pc hstop] at hpc
  exact h pc instruction hstart hstop hpc

/-- An input that has been evaluated behind `start` and is still in its register. -/
structure Input.Kept (captured : Nat → Prop) (c : Core) (start : Nat) (input : Input) : Prop where
  start_le : start ≤ input.pc
  pc_le : input.pc ≤ c.pc
  keeps : KeepsRegister c.code captured input.register.toNat input.pc c.pc

/-- An input that has just been evaluated. -/
theorem Input.kept_now {c : Core} {start : Nat} {r : Register} (h : start ≤ c.pc) :
    Input.Kept captured c start ⟨r, c.pc⟩ where
  start_le := h
  pc_le := le_rfl
  keeps := fun _ _ hstart hstop _ => absurd hstart hstop.not_ge

/-- An input stays in its register while code is emitted that writes registers above it. -/
theorem Input.Kept.extend {c c' : Core} {start floor : Nat} {quiet : Prop} {input : Input}
    (h : input.Kept captured c start) (hemits : Emits captured floor quiet c c')
    (hfloor : input.register.toNat < floor) (hquiet : captured input.register.toNat → quiet) :
    input.Kept captured c' start where
  start_le := h.start_le
  pc_le := h.pc_le.trans hemits.pc_le
  keeps := (h.keeps.congr fun _ hpc => hemits.getElem? hpc).append
    (hemits.above.keepsRegister hfloor fun hc => hemits.silent (hquiet hc)) hemits.pc_le

/-- Inputs have been copied into the registers from `base + index` on. -/
def Copied (base : Nat) (index : Nat) (inputs : List Input) (c c' : Core) : Prop :=
  ∃ moves, c' = { c with code := c.code ++ moves } ∧ moves.length = inputs.length
    ∧ ∀ j input, inputs[j]? = some input →
      ∃ dest : Register, dest.toNat = base + index + j
        ∧ moves[j]? = some (.move dest input.register)

theorem Copied.nil {base index : Nat} {c : Core} : Copied base index [] c c :=
  ⟨[], by simp, rfl, by simp⟩

theorem Copied.cons {base index : Nat} {input : Input} {rest : List Input} {dest : Register}
    {c c' : Core} (hdest : dest.toNat = base + index)
    (h : Copied base (index + 1) rest (c.push (.move dest input.register)) c') :
    Copied base index (input :: rest) c c' := by
  obtain ⟨moves, rfl, hlength, hmoves⟩ := h
  refine ⟨.move dest input.register :: moves, by simp [Core.push], by simp [hlength], ?_⟩
  intro j input' hj
  cases j with
  | zero =>
    cases hj
    exact ⟨dest, hdest, rfl⟩
  | succ j =>
    obtain ⟨dest', hdest', hmove⟩ := hmoves j input' hj
    exact ⟨dest', by omega, hmove⟩

theorem moveInputs_copied {base : Register} {span : Span} {inputs : List Input} :
    ∀ {index : Nat} {b b' : Builder} {u : Unit},
      moveInputs ctx base span index inputs b = .ok (u, b') →
      Copied base.toNat index inputs b.core b'.core := by
  induction inputs with
  | nil =>
    intro index b b' u h
    obtain ⟨-, rfl⟩ := pure_eq_ok.mp h
    exact .nil
  | cons input rest ih =>
    intro index b b' u h
    simp only [moveInputs, bind_eq_ok] at h
    obtain ⟨dest, b₁, h₁, u₂, b₂, h₂, h⟩ := h
    obtain ⟨hdest, rfl⟩ := registerOffset_eq_ok h₁
    have hrest := ih h
    rw [emit_eq_ok h₂] at hrest
    exact .cons hdest hrest

theorem Copied.pc {base index : Nat} {inputs : List Input} {c c' : Core}
    (h : Copied base index inputs c c') : c'.pc = c.pc + inputs.length := by
  obtain ⟨moves, rfl, hlength, -⟩ := h
  simp [Core.pc, hlength]

theorem Copied.next {base index : Nat} {inputs : List Input} {c c' : Core}
    (h : Copied base index inputs c c') : c'.next = c.next := by
  obtain ⟨moves, rfl, -, -⟩ := h
  rfl

theorem Copied.getElem? {base index : Nat} {inputs : List Input} {c c' : Core}
    (h : Copied base index inputs c c') {j : Nat} {input : Input} (hj : inputs[j]? = some input) :
    ∃ dest : Register, dest.toNat = base + index + j
      ∧ c'.code[c.pc + j]? = some (.move dest input.register) := by
  obtain ⟨moves, rfl, -, hmoves⟩ := h
  obtain ⟨dest, hdest, hmove⟩ := hmoves j input hj
  refine ⟨dest, hdest, ?_⟩
  show (c.code ++ moves)[c.code.length + j]? = _
  rw [List.getElem?_append_right (by omega), Nat.add_sub_cancel_left]
  exact hmove

/-- The instruction at an address of the copies. -/
theorem Copied.inv {base index : Nat} {inputs : List Input} {c c' : Core}
    (h : Copied base index inputs c c') {pc : Nat} {instruction : Instruction} (hstart : c.pc ≤ pc)
    (hstop : pc < c'.pc) (hpc : c'.code[pc]? = some instruction) :
    ∃ (dest src : Register), instruction = .move dest src
      ∧ dest.toNat = base + index + (pc - c.pc) := by
  rw [h.pc] at hstop
  have hlt : pc - c.pc < inputs.length := by omega
  obtain ⟨dest, hdest, hmove⟩ := h.getElem? (List.getElem?_eq_getElem hlt)
  rw [Nat.add_sub_cancel' hstart, hpc] at hmove
  exact ⟨dest, _, Option.some.inj hmove, hdest⟩

theorem Copied.emits {base index floor : Nat} {quiet : Prop} {inputs : List Input} {c c' : Core}
    (h : Copied base index inputs c c') (hfloor : floor ≤ base + index) :
    Emits captured floor quiet c c' where
  code := by
    obtain ⟨moves, rfl, -, -⟩ := h
    exact List.prefix_append ..
  above := by
    intro pc instruction hstart hstop hpc
    obtain ⟨dest, src, rfl, hdest⟩ := h.inv hstart hstop hpc
    refine ⟨fun register hw => ?_, fun target ht => ?_⟩
    · rw [show register = dest.toNat from hw]
      omega
    · rw [List.mem_singleton.mp ht]
      exact ⟨Nat.lt_succ_self _, hstop⟩
  silent := by
    intro _ pc instruction hstart hstop hpc
    obtain ⟨dest, src, rfl, -⟩ := h.inv hstart hstop hpc
    rfl
  next_le := h.next.ge
  waiting := by
    obtain ⟨moves, rfl, -, -⟩ := h
    rfl
  listWrites := by
    obtain ⟨moves, rfl, -, -⟩ := h
    exact List.Subset.refl _
  windows := by
    obtain ⟨moves, rfl, -, -⟩ := h
    exact ⟨[], by simp, by simp⟩
  calls := by
    intro pc hstart hstop instruction base argCount hpc hcallee
    obtain ⟨dest, src, rfl, -⟩ := h.inv hstart hstop hpc
    cases hcallee

/-- Evaluated inputs that are copied into a window, and the code behind the copies: the window is
    placed if no copy overwrites an input that is still to be copied. -/
theorem Window.placed_of_copied {inputs : List Input} {base floor : Register}
    {start : Nat} {q : Prop} {c₀ c₁ c₂ c₃ : Core}
    (hkept : ∀ input ∈ inputs, input.Kept captured c₁ start)
    (hcopied : Copied base.toNat 0 inputs c₁ c₂)
    (hafter : Emits captured (base.toNat + inputs.length) q c₂ c₃)
    (hbelow : Emits captured floor.toNat q c₀ c₃)
    (hclear : ∀ j input, inputs[j]? = some input →
      ∀ k < j, input.register.toNat ≠ base.toNat + k)
    (hbase : ∀ register, base.toNat ≤ register → ¬ captured register) :
    Window.Placed c₃.code captured ⟨inputs, base, c₀.pc, floor, c₃.pc⟩ := by
  refine ⟨fun j input hj => ?_, hbelow.above, hbelow.pc_le, hbase⟩
  obtain ⟨dest, hdest, hmove⟩ := hcopied.getElem? hj
  have hmem : input ∈ inputs := List.mem_of_getElem? hj
  have hlt : j < inputs.length := (List.getElem?_eq_some_iff.mp hj).1
  have hpc₂ := hcopied.pc
  have hpc₃ := hafter.pc_le
  have hcopies : Emits captured base.toNat q c₁ c₂ := hcopied.emits le_rfl
  have hcode₁ : ∀ pc, pc < c₁.pc → c₃.code[pc]? = c₁.code[pc]? := fun pc hpc => by
    rw [hafter.getElem? (by omega)]
    exact hcopies.getElem? hpc
  refine ⟨dest, c₁.pc + j, by omega, ?_, ?_, ?_, ?_, ?_⟩
  · exact (hkept input hmem).pc_le.trans (by omega)
  · show c₁.pc + j < c₃.pc
    omega
  · rw [hafter.getElem? (by omega)]
    exact hmove
  · -- up to the copies, and over the copies before its own
    refine ((hkept input hmem).keeps.congr fun pc hpc => hcode₁ pc hpc).append ?_ (by omega)
    intro pc instruction hstart hstop hpc
    rw [hafter.getElem? (by omega)] at hpc
    obtain ⟨dest', src', rfl, hdest'⟩ := hcopied.inv hstart (by omega) hpc
    refine ⟨fun hw => ?_, fun h => Bool.false_ne_true h.1, fun target ht => ?_⟩
    · exact hclear j input hj (pc - c₁.pc) (by omega) (by rw [show _ = _ from hw]; omega)
    · rw [List.mem_singleton.mp ht]
      exact ⟨Nat.lt_succ_self _, hstop⟩
  · -- over the copies behind its own, and to the end
    have hnot : ¬ captured dest.toNat := hbase _ (by omega)
    have hmoves : KeepsRegister c₃.code captured dest.toNat (c₁.pc + j + 1) c₂.pc := by
      intro pc instruction hstart hstop hpc
      rw [hafter.getElem? hstop] at hpc
      obtain ⟨dest', src', rfl, hdest'⟩ := hcopied.inv (by omega) hstop hpc
      refine ⟨fun hw => ?_, fun h => hnot h.2, fun target ht => ?_⟩
      · have : dest.toNat = dest'.toNat := hw
        omega
      · rw [List.mem_singleton.mp ht]
        exact ⟨Nat.lt_succ_self _, hstop⟩
    exact hmoves.append (hafter.above.keepsRegister (by omega) fun hc => absurd hc hnot) hpc₃

end RivetLua.Compiler
