import RivetLua.Runtime.Captures

namespace RivetLua.Runtime

open RivetLua.Core RivetLua.Gc StateProg Relation

/-!
# Runtime — runs of frame operations

* `FrameOp` — the operations on the registers, roots and open upvalues of a frame, and the work of
  the collector in between;
* `FrameOp.Effect` — what each of them does, also when it fails;
* `FrameOp.run_spec` — every operation keeps the frame in order and has its effect;
* `FrameRun`, `FrameRun.sound` — any sequence of them.
-/

/-- The operations.  A frame that is suspended neither captures nor allocates. -/
inductive FrameOp where
  | capture (site : AllocationSite) (register : Nat)
  | newClosure (site : AllocationSite) (dest : Nat) (sources : List (AllocationSite × CaptureSource))
      (environment : List ObjectRef → Except FrameError (Option ObjectRef))
  | collect (collection : CollectorProgram)
  | write (register : Nat) (value : Value)
  | growForOpenResults (required : Nat)
  | closeSlot (register : Nat)
  | closeOpen
  | parkRoots
  | restoreRoots
  | rollbackOpenPrefix (original : Nat)

/-- Run an operation; a capture returns the upvalue. -/
def FrameOp.run : FrameOp → FrameM (List ObjectRef)
  | .capture site register => do
    let object ← Runtime.capture site (.parentLocal (some register))
    pure [object]
  | .newClosure site dest sources environment => do
    Runtime.newClosure site dest sources environment
    pure []
  | .collect collection => fun s => (.ok [], { s with vm := (collection.run s.vm).2 })
  | .write register value => do
    Runtime.write register value
    pure []
  | .growForOpenResults required => do
    Runtime.growForOpenResults required
    pure []
  | .closeSlot register => do
    Runtime.closeSlot register
    pure []
  | .closeOpen => do
    Runtime.closeOpen
    pure []
  | .parkRoots => do
    Runtime.parkRoots
    pure []
  | .restoreRoots => do
    Runtime.restoreRoots
    pure []
  | .rollbackOpenPrefix original => do
    Runtime.rollbackOpenPrefix original
    pure []

/-- What runs only while the frame has its roots. -/
def FrameOp.Allowed : FrameOp → CallFrame → Prop
  | .capture _ _, f | .newClosure _ _ _ _, f | .collect _, f => f.Rooted
  | _, _ => True

/-- What an operation does to the registers, the list and the upvalues. -/
def FrameOp.Effect : FrameOp → Execution → Except FrameError (List ObjectRef) → Execution → Prop
  | .capture _ register, s, r, t => ∃ new,
      t.frame.openUpvalues = s.frame.openUpvalues ++ new
        ∧ t.frame.registers = s.frame.registers
        ∧ (∀ objects, r = .ok objects →
          (∃ e ∈ t.frame.openUpvalues, e.slot = s.frame.stackBase + register ∧ objects = [e.object])
            ∧ ((∃ e ∈ s.frame.openUpvalues, e.slot = s.frame.stackBase + register) → new = []))
        ∧ ∀ err, r = .error err → new = []
  | .newClosure _ dest _ _, s, r, t => ∃ new,
      t.frame.openUpvalues = s.frame.openUpvalues ++ new
        ∧ (∀ objects, r = .ok objects →
          ∃ object, t.frame.registers = s.frame.registers.set dest (.object object))
        ∧ ∀ err, r = .error err → t.frame.registers = s.frame.registers
          ∧ (new = [] ∨ ∃ s₁, s₁.frame.openUpvalues = s.frame.openUpvalues ++ new
            ∧ Runtime.rollbackOpenPrefix s.frame.openUpvalues.length s₁ = (.error err, t))
  | .collect _, s, _, t => t.frame = s.frame
  | .write register value, s, r, t =>
      t.frame.openUpvalues = s.frame.openUpvalues
        ∧ (∀ r', t.upvalueState r' = s.upvalueState r')
        ∧ (∀ objects, r = .ok objects → t.frame.registers = s.frame.registers.set register value)
        ∧ ∀ err, r = .error err → t.frame = s.frame
  | .growForOpenResults required, s, r, t =>
      t.frame.openUpvalues = s.frame.openUpvalues
        ∧ (∀ r', t.upvalueState r' = s.upvalueState r')
        ∧ s.frame.registers <+: t.frame.registers ∧ s.frame.roots <+: t.frame.roots
        ∧ (∀ objects, r = .ok objects → required ≤ t.frame.registerLimit)
        ∧ ∀ err, r = .error err → t.frame = s.frame
  | .closeSlot register, s, r, t => ∃ before gone after,
      s.ClosesAll gone t ∧ s.frame.openUpvalues = before ++ gone ++ after
        ∧ t.frame.openUpvalues = before ++ after
        ∧ (∀ objects, r = .ok objects → ∀ e ∈ s.frame.openUpvalues,
          e ∈ gone ↔ e.slot = s.frame.stackBase + register)
        ∧ ∀ err, r = .error err → gone = []
  | .closeOpen, s, r, t => ∃ gone,
      s.ClosesAll gone t ∧ s.frame.openUpvalues = t.frame.openUpvalues ++ gone
        ∧ ∀ objects, r = .ok objects → t.frame.openUpvalues = []
  | .parkRoots, s, r, t => s.Reroots t ∧ r = .ok []
  | .restoreRoots, s, r, t => s.Reroots t ∧ ∀ objects, r = .ok objects → t.frame.Rooted
  | .rollbackOpenPrefix original, s, r, t =>
      (∀ objects, r = .ok objects →
        t.frame.openUpvalues = s.frame.openUpvalues.take original
          ∧ t.frame.registers = s.frame.registers
          ∧ ∀ r', (∀ e ∈ s.frame.openUpvalues.drop original, e.object ≠ r') →
            ∀ u, t.upvalueState r' = .ok u ↔ s.upvalueState r' = .ok u)
        ∧ ∀ err, r = .error err → t.frame = s.frame

/-- Every register has at most one open upvalue, and every entry of the list is one. -/
structure Execution.InOrder (s : Execution) : Prop where
  registers : s.frame.registers.length = s.frame.registerLimit
  unique : ∀ e ∈ s.frame.openUpvalues, ∀ e' ∈ s.frame.openUpvalues, e.slot = e'.slot → e = e'
  opened : ∀ e ∈ s.frame.openUpvalues,
    s.upvalueState e.object = .ok (.opened s.vm.id s.coroutine e.slot)
  register : ∀ e ∈ s.frame.openUpvalues, s.frame.stackBase ≤ e.slot
    ∧ e.slot - s.frame.stackBase < s.frame.registers.length

section Runs

variable {P : List RootEntry} {s s' t : Execution}

theorem Execution.Sound.inOrder (h : s.Sound P) : s.InOrder where
  registers := h.registers
  unique := fun e he e' he' heq => h.entry_eq he he' heq
  opened := fun e he => (h.listed_of_mem he).state
  register := fun e he => by
    have hlisted := h.listed_of_mem he
    have habove := hlisted.above
    have hbelow := hlisted.below
    rw [h.registers]
    omega

/-- A new frame has captured nothing. -/
theorem Execution.Sound.fresh (hregisters : s.frame.registers.length = s.frame.registerLimit)
    (hroots : s.frame.roots.length = s.frame.registerLimit) (hopen : s.frame.openUpvalues = [])
    (htracks : s.vm.Tracks P (P.map RootEntry.id ++ s.frame.rootIds))
    (hparent : ∀ p, s.coroutine = some p → ∃ k ∈ P, k.object = p) : s.Sound P where
  registers := hregisters
  roots := hroots
  slots := by
    unfold CallFrame.entries
    rw [hopen]
    exact List.nodup_nil
  listed := fun e he => by
    unfold CallFrame.entries at he
    rw [hopen] at he
    cases he
  tracks := by
    unfold CallFrame.openRoots
    rw [hopen, List.filterMap_nil, List.append_nil]
    exact htracks
  parent := hparent
  apart := fun k _ e he => by
    unfold CallFrame.entries at he
    rw [hopen] at he
    cases he

/-- A program whose result is not used. -/
theorem discard_apply {α : Type} {m : FrameM α} {r : Except FrameError α} (f : α → List ObjectRef)
    (hrun : m s = (r, t)) : (m >>= fun a => pure (f a)) s = (r.map f, t) := by
  cases r with
  | ok a => exact (Prog.bind_apply_ok hrun).trans rfl
  | error e => exact Prog.bind_apply_error hrun

theorem map_eq_ok {α β ε : Type} {r : Except ε α} {f : α → β} {b : β} (h : r.map f = .ok b) :
    ∃ a, r = .ok a ∧ f a = b := by
  cases r with
  | ok a => exact ⟨a, rfl, Except.ok.inj h⟩
  | error e => cases h

theorem map_eq_error {α β ε : Type} {r : Except ε α} {f : α → β} {e : ε} (h : r.map f = .error e) :
    r = .error e := by
  cases r with
  | ok a => cases h
  | error e' => rw [Except.error.inj h]

/-- **Every operation** keeps the frame in order and has its effect, whichever way it ends. -/
theorem FrameOp.run_spec (op : FrameOp) (h : s.Sound P) (hallowed : op.Allowed s.frame) :
    ∃ r t, op.run s = (r, t) ∧ t.Sound P ∧ s.Follows t ∧ op.Effect s r t := by
  cases op with
  | capture site register =>
    obtain ⟨r, t, new, hrun, hcaptures, herror, hok⟩ := capture_register_spec site register h hallowed
    obtain ⟨charge, hframe⟩ := hcaptures.frame
    refine ⟨_, t, discard_apply (fun object => [object]) hrun, hcaptures.sound, hcaptures.follows, new,
      by rw [hframe], by rw [hframe], fun objects heq => ?_, fun err heq => herror err (map_eq_error heq)⟩
    obtain ⟨object, rfl, rfl⟩ := map_eq_ok heq
    obtain ⟨⟨e, he, hslot, rfl⟩, hshared⟩ := hok object rfl
    exact ⟨⟨e, he, hslot, rfl⟩, hshared⟩
  | newClosure site dest sources environment =>
    obtain ⟨r, t, new, hrun, hsound, -, hfollows, hopen, hok, herror⟩ :=
      newClosure_spec site dest sources environment h hallowed
    refine ⟨_, t, discard_apply (fun _ => []) hrun, hsound, hfollows, new, hopen, fun objects heq => ?_,
      fun err heq => ?_⟩
    · obtain ⟨_, rfl, -⟩ := map_eq_ok heq
      exact (hok rfl).2
    · obtain ⟨hregisters, hback⟩ := herror err (map_eq_error heq)
      refine ⟨hregisters, hback.imp_right ?_⟩
      rintro ⟨s₁, hcaptures, hrollback⟩
      obtain ⟨charge, hframe⟩ := hcaptures.frame
      exact ⟨s₁, by rw [hframe], hrollback⟩
  | collect collection =>
    obtain ⟨htracks, honward, hcells⟩ := h.tracks.collected h.parent h.cells collection
    obtain ⟨hsound, hfollows⟩ := h.onward hallowed htracks honward hcells
    exact ⟨.ok [], _, rfl, hsound, hfollows, rfl⟩
  | write register value =>
    rcases write_spec h register value with
      ⟨vm', root, -, hsame, hrun, hsound⟩ | ⟨e, vm', hsame, hrun, hsound⟩
    · refine ⟨_, _, discard_apply (fun _ => []) hrun, hsound,
        .of_onward hsame.shrinks.descends.onward rfl rfl rfl, rfl, fun r' => ?_, fun _ _ => rfl, nofun⟩
      exact @Execution.upvalueState_of_sameObjects s { s with vm := vm' } hsame rfl r'
    · refine ⟨_, _, discard_apply (fun _ => []) hrun, hsound,
        .of_onward hsame.shrinks.descends.onward rfl rfl rfl, rfl, fun r' => ?_, nofun, fun _ _ => rfl⟩
      exact @Execution.upvalueState_of_sameObjects s { s with vm := vm' } hsame rfl r'
  | growForOpenResults required =>
    rcases growForOpenResults_spec h required with ⟨l, -, hrun, hsound⟩ | ⟨r, l, hok, hrun⟩
    · refine ⟨_, _, discard_apply (fun _ => []) hrun, hsound, .of_onward (.of_slots rfl rfl rfl) rfl rfl rfl,
        rfl, fun r' => rfl, List.prefix_append _ _, List.prefix_append _ _, fun _ _ => Nat.le_refl _, nofun⟩
    · refine ⟨_, _, discard_apply (fun _ => []) hrun, h.ledger l, .ledger s l, rfl, fun r' => rfl,
        List.prefix_rfl, List.prefix_rfl, fun objects heq => ?_, fun _ _ => rfl⟩
      obtain ⟨_, rfl, -⟩ := map_eq_ok heq
      exact hok rfl
  | closeSlot register =>
    obtain ⟨r, t, before, gone, after, hrun, hsound, hfollows, hcloses, hlist, hrest, hok, herror⟩ :=
      closeSlot_spec h register
    refine ⟨_, t, discard_apply (fun _ => []) hrun, hsound, hfollows, before, gone, after, hcloses, hlist,
      hrest, fun objects heq => ?_, fun err heq => herror err (map_eq_error heq)⟩
    obtain ⟨_, rfl, -⟩ := map_eq_ok heq
    exact hok rfl
  | closeOpen =>
    obtain ⟨r, t, gone, hrun, hsound, hfollows, hcloses, hlist, hok⟩ := closeOpen_spec h
    refine ⟨_, t, discard_apply (fun _ => []) hrun, hsound, hfollows, gone, hcloses, hlist,
      fun objects heq => ?_⟩
    obtain ⟨_, rfl, -⟩ := map_eq_ok heq
    exact hok rfl
  | parkRoots =>
    obtain ⟨t, hrun, hsound, hreroots⟩ := parkRoots_spec h
    exact ⟨_, t, discard_apply (fun _ => []) hrun, hsound, hreroots.follows, hreroots, rfl⟩
  | restoreRoots =>
    obtain ⟨r, t, hrun, hsound, hreroots, hok⟩ := restoreRoots_spec h
    refine ⟨_, t, discard_apply (fun _ => []) hrun, hsound, hreroots.follows, hreroots,
      fun objects heq => ?_⟩
    obtain ⟨_, rfl, -⟩ := map_eq_ok heq
    exact hok rfl
  | rollbackOpenPrefix original =>
    rcases rollbackOpenPrefix_spec h original with ⟨t, hrun, hback⟩ | ⟨e, l, hrun⟩
    · obtain ⟨charge, hframe⟩ := hback.frame
      exact ⟨_, t, discard_apply (fun _ => []) hrun, hback.sound, hback.follows,
        fun _ _ => ⟨by rw [hframe], by rw [hframe], hback.others⟩, nofun⟩
    · exact ⟨_, _, discard_apply (fun _ => []) hrun, h.ledger l, .ledger s l, nofun, fun _ _ => rfl⟩

/-- An open upvalue that an operation leaves behind when it fails is still listed; the others are
    closed. -/
theorem FrameOp.Effect.remaining {op : FrameOp} {err : FrameError}
    (heffect : op.Effect s (.error err) t) :
    ∀ e ∈ s.frame.entries, e ∈ t.frame.entries
      ∨ t.upvalueState e.2 = .ok (.closed (s.frame.valueAt e.1)) := by
  have happend : ∀ {l : List OpenUpvalue}, t.frame.openUpvalues = s.frame.openUpvalues ++ l →
      ∀ e ∈ s.frame.entries, e ∈ t.frame.entries := by
    intro l hl e he
    unfold CallFrame.entries
    rw [hl, List.map_append]
    exact List.mem_append_left _ he
  cases op with
  | capture site register =>
    obtain ⟨new, hopen, -⟩ := heffect
    exact fun e he => .inl (happend hopen e he)
  | newClosure site dest sources environment =>
    obtain ⟨new, hopen, -⟩ := heffect
    exact fun e he => .inl (happend hopen e he)
  | collect collection =>
    have hframe : t.frame = s.frame := heffect
    exact fun e he => .inl (hframe ▸ he)
  | write register value =>
    obtain ⟨-, -, -, hframe⟩ := heffect
    exact fun e he => .inl (hframe err rfl ▸ he)
  | growForOpenResults required =>
    obtain ⟨-, -, -, -, -, hframe⟩ := heffect
    exact fun e he => .inl (hframe err rfl ▸ he)
  | closeSlot register =>
    obtain ⟨before, gone, after, -, hlist, hrest, -, hgone⟩ := heffect
    rw [hgone err rfl, List.append_nil] at hlist
    intro e he
    unfold CallFrame.entries at he ⊢
    rw [hrest, ← hlist]
    exact .inl he
  | closeOpen =>
    obtain ⟨gone, hcloses, hlist, -⟩ := heffect
    intro e he
    obtain ⟨entry, hentry, rfl⟩ := List.mem_map.mp he
    rw [hlist] at hentry
    rcases List.mem_append.mp hentry with hentry | hentry
    · exact .inl (List.mem_map_of_mem hentry)
    · exact .inr (hcloses.closed entry hentry)
  | parkRoots =>
    obtain ⟨-, hok⟩ := heffect
    cases hok
  | restoreRoots =>
    obtain ⟨hreroots, -⟩ := heffect
    exact fun e he => .inl (hreroots.entries ▸ he)
  | rollbackOpenPrefix original =>
    obtain ⟨-, hframe⟩ := heffect
    exact fun e he => .inl (hframe err rfl ▸ he)

/-- Any sequence of operations, whichever way each of them ends. -/
def FrameRun : Execution → Execution → Prop :=
  ReflTransGen fun s t => ∃ op : FrameOp, op.Allowed s.frame ∧ (op.run s).2 = t

/-- **A run keeps the frame in order.** -/
theorem FrameRun.sound (h : s.Sound P) (hrun : FrameRun s t) : t.Sound P ∧ s.Follows t := by
  induction hrun with
  | refl => exact ⟨h, .refl s⟩
  | tail _ hstep ih =>
    obtain ⟨hsound, hfollows⟩ := ih
    obtain ⟨op, hallowed, rfl⟩ := hstep
    obtain ⟨r, t, hrun, hsound', hfollows', -⟩ := op.run_spec hsound hallowed
    rw [hrun]
    exact ⟨hsound', hfollows.trans hfollows'⟩

/-- **Open upvalues over any run.**  In every state that is reached, each register has at most one
    open upvalue, and the list holds open upvalues that can be resolved; a closed upvalue keeps its
    value; and the next operation has its effect, whichever way it ends. -/
theorem frameRun_openUpvalues (h : s.Sound P) (hrun : FrameRun s s') :
    s'.InOrder
      ∧ (∀ s₁ r value u, FrameRun s s₁ → FrameRun s₁ s' →
        s₁.upvalueState r = .ok (.closed value) → s'.upvalueState r = .ok u → u = .closed value)
      ∧ ∀ (op : FrameOp) r t, op.Allowed s'.frame → op.run s' = (r, t) →
        t.InOrder ∧ op.Effect s' r t
          ∧ ∀ err, r = .error err → ∀ e ∈ s'.frame.entries, e ∈ t.frame.entries
            ∨ t.upvalueState e.2 = .ok (.closed (s'.frame.valueAt e.1)) := by
  obtain ⟨hsound, -⟩ := hrun.sound h
  refine ⟨hsound.inOrder, fun s₁ r value u hrun₁ hrun₂ hclosed hu => ?_, fun op r t hallowed hop => ?_⟩
  · obtain ⟨hsound₁, -⟩ := hrun₁.sound h
    obtain ⟨-, hfollows⟩ := hrun₂.sound hsound₁
    exact hfollows.closed hsound₁.tidy hclosed hu
  obtain ⟨r', t', hop', hsound', -, heffect⟩ := op.run_spec hsound hallowed
  obtain ⟨rfl, rfl⟩ := Prod.mk.inj (hop'.symm.trans hop)
  refine ⟨hsound'.inOrder, heffect, fun err herr => ?_⟩
  subst herr
  exact heffect.remaining

/-- A frame with two registers, in a VM without objects. -/
def Execution.sample : Execution where
  vm := .new ⟨1⟩ .lua54 0 .granting (fun _ => false) 0
  coroutine := none
  frame :=
    { module := none, closure := none, closureRoot := none, stackBase := 3
      registers := [.nil, .nil], roots := [none, none], varargs := [], varargRoots := []
      debugVarargTable := .nil, debugVarargTableRoot := none, registerLimit := 2
      maxRegisterLimit := 8, openUpvalues := [], openCharge := 0, closeEntries := [] }
  upvalues := fun _ => .closed .nil

/-- Capture a register, write it, close it. -/
def Execution.sampleRun : Execution :=
  let site : AllocationSite := ⟨false, false, .slice 1⟩
  let s := ((FrameOp.capture site 1).run Execution.sample).2
  let s := ((FrameOp.write 1 (.integer 7)).run s).2
  ((FrameOp.closeSlot 1).run s).2

example : Execution.sampleRun.upvalueState (.heap ⟨⟨1⟩, 0, ⟨0⟩⟩ (some 0)) = .ok (.closed (.integer 7)) := by
  rfl

theorem Execution.sample_sound : Execution.sample.Sound [] := by
  refine .fresh rfl rfl rfl ⟨⟨[], ?_, nofun⟩, List.nodup_nil⟩ nofun
  exact {
    tidy := Vm.tidy_new ⟨1⟩ .lua54 0 .granting (fun _ => false) 0
    allocated := nofun
    registered := ⟨⟨List.nodup_nil, nofun, nofun⟩, .refl _⟩
    kept := nofun
    inUse := nofun
    cells := nofun }

theorem Execution.sample_run : FrameRun Execution.sample Execution.sampleRun := by
  refine .tail (.tail (.single ⟨.capture ⟨false, false, .slice 1⟩ 1, ?_, rfl⟩)
    ⟨.write 1 (.integer 7), trivial, rfl⟩) ⟨.closeSlot 1, trivial, rfl⟩
  exact nofun

theorem frameRun_openUpvalues_sample :
    Execution.sampleRun.InOrder ∧ (FrameOp.closeOpen.run Execution.sampleRun).2.InOrder := by
  obtain ⟨hinOrder, -, hnext⟩ := frameRun_openUpvalues Execution.sample_sound Execution.sample_run
  exact ⟨hinOrder, (hnext .closeOpen _ _ trivial rfl).1⟩

end Runs

end RivetLua.Runtime
