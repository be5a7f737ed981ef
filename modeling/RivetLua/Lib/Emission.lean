import RivetLua.Lib.Wire

namespace Wire

/-!
# Writers with a bound

A writer never looks at what it has written: it is a sequence of pieces, of sections that are
written apart and put behind their length, and of early ends.  Such a program means an `Output`,
and it can be run on a buffer that announced how much it will take.

* `Emission` — programs of a writer, with their `output` and their `size`;
* `Buffer` — bytes with a capacity and a bound; a failure stays until the buffer is finished;
* `Emission.run_unbounded` — without a bound a run has the output;
* `Emission.run_bounded` — a program that fits the bound never goes over it.
-/

/-- A program of a writer. -/
inductive Emission (ε : Type) where
  | done
  | stop (e : ε)
  | write (piece : List UInt8) (rest : Emission ε)
  /-- What `body` writes goes behind its length, which has 32 bits. -/
  | nested (body : Emission ε) (tooLong : ε) (rest : Emission ε)

namespace Emission

variable {ε α : Type}

/-- One program after the other. -/
protected def append : Emission ε → Emission ε → Emission ε
  | done, y => y
  | stop e, _ => stop e
  | write piece rest, y => write piece (rest.append y)
  | nested body tooLong rest, y => nested body tooLong (rest.append y)

instance : Append (Emission ε) := ⟨Emission.append⟩

@[simp] theorem done_append (y : Emission ε) : done ++ y = y := rfl

@[simp] theorem stop_append (e : ε) (y : Emission ε) : stop e ++ y = stop e := rfl

@[simp] theorem write_append (piece : List UInt8) (rest y : Emission ε) :
    write piece rest ++ y = write piece (rest ++ y) := rfl

@[simp] theorem nested_append (body : Emission ε) (tooLong : ε) (rest y : Emission ε) :
    nested body tooLong rest ++ y = nested body tooLong (rest ++ y) := rfl

/-- Write every element of a list. -/
def each (w : α → Emission ε) : List α → Emission ε
  | [] => done
  | a :: as => w a ++ each w as

/-! ### Meaning -/

/-- Bytes behind their length. -/
def lengthened (body : Output ε) (tooLong : ε) : Output ε :=
  match body with
  | .error e => .error e
  | .ok bytes =>
    (if bytes.length < 2 ^ 32 then .ok (littleEndian 4 bytes.length) else .error tooLong)
      ++ .ok bytes

/-- What a program writes. -/
def output : Emission ε → Output ε
  | done => .ok []
  | stop e => .error e
  | write piece rest => .ok piece ++ rest.output
  | nested body tooLong rest => lengthened body.output tooLong ++ rest.output

theorem Output.append_assoc (x y z : Output ε) : x ++ y ++ z = x ++ (y ++ z) := by
  rcases x with front | e
  · rcases y with middle | e
    · rcases z with back | e
      · exact congrArg Output.ok (List.append_assoc _ _ _)
      · rfl
    · rfl
  · rfl

@[simp] theorem Output.nil_append (x : Output ε) : .ok [] ++ x = x := by
  cases x <;> rfl

@[simp] theorem Output.append_nil (x : Output ε) : x ++ .ok [] = x := by
  cases x with
  | ok bytes => exact congrArg Output.ok (List.append_nil bytes)
  | error e => rfl

@[simp] theorem Output.error_append (e : ε) (x : Output ε) : .error e ++ x = .error e := rfl

@[simp] theorem output_append (x y : Emission ε) : (x ++ y).output = x.output ++ y.output := by
  induction x with
  | done => exact (Output.nil_append _).symm
  | stop e => rfl
  | write piece rest ih =>
    show .ok piece ++ (rest ++ y).output = _
    rw [ih, ← Output.append_assoc]
    rfl
  | nested body tooLong rest _ ih =>
    show lengthened body.output tooLong ++ (rest ++ y).output = _
    rw [ih, ← Output.append_assoc]
    rfl

theorem output_each {w : α → Emission ε} {w' : α → Output ε} (h : ∀ a, (w a).output = w' a)
    (as : List α) : (each w as).output = Output.each w' as := by
  induction as with
  | nil => rfl
  | cons a as ih => rw [each, output_append, h, ih, Output.each]

/-! ### Size -/

/-- The bytes that a program writes if it does not end early. -/
def size : Emission ε → Nat
  | done => 0
  | stop _ => 0
  | write piece rest => piece.length + rest.size
  | nested body _ rest => 4 + body.size + rest.size

theorem size_append_le (x y : Emission ε) : (x ++ y).size ≤ x.size + y.size := by
  induction x with
  | done => exact Nat.le_add_left _ _
  | stop e => exact Nat.zero_le _
  | write piece rest ih =>
    show piece.length + (rest ++ y).size ≤ piece.length + rest.size + y.size
    omega
  | nested body tooLong rest _ ih =>
    show 4 + body.size + (rest ++ y).size ≤ 4 + body.size + rest.size + y.size
    omega

theorem size_each_le {w : α → Emission ε} {bound : α → Nat} {as : List α}
    (h : ∀ a ∈ as, (w a).size ≤ bound a) : (each w as).size ≤ (as.map bound).sum := by
  induction as with
  | nil => exact Nat.le_refl 0
  | cons a as ih =>
    have hfirst := h a List.mem_cons_self
    have hrest := ih fun b hb => h b (List.mem_cons_of_mem a hb)
    have happend := size_append_le (w a) (each w as)
    rw [List.map_cons, List.sum_cons]
    show (w a ++ each w as).size ≤ _
    omega

/-- No program writes more than its size. -/
theorem length_le_size {x : Emission ε} {bytes : List UInt8} (h : x.output = .ok bytes) :
    bytes.length ≤ x.size := by
  induction x generalizing bytes with
  | done =>
    cases h
    exact Nat.le_refl 0
  | stop e => cases h
  | write piece rest ih =>
    obtain ⟨front, back, hfront, hback, rfl⟩ := Output.append_eq_ok.mp h
    cases hfront
    have hrest := ih hback
    rw [List.length_append]
    show _ ≤ piece.length + rest.size
    omega
  | nested body tooLong rest ihbody ih =>
    obtain ⟨front, back, hfront, hback, rfl⟩ := Output.append_eq_ok.mp h
    have hrest := ih hback
    rcases hbody : body.output with contents | e
    · rw [hbody] at hfront
      obtain ⟨head, tail, hhead, htail, rfl⟩ := Output.append_eq_ok.mp hfront
      cases htail
      have hcontents := ihbody hbody
      split at hhead
      · cases hhead
        simp only [List.length_append, length_littleEndian]
        show _ ≤ 4 + body.size + rest.size
        omega
      · cases hhead
    · rw [hbody] at hfront
      cases hfront

/-! ### Errors -/

/-- The errors a program can end with satisfy `P`. -/
def Stops (P : ε → Prop) : Emission ε → Prop
  | done => True
  | stop e => P e
  | write _ rest => rest.Stops P
  | nested body tooLong rest => body.Stops P ∧ P tooLong ∧ rest.Stops P

theorem Stops.append {P : ε → Prop} {x y : Emission ε} (hx : x.Stops P) (hy : y.Stops P) :
    (x ++ y).Stops P := by
  induction x with
  | done => exact hy
  | stop e => exact hx
  | write piece rest ih => exact ih hx
  | nested body tooLong rest _ ih => exact ⟨hx.1, hx.2.1, ih hx.2.2⟩

theorem Stops.each {P : ε → Prop} {w : α → Emission ε} {as : List α}
    (h : ∀ a ∈ as, (w a).Stops P) : (Emission.each w as).Stops P := by
  induction as with
  | nil => trivial
  | cons a as ih =>
    exact (h a List.mem_cons_self).append (ih fun b hb => h b (List.mem_cons_of_mem a hb))

theorem Stops.mono {P Q : ε → Prop} (hPQ : ∀ e, P e → Q e) {x : Emission ε} (h : x.Stops P) :
    x.Stops Q := by
  induction x with
  | done => trivial
  | stop e => exact hPQ e h
  | write piece rest ih => exact ih h
  | nested body tooLong rest ihbody ih => exact ⟨ihbody h.1, hPQ _ h.2.1, ih h.2.2⟩

end Emission

/-! ### Buffers -/

/-- The failures of a buffer. -/
structure Faults (ε : Type) where
  overflow : ε
  exceeded : ε
  refused : ε
  capacity : ε

/-- What the allocator answers: the capacity that the `n`-th request for room gets, if any. -/
abbrev Memory := Nat → Nat → Option Nat

/-- No request gets more than it asks for. -/
def Memory.Exact (memory : Memory) : Prop :=
  ∀ n needed capacity, memory n needed = some capacity → capacity = needed

/-- A growing buffer; with a bound it grows by exact requests only. -/
structure Buffer (ε : Type) where
  bytes : List UInt8
  capacity : Nat
  bound : Option Nat
  failure : Option ε
  requests : Nat

namespace Buffer

variable {ε : Type}

/-- A new buffer, behind the given number of requests. -/
def empty (bound : Option Nat) (requests : Nat) : Buffer ε := ⟨[], 0, bound, none, requests⟩

variable (faults : Faults ε) (maximum : Nat) (memory : Memory)

/-- Write a piece behind the others. -/
def write (b : Buffer ε) (piece : List UInt8) : Buffer ε :=
  if b.failure.isSome then b
  else
    match b.bound with
    | none => { b with bytes := b.bytes ++ piece }
    | some bound =>
      let stop := b.bytes.length + piece.length
      if maximum < stop then { b with failure := some faults.overflow }
      else if bound < stop then { b with failure := some faults.exceeded }
      else if stop ≤ b.capacity then { b with bytes := b.bytes ++ piece }
      else
        match memory b.requests stop with
        | none => { b with failure := some faults.refused, requests := b.requests + 1 }
        | some capacity =>
          if bound < capacity then
            { b with
              capacity := capacity
              failure := some faults.capacity
              requests := b.requests + 1 }
          else
            { b with
              bytes := b.bytes ++ piece
              capacity := capacity
              requests := b.requests + 1 }

/-- Bounded, and in order: what failed so far is `Benign`. -/
structure Sound (Benign : ε → Prop) (limit : Nat) (b : Buffer ε) : Prop where
  bound : b.bound = some limit
  failure : ∀ e, b.failure = some e → Benign e
  capacity : b.failure = none → b.capacity ≤ limit
  exact : memory.Exact → b.failure = none → b.capacity ≤ b.bytes.length

variable {faults maximum memory} {Benign : ε → Prop} {bound : Nat} {b : Buffer ε}

theorem sound_empty (requests : Nat) : (empty (some bound) requests).Sound memory Benign bound :=
  ⟨rfl, (fun _ h => nomatch h), fun _ => Nat.zero_le _, fun _ _ => Nat.le_refl 0⟩

/-- A piece that fits is written, unless the allocator is in the way. -/
theorem Sound.write (h : b.Sound memory Benign bound) {piece : List UInt8} (hmax : bound ≤ maximum)
    (hroom : b.bytes.length + piece.length ≤ bound) (hrefused : Benign faults.refused)
    (hcapacity : memory.Exact ∨ Benign faults.capacity) :
    (b.write faults maximum memory piece).Sound memory Benign bound
      ∧ (b.write faults maximum memory piece).bytes.length ≤ b.bytes.length + piece.length := by
  have hbound := h.bound
  unfold Buffer.write
  by_cases hfailed : b.failure.isSome
  · rw [if_pos hfailed]
    exact ⟨h, Nat.le_add_right _ _⟩
  · have hnone : b.failure = none := by simpa using hfailed
    have hlength : (b.bytes ++ piece).length = b.bytes.length + piece.length :=
      List.length_append
    rw [if_neg hfailed]
    simp only [hbound]
    rw [if_neg (by omega), if_neg (by omega)]
    by_cases hfits : b.bytes.length + piece.length ≤ b.capacity
    · rw [if_pos hfits]
      refine ⟨⟨rfl, h.failure, h.capacity, fun hexact hnone => ?_⟩, Nat.le_of_eq hlength⟩
      have := h.exact hexact hnone
      show b.capacity ≤ (b.bytes ++ piece).length
      omega
    · rw [if_neg hfits]
      cases hanswer : memory b.requests (b.bytes.length + piece.length) with
      | none =>
        exact ⟨⟨rfl, fun e he => Option.some.inj he ▸ hrefused, (fun h => nomatch h),
          (fun _ h => nomatch h)⟩, Nat.le_add_right _ _⟩
      | some capacity =>
        by_cases hover : bound < capacity
        · simp only [if_pos hover]
          refine ⟨⟨rfl, fun e he => ?_, (fun h => nomatch h), (fun _ h => nomatch h)⟩,
            Nat.le_add_right _ _⟩
          rcases hcapacity with hexact | hbenign
          · have := hexact _ _ _ hanswer
            omega
          · exact Option.some.inj he ▸ hbenign
        · simp only [if_neg hover]
          refine ⟨⟨rfl, h.failure, fun _ => by show capacity ≤ bound; omega,
            fun hexact _ => ?_⟩, Nat.le_of_eq hlength⟩
          have := hexact _ _ _ hanswer
          show capacity ≤ (b.bytes ++ piece).length
          omega

end Buffer

/-! ### Runs -/

namespace Emission

variable {ε : Type} (faults : Faults ε) (maximum : Nat) (memory : Memory)

/-- Run a program on a buffer.  A section gets a buffer of its own with the same bound, which is
    finished before its bytes are written. -/
def run : Emission ε → Buffer ε → Except ε (Buffer ε)
  | done, b => .ok b
  | stop e, _ => .error e
  | write piece rest, b => rest.run (b.write faults maximum memory piece)
  | nested body tooLong rest, b =>
    match body.run (.empty b.bound b.requests) with
    | .error e => .error e
    | .ok inner =>
      match inner.failure with
      | some e => .error e
      | none =>
        if inner.bytes.length < 2 ^ 32 then
          rest.run ((Buffer.write faults maximum memory { b with requests := inner.requests }
            (littleEndian 4 inner.bytes.length)).write faults maximum memory inner.bytes)
        else .error tooLong

variable {faults maximum memory}

/-- Without a bound a run writes the output. -/
theorem run_unbounded {x : Emission ε} {b : Buffer ε} (hbound : b.bound = none)
    (hfailure : b.failure = none) :
    x.run faults maximum memory b
      = match x.output with
        | .ok bytes => .ok { b with bytes := b.bytes ++ bytes }
        | .error e => .error e := by
  have hwrite : ∀ {b : Buffer ε} (_ : b.bound = none) (_ : b.failure = none) (piece : List UInt8),
      b.write faults maximum memory piece = { b with bytes := b.bytes ++ piece } := by
    intro b hbound hfailure piece
    unfold Buffer.write
    rw [hfailure, hbound]
    rfl
  induction x generalizing b with
  | done =>
    show Except.ok b = .ok { b with bytes := b.bytes ++ [] }
    rw [List.append_nil]
  | stop e => rfl
  | write piece rest ih =>
    show rest.run faults maximum memory (b.write faults maximum memory piece) = _
    rw [hwrite hbound hfailure, @ih { b with bytes := b.bytes ++ piece } hbound hfailure]
    show _ = match Output.ok piece ++ rest.output with
      | .ok bytes => _
      | .error e => _
    cases rest.output with
    | ok bytes =>
      show Except.ok { b with bytes := b.bytes ++ piece ++ bytes }
        = .ok { b with bytes := b.bytes ++ (piece ++ bytes) }
      rw [List.append_assoc]
    | error e => rfl
  | nested body tooLong rest ihbody ih =>
    have hbody := @ihbody (.empty b.bound b.requests) hbound rfl
    show (match body.run faults maximum memory (.empty b.bound b.requests) with
      | .error e => _
      | .ok inner => _) = match lengthened body.output tooLong ++ rest.output with
        | .ok bytes => _
        | .error e => _
    rw [hbody]
    cases body.output with
    | error e => rfl
    | ok contents =>
      show (if contents.length < 2 ^ 32 then rest.run faults maximum memory
          ((b.write faults maximum memory (littleEndian 4 contents.length)).write faults maximum
            memory contents) else .error tooLong) = _
      unfold lengthened
      by_cases hshort : contents.length < 2 ^ 32
      · rw [if_pos hshort]
        simp only [if_pos hshort]
        rw [hwrite hbound hfailure,
          @hwrite { b with bytes := b.bytes ++ littleEndian 4 contents.length } hbound hfailure,
          @ih { b with bytes := b.bytes ++ littleEndian 4 contents.length ++ contents } hbound
            hfailure]
        cases rest.output with
        | ok bytes =>
          show Except.ok { b with
              bytes := b.bytes ++ littleEndian 4 contents.length ++ contents ++ bytes }
            = .ok { b with
              bytes := b.bytes ++ (littleEndian 4 contents.length ++ contents ++ bytes) }
          simp only [List.append_assoc]
        | error e => rfl
      · rw [if_neg hshort]
        simp only [if_neg hshort]
        rfl

/-- **A program that fits the bound never goes over it.**  It may fail where it stops itself or
    where the allocator refuses. -/
theorem run_bounded {Benign : ε → Prop} {bound : Nat} (hmax : bound ≤ maximum)
    (hrefused : Benign faults.refused) (hcapacity : memory.Exact ∨ Benign faults.capacity)
    {x : Emission ε} (hstops : x.Stops Benign) {b : Buffer ε} (h : b.Sound memory Benign bound)
    (hroom : b.bytes.length + x.size ≤ bound) :
    (∃ e, x.run faults maximum memory b = .error e ∧ Benign e) ∨
      ∃ b', x.run faults maximum memory b = .ok b' ∧ b'.Sound memory Benign bound
        ∧ b'.bytes.length ≤ b.bytes.length + x.size := by
  induction x generalizing b with
  | done => exact .inr ⟨b, rfl, h, Nat.le_refl _⟩
  | stop e => exact .inl ⟨e, rfl, hstops⟩
  | write piece rest ih =>
    have hsize : (write piece rest).size = piece.length + rest.size := rfl
    obtain ⟨hsound, hlength⟩ := @Buffer.Sound.write _ faults _ _ _ _ _ h piece hmax (by omega)
      hrefused hcapacity
    rcases ih hstops hsound (by omega) with hfails | ⟨b', hrun, hsound', hlength'⟩
    · exact .inl hfails
    · exact .inr ⟨b', hrun, hsound', by omega⟩
  | nested body tooLong rest ihbody ih =>
    have hsize : (nested body tooLong rest).size = 4 + body.size + rest.size := rfl
    have hempty : (Buffer.empty b.bound b.requests).Sound memory Benign bound := by
      rw [h.bound]
      exact Buffer.sound_empty _
    have hemptyLength : (Buffer.empty b.bound b.requests : Buffer ε).bytes.length = 0 := rfl
    unfold run
    rcases ihbody hstops.1 hempty (by omega) with ⟨e, hrun, hbenign⟩ | ⟨inner, hrun, hinner, hle⟩
    · rw [hrun]
      exact .inl ⟨e, rfl, hbenign⟩
    · rw [hrun]
      cases hfailure : inner.failure with
      | some e => exact .inl ⟨e, by simp only [hfailure], hinner.failure e hfailure⟩
      | none =>
        simp only [hfailure]
        by_cases hshort : inner.bytes.length < 2 ^ 32
        · rw [if_pos hshort]
          have hrequests : Buffer.Sound memory Benign bound { b with requests := inner.requests } :=
            ⟨h.bound, h.failure, h.capacity, h.exact⟩
          have hfour : (littleEndian 4 inner.bytes.length).length = 4 := length_littleEndian _ _
          obtain ⟨hsound, hlength⟩ := @Buffer.Sound.write _ faults _ _ _ _ _ hrequests
            (littleEndian 4 inner.bytes.length) hmax (by show b.bytes.length + _ ≤ _; omega)
            hrefused hcapacity
          have hlength : _ ≤ b.bytes.length + (littleEndian 4 inner.bytes.length).length := hlength
          obtain ⟨hsound', hlength'⟩ := @Buffer.Sound.write _ faults _ _ _ _ _ hsound inner.bytes
            hmax (by omega) hrefused hcapacity
          rcases ih hstops.2.2 hsound' (by omega) with hfails | ⟨b', hrun', hsound'', hlength''⟩
          · exact .inl hfails
          · exact .inr ⟨b', hrun', hsound'', by omega⟩
        · rw [if_neg hshort]
          exact .inl ⟨tooLong, rfl, hstops.2.1⟩

end Emission

end Wire
