import RivetLua.Compiler.FunctionWindows

namespace RivetLua.Compiler

open RivetLua.Bytecode (Register)

/-!
# Compiler — global declarations with initialisers

`global n₁, ..., nₖ = e₁, ..., eₘ` has a lowering of its own, apart from the one that assignments
and local declarations share.

* `Piece`, `globalPieces` — the code of the statement, cut where a value is evaluated or stored;
* `Meaning`, `Meaning.run` — what the pieces do, for any meaning of expressions and stores;
* `Meaning.multipleAssignment` — the statement as a multiple assignment;
* `Meaning.interleaved` — what the code does: each name is stored as soon as its value is known.

The two agree for every meaning only if there is nothing to interleave and nothing to adjust but
missing values.
-/

/-! ### The pieces of the code -/

/-- A part of the code of the statement. -/
inductive Piece where
  | evaluate (value : ResolvedExpr) (dest : Register)
  | loadNil (dest : Register)
  | store (name : List UInt8) (value : Register)

/-- Store a register in a global of the environment of the function. -/
def storeGlobal (ctx : BuilderContext) (span : Span) (name : ResolvedLocalName)
    (value : Register) : Lower Unit := do
  let key ← nameConstant ctx name.name name.span
  emit ctx (.setTable ctx.globalEnvironment key value) span none

/-- `lowerGlobalNames`, with the pieces of its code. -/
def globalPieces (ctx : BuilderContext) (span : Span) :
    List ResolvedLocalName → List ResolvedExpr → Lower (List Piece)
  | [], _ => return []
  | name :: names, [] => do
    let register ← nilRegister ctx span
    storeGlobal ctx span name register
    let rest ← globalPieces ctx span names []
    return .loadNil register :: .store name.name register :: rest
  | name :: names, value :: values => do
    let register ← lowerExpr ctx value
    storeGlobal ctx span name register
    let rest ← globalPieces ctx span names values
    return .evaluate value register :: .store name.name register :: rest

/-- The pieces are those of the source's loop. -/
theorem lowerGlobalNames_eq_globalPieces (ctx : BuilderContext) (span : Span) :
    ∀ (names : List ResolvedLocalName) (values : List ResolvedExpr),
      lowerGlobalNames ctx span names values = do
        let _ ← globalPieces ctx span names values
        return ()
  | [], values => by cases values <;> rfl
  | name :: names, [] => by
    simp only [lowerGlobalNames, globalPieces, storeGlobal, bind_assoc, pure_bind, List.tail_nil,
      lowerGlobalNames_eq_globalPieces ctx span names []]
  | name :: names, value :: values => by
    simp only [lowerGlobalNames, globalPieces, storeGlobal, bind_assoc, pure_bind, List.tail_cons,
      lowerGlobalNames_eq_globalPieces ctx span names values]

/-! ### What the pieces do -/

/-- The meaning of expressions and of stores, over states `S` and values `V`.  A store names the
    environment: the one of the function, or a local `_ENV`. -/
structure Meaning (S V : Type) where
  nil : V
  evaluate : ResolvedExpr → S → List V × S
  store : Option BindingId → List UInt8 → V → S → S

namespace Meaning

variable {S V : Type} (m : Meaning S V)

/-- The first value of an expression, or nil. -/
def single (value : ResolvedExpr) (s : S) : V × S :=
  ((m.evaluate value s).1.headD m.nil, (m.evaluate value s).2)

/-- Run one piece; the stores of the code go to the environment of the function. -/
def runPiece : Piece → S × (Register → V) → S × (Register → V)
  | .evaluate value dest, (s, registers) =>
    ((m.single value s).2, Function.update registers dest (m.single value s).1)
  | .loadNil dest, (s, registers) => (s, Function.update registers dest m.nil)
  | .store name value, (s, registers) => (m.store none name (registers value) s, registers)

/-- Run the code of the statement. -/
def run (pieces : List Piece) (s : S) (registers : Register → V) : S :=
  (pieces.foldl (fun state piece => m.runPiece piece state) (s, registers)).1

/-- Each value is stored as soon as it is known; an expression gives one value. -/
def interleaved : List (List UInt8) → List ResolvedExpr → S → S
  | [], _, s => s
  | name :: names, [], s => interleaved names [] (m.store none name m.nil s)
  | name :: names, value :: values, s =>
    interleaved names values (m.store none name (m.single value s).1 (m.single value s).2)

theorem run_globalPieces {ctx : BuilderContext} {span : Span} :
    ∀ {names : List ResolvedLocalName} {values : List ResolvedExpr} {pieces : List Piece}
      {b b' : Builder}, globalPieces ctx span names values b = .ok (pieces, b') →
      ∀ (s : S) (registers : Register → V),
        m.run pieces s registers = m.interleaved (names.map (·.name)) values s
  | [], values, pieces, b, b', h, s, registers => by
    cases values <;> cases h <;> rfl
  | name :: names, [], pieces, b, b', h, s, registers => by
    simp only [globalPieces, StateExcept.bind_eq_ok, StateExcept.pure_eq_ok] at h
    obtain ⟨register, b₁, -, -, b₂, -, rest, b₃, hrest, rfl, -⟩ := h
    have ih := run_globalPieces hrest (m.store none name.name m.nil s)
      (Function.update registers register m.nil)
    simpa [run, runPiece, interleaved] using ih
  | name :: names, value :: values, pieces, b, b', h, s, registers => by
    simp only [globalPieces, StateExcept.bind_eq_ok, StateExcept.pure_eq_ok] at h
    obtain ⟨register, b₁, -, -, b₂, -, rest, b₃, hrest, rfl, -⟩ := h
    have ih := run_globalPieces hrest
      (m.store none name.name (m.single value s).1 (m.single value s).2)
      (Function.update registers register (m.single value s).1)
    simpa [run, runPiece, interleaved] using ih

/-! ### The multiple assignment -/

/-- The values of a list of expressions: one of each, and all of the last one if it is open. -/
def evaluateAll : List ResolvedExpr → S → List V × S
  | [], s => ([], s)
  | [value], s =>
    if isOpenExpression value then m.evaluate value s
    else ([(m.single value s).1], (m.single value s).2)
  | value :: values, s =>
    let rest := evaluateAll values (m.single value s).2
    ((m.single value s).1 :: rest.1, rest.2)

/-- Store values in names, in order; a name without a value gets nil. -/
def storeAll (environment : Option BindingId) : List (List UInt8) → List V → S → S
  | [], _, s => s
  | name :: names, values, s =>
    storeAll environment names values.tail
      (m.store environment name (values.headD m.nil) s)

/-- `n₁, ..., nₖ = e₁, ..., eₘ`: evaluate everything, adjust the values to the names, and store
    them in the fields of the environment. -/
def multipleAssignment (environment : Option BindingId) (names : List (List UInt8))
    (values : List ResolvedExpr) (s : S) : S :=
  m.storeAll environment names (m.evaluateAll values s).1 (m.evaluateAll values s).2

/-- Names without values. -/
theorem interleaved_nil (names : List (List UInt8)) (s : S) :
    m.interleaved names [] s = m.storeAll none names [] s := by
  induction names generalizing s with
  | nil => rfl
  | cons name names ih => exact ih _

/-- One expression, which is not expanded. -/
theorem interleaved_one {value : ResolvedExpr} {names : List (List UInt8)} {name : List UInt8}
    (h : names = [] ∨ isOpenExpression value = false) (s : S) :
    m.interleaved (name :: names) [value] s
      = m.multipleAssignment none (name :: names) [value] s := by
  have hcode : m.interleaved (name :: names) [value] s
      = m.storeAll none names [] (m.store none name (m.single value s).1 (m.single value s).2) :=
    m.interleaved_nil names _
  rw [hcode]
  by_cases hopen : isOpenExpression value = true
  · -- the only name takes the first value
    obtain rfl := h.resolve_right (by simp [hopen])
    simp [multipleAssignment, evaluateAll, storeAll, hopen, single]
  · simp [multipleAssignment, evaluateAll, storeAll, hopen]

end Meaning

/-! ### Telling the two apart -/

/-- What happens in a run. -/
inductive Event where
  | evaluated
  | stored (environment : Option BindingId) (value : Nat)

/-- Every expression has the values 1 and 1, nil is 0, and the state is a record of events. -/
def record : Meaning (List Event) Nat where
  nil := 0
  evaluate _ events := ([1, 1], events ++ [.evaluated])
  store environment _ value events := events ++ [.stored environment value]

@[simp] theorem record_store (environment : Option BindingId) (name : List UInt8) (value : Nat)
    (events : List Event) :
    record.store environment name value events = events ++ [.stored environment value] := rfl

@[simp] theorem record_single (value : ResolvedExpr) (events : List Event) :
    record.single value events = (1, events ++ [.evaluated]) := rfl

@[simp] theorem record_nil : record.nil = 0 := rfl

theorem interleaved_record (names : List (List UInt8)) (values : List ResolvedExpr)
    (events : List Event) : ∃ more, record.interleaved names values events = events ++ more := by
  induction names generalizing values events with
  | nil => exact ⟨[], by simp [Meaning.interleaved]⟩
  | cons name names ih =>
    cases values with
    | nil =>
      obtain ⟨more, hmore⟩ := ih [] (events ++ [.stored none 0])
      exact ⟨.stored none 0 :: more, by simp [Meaning.interleaved, hmore]⟩
    | cons value values =>
      obtain ⟨more, hmore⟩ := ih values (events ++ [.evaluated, .stored none 1])
      exact ⟨.evaluated :: .stored none 1 :: more, by simp [Meaning.interleaved, hmore]⟩

theorem storeAll_record (environment : Option BindingId) (names : List (List UInt8))
    (values : List Nat) (events : List Event) :
    ∃ more, record.storeAll environment names values events = events ++ more := by
  induction names generalizing values events with
  | nil => exact ⟨[], by simp [Meaning.storeAll]⟩
  | cons name names ih =>
    obtain ⟨more, hmore⟩ := ih values.tail (events ++ [.stored environment (values.head?.getD 0)])
    exact ⟨.stored environment (values.head?.getD 0) :: more, by simp [Meaning.storeAll, hmore]⟩

/-- All expressions are evaluated before the first store. -/
theorem evaluateAll_record (values : List ResolvedExpr) (events : List Event) :
    (record.evaluateAll values events).2 = events ++ List.replicate values.length .evaluated := by
  induction values generalizing events with
  | nil => simp [Meaning.evaluateAll]
  | cons value values ih =>
    cases values with
    | nil =>
      by_cases hopen : isOpenExpression value = true
      · simp [Meaning.evaluateAll, hopen, record]
      · simp [Meaning.evaluateAll, hopen]
    | cons value' values =>
      simp only [Meaning.evaluateAll, record_single, ih]
      simp [List.replicate_succ]

/-- With more than one expression, the second event is a store in one record and an evaluation in
    the other. -/
theorem record_differs {environment : Option BindingId} {name : List UInt8}
    {names : List (List UInt8)} {value value' : ResolvedExpr} {values : List ResolvedExpr} :
    record.interleaved (name :: names) (value :: value' :: values) []
      ≠ record.multipleAssignment environment (name :: names) (value :: value' :: values) [] := by
  obtain ⟨more, hmore⟩ := interleaved_record names (value' :: values) [.evaluated, .stored none 1]
  obtain ⟨stores, hstores⟩ := storeAll_record environment (name :: names)
    (record.evaluateAll (value :: value' :: values) []).1
    ([] ++ List.replicate (value :: value' :: values).length .evaluated)
  have hcode : record.interleaved (name :: names) (value :: value' :: values) []
      = .evaluated :: .stored none 1 :: more := hmore
  rw [Meaning.multipleAssignment, evaluateAll_record, hcode, hstores]
  simp [List.replicate_succ]

/-- With one expression, the first two stores tell whether it is expanded, and where they go. -/
theorem eq_of_record_one {environment : Option BindingId} {name : List UInt8}
    {names : List (List UInt8)} {value : ResolvedExpr}
    (h : record.interleaved (name :: names) [value] []
      = record.multipleAssignment environment (name :: names) [value] []) :
    environment = none ∧ (names = [] ∨ isOpenExpression value = false) := by
  have hvalues : record.evaluateAll [value] []
      = (if isOpenExpression value then [1, 1] else [1], [.evaluated]) := by
    by_cases hopen : isOpenExpression value = true
    · simp [Meaning.evaluateAll, hopen, record]
    · simp [Meaning.evaluateAll, hopen]
  rw [Meaning.multipleAssignment, hvalues] at h
  cases names with
  | nil =>
    have henv : environment = none := by
      by_cases hopen : isOpenExpression value = true
      all_goals
        simp [Meaning.interleaved, Meaning.storeAll, hopen] at h
        exact h.symm
    exact ⟨henv, .inl rfl⟩
  | cons name' names =>
    obtain ⟨more, hmore⟩ := interleaved_record names []
      [.evaluated, .stored none 1, .stored none 0]
    by_cases hopen : isOpenExpression value = true
    · obtain ⟨stores, hstores⟩ := storeAll_record environment names []
        [.evaluated, .stored environment 1, .stored environment 1]
      simp [Meaning.interleaved, Meaning.storeAll, hopen, hmore, hstores] at h
    · obtain ⟨stores, hstores⟩ := storeAll_record environment names []
        [.evaluated, .stored environment 1, .stored environment 0]
      simp [Meaning.interleaved, Meaning.storeAll, hopen, hmore, hstores] at h
      exact ⟨h.1.symm, .inr (by simpa using hopen)⟩

/-! ### The main result -/

/-- A declaration behaves as a multiple assignment exactly if it has one initialiser, which is not
    an open expression unless there is only one name, and if no local `_ENV` hides the environment
    of the chunk. -/
theorem lowerGlobal_assigns_iff {ctx : BuilderContext} {span declared : Span}
    {name : ResolvedLocalName} {names : List ResolvedLocalName} {value : ResolvedExpr}
    {values : List ResolvedExpr} {access : Option Attribute} {b b' : Builder}
    (h : lowerGlobal ctx (.names (name :: names) (value :: values) access declared) span b
      = .ok ((), b')) (environment : Option BindingId) :
    ∃ pieces, globalPieces ctx span (name :: names) (value :: values) b = .ok (pieces, b')
      ∧ ((∀ (S V : Type) (m : Meaning S V) (s : S) (registers : Register → V),
            m.run pieces s registers = m.multipleAssignment environment
              ((name :: names).map (·.name)) (value :: values) s)
          ↔ environment = none ∧ values = []
            ∧ (names = [] ∨ isOpenExpression value = false)) := by
  have hpieces : lowerGlobalNames ctx span (name :: names) (value :: values) b = .ok ((), b') := h
  rw [lowerGlobalNames_eq_globalPieces, StateExcept.bind_eq_ok] at hpieces
  obtain ⟨pieces, b₁, hpieces, hdone⟩ := hpieces
  obtain ⟨-, rfl⟩ := StateExcept.pure_eq_ok.mp hdone
  refine ⟨pieces, hpieces, fun hall => ?_, ?_⟩
  · have hrecord := hall _ _ record [] fun _ => 0
    rw [record.run_globalPieces hpieces] at hrecord
    cases values with
    | nil =>
      obtain ⟨henv, hopen⟩ := eq_of_record_one hrecord
      exact ⟨henv, rfl, by simpa using hopen⟩
    | cons value' values => exact absurd hrecord record_differs
  · rintro ⟨rfl, rfl, hone⟩ S V m s registers
    rw [m.run_globalPieces hpieces]
    exact m.interleaved_one (by simpa using hone) s

/-- A global name in a declaration. -/
def sampleGlobal (index : UInt32) (name : UInt8) : ResolvedLocalName :=
  ⟨⟨rootFunction, index⟩, [name], none, ⟨0, 0⟩⟩

/-- A run that ends well ends with a builder. -/
theorem exists_of_isOk {m : Lower Unit} {b : Builder} (h : (m b).isOk = true) :
    ∃ b', m b = .ok ((), b') := by
  rcases hm : m b with e | ⟨⟨⟩, b'⟩
  · rw [hm] at h
    cases h
  · exact ⟨b', rfl⟩

/-- `global x = 1`. -/
theorem lowerGlobal_assigns_iff_one : ∃ b' pieces,
    lowerGlobal sampleContext (.names [sampleGlobal 3 120] [sampleOne] none ⟨0, 0⟩) ⟨0, 0⟩
        (emptyBuilder sampleContext) = .ok ((), b')
      ∧ globalPieces sampleContext ⟨0, 0⟩ [sampleGlobal 3 120] [sampleOne]
        (emptyBuilder sampleContext) = .ok (pieces, b')
      ∧ ∀ (S V : Type) (m : Meaning S V) (s : S) (registers : Register → V),
        m.run pieces s registers = m.multipleAssignment none [[120]] [sampleOne] s := by
  obtain ⟨b', hlower⟩ := exists_of_isOk (m := lowerGlobal sampleContext
    (.names [sampleGlobal 3 120] [sampleOne] none ⟨0, 0⟩) ⟨0, 0⟩) (b := emptyBuilder sampleContext)
    (by decide +kernel)
  obtain ⟨pieces, hpieces, hiff⟩ := lowerGlobal_assigns_iff hlower none
  exact ⟨b', pieces, hlower, hpieces, hiff.mpr ⟨rfl, rfl, .inl rfl⟩⟩

/-- Fields that hold numbers; an expression is a global or 1. -/
def fields : Meaning (List UInt8 → Nat) Nat where
  nil := 0
  evaluate value s := match value with
    | .name name _ _ => ([s name], s)
    | _ => ([1], s)
  store _ name value s := Function.update s name value

/-- `1, x`. -/
def sampleValues : List ResolvedExpr :=
  [sampleOne, .name [120] (.global ⟨rootFunction, 3⟩) ⟨0, 0⟩]

/-- `global x, y = 1, x`: where `x` and `y` are 0, the code leaves 1 in `y`, the assignment 0. -/
theorem not_assigns_sequential : ∃ b' pieces,
    lowerGlobal sampleContext
        (.names [sampleGlobal 3 120, sampleGlobal 4 121] sampleValues none ⟨0, 0⟩) ⟨0, 0⟩
        (emptyBuilder sampleContext) = .ok ((), b')
      ∧ globalPieces sampleContext ⟨0, 0⟩ [sampleGlobal 3 120, sampleGlobal 4 121] sampleValues
        (emptyBuilder sampleContext) = .ok (pieces, b')
      ∧ fields.run pieces (fun _ => 0) (fun _ => 0) [121] = 1
      ∧ fields.multipleAssignment none [[120], [121]] sampleValues (fun _ => 0) [121] = 0 := by
  obtain ⟨b', hlower⟩ := exists_of_isOk (m := lowerGlobal sampleContext
    (.names [sampleGlobal 3 120, sampleGlobal 4 121] sampleValues none ⟨0, 0⟩) ⟨0, 0⟩)
    (b := emptyBuilder sampleContext) (by decide +kernel)
  have hpieces : lowerGlobalNames sampleContext ⟨0, 0⟩ [sampleGlobal 3 120, sampleGlobal 4 121]
    sampleValues (emptyBuilder sampleContext) = .ok ((), b') := hlower
  rw [lowerGlobalNames_eq_globalPieces, StateExcept.bind_eq_ok] at hpieces
  obtain ⟨pieces, b₁, hpieces, hdone⟩ := hpieces
  obtain ⟨-, rfl⟩ := StateExcept.pure_eq_ok.mp hdone
  refine ⟨b₁, pieces, hlower, hpieces, ?_, by decide +kernel⟩
  rw [fields.run_globalPieces hpieces]
  decide +kernel

end RivetLua.Compiler
