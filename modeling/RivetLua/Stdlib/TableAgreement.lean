import RivetLua.Stdlib.TableReference

namespace RivetLua.Stdlib.Table

open RivetLua.Core Machine Reference

/-!
# Stdlib — the list operations against `ltablib.c`

The machine has the dialogue of the C function: the same accesses, in the same order, whatever is
answered, and the same end.  `insert` and `remove` differ from it where the length is negative or
the last integer: the machine checks positions the C code lets through.

* `insertLoop_plays`, … — the stages of the machine have the loops of the C code;
* `concat_plays`, `unpack_plays`, `move_plays` — the operations that have the dialogue of the C
  function;
* `insert_plays`, `remove_plays` — the two that have a dialogue of their own.
-/

section Rules

variable {host : Host} {s s' : TableOpState} {a a' : Option Value}

theorem plays_next {d : Program} (h : s.advance host a = .ok (.next s' a'))
    (rest : Plays (tableOpStep host) s' a' d) : Plays (tableOpStep host) s a d :=
  .next (by rw [tableOpStep, h]) rest

theorem plays_ask {q : Question} {next : Value → Program}
    (h : s.advance host a = .ok (.ask s' q))
    (rest : ∀ value, Plays (tableOpStep host) s' (some value) (next value)) :
    Plays (tableOpStep host) s a (.ask q next) :=
  .ask (by rw [tableOpStep, h]) rest

theorem plays_done {outcome : Outcome} (h : s.advance host a = .ok (.done outcome)) :
    Plays (tableOpStep host) s a (.done outcome) :=
  .done (by rw [tableOpStep, h])

theorem plays_error {error : TableError} (h : s.advance host a = .error error) :
    Plays (tableOpStep host) s a (.done (.ofError error)) :=
  .done (by rw [tableOpStep, h])

/-- The stage every operation has once its length is there. -/
theorem advance_init (hstage : s.stage = .init) (a : Option Value) :
    s.advance host a = s.init host a := by
  rw [TableOpState.advance, hstage]

end Rules

/-! ### Loops -/

section Loops

variable {host : Host}

/-- Elements go up by one, and the value takes the place that is free. -/
theorem insertLoop_plays {s : TableOpState} (hstage : s.stage = .insertNext)
    (hfirst : 1 ≤ s.first) (hindex : s.index + 1 < 2 ^ 63) (a : Option Value) :
    Plays (tableOpStep host) s a
      (insertLoop s.table s.first (seti s.table s.first s.hold (returned [])) (s.index + 1)) := by
  induction hleft : (s.index + 1 - s.first).toNat generalizing s a with
  | zero =>
    have hend : s.index < s.first := by omega
    rw [insertLoop, if_neg (by omega)]
    have hwrite : s.advance host a = .ok (.ask { s with stage := .insertFinalDone }
        (.access (.set s.table s.first s.hold))) := by
      rw [TableOpState.advance, hstage]
      exact if_pos hend
    exact plays_ask hwrite fun _ => plays_done rfl
  | succ left ih =>
    have hmore : ¬ s.index < s.first := by omega
    rw [insertLoop, if_pos (by omega), add_sub_cancel_right]
    have hread : s.advance host a = .ok (.ask { s with stage := .insertGot }
        (.access (.get s.table s.index))) := by
      rw [TableOpState.advance, hstage]
      exact if_neg hmore
    refine plays_ask hread fun value => ?_
    have hwrite : TableOpState.advance host { s with stage := .insertGot } (some value)
        = .ok (.ask { s with removed := value, stage := .insertWrote }
          (.access (.set s.table (s.index + 1) value))) := by
      show (fit .panicked (s.index + 1) >>= _) = _
      rw [fit_of (by omega)]
      rfl
    refine plays_ask hwrite fun done => ?_
    have hnext : TableOpState.advance host { s with removed := value, stage := .insertWrote }
        (some done)
        = .ok (.next { s with removed := value, index := s.index - 1, stage := .insertNext }
          (some done)) := by
      show (fit .panicked (s.index - 1) >>= _) = _
      rw [fit_of (by omega)]
      rfl
    refine plays_next hnext ?_
    have hrest := @ih { s with removed := value, index := s.index - 1, stage := .insertNext } rfl
      hfirst (by show s.index - 1 + 1 < _; omega) (some done)
      (by show (s.index - 1 + 1 - s.first).toNat = left; omega)
    rwa [sub_add_cancel] at hrest

/-- Elements go down by one, and the last place becomes free. -/
theorem removeLoop_plays {s : TableOpState} (hstage : s.stage = .removeNext)
    (hlower : -2 ^ 63 ≤ s.index) (hlen : s.len < 2 ^ 63) (a : Option Value) :
    Plays (tableOpStep host) s a
      (removeLoop s.table s.len (fun pos => seti s.table pos .nil (returned [s.removed]))
        s.index) := by
  induction hleft : (s.len - s.index).toNat generalizing s a with
  | zero =>
    have hend : ¬ s.index < s.len := by omega
    rw [removeLoop, if_neg hend]
    have hwrite : s.advance host a = .ok (.ask { s with stage := .removeFinalDone }
        (.access (.set s.table s.index .nil))) := by
      rw [TableOpState.advance, hstage]
      exact if_neg hend
    exact plays_ask hwrite fun _ => plays_done rfl
  | succ left ih =>
    have hmore : s.index < s.len := by omega
    rw [removeLoop, if_pos hmore]
    have hread : s.advance host a = .ok (.ask { s with stage := .removeShiftGot }
        (.access (.get s.table (s.index + 1)))) := by
      rw [TableOpState.advance, hstage]
      show s.removeNext = _
      rw [TableOpState.removeNext, if_pos hmore, fit_of (by omega)]
      rfl
    refine plays_ask hread fun value => ?_
    have hwrite : TableOpState.advance host { s with stage := .removeShiftGot } (some value)
        = .ok (.ask { s with hold := value, stage := .removeShiftWrote }
          (.access (.set s.table s.index value))) := rfl
    refine plays_ask hwrite fun done => ?_
    have hnext : TableOpState.advance host { s with hold := value, stage := .removeShiftWrote }
        (some done)
        = .ok (.next { s with hold := value, index := s.index + 1, stage := .removeNext }
          (some done)) := by
      show (fit .panicked (s.index + 1) >>= _) = _
      rw [fit_of (by omega)]
      rfl
    refine plays_next hnext ?_
    exact @ih { s with hold := value, index := s.index + 1, stage := .removeNext } rfl
      (by show _ ≤ s.index + 1; omega) hlen (some done)
      (by show (s.len - (s.index + 1)).toNat = left; omega)

/-- The elements are read one after the other; the last is not passed. -/
theorem unpackLoop_plays {s : TableOpState} (hstage : s.stage = .unpackNext)
    (hindex : s.index ≤ s.last) (hlast : s.last < 2 ^ 63) (hlower : -2 ^ 63 ≤ s.index)
    (a : Option Value) :
    Plays (tableOpStep host) s a (unpackLoop s.table s.last s.index s.output) := by
  induction hleft : (s.last - s.index).toNat generalizing s a with
  | zero =>
    have hend : s.index = s.last := by omega
    rw [unpackLoop, if_neg (by omega), ← hend]
    have hread : s.advance host a = .ok (.ask { s with stage := .unpackGot }
        (.access (.get s.table s.index))) := by
      rw [TableOpState.advance, hstage]
      exact if_neg (by omega)
    refine plays_ask hread fun value => ?_
    have hdone : TableOpState.advance host { s with stage := .unpackGot } (some value)
        = .ok (.next { s with output := s.output ++ [value], stage := .unpackDone } none) := by
      exact if_pos hend
    exact plays_next hdone (plays_done rfl)
  | succ left ih =>
    rw [unpackLoop, if_pos (by omega)]
    have hread : s.advance host a = .ok (.ask { s with stage := .unpackGot }
        (.access (.get s.table s.index))) := by
      rw [TableOpState.advance, hstage]
      exact if_neg (by omega)
    refine plays_ask hread fun value => ?_
    have hnext : TableOpState.advance host { s with stage := .unpackGot } (some value)
        = .ok (.next { s with
          output := s.output ++ [value], index := s.index + 1, stage := .unpackNext } none) := by
      show (if s.index = s.last then _ else fit .arithmeticOverflow (s.index + 1) >>= _) = _
      rw [if_neg (by omega), fit_of (by omega)]
      rfl
    refine plays_next hnext ?_
    exact @ih { s with output := s.output ++ [value], index := s.index + 1, stage := .unpackNext }
      rfl (by show s.index + 1 ≤ s.last; omega) hlast (by show _ ≤ s.index + 1; omega) none
      (by show (s.last - (s.index + 1)).toNat = left; omega)

/-- The separator of a `concat`, nothing where none is given. -/
def TableOpState.Separates (host : Host) (s : TableOpState) (separator : List UInt8) : Prop :=
  (s.arg 1 = .nil ∧ separator = []) ∨ (s.arg 1 ≠ .nil ∧ host.text (s.arg 1) = some separator)

/-- Before an element, but not before the first one, the separator. -/
theorem advance_concatNext {s : TableOpState} (hstage : s.stage = .concatNext)
    {separator : List UInt8} (hseparator : s.Separates host separator) (hmore : s.index ≤ s.last)
    (a : Option Value) :
    s.advance host a = .ok (.ask
      { s with
        buffer := s.buffer ++ (if s.index ≠ s.first then separator else [])
        stage := .concatGot }
      (.access (.get s.table s.index))) := by
  rw [TableOpState.advance, hstage]
  show s.concatNext host a = _
  rw [TableOpState.concatNext, if_neg (by omega)]
  rcases hseparator with ⟨hnil, rfl⟩ | ⟨hsome, htext⟩
  · rw [if_neg fun h => h.2 hnil, ite_self]
    rfl
  · by_cases hfirst : s.index ≠ s.first
    · rw [if_pos ⟨hfirst, hsome⟩, htext, if_pos hfirst]
      rfl
    · rw [if_neg fun h => hfirst h.1, if_neg hfirst]
      rfl

/-- An element that has no text ends the operation. -/
theorem plays_concatGot_none {s : TableOpState} (hstage : s.stage = .concatGot) {value : Value}
    (htext : host.text value = none) : Plays (tableOpStep host) s (some value) rejected := by
  have herror : s.advance host (some value) = .error (.invalidValue s.index) := by
    rw [TableOpState.advance, hstage]
    show (Check.some? (host.text value) (TableError.invalidValue s.index) >>= _) = _
    rw [htext]
    rfl
  exact plays_error herror

/-- The text of an element goes to the buffer. -/
theorem advance_concatGot {s : TableOpState} (hstage : s.stage = .concatGot) {value : Value}
    {bytes : List UInt8} (htext : host.text value = some bytes)
    (hfits : fit .arithmeticOverflow (s.index + 1) = .ok (s.index + 1) ∨ s.index = s.last) :
    s.advance host (some value) = .ok (.next
      (if s.index = s.last then
        { s with buffer := s.buffer ++ bytes, stage := .concatDone }
      else
        { s with
          buffer := s.buffer ++ bytes
          index := s.index + 1
          stage := .concatNext }) none) := by
  rw [TableOpState.advance, hstage]
  show (Check.some? (host.text value) (TableError.invalidValue s.index) >>= _) = _
  rw [htext]
  by_cases hlast : s.index = s.last
  · rw [if_pos hlast]
    exact if_pos hlast
  · rw [if_neg hlast, Check.some?, Check.ok_bind, if_neg hlast,
      hfits.resolve_right hlast, Check.ok_bind]

/-- The elements are read one after the other, and each must be a string or a number.  The C code
    puts the separator behind an element, the machine before the next one. -/
theorem concatLoop_plays {s : TableOpState} (hstage : s.stage = .concatNext)
    {separator : List UInt8} (hseparator : s.Separates host separator)
    (hindex : s.first ≤ s.index) (hend : s.index ≤ s.last ∨ s.index = s.first)
    (hlower : -2 ^ 63 ≤ s.index) (hlast : s.last < 2 ^ 63) (a : Option Value) :
    Plays (tableOpStep host) s a (concatLoop host s.table separator s.last s.index
      (s.buffer ++ if s.index ≠ s.first then separator else [])) := by
  induction hleft : (s.last + 1 - s.index).toNat generalizing s a with
  | zero =>
    have hfirst : ¬ s.index ≠ s.first := by omega
    rw [concatLoop, if_neg (by omega), if_neg (by omega), if_neg hfirst, List.append_nil]
    have hdone : s.advance host a = .ok (.next { s with stage := .concatDone } a) := by
      rw [TableOpState.advance, hstage]
      exact if_pos (by omega)
    exact plays_next hdone (plays_done rfl)
  | succ left ih =>
    have hread := advance_concatNext hstage hseparator (by omega : s.index ≤ s.last) a
    -- at the last element the C code leaves its loop
    by_cases hlastone : s.index = s.last
    · rw [concatLoop, if_neg (by omega), if_pos hlastone]
      refine plays_ask hread fun value => ?_
      cases htext : host.text value with
      | none => exact plays_concatGot_none rfl htext
      | some bytes =>
        have hgot := @advance_concatGot host { s with
          buffer := s.buffer ++ (if s.index ≠ s.first then separator else [])
          stage := .concatGot } rfl _ _ htext (.inr hlastone)
        rw [if_pos hlastone] at hgot
        exact plays_next hgot (plays_done rfl)
    · rw [concatLoop, if_pos (by omega)]
      refine plays_ask hread fun value => ?_
      cases htext : host.text value with
      | none => exact plays_concatGot_none rfl htext
      | some bytes =>
        have hfits : fit .arithmeticOverflow (s.index + 1) = .ok (s.index + 1) :=
          fit_of (by omega)
        have hgot := @advance_concatGot host { s with
          buffer := s.buffer ++ (if s.index ≠ s.first then separator else [])
          stage := .concatGot } rfl _ _ htext (.inl hfits)
        rw [if_neg hlastone] at hgot
        refine plays_next hgot ?_
        have hrest := @ih { s with
            buffer := s.buffer ++ (if s.index ≠ s.first then separator else []) ++ bytes
            index := s.index + 1
            stage := .concatNext } rfl hseparator (by show s.first ≤ s.index + 1; omega)
          (.inl (by show s.index + 1 ≤ s.last; omega)) (by show _ ≤ s.index + 1; omega) hlast none
          (by show (s.last + 1 - (s.index + 1)).toNat = left; omega)
        have hbehind : s.index + 1 ≠ s.first := by omega
        rw [if_pos hbehind] at hrest
        exact hrest

/-- The ranges of a `move` fit. -/
structure TableOpState.Movable (s : TableOpState) : Prop where
  ordered : s.first ≤ s.last
  first : -2 ^ 63 ≤ s.first
  last : s.last < 2 ^ 63
  count : s.last - s.first + 1 < 2 ^ 63
  target : -2 ^ 63 ≤ s.target ∧ s.target + (s.last - s.first) < 2 ^ 63

/-- One element is moved. -/
theorem moveElement_plays {s : TableOpState} (hstage : s.stage = .moveNext) (h : s.Movable)
    (hindex : 0 ≤ s.index ∧ s.index ≤ s.last - s.first) {offset : Int}
    (hoffset : offset = if s.reverse then s.last - s.first - s.index else s.index)
    {next : Value → Program} (a : Option Value)
    (hrest : ∀ value done, Plays (tableOpStep host)
      { s with hold := value, index := s.index + 1, stage := .moveNext } (some done) (next value)) :
    Plays (tableOpStep host) s a (geti s.table (s.first + offset) fun value =>
      seti s.destination (s.target + offset) value (next value)) := by
  have hfirst := h.first
  have hlast := h.last
  have hcount := h.count
  have htarget := h.target
  have hrange : 0 ≤ offset ∧ offset ≤ s.last - s.first := by
    rw [hoffset]
    split <;> omega
  have hof : ∀ s' : TableOpState, s'.reverse = s.reverse → s'.first = s.first →
      s'.last = s.last → s'.index = s.index → s'.offset = .ok offset := by
    intro s' hr hf hl hi
    rw [TableOpState.offset, hr, hf, hl, hi, fit_of (by omega), Check.ok_bind, hoffset]
    split
    · exact fit_of (by omega)
    · rfl
  have hread : s.advance host a = .ok (.ask { s with stage := .moveGot }
      (.access (.get s.table (s.first + offset)))) := by
    rw [TableOpState.advance, hstage]
    show s.moveNext = _
    rw [TableOpState.moveNext, if_neg (by omega), fit_of (by omega), Check.ok_bind,
      if_neg (by omega), hof s rfl rfl rfl rfl, Check.ok_bind, fit_of (by omega)]
    rfl
  refine plays_ask hread fun value => ?_
  have hwrite : TableOpState.advance host { s with stage := .moveGot } (some value)
      = .ok (.ask { s with hold := value, stage := .moveWrote }
        (.access (.set s.destination (s.target + offset) value))) := by
    show (TableOpState.offset { s with stage := .moveGot } >>= _) = _
    rw [hof { s with stage := .moveGot } rfl rfl rfl rfl, Check.ok_bind]
    have hto : fit .argument (s.target + offset) = .ok (s.target + offset) := fit_of (by omega)
    show (fit .argument (s.target + offset) >>= _) = _
    rw [hto]
    rfl
  refine plays_ask hwrite fun done => ?_
  have hnext : TableOpState.advance host { s with hold := value, stage := .moveWrote } (some done)
      = .ok (.next { s with hold := value, index := s.index + 1, stage := .moveNext }
        (some done)) := by
    show (fit .panicked (s.index + 1) >>= _) = _
    rw [fit_of (by omega)]
    rfl
  exact plays_next hnext (hrest value done)

/-- When all elements are moved the destination is returned. -/
theorem moveDone_plays {s : TableOpState} (hstage : s.stage = .moveNext) (h : s.Movable)
    (hindex : s.last - s.first < s.index) (a : Option Value) :
    Plays (tableOpStep host) s a (returned [.object s.destination]) := by
  have hordered := h.ordered
  have hcount := h.count
  refine plays_done ?_
  rw [TableOpState.advance, hstage]
  show s.moveNext = _
  rw [TableOpState.moveNext, if_neg (by omega), fit_of (by omega), Check.ok_bind, if_pos hindex]
  rfl

theorem forwardLoop_plays {s : TableOpState} (hstage : s.stage = .moveNext) (h : s.Movable)
    (hreverse : s.reverse = false) (hindex : 0 ≤ s.index) (a : Option Value) :
    Plays (tableOpStep host) s a (forwardLoop s.table s.destination s.first s.target
      (s.last - s.first + 1) (returned [.object s.destination]) s.index) := by
  induction hleft : (s.last - s.first + 1 - s.index).toNat generalizing s a with
  | zero =>
    rw [forwardLoop, if_neg (by omega)]
    exact moveDone_plays hstage h (by omega) a
  | succ left ih =>
    rw [forwardLoop, if_pos (by omega)]
    refine moveElement_plays hstage h ⟨hindex, by omega⟩ (by rw [hreverse]; rfl) a
      fun value done => ?_
    exact @ih { s with hold := value, index := s.index + 1, stage := .moveNext } rfl
      ⟨h.ordered, h.first, h.last, h.count, h.target⟩ hreverse
      (by show 0 ≤ s.index + 1; omega) (some done)
      (by show (s.last - s.first + 1 - (s.index + 1)).toNat = left; omega)

theorem backwardLoop_plays {s : TableOpState} (hstage : s.stage = .moveNext) (h : s.Movable)
    (hreverse : s.reverse = true) (hindex : 0 ≤ s.index) (a : Option Value) :
    Plays (tableOpStep host) s a (backwardLoop s.table s.destination s.first s.target
      (returned [.object s.destination]) (s.last - s.first - s.index)) := by
  induction hleft : (s.last - s.first + 1 - s.index).toNat generalizing s a with
  | zero =>
    rw [backwardLoop, if_neg (by omega)]
    exact moveDone_plays hstage h (by omega) a
  | succ left ih =>
    rw [backwardLoop, if_pos (by omega)]
    refine moveElement_plays hstage h ⟨hindex, by omega⟩ (by rw [hreverse]; rfl) a
      fun value done => ?_
    have hrest := @ih { s with hold := value, index := s.index + 1, stage := .moveNext } rfl
      ⟨h.ordered, h.first, h.last, h.count, h.target⟩ hreverse
      (by show 0 ≤ s.index + 1; omega) (some done)
      (by show (s.last - s.first + 1 - (s.index + 1)).toNat = left; omega)
    rw [sub_sub]
    exact hrest

end Loops

/-! ### Arguments -/

section Arguments

variable {host : Host}

theorem checkinteger_ok {value : Value} {n : Int} (h : host.tableInteger value = .ok n)
    (next : Int → Program) : checkinteger host value next = next n := by
  rw [checkinteger, h]

theorem checkinteger_error {value : Value} {error : TableError}
    (h : host.tableInteger value = .error error) (next : Int → Program) :
    checkinteger host value next = rejected := by
  rw [checkinteger, h]

/-- An argument that is no integer is an argument error. -/
theorem tableInteger_error {value : Value} {error : TableError}
    (h : host.tableInteger value = .error error) : error = .argument := by
  unfold Host.tableInteger at h
  cases hn : ((host.number value).bind luaInteger).map Int64.toInt with
  | none =>
    rw [hn] at h
    cases h
    rfl
  | some n =>
    rw [hn] at h
    cases h

/-- The values of an optional integer, as the machine and as the C code read it. -/
inductive Optional (host : Host) (value : Value) (default : Int) : Prop
  | ok (n : Int) (h : TableOpState.optionalInteger host value default = .ok n)
      (hreference : ∀ next, optinteger host value default next = next n)
      (hrange : -2 ^ 63 ≤ default ∧ default < 2 ^ 63 → -2 ^ 63 ≤ n ∧ n < 2 ^ 63)
  | error (h : TableOpState.optionalInteger host value default = .error .argument)
      (hreference : ∀ next, optinteger host value default next = rejected)

theorem optional (host : Host) (value : Value) (default : Int) : Optional host value default := by
  by_cases hnil : value = .nil
  · refine .ok default (if_pos hnil) (fun next => if_pos hnil) id
  · cases hn : host.tableInteger value with
    | ok n =>
      refine .ok n ?_ (fun next => ?_) fun _ => Host.tableInteger_range hn
      · rw [TableOpState.optionalInteger, if_neg hnil, hn]
      · rw [optinteger, if_neg hnil, checkinteger_ok hn]
    | error error =>
      obtain rfl := tableInteger_error hn
      refine .error ?_ fun next => ?_
      · rw [TableOpState.optionalInteger, if_neg hnil, hn]
      · rw [optinteger, if_neg hnil, checkinteger_error hn]

section Reads

variable {s : TableOpState} {a : Option Value} {value : Value} {next : Int → Program}
  {move : Int → Except TableError TableOpMove}

/-- An integer argument is read, and the operation goes on with it. -/
theorem plays_checkinteger (hadvance : s.advance host a = host.tableInteger value >>= move)
    (hnext : ∀ n, -2 ^ 63 ≤ n ∧ n < 2 ^ 63 → s.advance host a = move n →
      Plays (tableOpStep host) s a (next n)) :
    Plays (tableOpStep host) s a (checkinteger host value next) := by
  cases hn : host.tableInteger value with
  | ok n =>
    rw [hn, Check.ok_bind] at hadvance
    rw [checkinteger_ok hn]
    exact hnext n (Host.tableInteger_range hn) hadvance
  | error error =>
    obtain rfl := tableInteger_error hn
    rw [hn] at hadvance
    rw [checkinteger_error hn]
    exact plays_error hadvance

/-- An optional integer argument is read, and the operation goes on with it. -/
theorem plays_optinteger {default : Int} (hdefault : -2 ^ 63 ≤ default ∧ default < 2 ^ 63)
    (hadvance : s.advance host a = TableOpState.optionalInteger host value default >>= move)
    (hnext : ∀ n, -2 ^ 63 ≤ n ∧ n < 2 ^ 63 → s.advance host a = move n →
      Plays (tableOpStep host) s a (next n)) :
    Plays (tableOpStep host) s a (optinteger host value default next) := by
  cases optional host value default with
  | error hn hreference =>
    rw [hn] at hadvance
    rw [hreference]
    exact plays_error hadvance
  | ok n hn hreference hrange =>
    rw [hn, Check.ok_bind] at hadvance
    rw [hreference]
    exact hnext n (hrange hdefault) hadvance

end Reads

/-- The length is an integer, or the operation is rejected. -/
theorem plays_afterLength {s : TableOpState} (hstage : s.stage = .afterLength)
    {next : Int → Program}
    (hnext : ∀ n, -2 ^ 63 ≤ n ∧ n < 2 ^ 63 →
      Plays (tableOpStep host) { s with len := n, stage := .init } none (next n)) (value : Value) :
    Plays (tableOpStep host) s (some value) (checkinteger host value next) := by
  have hadvance : s.advance host (some value) = host.tableInteger value >>= fun n =>
      .ok (.next { s with len := n, stage := .init } none) := by
    rw [TableOpState.advance, hstage]
    rfl
  exact plays_checkinteger hadvance fun n hn hadvance => plays_next hadvance (hnext n hn)

end Arguments

/-! ### concat and unpack -/

section Concat

variable {host : Host} {s : TableOpState}

theorem initConcat_plays (hstage : s.stage = .init) (hkind : s.kind = .concat)
    (hlen : -2 ^ 63 ≤ s.len ∧ s.len < 2 ^ 63) (a : Option Value) :
    Plays (tableOpStep host) s a (optlstring host (s.arg 1) fun separator =>
      optinteger host (s.arg 2) 1 fun i => optinteger host (s.arg 3) s.len fun last =>
        concatLoop host s.table separator last i s.buffer) := by
  have hadvance : s.advance host a = s.initConcat host a := by
    rw [advance_init hstage, TableOpState.init, hkind]
  -- with a separator the two integers are read, and the loop begins
  have hloop : ∀ separator, s.Separates host separator → Plays (tableOpStep host) s a
      (optinteger host (s.arg 2) 1 fun i => optinteger host (s.arg 3) s.len fun last =>
        concatLoop host s.table separator last i s.buffer) := by
    intro separator hseparator
    have hrequire : s.arg 1 = .nil ∨ (host.text (s.arg 1)).isSome := by
      rcases hseparator with ⟨hnil, -⟩ | ⟨-, htext⟩
      · exact .inl hnil
      · exact .inr (by rw [htext]; rfl)
    rw [TableOpState.initConcat, TableOpState.require, if_pos hrequire, Check.ok_bind] at hadvance
    refine plays_optinteger (by omega) hadvance fun first hfirst hadvance => ?_
    refine plays_optinteger hlen hadvance fun last hlast hadvance => ?_
    refine plays_next hadvance ?_
    have hplays := @concatLoop_plays host
      { s with first := first, last := last, index := first, stage := .concatNext } rfl
      separator hseparator (le_refl first) (.inr rfl) hfirst.1 hlast.2 a
    have hsame : ¬ first ≠ first := fun h => h rfl
    rw [if_neg hsame, List.append_nil] at hplays
    exact hplays
  unfold optlstring
  by_cases hnil : s.arg 1 = .nil
  · rw [if_pos hnil]
    exact hloop [] (.inl ⟨hnil, rfl⟩)
  · rw [if_neg hnil]
    cases htext : host.text (s.arg 1) with
    | some bytes => exact hloop bytes (.inr ⟨hnil, htext⟩)
    | none =>
      have hrequire : ¬ (s.arg 1 = .nil ∨ (host.text (s.arg 1)).isSome) := by
        rw [htext]
        simp [hnil]
      rw [TableOpState.initConcat, TableOpState.require, if_neg hrequire] at hadvance
      exact plays_error hadvance

theorem concat_plays (table : ObjectRef) (args : List Value) :
    Plays (tableOpStep host) (.new .concat table args) none (tconcat host table args) := by
  have hask : TableOpState.advance host (.new .concat table args) none
      = .ok (.ask { TableOpState.new .concat table args with stage := .afterLength }
        (.access (.length table))) := rfl
  refine plays_ask hask fun value => plays_afterLength rfl (fun n hn => ?_) value
  exact initConcat_plays rfl rfl hn none

end Concat

section Unpack

variable {host : Host} {s : TableOpState}

/-- The machine has room for as many results as its limit says. -/
def unpackRoom (n : Int) : Bool := decide (n ≤ TableOpState.unpackLimit)

/-- The range is empty, or as long as the room, or the operation is rejected. -/
theorem unpackRange_plays {first last : Int} (hfirst : -2 ^ 63 ≤ first ∧ first < 2 ^ 63)
    (hlast : -2 ^ 63 ≤ last ∧ last < 2 ^ 63) (houtput : s.output = []) {a : Option Value}
    (hadvance : s.advance host a = TableOpState.checkRange first last >>= fun _ =>
      .ok (.next { s with first := first, last := last, index := first, stage := .unpackNext }
        a)) :
    Plays (tableOpStep host) s a (unpackRange unpackRoom s.table first last) := by
  unfold TableOpState.checkRange at hadvance
  unfold unpackRange
  by_cases hempty : first > last
  · rw [if_neg (by omega), Check.ok_bind] at hadvance
    rw [if_pos hempty]
    have hdone : TableOpState.advance host
        { s with first := first, last := last, index := first, stage := .unpackNext } a
        = .ok (.next
          { s with first := first, last := last, index := first, stage := .unpackDone } a) :=
      if_pos hempty
    refine plays_next hadvance (plays_next hdone (plays_done ?_))
    show TableOpState.finish (.values s.output) = _
    rw [houtput]
    rfl
  · rw [if_pos (by omega)] at hadvance
    rw [if_neg hempty]
    have hunsigned : unsigned (last - first) = last - first :=
      Int.emod_eq_of_lt (by omega) (by omega)
    show Plays _ _ _ (if unsigned (last - first) ≥ 2 ^ 31 - 1
      ∨ unpackRoom (unsigned (last - first) + 1) = false then _ else _)
    rw [hunsigned]
    by_cases hroom : last - first + 1 ≤ 65535
    · have hroom' : unpackRoom (last - first + 1) = true := decide_eq_true hroom
      rw [fit_of (by omega), Check.ok_bind, fit_of (by omega), Check.ok_bind,
        TableOpState.require, if_pos ⟨by omega, hroom⟩, Check.ok_bind, TableOpState.require,
        if_pos (by omega), Check.ok_bind] at hadvance
      rw [if_neg (by rw [hroom']; simp; omega)]
      refine plays_next hadvance ?_
      have hplays := @unpackLoop_plays host
        { s with first := first, last := last, index := first, stage := .unpackNext } rfl
        (by show first ≤ last; omega) hlast.2 hfirst.1 a
      show Plays _ _ _ (unpackLoop s.table last first [])
      rw [← houtput]
      exact hplays
    · have hroom' : unpackRoom (last - first + 1) = false := decide_eq_false hroom
      rw [if_pos (.inr hroom')]
      have herror : s.advance host a = .error .argument := by
        rw [hadvance]
        unfold fit
        by_cases hfits : -2 ^ 63 ≤ last - first ∧ last - first < 2 ^ 63
        · rw [if_pos hfits, Check.ok_bind]
          by_cases hfits' : -2 ^ 63 ≤ last - first + 1 ∧ last - first + 1 < 2 ^ 63
          · rw [if_pos hfits', Check.ok_bind, TableOpState.require, if_neg fun h => hroom h.2]
            rfl
          · rw [if_neg hfits']
            rfl
        · rw [if_neg hfits]
          rfl
      exact plays_error herror

/-- The end of the range is read, and the range is unpacked. -/
theorem unpackEnd_plays {first : Int} (hfirst : -2 ^ 63 ≤ first ∧ first < 2 ^ 63)
    (hlen : -2 ^ 63 ≤ s.len ∧ s.len < 2 ^ 63) (houtput : s.output = []) {a : Option Value}
    (hadvance : s.advance host a
      = TableOpState.optionalInteger host (s.arg 2) s.len >>= fun last =>
        TableOpState.checkRange first last >>= fun _ => .ok (.next
          { s with first := first, last := last, index := first, stage := .unpackNext } a)) :
    Plays (tableOpStep host) s a (optinteger host (s.arg 2) s.len fun e =>
      unpackRange unpackRoom s.table first e) := by
  exact plays_optinteger hlen hadvance fun last hlast hadvance =>
    unpackRange_plays hfirst hlast houtput hadvance

theorem initUnpack54_plays (hprofile : host.profile = .lua54) (hstage : s.stage = .init)
    (hkind : s.kind = .unpack) (hfirst : -2 ^ 63 ≤ s.first ∧ s.first < 2 ^ 63)
    (hlen : -2 ^ 63 ≤ s.len ∧ s.len < 2 ^ 63) (houtput : s.output = []) (a : Option Value) :
    Plays (tableOpStep host) s a (optinteger host (s.arg 2) s.len fun e =>
      unpackRange unpackRoom s.table s.first e) := by
  have hadvance : s.advance host a = s.initUnpack host a := by
    rw [advance_init hstage, TableOpState.init, hkind]
  simp only [TableOpState.initUnpack, hprofile, Check.ok_bind] at hadvance
  exact unpackEnd_plays hfirst hlen houtput hadvance

theorem initUnpack55_plays (hprofile : host.profile = .lua55) (hstage : s.stage = .init)
    (hkind : s.kind = .unpack) (hlen : -2 ^ 63 ≤ s.len ∧ s.len < 2 ^ 63) (houtput : s.output = [])
    (a : Option Value) :
    Plays (tableOpStep host) s a (optinteger host (s.arg 1) 1 fun i =>
      optinteger host (s.arg 2) s.len fun e => unpackRange unpackRoom s.table i e) := by
  have hadvance : s.advance host a = s.initUnpack host a := by
    rw [advance_init hstage, TableOpState.init, hkind]
  rw [TableOpState.initUnpack, hprofile] at hadvance
  exact plays_optinteger (by omega) hadvance fun first hfirst hadvance =>
    unpackEnd_plays hfirst hlen houtput hadvance

/-- In the 5.4 library the first position is read before the length is asked for. -/
theorem unpack_plays (table : ObjectRef) (args : List Value) :
    Plays (tableOpStep host) (.new .unpack table args) none
      (tunpack host unpackRoom table args) := by
  unfold tunpack
  cases hprofile : host.profile with
  | lua55 =>
    have hask : TableOpState.advance host (.new .unpack table args) none
        = .ok (.ask { TableOpState.new .unpack table args with stage := .afterLength }
          (.access (.length table))) := by
      show TableOpState.start host (.new .unpack table args) none = _
      unfold TableOpState.start
      rw [hprofile]
      rfl
    refine plays_ask hask fun value => plays_afterLength rfl (fun n hn => ?_) value
    exact initUnpack55_plays hprofile rfl rfl hn rfl none
  | lua54 =>
    have hstart : TableOpState.advance host (.new .unpack table args) none
        = TableOpState.optionalInteger host (args.getD 1 .nil) 1 >>= fun first =>
          if args.getD 2 .nil = .nil then
            TableOpState.request
              { TableOpState.new .unpack table args with first := first, stage := .afterLength }
              (.length table)
          else .ok (.next
            { TableOpState.new .unpack table args with first := first, stage := .init } none) := by
      show TableOpState.start host (.new .unpack table args) none = _
      unfold TableOpState.start
      rw [hprofile]
      rfl
    cases optional host (args.getD 1 .nil) 1 with
    | error hfirst hreference =>
      rw [hfirst] at hstart
      simp only [hreference]
      exact plays_error hstart
    | ok first hfirst hreference hrange =>
      rw [hfirst, Check.ok_bind] at hstart
      simp only [hreference]
      by_cases hnil : args.getD 2 .nil = .nil
      · rw [if_pos hnil] at hstart
        rw [if_pos hnil]
        refine plays_ask hstart fun value => plays_afterLength rfl (fun n hn => ?_) value
        have hplays := @initUnpack54_plays host
          { TableOpState.new .unpack table args with first := first, len := n, stage := .init }
          hprofile rfl rfl (hrange (by omega)) hn rfl none
        change Plays _ _ _ (if args.getD 2 .nil = .nil then _ else _) at hplays
        rw [if_pos hnil] at hplays
        exact hplays
      · rw [if_neg hnil] at hstart
        rw [if_neg hnil]
        refine plays_next hstart ?_
        have hplays := @initUnpack54_plays host
          { TableOpState.new .unpack table args with first := first, stage := .init }
          hprofile rfl rfl (hrange (by omega)) (by show _ ≤ (0 : Int) ∧ (0 : Int) < _; omega) rfl
          none
        change Plays _ _ _ (if args.getD 2 .nil = .nil then _ else _) at hplays
        rw [if_neg hnil] at hplays
        exact hplays

end Unpack

/-! ### move -/

section Move

variable {host : Host} {s : TableOpState}

/-- The destination, as the machine and as the C code read it. -/
inductive Destination (host : Host) (s : TableOpState) : Prop
  | ok (tt : Option ObjectRef) (h : s.moveDestination host = .ok (tt.getD s.table))
      (hexplicit : decide (s.arg 4 ≠ Value.nil) = tt.isSome)
      (hreference : ∀ next, checkDestination host (s.arg 4) next = next tt)
  | error (h : s.moveDestination host = .error .argument)
      (hreference : ∀ next, checkDestination host (s.arg 4) next = rejected)

theorem destination (host : Host) (s : TableOpState) : Destination host s := by
  cases harg : s.arg 4 with
  | nil =>
    refine .ok none ?_ ?_ fun next => ?_
    · rw [TableOpState.moveDestination, harg]
      rfl
    · rw [harg]
      rfl
    · rw [harg]
      rfl
  | object o =>
    by_cases htable : host.isTable o = true
    · refine .ok (some o) ?_ ?_ fun next => ?_
      · rw [TableOpState.moveDestination, harg]
        exact if_pos htable
      · rw [harg]
        rfl
      · rw [harg]
        exact if_pos htable
    · refine .error ?_ fun next => ?_
      · rw [TableOpState.moveDestination, harg]
        exact if_neg htable
      · rw [harg]
        exact if_neg htable
  | _ =>
    refine .error ?_ fun next => ?_
    · rw [TableOpState.moveDestination, harg]
    · rw [harg]
      rfl

/-- The checks of the ranges are those of the C code. -/
theorem checkMove_eq {f e t : Int} (hf : -2 ^ 63 ≤ f ∧ f < 2 ^ 63) (he : -2 ^ 63 ≤ e ∧ e < 2 ^ 63)
    (ht : -2 ^ 63 ≤ t ∧ t < 2 ^ 63) (hordered : e ≥ f) :
    TableOpState.checkMove f e t
      = if (f > 0 ∨ e < 2 ^ 63 - 1 + f) ∧ t ≤ 2 ^ 63 - 1 - (e - f + 1) + 1 then .ok ()
        else .error .argument := by
  unfold TableOpState.checkMove
  rw [if_pos hordered]
  by_cases hmany : f > 0 ∨ e < 2 ^ 63 - 1 + f
  · rw [fit_of (by omega), Check.ok_bind, fit_of (by omega), Check.ok_bind]
    by_cases hwrap : t ≤ 2 ^ 63 - 1 - (e - f + 1) + 1
    · rw [if_pos ⟨hmany, hwrap⟩, fit_of (by omega)]
      rfl
    · rw [if_neg fun h => hwrap h.2, fit, if_neg (by omega)]
      rfl
  · rw [if_neg fun h => hmany h.1]
    by_cases hfits : -2 ^ 63 ≤ e - f ∧ e - f < 2 ^ 63
    · rw [fit_of hfits, Check.ok_bind]
      have hover : fit .argument (e - f + 1) = .error .argument := by
        rw [fit, if_neg (by omega)]
      rw [hover]
      rfl
    · rw [fit, if_neg hfits]
      rfl

/-- The elements are moved, whichever way. -/
theorem move_plays_of_reverse (hstage : s.stage = .moveNext) (h : s.Movable) (hindex : s.index = 0)
    (a : Option Value) :
    Plays (tableOpStep host) s a (if s.reverse = true then
        backwardLoop s.table s.destination s.first s.target (returned [.object s.destination])
          (s.last - s.first + 1 - 1)
      else
        forwardLoop s.table s.destination s.first s.target (s.last - s.first + 1)
          (returned [.object s.destination]) 0) := by
  by_cases hreverse : s.reverse = true
  · rw [if_pos hreverse]
    have hplays := @backwardLoop_plays host _ hstage h hreverse (by omega) a
    rw [hindex] at hplays
    have hstart : s.last - s.first - 0 = s.last - s.first + 1 - 1 := by omega
    rwa [hstart] at hplays
  · rw [if_neg hreverse]
    have hplays := @forwardLoop_plays host _ hstage h (Bool.not_eq_true _ ▸ hreverse)
      (by omega) a
    rwa [hindex] at hplays

/-- Both go down in the same cases. -/
theorem chooseWay_plays {s' : TableOpState} {tt : Option ObjectRef} (h : s'.Movable)
    (hreverse : s'.reverse = false) (hdestination : s'.destination = tt.getD s'.table)
    (hexplicit : s'.explicitDestination = tt.isSome) {a : Option Value}
    (hadvance : s.advance host a = s'.chooseWay host a) :
    Plays (tableOpStep host) s a (moveElements host s'.table tt s'.first s'.last s'.target) := by
  have hforward : Plays (tableOpStep host) { s' with index := 0, stage := .moveNext } a
      (forwardLoop s'.table (tt.getD s'.table) s'.first s'.target (s'.last - s'.first + 1)
        (returned [.object (tt.getD s'.table)]) 0) := by
    have hplays := @move_plays_of_reverse host { s' with index := 0, stage := .moveNext } rfl
      ⟨h.ordered, h.first, h.last, h.count, h.target⟩ rfl a
    rw [if_neg (by rw [hreverse]; exact Bool.false_ne_true)] at hplays
    rw [← hdestination]
    exact hplays
  have hbackward : Plays (tableOpStep host)
      { s' with index := 0, stage := .moveNext, reverse := true } a
      (backwardLoop s'.table (tt.getD s'.table) s'.first s'.target
        (returned [.object (tt.getD s'.table)]) (s'.last - s'.first + 1 - 1)) := by
    have hplays := @move_plays_of_reverse host
      { s' with index := 0, stage := .moveNext, reverse := true } rfl
      ⟨h.ordered, h.first, h.last, h.count, h.target⟩ rfl a
    rw [if_pos rfl] at hplays
    rw [← hdestination]
    exact hplays
  unfold TableOpState.chooseWay at hadvance
  unfold moveElements
  by_cases hoverlap : s'.target > s'.first ∧ s'.target ≤ s'.last
  · simp only [if_pos hoverlap] at hadvance
    have hways : ¬ (s'.target > s'.last ∨ s'.target ≤ s'.first) := by omega
    simp only [if_neg hways]
    cases tt with
    | none =>
      rw [if_pos (.inl hexplicit)] at hadvance
      exact plays_next hadvance hbackward
    | some o =>
      obtain rfl : s'.destination = o := hdestination
      simp only [compareEq]
      by_cases hsame : s'.table = s'.destination
      · rw [if_pos (.inr hsame)] at hadvance
        rw [if_pos hsame, if_pos trivial]
        exact plays_next hadvance hbackward
      · have hother : ¬ (s'.explicitDestination = false ∨ s'.table = s'.destination) := by
          rintro (hno | heq)
          · rw [hexplicit] at hno
            cases hno
          · exact hsame heq
        rw [if_neg hother] at hadvance
        rw [if_neg hsame]
        by_cases hevent : host.binaryEvent .eq (.object s'.table) (.object s'.destination) = .nil
        · rw [if_neg (not_not.mpr hevent)] at hadvance
          rw [if_pos hevent, if_neg Bool.false_ne_true]
          exact plays_next hadvance hforward
        · rw [if_pos hevent] at hadvance
          rw [if_neg hevent]
          refine plays_ask hadvance fun value => ?_
          have hcompared : TableOpState.advance host { s' with stage := .moveCompared }
              (some value) = .ok (.next { s' with
                reverse := isTruthy value, index := 0, stage := .moveNext } none) := rfl
          refine plays_next hcompared ?_
          exact @move_plays_of_reverse host
            { s' with reverse := isTruthy value, index := 0, stage := .moveNext } rfl
            ⟨h.ordered, h.first, h.last, h.count, h.target⟩ rfl none
  · simp only [if_neg hoverlap] at hadvance
    have hways : s'.target > s'.last ∨ s'.target ≤ s'.first := by omega
    simp only [if_pos hways]
    exact plays_next hadvance hforward

/-- With nothing to move the destination is returned. -/
theorem chooseWay_empty {s' : TableOpState} (hempty : s'.last < s'.first) {a : Option Value}
    (hadvance : s.advance host a = s'.chooseWay host a) :
    Plays (tableOpStep host) s a (returned [.object s'.destination]) := by
  have hoverlap : ¬ (s'.target > s'.first ∧ s'.target ≤ s'.last) := by omega
  simp only [TableOpState.chooseWay, if_neg hoverlap] at hadvance
  refine plays_next hadvance (plays_done ?_)
  exact if_pos hempty

theorem initMove_plays (hstage : s.stage = .init) (hkind : s.kind = .move)
    (hreverse : s.reverse = false) (a : Option Value) :
    Plays (tableOpStep host) s a (tmove host s.table s.args) := by
  have hadvance : s.advance host a = s.initMove host a := by
    rw [advance_init hstage, TableOpState.init, hkind]
  unfold TableOpState.initMove at hadvance
  show Plays _ _ _ (checkinteger host (s.arg 1) fun f => checkinteger host (s.arg 2) fun e =>
    checkinteger host (s.arg 3) fun t => checkDestination host (s.arg 4) fun tt => _)
  refine plays_checkinteger hadvance fun f hf' hadvance => ?_
  refine plays_checkinteger hadvance fun e he' hadvance => ?_
  refine plays_checkinteger hadvance fun t ht' hadvance => ?_
  cases destination host s with
  | error hdestination hreference =>
    rw [hdestination] at hadvance
    rw [hreference]
    exact plays_error hadvance
  | ok tt hdestination hexplicit hreference =>
  rw [hdestination, Check.ok_bind] at hadvance
  rw [hreference]
  by_cases hordered : e ≥ f
  · rw [if_pos hordered]
    rw [checkMove_eq hf' he' ht' hordered] at hadvance
    unfold argcheck
    by_cases hmany : f > 0 ∨ e < 2 ^ 63 - 1 + f
    · rw [if_pos hmany]
      by_cases hwrap : t ≤ 2 ^ 63 - 1 - (e - f + 1) + 1
      · rw [if_pos ⟨hmany, hwrap⟩, Check.ok_bind] at hadvance
        rw [if_pos hwrap]
        have hmovable : TableOpState.Movable
            { s with
              first := f
              last := e
              target := t
              explicitDestination := decide (s.arg 4 ≠ Value.nil)
              destination := tt.getD s.table } :=
          ⟨hordered, hf'.1, he'.2, by show e - f + 1 < 2 ^ 63; omega, ht'.1,
            by show t + (e - f) < 2 ^ 63; omega⟩
        exact chooseWay_plays hmovable hreverse rfl hexplicit hadvance
      · rw [if_neg fun h => hwrap h.2] at hadvance
        rw [if_neg hwrap]
        exact plays_error hadvance
    · rw [if_neg fun h => hmany h.1] at hadvance
      rw [if_neg hmany]
      exact plays_error hadvance
  · have hchecked : TableOpState.checkMove f e t = .ok () := if_neg hordered
    rw [hchecked, Check.ok_bind] at hadvance
    rw [if_neg hordered]
    exact chooseWay_empty (not_le.mp hordered) hadvance

theorem move_plays (table : ObjectRef) (args : List Value) :
    Plays (tableOpStep host) (.new .move table args) none (tmove host table args) := by
  have hstart : TableOpState.advance host (.new .move table args) none
      = .ok (.next { TableOpState.new .move table args with stage := .init } none) := rfl
  refine plays_next hstart ?_
  exact initMove_plays rfl rfl rfl none

end Move

/-! ### insert and remove -/

section Insert

variable {host : Host} {s : TableOpState}

/-- The dialogue of `insert` once the length is there. -/
def insertAfter (host : Host) (table : ObjectRef) (args : List Value) (n : Int) : Program :=
  if n + 1 < 2 ^ 63 then
    match args.length with
    | 2 =>
      argcheck (0 ≤ n) (seti table (n + 1) (args.getD 1 .nil) (returned []))
    | 3 =>
      checkinteger host (args.getD 1 .nil) fun pos =>
        argcheck (1 ≤ pos ∧ pos ≤ n + 1)
          (insertLoop table pos (seti table pos (args.getD 2 .nil) (returned [])) (n + 1))
    | _ => rejected
  else rejected

theorem initInsert_plays (hstage : s.stage = .init) (hkind : s.kind = .insert)
    (hlen : -2 ^ 63 ≤ s.len ∧ s.len < 2 ^ 63) (a : Option Value) :
    Plays (tableOpStep host) s a (insertAfter host s.table s.args s.len) := by
  have hadvance : s.advance host a = s.initInsert host a := by
    rw [advance_init hstage, TableOpState.init, hkind]
  unfold TableOpState.initInsert at hadvance
  unfold insertAfter
  by_cases hfits : s.len + 1 < 2 ^ 63
  · rw [fit_of (by omega), Check.ok_bind] at hadvance
    rw [if_pos hfits]
    have hloop : ∀ pos value, 1 ≤ pos → pos ≤ s.len + 1 →
        Plays (tableOpStep host)
          { s with first := pos, index := s.len, hold := value, stage := .insertNext } a
          (insertLoop s.table pos (seti s.table pos value (returned [])) (s.len + 1)) :=
      fun pos value hpos hend => @insertLoop_plays host
        { s with first := pos, index := s.len, hold := value, stage := .insertNext } rfl hpos
        hfits a
    match hcount : s.args.length with
    | 2 =>
      simp only [hcount, Check.ok_bind] at hadvance
      unfold argcheck
      by_cases hn : 0 ≤ s.len
      · rw [TableOpState.require, if_pos (by omega), Check.ok_bind] at hadvance
        rw [if_pos hn]
        refine plays_next hadvance ?_
        have hplays := hloop (s.len + 1) (s.arg 1) (by omega) (le_refl _)
        rw [insertLoop, if_neg (lt_irrefl _)] at hplays
        exact hplays
      · rw [TableOpState.require, if_neg (by omega)] at hadvance
        rw [if_neg hn]
        exact plays_error hadvance
    | 3 =>
      simp only [hcount] at hadvance
      show Plays _ _ _ (checkinteger host (s.arg 1) _)
      refine plays_checkinteger hadvance fun pos hrange hadvance => ?_
      unfold argcheck
      by_cases hin : 1 ≤ pos ∧ pos ≤ s.len + 1
      · rw [TableOpState.require, if_pos (by omega), Check.ok_bind] at hadvance
        rw [if_pos hin]
        exact plays_next hadvance (hloop pos (s.arg 2) hin.1 hin.2)
      · rw [TableOpState.require, if_neg (by omega)] at hadvance
        rw [if_neg hin]
        exact plays_error hadvance
    | 0 | 1 | count + 4 =>
      simp only [hcount] at hadvance
      exact plays_error hadvance
  · rw [fit, if_neg (by omega)] at hadvance
    rw [if_neg hfits]
    exact plays_error hadvance

theorem insert_plays (table : ObjectRef) (args : List Value) :
    Plays (tableOpStep host) (.new .insert table args) none
      (len host table fun n => insertAfter host table args n) := by
  have hask : TableOpState.advance host (.new .insert table args) none
      = .ok (.ask { TableOpState.new .insert table args with stage := .afterLength }
        (.access (.length table))) := rfl
  refine plays_ask hask fun value => plays_afterLength rfl (fun n hn => ?_) value
  exact initInsert_plays rfl rfl hn none

end Insert

section Remove

variable {host : Host} {s : TableOpState}

/-- The dialogue of `remove` once the length is there. -/
def removeAfter (host : Host) (table : ObjectRef) (args : List Value) (n : Int) : Program :=
  optinteger host (args.getD 1 .nil) n fun pos =>
    argcheck (pos = n ∨ (1 ≤ pos ∧ pos ≤ n + 1))
      (geti table pos fun result =>
        removeLoop table n (fun pos => seti table pos .nil (returned [result])) pos)

theorem initRemove_plays (hstage : s.stage = .init) (hkind : s.kind = .remove)
    (hlen : -2 ^ 63 ≤ s.len ∧ s.len < 2 ^ 63) (a : Option Value) :
    Plays (tableOpStep host) s a (removeAfter host s.table s.args s.len) := by
  have hadvance : s.advance host a = s.initRemove host a := by
    rw [advance_init hstage, TableOpState.init, hkind]
  unfold TableOpState.initRemove at hadvance
  show Plays _ _ _ (optinteger host (s.arg 1) s.len _)
  refine plays_optinteger hlen hadvance fun pos hrange hadvance => ?_
  unfold argcheck
  by_cases hin : pos = s.len ∨ (1 ≤ pos ∧ pos ≤ s.len + 1)
  · rw [TableOpState.require, if_pos (by omega), Check.ok_bind] at hadvance
    rw [if_pos hin]
    refine plays_next hadvance ?_
    have hread : TableOpState.advance host
        { s with first := pos, index := pos, stage := .removeInitial } a
        = .ok (.ask { s with first := pos, index := pos, stage := .removeGot }
          (.access (.get s.table pos))) := rfl
    refine plays_ask hread fun value => ?_
    have hgot : TableOpState.advance host
        { s with first := pos, index := pos, stage := .removeGot } (some value)
        = .ok (.next
          { s with first := pos, index := pos, removed := value, stage := .removeNext } none) :=
      rfl
    refine plays_next hgot ?_
    exact @removeLoop_plays host
      { s with first := pos, index := pos, removed := value, stage := .removeNext } rfl
      hrange.1 hlen.2 none
  · rw [TableOpState.require, if_neg (by omega)] at hadvance
    rw [if_neg hin]
    exact plays_error hadvance

theorem remove_plays (table : ObjectRef) (args : List Value) :
    Plays (tableOpStep host) (.new .remove table args) none
      (len host table fun n => removeAfter host table args n) := by
  have hask : TableOpState.advance host (.new .remove table args) none
      = .ok (.ask { TableOpState.new .remove table args with stage := .afterLength }
        (.access (.length table))) := rfl
  refine plays_ask hask fun value => plays_afterLength rfl (fun n hn => ?_) value
  exact initRemove_plays rfl rfl hn none

end Remove

end RivetLua.Stdlib.Table
