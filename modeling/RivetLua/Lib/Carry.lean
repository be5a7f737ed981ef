import RivetLua.Lib.Follow

namespace Wire

/-!
# Readers that carry a store

A reader of a format with tables, counters or budgets carries them along: its state is the input
and a store.

* `Carrying`, `reading`, `storing` — readers with a store, and the two kinds of steps they take.
-/

/-- The number of unread bytes. -/
def unread {ε : Type} : Reader ε Nat := fun i => .ok (i.rest.length, i)

/-- A reader with a store. -/
abbrev Carrying (σ ε : Type) := StateT (Input × σ) (Except ε)

section Carrying

variable {σ ε α : Type}

/-- A step that reads. -/
def reading (r : Reader ε α) : Carrying σ ε α := fun s =>
  match r s.1 with
  | .ok (a, i) => .ok (a, i, s.2)
  | .error e => .error e

/-- A step on the store, which may look at the position. -/
def storing (f : Nat → σ → Except ε (α × σ)) : Carrying σ ε α := fun s =>
  match f s.1.location s.2 with
  | .ok (a, t) => .ok (a, s.1, t)
  | .error e => .error e

/-- Run a program `n` times. -/
def replicate (m : Carrying σ ε α) : Nat → Carrying σ ε (List α)
  | 0 => pure []
  | n + 1 => do
    let a ← m
    let as ← replicate m n
    pure (a :: as)

end Carrying

end Wire
