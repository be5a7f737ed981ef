import Mathlib.Data.List.Nodup
import RivetLua.Runtime.LedgerBooks
import RivetLua.Runtime.RootLeases
import RivetLua.Runtime.Roots

namespace RivetLua.Runtime.RootLeases

open RivetLua.Core StateProg Allocation Totals

/-!
# Runtime — what stands in the root table

A root stands from the operation that registers it to the one that ends it: the removal of its
identity, the end of its lease, or the end of the VM.  `standing` reads off a history which roots
stand.  The table of the code, with its swaps, its lazy compaction and the charges in two places,
is compared with that list after every operation.

* `chargeEntry_triple` — what the ledger is asked for a root, and what it keeps when it refuses;
* `Root`, `standing` — the roots that stand after a history;
* `World.Shows` — the table shows them; one lemma for each operation;
* `roots_integrity` — all operations, in any order.
-/

/-! ### What a root costs -/

/-- The token of a reservation, for the answer of the admission. -/
def tokenFor (external : Bool) (bytes : Nat) (answer : Option Nat) : Option Nat :=
  if bytes = 0 then none else if external then answer else some 1

theorem takeToken_token (external : Bool) (bytes : Nat) (attempt : Attempt)
    (answer : Option Nat) :
    Triple (fun books => books.external = external) (takeToken bytes attempt answer)
      (fun token _ => token = tokenFor external bytes answer) (fun _ _ => True) := by
  refine Triple.ite (fun hzero => Triple.return_of fun _ _ => (if_pos hzero).symm) (fun hzero => ?_)
  rw [tokenFor, if_neg hzero]
  refine Triple.bind (Q := fun token _ => token = if external then answer else some 1)
    (fun books h => ?_) ?_
  · unfold admission
    rw [h]
    cases (if external then answer else some 1) <;> rfl
  · intro token
    cases token with
    | none => exact fun _ _ => trivial
    | some token => exact Triple.return_of fun _ h => h

theorem publish_fields (bytes : Nat) (domain : Domain) (attempt : Attempt) (token : Option Nat) :
    Triple (fun _ => True) (publish bytes domain attempt token)
      (fun r _ => r = ⟨bytes, domain, attempt, token⟩) (fun _ _ => True) := by
  intro books _
  rw [publish, Prog.bind_apply_ok (Prog.get_apply books)]
  rcases hadd : books.state.addReserved bytes domain with e | state
  · trivial
  · rfl

/-- A reservation is for the bytes that were asked for. -/
theorem reserveAt_fields (external : Bool) (bytes : Nat) (domain : Domain)
    (point : Option FailPoint) (answer : Option Nat) :
    Triple (fun books => books.external = external) (reserveAt bytes domain point answer)
      (fun r _ => r.bytes = bytes ∧ r.domain = domain ∧ r.token = tokenFor external bytes answer)
      (fun _ _ => True) := by
  refine Triple.bind (Q := fun old books => old = books ∧ books.external = external)
    (fun books h => ⟨rfl, h⟩) ?_
  intro old
  refine Triple.ite (fun _ _ _ => trivial) (fun _ => ?_)
  refine Triple.ite (fun _ _ _ => trivial) (fun _ => ?_)
  refine Triple.ite (fun _ _ _ => trivial) (fun _ => ?_)
  refine Triple.ite (fun _ _ _ => trivial) (fun _ => ?_)
  refine Triple.ite (fun _ _ _ => trivial) (fun _ => ?_)
  refine Triple.ite (fun _ _ _ => trivial) (fun _ => ?_)
  refine Triple.bind (Q := fun _ (books : Books) => books.external = external)
    (fun books h => h.2) ?_
  intro _
  refine Triple.bind (takeToken_token external bytes _ answer) ?_
  intro token books htoken
  have hfields := publish_fields bytes domain ⟨old.state.nextOrdinal, domain, bytes, point⟩ token
    books trivial
  rcases hrun : publish bytes domain ⟨old.state.nextOrdinal, domain, bytes, point⟩ token books with
    ⟨_ | r, books'⟩
  · trivial
  · rw [hrun] at hfields
    obtain rfl := hfields
    exact ⟨rfl, rfl, htoken⟩

/-- The charge of a root. -/
def chargeFor (external : Bool) (bytes : Nat) (answer : Option Nat) : Charge :=
  ⟨bytes, .host, tokenFor external bytes answer⟩

section Books

variable {external : Bool} {ρ γ : Domain → Nat} {η : Nat × Nat → Nat}

theorem reserveAt_spec (bytes : Nat) (answer : Option Nat) :
    Triple (BooksAt external ρ γ η) (reserveAt bytes .host none answer)
      (fun r books => BooksAt.Reserved external ρ γ η r books
        ∧ (⟨r.bytes, r.domain, r.token⟩ : Charge) = chargeFor external bytes answer)
      (fun _ => BooksAt external ρ γ η) := by
  intro books h
  have hreserve := reserveAt_triple bytes .host none answer books h
  have hfields := reserveAt_fields external bytes .host none answer books h.1
  rcases hrun : reserveAt bytes .host none answer books with ⟨_ | r, books'⟩
  · rw [hrun] at hreserve
    exact hreserve
  · rw [hrun] at hreserve hfields
    obtain ⟨hbytes, hdomain, htoken⟩ := hfields
    refine ⟨hreserve, ?_⟩
    rw [hbytes, hdomain, htoken]
    rfl

/-- A root is charged for, or nothing changes. -/
theorem chargeEntry_triple (bytes : Nat) (answer : Option Nat) (room : Bool)
    (behind : List FailPoint) :
    Triple (BooksAt external ρ γ η) (chargeEntry bytes answer room behind)
      (fun charge books => charge = chargeFor external bytes answer
        ∧ BooksAt external ρ (fun d => γ d + charge.bytesIn d) (fun x => η x + charge.holds x) books)
      (fun _ => BooksAt external ρ γ η) := by
  refine Triple.bind (reserveAt_spec bytes answer) ?_
  intro r
  have hbehind : Keeps (BooksAt.Reserved external ρ γ η r) (do
      checkpointAt .rootReserve
      if room then List.forM behind checkpointAt
      else do
        recordFailure r.attempt .rustReserve
        Prog.fail .allocationFailed) := by
    refine Keeps.bind (checkpointAt_keeps _) fun _ => ?_
    refine Keeps.ite (Keeps.forM (fun point => checkpointAt_keeps point) behind) ?_
    exact Keeps.bind (Keeps.modify fun _ h => h.trace rfl rfl rfl) fun _ => Keeps.fail _
  intro books ⟨hreserved, hcharge⟩
  refine Triple.bind (Q := fun _ => BooksAt.Reserved external ρ γ η r)
    (Triple.onError (F := fun _ => BooksAt.Reserved external ρ γ η r) hbehind ?_) ?_ books hreserved
  · intro _ books h
    exact h.1.drop
  · intro _ books h
    obtain ⟨books', hcommit, hbooks⟩ := commitCharge_apply h.1
    rw [hcommit]
    exact ⟨hcharge, hbooks⟩

end Books

/-! ### The roots that stand -/

/-- A root that stands, and the charge that pays for it. -/
structure Root where
  id : RootId
  kind : RootKind
  object : ObjectRef
  lease : Option Nat
  charge : Charge
  deriving DecidableEq, Repr

/-- The entry of a root; the charge of a host root is in its lease. -/
def Root.entry (root : Root) : RootEntry :=
  ⟨root.id, root.kind, root.object, root.lease, if root.lease = none then some root.charge else none⟩

/-- The bytes of a host root. -/
def Layout.hostBytes (layout : Layout) : Nat :=
  layout.rootEntry + (layout.word * 2 + layout.rootLeaseState)

/-- The roots that stand after one more event. -/
def standAfter (layout : Layout) (external : Bool) (roots : List Root) : Event → List Root
  | (.add kind object answer _, .ok (.added id)) =>
    roots ++ [⟨id, kind, object, none, chargeFor external layout.rootEntry answer⟩]
  | (.addHost object answer _, .ok (.leased id lease)) =>
    roots ++ [⟨id, .host, object, some lease, chargeFor external layout.hostBytes answer⟩]
  | (.remove id, _) => roots.filter fun root => decide (root.id ≠ id)
  | (.deactivate lease, _) => roots.filter fun root => decide (root.lease ≠ some lease)
  | (.releaseAllOnVmDrop, _) => []
  | _ => roots

/-- The roots that stand after a history. -/
def standing (layout : Layout) (external : Bool) (history : List Event) : List Root :=
  history.foldl (standAfter layout external) []

/-- The identity that an event has given out. -/
def Event.issued : Event → Option RootId
  | (_, .ok (.added id)) => some id
  | (_, .ok (.leased id _)) => some id
  | _ => none

/-- What the other owners of the ledger hold. -/
structure Others where
  reserved : Domain → Nat
  committed : Domain → Nat
  held : Nat × Nat → Nat

/-- The books count what the others hold and what the roots cost. -/
def Ledgered (external : Bool) (others : Others) (roots : List Root) (books : Books) : Prop :=
  BooksAt external others.reserved
    (fun d => others.committed d + total (fun root => root.charge.bytesIn d) roots)
    (fun x => others.held x + total (fun root => root.charge.holds x) roots) books

/-- Histories: the operations on the table in any order, and between them the other owners may
    change what they hold. -/
inductive Run (layout : Layout) (external : Bool) : List Event → Others → World → Prop
  | new {others : Others} {books : Books} (vm : VmId) (h : Ledgered external others [] books) :
      Run layout external [] others (World.new vm books)
  | step {history : List Event} {others : Others} {w : World}
      (run : Run layout external history others w) (op : Op) :
      Run layout external (history ++ [(op, (w.step layout op).1)]) others (w.step layout op).2
  | elsewhere {history : List Event} {others others' : Others} {w : World} {books : Books}
      (run : Run layout external history others w)
      (h : Ledgered external others' (standing layout external history) books) :
      Run layout external history others' { w with books := books }

/-! ### The table shows what stands -/

/-- The active entries are those of the roots that stand, in any order; the charge of each is where
    the code looks for it, and an entry that is not active has none left. -/
structure World.Shows (external : Bool) (others : Others) (w : World) (roots : List Root) :
    Prop where
  visible : (w.roots.entries.filter (RootEntry.isActive w.leases)).Perm (roots.map Root.entry)
  nodup : (w.roots.entries.map RootEntry.id).Nodup
  own : ∀ entry ∈ w.roots.entries, entry.id.vm = w.roots.vm
  below : ∀ entry ∈ w.roots.entries, entry.id.sequence < w.roots.nextSequence
  known : ∀ entry ∈ w.roots.entries, ∀ lease, entry.lease = some lease → lease < w.leases.length
  ended : ∀ entry ∈ w.roots.entries, entry.isActive w.leases = false → entry.charge = none
  paid : ∀ root ∈ roots, ∀ lease, root.lease = some lease →
    w.leases[lease]? = some ⟨true, some root.charge⟩
  rooted : ∀ lease, leaseActive w.leases lease = true → ∃ root ∈ roots, root.lease = some lease
  single : ∀ root ∈ roots, ∀ root' ∈ roots, ∀ lease, root.lease = some lease →
    root'.lease = some lease → root = root'
  ledgered : Ledgered external others roots w.books

section Shows

variable {external : Bool} {others : Others} {w : World} {roots : List Root}

/-- A member of a list whose members differ in `f`, and the others. -/
theorem perm_cons_filter {α β : Type} [DecidableEq β] (f : α → β) {l : List α} {a : α}
    (hnodup : (l.map f).Nodup) (h : a ∈ l) :
    l.Perm (a :: l.filter fun b => decide (f b ≠ f a)) := by
  induction l with
  | nil => cases h
  | cons b l ih =>
    obtain ⟨hb, hl⟩ := List.nodup_cons.mp hnodup
    rcases List.mem_cons.mp h with rfl | hmem
    · rw [List.filter_cons_of_neg (by simp), List.filter_eq_self.mpr]
      intro c hc
      refine decide_eq_true fun heq => hb ?_
      exact List.mem_map.mpr ⟨c, hc, heq⟩
    · have hne : f b ≠ f a := fun heq => hb (heq ▸ List.mem_map_of_mem hmem)
      rw [List.filter_cons_of_pos (by simpa using hne)]
      exact ((ih hl hmem).cons b).trans (List.Perm.swap ..)

namespace World.Shows

/-- A root that stands has its entry in the table, and the entry is active. -/
theorem entry_mem (h : w.Shows external others roots) {root : Root} (hroot : root ∈ roots) :
    root.entry ∈ w.roots.entries ∧ root.entry.isActive w.leases = true :=
  List.mem_filter.mp (h.visible.mem_iff.mpr (List.mem_map_of_mem hroot))

/-- An active entry is that of a root that stands. -/
theorem root_of_active (h : w.Shows external others roots) {entry : RootEntry}
    (hentry : entry ∈ w.roots.entries) (hactive : entry.isActive w.leases = true) :
    ∃ root ∈ roots, root.entry = entry :=
  List.mem_map.mp (h.visible.mem_iff.mp (List.mem_filter.mpr ⟨hentry, hactive⟩))

/-- The roots that stand differ in their identities. -/
theorem roots_nodup (h : w.Shows external others roots) : (roots.map Root.id).Nodup := by
  have hids : ((roots.map Root.entry).map RootEntry.id).Nodup :=
    (h.visible.map _).nodup_iff.mp (h.nodup.sublist (List.filter_sublist.map _))
  rwa [List.map_map] at hids

/-- An entry that is not active is dropped. -/
theorem dropEnded (h : w.Shows external others roots) {entry : RootEntry}
    {rest : List RootEntry} (hperm : w.roots.entries.Perm (entry :: rest))
    (hended : entry.isActive w.leases = false) :
    { w with roots.entries := rest }.Shows external others roots := by
  have hmem : ∀ other ∈ rest, other ∈ w.roots.entries :=
    fun other hother => hperm.mem_iff.mpr (List.mem_cons_of_mem _ hother)
  have hvisible := (hperm.symm.filter (RootEntry.isActive w.leases)).trans h.visible
  rw [List.filter_cons_of_neg (by simp [hended])] at hvisible
  refine ⟨hvisible, ?_, ?_, ?_, ?_, ?_, h.paid, h.rooted, h.single, h.ledgered⟩
  · exact (List.nodup_cons.mp ((hperm.map _).nodup_iff.mp h.nodup)).2
  · exact fun other hother => h.own other (hmem other hother)
  · exact fun other hother => h.below other (hmem other hother)
  · exact fun other hother => h.known other (hmem other hother)
  · exact fun other hother => h.ended other (hmem other hother)

/-- The books without the charge of one root. -/
theorem ledgered_drop (h : w.Shows external others roots) {root : Root} {rest : List Root}
    (hperm : roots.Perm (root :: rest)) :
    Ledgered external others rest (w.books.dropCharge root.charge) := by
  refine BooksAt.dropCharge root.charge (h.ledgered.congr (fun _ => rfl) (fun d => ?_) fun x => ?_)
  · rw [total_perm hperm, total_cons]
    omega
  · rw [total_perm hperm, total_cons]
    omega

/-- The entry of a root without lease is dropped with its charge. -/
theorem dropPlain (h : w.Shows external others roots) {root : Root} {rest : List RootEntry}
    (hroot : root ∈ roots) (hlease : root.lease = none)
    (hperm : w.roots.entries.Perm (root.entry :: rest)) :
    { w with
      roots.entries := rest
      books := w.books.dropCharge root.charge }.Shows external others
        (roots.filter fun other => decide (other.id ≠ root.id)) := by
  have hroots := perm_cons_filter Root.id h.roots_nodup hroot
  have hmem : ∀ other ∈ rest, other ∈ w.roots.entries :=
    fun other hother => hperm.mem_iff.mpr (List.mem_cons_of_mem _ hother)
  have hvisible := ((hperm.symm.filter (RootEntry.isActive w.leases)).trans h.visible).trans
    (hroots.map Root.entry)
  rw [List.filter_cons_of_pos (h.entry_mem hroot).2] at hvisible
  refine ⟨hvisible.cons_inv, ?_, ?_, ?_, ?_, ?_, ?_, ?_, ?_, h.ledgered_drop hroots⟩
  · exact (List.nodup_cons.mp ((hperm.map _).nodup_iff.mp h.nodup)).2
  · exact fun other hother => h.own other (hmem other hother)
  · exact fun other hother => h.below other (hmem other hother)
  · exact fun other hother => h.known other (hmem other hother)
  · exact fun other hother => h.ended other (hmem other hother)
  · exact fun other hother => h.paid other (List.mem_filter.mp hother).1
  · -- the root that goes has no lease
    intro lease hactive
    obtain ⟨other, hother, hsome⟩ := h.rooted lease hactive
    refine ⟨other, (List.mem_cons.mp (hroots.mem_iff.mp hother)).resolve_left ?_, hsome⟩
    rintro rfl
    rw [hlease] at hsome
    cases hsome
  · exact fun other hother other' hother' =>
      h.single other (List.mem_filter.mp hother).1 other' (List.mem_filter.mp hother').1

end World.Shows

/-- One lease has ended. -/
theorem leaseActive_set {leases : List RootLeaseState} {lease : Nat} (hlt : lease < leases.length)
    (other : Nat) : leaseActive (leases.set lease ⟨false, none⟩) other
      = (leaseActive leases other && decide (other ≠ lease)) := by
  unfold leaseActive
  by_cases heq : other = lease
  · subst heq
    rw [List.getElem?_set_self hlt]
    simp
  · rw [List.getElem?_set_ne (Ne.symm heq)]
    simp [heq]

theorem isActive_set {leases : List RootLeaseState} {lease : Nat} (hlt : lease < leases.length)
    (entry : RootEntry) : entry.isActive (leases.set lease ⟨false, none⟩)
      = (entry.isActive leases && decide (entry.lease ≠ some lease)) := by
  unfold RootEntry.isActive
  cases entry.lease with
  | none => simp
  | some other => simp [leaseActive_set hlt]

namespace World.Shows

/-- **The end of a lease.** -/
theorem deactivate (h : w.Shows external others roots) (lease : Nat) :
    (w.deactivate lease).Shows external others
      (roots.filter fun root => decide (root.lease ≠ some lease)) := by
  have hkept : leaseActive w.leases lease = false →
      roots.filter (fun root => decide (root.lease ≠ some lease)) = roots := by
    intro hended
    refine List.filter_eq_self.mpr fun root hroot => decide_eq_true fun hlease => ?_
    rw [leaseActive, h.paid root hroot lease hlease] at hended
    cases hended
  rcases hstate : w.leases[lease]? with _ | state
  · rw [hkept (by rw [leaseActive, hstate]; rfl), World.deactivate, hstate]
    exact h
  by_cases hactive : state.active = true
  case neg =>
    rw [hkept (by rw [leaseActive, hstate]; simpa using hactive), World.deactivate, hstate]
    simp only [hactive, Bool.false_eq_true, if_false]
    exact h
  -- the lease is that of a root, which pays with the charge in it
  obtain ⟨root, hroot, hlease⟩ := h.rooted lease (by rw [leaseActive, hstate]; exact hactive)
  have hstate' := h.paid root hroot lease hlease
  have hlt : lease < w.leases.length := (List.getElem?_eq_some_iff.mp hstate').1
  have hroots := perm_cons_filter Root.id h.roots_nodup hroot
  have hothers : roots.filter (fun other => decide (other.id ≠ root.id))
      = roots.filter fun other => decide (other.lease ≠ some lease) := by
    refine List.filter_congr fun other hother => decide_eq_decide.mpr (not_congr ?_)
    constructor
    · intro hid
      rw [List.inj_on_of_nodup_map h.roots_nodup hother hroot hid, hlease]
    · intro hsome
      rw [h.single other hother root hroot lease hsome hlease]
  have hrun : w.deactivate lease = { w with
      leases := w.leases.set lease ⟨false, none⟩, books := w.books.dropCharge root.charge } := by
    rw [World.deactivate, hstate']
    rfl
  rw [hrun]
  refine ⟨?_, h.nodup, h.own, h.below, ?_, ?_, ?_, ?_, ?_, ?_⟩
  · show (w.roots.entries.filter (RootEntry.isActive (w.leases.set lease _))).Perm _
    have hsplit : w.roots.entries.filter (RootEntry.isActive (w.leases.set lease ⟨false, none⟩))
        = (w.roots.entries.filter (RootEntry.isActive w.leases)).filter
          fun entry => decide (entry.lease ≠ some lease) := by
      rw [List.filter_filter]
      refine List.filter_congr fun entry _ => ?_
      rw [isActive_set hlt, Bool.and_comm]
    have hfilter := h.visible.filter fun entry => decide (entry.lease ≠ some lease)
    rw [List.filter_map] at hfilter
    rw [hsplit]
    exact hfilter
  · intro entry hentry other hother
    rw [List.length_set]
    exact h.known entry hentry other hother
  · intro entry hentry hended
    rw [isActive_set hlt] at hended
    rcases Bool.eq_false_or_eq_true (entry.isActive w.leases) with hwas | hwas
    · -- an entry that this lease ends keeps its charge in the lease
      obtain ⟨other, -, rfl⟩ := h.root_of_active hentry hwas
      rw [hwas, Bool.true_and] at hended
      have hsome : other.lease = some lease := not_not.mp (of_decide_eq_false hended)
      simp [Root.entry, hsome]
    · exact h.ended entry hentry hwas
  · intro other hother lease' hsome
    obtain ⟨hmem, hne⟩ := List.mem_filter.mp hother
    have hne' : lease ≠ lease' := by
      rintro rfl
      exact of_decide_eq_true hne hsome
    rw [List.getElem?_set_ne hne']
    exact h.paid other hmem lease' hsome
  · intro lease' hactive'
    rw [leaseActive_set hlt, Bool.and_eq_true] at hactive'
    obtain ⟨other, hother, hsome⟩ := h.rooted lease' hactive'.1
    refine ⟨other, List.mem_filter.mpr ⟨hother, decide_eq_true fun heq => ?_⟩, hsome⟩
    rw [hsome] at heq
    exact of_decide_eq_true hactive'.2 (Option.some.inj heq)
  · exact fun other hother other' hother' =>
      h.single other (List.mem_filter.mp hother).1 other' (List.mem_filter.mp hother').1
  · rw [← hothers]
    exact h.ledgered_drop hroots

/-- The entry of a lease that has ended is not active. -/
theorem isActive_deactivate (lease : Nat) {entry : RootEntry} (hlease : entry.lease = some lease) :
    entry.isActive (w.deactivate lease).leases = false := by
  have hrun : leaseActive (w.deactivate lease).leases lease = false := by
    unfold World.deactivate
    rcases hstate : w.leases[lease]? with _ | state
    · rw [leaseActive, hstate]
      rfl
    · have hlt : lease < w.leases.length := (List.getElem?_eq_some_iff.mp hstate).1
      by_cases hactive : state.active = true
      · simp only [hactive, if_true]
        have hset := leaseActive_set hlt lease
        cases state.charge <;> simpa [World.dropCharge] using hset
      · simp only [hactive, Bool.false_eq_true, if_false]
        rw [leaseActive, hstate]
        simpa using hactive
  rw [RootEntry.isActive, hlease]
  exact hrun

/-- Ending a lease does not touch the table. -/
theorem deactivate_roots (w : World) (lease : Nat) (roots : RootSet) :
    { w with roots := roots }.deactivate lease = { w.deactivate lease with roots := roots } := by
  unfold World.deactivate
  rcases w.leases[lease]? with _ | ⟨_ | _, _ | charge⟩ <;> rfl

theorem roots_deactivate (w : World) (lease : Nat) : (w.deactivate lease).roots = w.roots := by
  unfold World.deactivate
  rcases w.leases[lease]? with _ | ⟨_ | _, _ | charge⟩ <;> rfl

/-- **An entry is taken out**, whatever its state: the root of its identity goes, and no other. -/
theorem releaseEntry (h : w.Shows external others roots) {entry : RootEntry}
    {rest : List RootEntry} (hperm : w.roots.entries.Perm (entry :: rest)) :
    ({ w with roots.entries := rest }.releaseEntry entry).Shows external others
      (roots.filter fun root => decide (root.id ≠ entry.id)) := by
  have hmem : entry ∈ w.roots.entries := hperm.mem_iff.mpr List.mem_cons_self
  -- the roots with this identity are those with this entry
  have hentry : ∀ root ∈ roots, root.id = entry.id → root.entry = entry :=
    fun root hroot hid =>
      List.inj_on_of_nodup_map h.nodup (h.entry_mem hroot).1 hmem hid
  cases hlease : entry.lease with
  | none =>
    have hactive : entry.isActive w.leases = true := by
      rw [RootEntry.isActive, hlease]
      rfl
    obtain ⟨root, hroot, rfl⟩ := h.root_of_active hmem hactive
    have hnone : root.lease = none := hlease
    have hcharge : root.entry.charge = some root.charge := if_pos hnone
    rw [World.releaseEntry, hlease, hcharge]
    exact h.dropPlain hroot hnone hperm
  | some lease =>
    have hended := isActive_deactivate (w := w) lease hlease
    have hdeactivated := h.deactivate lease
    have hcharge : entry.charge = none :=
      hdeactivated.ended entry (by rwa [roots_deactivate]) hended
    have hdropped := hdeactivated.dropEnded (by rwa [roots_deactivate]) hended
    have hroots : roots.filter (fun root => decide (root.id ≠ entry.id))
        = roots.filter fun root => decide (root.lease ≠ some lease) := by
      refine List.filter_congr fun root hroot => decide_eq_decide.mpr (not_congr ?_)
      constructor
      · intro hid
        rw [← hlease, ← hentry root hroot hid]
        rfl
      · intro hsome
        -- the lease is active, so the entry is that of a root, and a lease has one root only
        have hactive : entry.isActive w.leases = true := by
          rw [RootEntry.isActive, hlease, Option.all_some, leaseActive,
            h.paid root hroot lease hsome]
          rfl
        obtain ⟨other, hother, rfl⟩ := h.root_of_active hmem hactive
        rw [h.single root hroot other hother lease hsome hlease]
        rfl
    rw [World.releaseEntry, hlease, hcharge, hroots]
    show (World.deactivate { w with roots := _ } lease).Shows _ _ _
    rw [deactivate_roots]
    rw [roots_deactivate] at hdropped
    exact hdropped

/-- Taking an entry out does not touch the rest of the table. -/
theorem releaseEntry_roots (w : World) (entry : RootEntry) (roots : RootSet) :
    { w with roots := roots }.releaseEntry entry
      = { w.releaseEntry entry with roots := roots } := by
  unfold World.releaseEntry
  cases entry.lease with
  | none => cases entry.charge <;> rfl
  | some lease =>
    show (World.deactivate { w with roots := roots } lease).dropCharge _ = _
    rw [deactivate_roots]
    cases entry.charge <;> rfl

theorem roots_releaseEntry (w : World) (entry : RootEntry) :
    (w.releaseEntry entry).roots = w.roots := by
  unfold World.releaseEntry
  have hlease : (entry.lease.elim w w.deactivate).roots = w.roots := by
    cases entry.lease with
    | none => rfl
    | some lease => exact roots_deactivate w lease
  cases entry.charge with
  | none => exact hlease
  | some charge => exact hlease

/-- The ways `remove` can end. -/
theorem remove_cases (id : RootId) (w : World) :
    (id.vm ≠ w.roots.vm ∧ RootLeases.remove id w = (.error .wrongVm, w))
    ∨ (id.vm = w.roots.vm ∧ (∀ entry ∈ w.roots.entries, entry.id ≠ id)
      ∧ RootLeases.remove id w = (.error .staleRoot, w))
    ∨ ∃ index entry, id.vm = w.roots.vm ∧ w.roots.entries[index]? = some entry ∧ entry.id = id
      ∧ RootLeases.remove id w
        = (if entry.isActive w.leases then .ok entry.object else .error .staleRoot,
          { w with roots.entries := swapRemove w.roots.entries index }.releaseEntry entry) := by
  unfold RootLeases.remove
  by_cases hvm : id.vm = w.roots.vm
  case neg => exact .inl ⟨hvm, if_pos hvm⟩
  right
  rw [if_neg (not_not.mpr hvm)]
  rcases hfind : w.roots.entries.findIdx? fun entry => decide (entry.id = id) with _ | index
  · left
    simp only [hfind]
    refine ⟨hvm, fun entry hentry => ?_, trivial⟩
    exact of_decide_eq_false (List.findIdx?_eq_none_iff.mp hfind entry hentry)
  · right
    obtain ⟨hlt, hid, -⟩ := List.findIdx?_eq_some_iff_getElem.mp hfind
    have hget := List.getElem?_eq_getElem hlt
    refine ⟨index, _, hvm, hget, of_decide_eq_true hid, ?_⟩
    simp only [hfind, hget]
    split <;> rfl

/-- What `remove` answers for a root that stands, and for any other identity. -/
theorem remove_reply (h : w.Shows external others roots) (id : RootId) :
    (∃ root ∈ roots, root.id = id ∧ (RootLeases.remove id w).1 = .ok root.object)
    ∨ ((∀ root ∈ roots, root.id ≠ id) ∧ (RootLeases.remove id w).1
      = .error (if id.vm = w.roots.vm then .staleRoot else .wrongVm)) := by
  rcases remove_cases id w with
    ⟨hvm, hrun⟩ | ⟨hvm, hnone, hrun⟩ | ⟨index, entry, hvm, hget, hid, hrun⟩
  · right
    rw [hrun, if_neg hvm]
    refine ⟨fun root hroot hid => hvm ?_, rfl⟩
    rw [← hid]
    exact h.own root.entry (h.entry_mem hroot).1
  · right
    rw [hrun, if_pos hvm]
    exact ⟨fun root hroot => hnone root.entry (h.entry_mem hroot).1, rfl⟩
  · rw [hrun, if_pos hvm]
    have hmem := List.mem_of_getElem? hget
    by_cases hactive : entry.isActive w.leases = true
    · left
      obtain ⟨root, hroot, rfl⟩ := h.root_of_active hmem hactive
      exact ⟨root, hroot, hid, if_pos hactive⟩
    · right
      refine ⟨fun root hroot hsame => hactive ?_, if_neg hactive⟩
      have hentry := List.inj_on_of_nodup_map h.nodup (h.entry_mem hroot).1 hmem
        (hsame.trans hid.symm)
      rw [← hentry]
      exact (h.entry_mem hroot).2

/-- **`remove`** ends the root of this identity, and no other. -/
theorem remove (h : w.Shows external others roots) (id : RootId) :
    (RootLeases.remove id w).2.Shows external others
        (roots.filter fun root => decide (root.id ≠ id))
      ∧ (RootLeases.remove id w).2.roots.vm = w.roots.vm
      ∧ (RootLeases.remove id w).2.roots.nextSequence = w.roots.nextSequence := by
  -- without an entry of this identity nothing changes
  have hkept : (∀ entry ∈ w.roots.entries, entry.id ≠ id) →
      roots.filter (fun root => decide (root.id ≠ id)) = roots := fun hnone =>
    List.filter_eq_self.mpr fun root hroot =>
      decide_eq_true (hnone root.entry (h.entry_mem hroot).1)
  rcases remove_cases id w with
    ⟨hvm, hrun⟩ | ⟨hvm, hnone, hrun⟩ | ⟨index, entry, hvm, hget, hid, hrun⟩
  · rw [hrun, hkept fun entry hentry hid => hvm (hid ▸ h.own entry hentry)]
    exact ⟨h, rfl, rfl⟩
  · rw [hrun, hkept hnone]
    exact ⟨h, rfl, rfl⟩
  · have hreleased := h.releaseEntry (swapRemove_perm hget)
    rw [hid] at hreleased
    rw [hrun]
    dsimp only
    rw [roots_releaseEntry]
    exact ⟨hreleased, rfl, rfl⟩

/-- **`release_all_on_vm_drop`** ends every root. -/
theorem releaseAll (h : w.Shows external others roots) :
    w.releaseAllOnVmDrop.Shows external others [] := by
  unfold World.releaseAllOnVmDrop
  generalize hentries : w.roots.entries = entries
  induction entries generalizing w roots with
  | nil =>
    have hnil := h.visible
    rw [hentries, List.filter_nil, List.nil_perm, List.map_eq_nil_iff] at hnil
    subst hnil
    have hsame : { w with roots.entries := [] } = w := by rw [← hentries]
    rw [List.foldl_nil, hsame]
    exact h
  | cons entry rest ih =>
    have hreleased := h.releaseEntry (List.Perm.of_eq hentries)
    have hrest := ih hreleased (congrArg RootSet.entries (roots_releaseEntry ..))
    rw [roots_releaseEntry, releaseEntry_roots] at hrest
    rw [List.foldl_cons, releaseEntry_roots]
    exact hrest

theorem roots_releaseAll (w : World) :
    w.releaseAllOnVmDrop.roots = { w.roots with entries := [] } := by
  unfold World.releaseAllOnVmDrop
  have hfold : ∀ (entries : List RootEntry) (w : World),
      (entries.foldl World.releaseEntry w).roots = w.roots := by
    intro entries
    induction entries with
    | nil => exact fun _ => rfl
    | cons entry rest ih => exact fun w => (ih _).trans (roots_releaseEntry w entry)
  exact hfold _ _

/-- **`compact`** drops what does not stand. -/
theorem compact (h : w.Shows external others roots) : w.compact.Shows external others roots := by
  have hmem : ∀ entry ∈ w.compact.roots.entries, entry ∈ w.roots.entries :=
    fun entry hentry => (List.mem_filter.mp hentry).1
  refine ⟨?_, h.nodup.sublist (List.filter_sublist.map _), ?_, ?_, ?_, ?_, h.paid, h.rooted,
    h.single, h.ledgered⟩
  · have hvisible := h.visible
    rw [← List.filter_eq_self.mpr fun entry hentry => (List.mem_filter.mp hentry).2] at hvisible
    exact hvisible
  · exact fun entry hentry => h.own entry (hmem entry hentry)
  · exact fun entry hentry => h.below entry (hmem entry hentry)
  · exact fun entry hentry => h.known entry (hmem entry hentry)
  · exact fun entry hentry => h.ended entry (hmem entry hentry)

/-- The books with one root more. -/
theorem ledgered_push {root : Root} {books : Books}
    (h : BooksAt external others.reserved
      (fun d => others.committed d + total (fun root => root.charge.bytesIn d) roots
        + root.charge.bytesIn d)
      (fun x => others.held x + total (fun root => root.charge.holds x) roots
        + root.charge.holds x) books) :
    Ledgered external others (roots ++ [root]) books := by
  refine h.congr (fun _ => rfl) (fun d => ?_) fun x => ?_
  · rw [total_append, total_cons, total_nil]
    omega
  · rw [total_append, total_cons, total_nil]
    omega

/-- A new root, with or without a new lease. -/
theorem push (h : w.Shows external others roots) {root : Root} {more : List RootLeaseState}
    {books : Books} (hid : root.id = ⟨w.roots.vm, w.roots.nextSequence⟩)
    (hlease : (root.lease = none ∧ more = [])
      ∨ (root.lease = some w.leases.length ∧ more = [⟨true, some root.charge⟩]))
    (hbooks : Ledgered external others (roots ++ [root]) books) :
    ({ w with leases := w.leases ++ more, books := books }.push root.entry).Shows external others
      (roots ++ [root]) := by
  -- what was there keeps its lease
  have hold : ∀ entry ∈ w.roots.entries,
      entry.isActive (w.leases ++ more) = entry.isActive w.leases := by
    intro entry hentry
    unfold RootEntry.isActive
    cases hsome : entry.lease with
    | none => rfl
    | some lease =>
      rw [Option.all_some, Option.all_some, leaseActive, leaseActive,
        List.getElem?_append_left (h.known entry hentry lease hsome)]
  have hnew : root.entry.isActive (w.leases ++ more) = true := by
    rcases hlease with ⟨hnone, -⟩ | ⟨hsome, rfl⟩
    · rw [RootEntry.isActive, show root.entry.lease = none from hnone]
      rfl
    · rw [RootEntry.isActive, show root.entry.lease = some w.leases.length from hsome]
      simp [leaseActive]
  have hlt : ∀ other ∈ roots, ∀ lease, other.lease = some lease → lease < w.leases.length :=
    fun other hother lease hsome => (List.getElem?_eq_some_iff.mp (h.paid other hother lease hsome)).1
  have hlast : ∀ lease, root.lease = some lease →
      lease = w.leases.length ∧ more = [⟨true, some root.charge⟩] := by
    intro lease hsome
    rcases hlease with ⟨hnone, -⟩ | ⟨hlast, hmore⟩
    · rw [hnone] at hsome
      cases hsome
    · rw [hlast] at hsome
      exact ⟨(Option.some.inj hsome).symm, hmore⟩
  refine ⟨?_, ?_, ?_, ?_, ?_, ?_, ?_, ?_, ?_, hbooks⟩
  · show ((w.roots.entries ++ [root.entry]).filter (RootEntry.isActive (w.leases ++ more))).Perm _
    rw [List.filter_append, List.map_append, List.filter_congr hold,
      List.filter_cons_of_pos hnew]
    exact h.visible.append_right _
  · show ((w.roots.entries ++ [root.entry]).map RootEntry.id).Nodup
    rw [List.map_append, List.nodup_append]
    refine ⟨h.nodup, List.nodup_singleton _, ?_⟩
    rintro _ hold' _ hnew' rfl
    obtain ⟨entry, hentry, heq⟩ := List.mem_map.mp hold'
    have hlower := h.below entry hentry
    rw [heq, List.mem_singleton.mp hnew', show root.entry.id = root.id from rfl, hid] at hlower
    exact absurd hlower (lt_irrefl _)
  · intro entry hentry
    rcases List.mem_append.mp hentry with hmem | hmem
    · exact h.own entry hmem
    · rw [List.mem_singleton.mp hmem, show root.entry.id = root.id from rfl, hid]
      rfl
  · intro entry hentry
    rcases List.mem_append.mp hentry with hmem | hmem
    · exact lt_trans (h.below entry hmem) (Nat.lt_succ_self _)
    · rw [List.mem_singleton.mp hmem, show root.entry.id = root.id from rfl, hid]
      exact Nat.lt_succ_self _
  · intro entry hentry lease hsome
    show lease < (w.leases ++ more).length
    rw [List.length_append]
    rcases List.mem_append.mp hentry with hmem | hmem
    · exact Nat.lt_add_right _ (h.known entry hmem lease hsome)
    · rw [List.mem_singleton.mp hmem] at hsome
      obtain ⟨rfl, rfl⟩ := hlast lease hsome
      exact Nat.lt_succ_self _
  · intro entry hentry hended
    rcases List.mem_append.mp hentry with hmem | hmem
    · exact h.ended entry hmem ((hold entry hmem).symm.trans hended)
    · rw [List.mem_singleton.mp hmem] at hended
      exact absurd (hnew.symm.trans hended) (by decide)
  · intro other hother lease hsome
    show (w.leases ++ more)[lease]? = _
    rcases List.mem_append.mp hother with hmem | hmem
    · rw [List.getElem?_append_left (hlt other hmem lease hsome)]
      exact h.paid other hmem lease hsome
    · rw [List.mem_singleton.mp hmem] at hsome ⊢
      obtain ⟨rfl, rfl⟩ := hlast lease hsome
      exact List.getElem?_concat_length
  · intro lease hactive
    have hactive' : leaseActive (w.leases ++ more) lease = true := hactive
    by_cases hold' : lease < w.leases.length
    · rw [leaseActive, List.getElem?_append_left hold'] at hactive'
      obtain ⟨other, hother, hsome⟩ := h.rooted lease hactive'
      exact ⟨other, List.mem_append_left _ hother, hsome⟩
    · rcases hlease with ⟨-, rfl⟩ | ⟨hsome, rfl⟩
      · rw [List.append_nil, leaseActive, List.getElem?_eq_none (by omega)] at hactive'
        cases hactive'
      · have hbound : lease < (w.leases ++ [(⟨true, some root.charge⟩ : RootLeaseState)]).length := by
          by_contra hout
          rw [leaseActive, List.getElem?_eq_none (by omega)] at hactive'
          cases hactive'
        rw [List.length_append, List.length_singleton] at hbound
        refine ⟨root, List.mem_append_right _ (List.mem_singleton_self _), ?_⟩
        rw [hsome, show lease = w.leases.length by omega]
  · intro other hother other' hother' lease hsome hsome'
    rcases List.mem_append.mp hother with hmem | hmem <;>
      rcases List.mem_append.mp hother' with hmem' | hmem'
    · exact h.single other hmem other' hmem' lease hsome hsome'
    · rw [List.mem_singleton.mp hmem'] at hsome'
      exact absurd (hlt other hmem lease hsome) (by rw [(hlast lease hsome').1]; exact lt_irrefl _)
    · rw [List.mem_singleton.mp hmem] at hsome
      exact absurd (hlt other' hmem' lease hsome') (by rw [(hlast lease hsome).1]; exact lt_irrefl _)
    · rw [List.mem_singleton.mp hmem, List.mem_singleton.mp hmem']

end World.Shows

/-- A root that is refused: what does not stand is dropped, and the ledger counts what it has
    counted. -/
def World.Refused (external : Bool) (others : Others) (roots : List Root) (w w' : World) : Prop :=
  ∃ books, w' = { w.compact with books := books } ∧ Ledgered external others roots books

/-- The part of the ledger in a registration. -/
theorem ledger_triple (h : w.Shows external others roots) (bytes : Nat) (answer : Option Nat)
    (room : Bool) (behind : List FailPoint) :
    Triple (fun w' => w' = w.compact) (ledger (chargeEntry bytes answer room behind))
      (fun charge w' => charge = chargeFor external bytes answer
        ∧ ∃ books, w' = { w.compact with books := books }
          ∧ ∀ root : Root, root.charge = charge → Ledgered external others (roots ++ [root]) books)
      (fun _ w' => w.Refused external others roots w') := by
  rintro _ rfl
  have hcharge := chargeEntry_triple bytes answer room behind w.books h.ledgered
  unfold ledger Prog.focus
  rcases hrun : chargeEntry bytes answer room behind w.books with ⟨_ | charge, books⟩
  · rw [hrun] at hcharge
    simp only [World.compact, hrun]
    exact ⟨books, rfl, hcharge⟩
  · rw [hrun] at hcharge
    simp only [World.compact, hrun]
    refine ⟨hcharge.1, books, rfl, ?_⟩
    rintro root rfl
    exact World.Shows.ledgered_push hcharge.2

theorem nextId_triple (e : World → Prop) (roots : RootSet) :
    Triple e (Prog.ofExcept roots.nextId)
      (fun id w' => id = ⟨roots.vm, roots.nextSequence⟩ ∧ e w') (fun _ => e) := by
  unfold RootSet.nextId
  split
  · exact fun w' h => ⟨rfl, h⟩
  · exact fun w' h => h

/-- A registration that stops before the ledger is asked. -/
theorem World.Shows.refused (h : w.Shows external others roots) :
    w.Refused external others roots w.compact :=
  ⟨w.books, rfl, h.ledgered⟩

/-- **`add`** registers one root more, or is refused. -/
theorem add_triple (h : w.Shows external others roots) (layout : Layout) (kind : RootKind)
    (object : ObjectRef) (answer : Option Nat) (room : Bool) :
    Triple (fun w' => w' = w) (add layout kind object answer room)
      (fun id w' => id = ⟨w.roots.vm, w.roots.nextSequence⟩
        ∧ w'.Shows external others
          (roots ++ [⟨id, kind, object, none, chargeFor external layout.rootEntry answer⟩])
        ∧ w'.roots.vm = w.roots.vm ∧ w'.roots.nextSequence = w.roots.nextSequence + 1)
      (fun _ w' => w.Refused external others roots w') := by
  have hcompact := h.compact
  refine Triple.bind (Q := fun _ w' => w' = w.compact) ?_ fun _ => ?_
  · rintro _ rfl
    rfl
  refine Triple.bind (Q := fun w' w'' => w' = w.compact ∧ w'' = w.compact) (fun _ h => ⟨h, h⟩) ?_
  intro start
  refine Triple.of_pure fun hstart => ?_
  subst hstart
  refine Triple.bind ((nextId_triple _ _).conseq (fun _ h => h) (fun _ _ h => h) ?_) ?_
  · rintro _ _ rfl
    exact h.refused
  intro id
  refine Triple.of_pure fun hid => ?_
  subst hid
  refine Triple.bind (ledger_triple h layout.rootEntry answer room []) ?_
  rintro charge _ ⟨rfl, books, rfl, hbooks⟩
  let root : Root := ⟨⟨w.roots.vm, w.roots.nextSequence⟩, kind, object, none,
    chargeFor external layout.rootEntry answer⟩
  have hpush := @World.Shows.push _ _ _ _ hcompact root [] books rfl (.inl ⟨rfl, rfl⟩)
    (hbooks root rfl)
  rw [List.append_nil] at hpush
  exact ⟨rfl, hpush, rfl, rfl⟩

theorem hostRoot_triple (e : World → Prop) (layout : Layout) :
    Triple e (Prog.ofExcept layout.hostRoot)
      (fun bytes w' => bytes = layout.hostBytes ∧ e w') (fun _ => e) := by
  unfold Layout.hostRoot
  split
  · exact fun _ h => h
  split
  · exact fun _ h => h
  split
  · exact fun _ h => h
  · exact fun _ h => ⟨rfl, h⟩

/-- **`add_host`** registers one root more, with a lease of its own, or is refused. -/
theorem addHost_triple (h : w.Shows external others roots) (layout : Layout)
    (object : ObjectRef) (answer : Option Nat) (room : Bool) :
    Triple (fun w' => w' = w) (addHost layout object answer room)
      (fun reply w' => reply.1 = ⟨w.roots.vm, w.roots.nextSequence⟩
        ∧ w'.Shows external others
          (roots ++ [⟨reply.1, .host, object, some reply.2,
            chargeFor external layout.hostBytes answer⟩])
        ∧ w'.roots.vm = w.roots.vm ∧ w'.roots.nextSequence = w.roots.nextSequence + 1)
      (fun _ w' => w.Refused external others roots w') := by
  have hcompact := h.compact
  refine Triple.bind (Q := fun _ w' => w' = w.compact) ?_ fun _ => ?_
  · rintro _ rfl
    rfl
  refine Triple.bind (Q := fun w' w'' => w' = w.compact ∧ w'' = w.compact) (fun _ h => ⟨h, h⟩) ?_
  intro start
  refine Triple.of_pure fun hstart => ?_
  subst hstart
  refine Triple.bind ((nextId_triple _ _).conseq (fun _ h => h) (fun _ _ h => h) ?_) ?_
  · rintro _ _ rfl
    exact h.refused
  intro id
  refine Triple.of_pure fun hid => ?_
  subst hid
  refine Triple.bind ((hostRoot_triple _ layout).conseq (fun _ h => h) (fun _ _ h => h) ?_) ?_
  · rintro _ _ rfl
    exact h.refused
  intro bytes
  refine Triple.of_pure fun hbytes => ?_
  subst hbytes
  refine Triple.bind (ledger_triple h layout.hostBytes answer room [.hostLease]) ?_
  rintro charge _ ⟨rfl, books, rfl, hbooks⟩
  let root : Root := ⟨⟨w.roots.vm, w.roots.nextSequence⟩, .host, object, some w.leases.length,
    chargeFor external layout.hostBytes answer⟩
  have hpush := @World.Shows.push _ _ _ _ hcompact root _ books rfl (.inr ⟨rfl, rfl⟩)
    (hbooks root rfl)
  exact ⟨rfl, hpush, rfl, rfl⟩

/-- Other books that count the same roots. -/
theorem World.Shows.of_books (h : w.Shows external others roots) {others' : Others} {books : Books}
    (hbooks : Ledgered external others' roots books) :
    { w with books := books }.Shows external others' roots :=
  ⟨h.visible, h.nodup, h.own, h.below, h.known, h.ended, h.paid, h.rooted, h.single, hbooks⟩

theorem World.Refused.shows (h : w.Shows external others roots) {w' : World}
    (hrefused : w.Refused external others roots w') : w'.Shows external others roots := by
  obtain ⟨books, rfl, hbooks⟩ := hrefused
  exact h.compact.of_books hbooks

/-! ### Every operation -/

/-- What one operation does to the roots that stand and to the identities. -/
structure Followed (layout : Layout) (external : Bool) (others : Others) (roots : List Root)
    (w : World) (op : Op) (outcome : Outcome) : Prop where
  shows : outcome.2.Shows external others (standAfter layout external roots (op, outcome.1))
  vm : outcome.2.roots.vm = w.roots.vm
  issued : (Event.issued (op, outcome.1) = none
      ∧ outcome.2.roots.nextSequence = w.roots.nextSequence)
    ∨ (Event.issued (op, outcome.1) = some ⟨w.roots.vm, w.roots.nextSequence⟩
      ∧ outcome.2.roots.nextSequence = w.roots.nextSequence + 1)

/-- **One operation.** -/
theorem World.Shows.step (h : w.Shows external others roots) (layout : Layout) (op : Op) :
    Followed layout external others roots w op (w.step layout op) := by
  have hrefused : ∀ w', w.Refused external others roots w' →
      w'.roots.vm = w.roots.vm ∧ w'.roots.nextSequence = w.roots.nextSequence := by
    rintro _ ⟨books, rfl, -⟩
    exact ⟨rfl, rfl⟩
  cases op with
  | add kind object answer room =>
    have hadd := add_triple h layout kind object answer room w rfl
    rw [World.step, Prog.bind_apply]
    rcases hrun : RootLeases.add layout kind object answer room w with ⟨e | id, w'⟩
    · rw [hrun] at hadd
      obtain ⟨hvm, hnext⟩ := hrefused w' hadd
      exact ⟨hadd.shows h, hvm, .inl ⟨rfl, hnext⟩⟩
    · rw [hrun] at hadd
      obtain ⟨rfl, hshows, hvm, hnext⟩ := hadd
      exact ⟨hshows, hvm, .inr ⟨rfl, hnext⟩⟩
  | addHost object answer room =>
    have hadd := addHost_triple h layout object answer room w rfl
    rw [World.step, Prog.bind_apply]
    rcases hrun : RootLeases.addHost layout object answer room w with ⟨e | ⟨id, lease⟩, w'⟩
    · rw [hrun] at hadd
      obtain ⟨hvm, hnext⟩ := hrefused w' hadd
      exact ⟨hadd.shows h, hvm, .inl ⟨rfl, hnext⟩⟩
    · rw [hrun] at hadd
      obtain ⟨hid, hshows, hvm, hnext⟩ := hadd
      refine ⟨hshows, hvm, .inr ⟨?_, hnext⟩⟩
      exact congrArg some hid
  | remove id =>
    have hremove := h.remove id
    rw [World.step, Prog.bind_apply]
    rcases hrun : RootLeases.remove id w with ⟨e | object, w'⟩
    all_goals
      rw [hrun] at hremove
      exact ⟨hremove.1, hremove.2.1, .inl ⟨rfl, hremove.2.2⟩⟩
  | deactivate lease =>
    have hroots := World.Shows.roots_deactivate w lease
    exact ⟨h.deactivate lease, congrArg RootSet.vm hroots,
      .inl ⟨rfl, congrArg RootSet.nextSequence hroots⟩⟩
  | compact => exact ⟨h.compact, rfl, .inl ⟨rfl, rfl⟩⟩
  | releaseAllOnVmDrop =>
    have hroots := World.Shows.roots_releaseAll w
    refine ⟨h.releaseAll, ?_, .inl ⟨rfl, ?_⟩⟩
    · show w.releaseAllOnVmDrop.roots.vm = _
      rw [hroots]
    · show w.releaseAllOnVmDrop.roots.nextSequence = _
      rw [hroots]

end Shows

/-! ### Every run -/

section Runs

variable {layout : Layout} {external : Bool} {history : List Event} {others : Others} {w : World}

theorem standing_concat (history : List Event) (event : Event) :
    standing layout external (history ++ [event])
      = standAfter layout external (standing layout external history) event := by
  rw [standing, List.foldl_append]
  rfl

/-- The table of a run shows what stands after its history. -/
theorem Run.shows (h : Run layout external history others w) :
    w.Shows external others (standing layout external history) := by
  induction h with
  | new vm hbooks =>
    refine ⟨List.Perm.refl _, List.nodup_nil, ?_, ?_, ?_, ?_, ?_, ?_, ?_, hbooks⟩
    · exact fun _ h => absurd h List.not_mem_nil
    · exact fun _ h => absurd h List.not_mem_nil
    · exact fun _ h => absurd h List.not_mem_nil
    · exact fun _ h => absurd h List.not_mem_nil
    · exact fun _ h => absurd h List.not_mem_nil
    · intro lease hactive
      cases hactive
    · exact fun _ h => absurd h List.not_mem_nil
  | step _ op ih =>
    rw [standing_concat]
    exact (ih.step layout op).shows
  | elsewhere _ hbooks ih => exact ih.of_books hbooks

/-- Identities are given out in the order of their numbers. -/
theorem Run.issued (h : Run layout external history others w) :
    (history.filterMap Event.issued).Nodup
      ∧ ∀ id ∈ history.filterMap Event.issued,
        id.vm = w.roots.vm ∧ id.sequence < w.roots.nextSequence := by
  induction h with
  | new vm _ => exact ⟨List.nodup_nil, fun _ h => absurd h List.not_mem_nil⟩
  | elsewhere _ _ ih => exact ih
  | @step history others w run op ih =>
    obtain ⟨hnodup, hbelow⟩ := ih
    have hstep := run.shows.step layout op
    rw [List.filterMap_append, hstep.vm]
    rcases hstep.issued with ⟨hnone, hnext⟩ | ⟨hsome, hnext⟩
    · rw [List.filterMap_cons_none hnone, List.filterMap_nil, List.append_nil, hnext]
      exact ⟨hnodup, hbelow⟩
    · rw [List.filterMap_cons_some hsome, List.filterMap_nil, hnext]
      constructor
      · refine List.nodup_append.mpr ⟨hnodup, List.nodup_singleton _, ?_⟩
        rintro id hid _ hnew rfl
        rw [List.mem_singleton.mp hnew] at hid
        exact absurd (hbelow _ hid).2 (lt_irrefl _)
      · intro id hid
        rcases List.mem_append.mp hid with hold | hnew
        · exact ⟨(hbelow id hold).1, lt_trans (hbelow id hold).2 (Nat.lt_succ_self _)⟩
        · rw [List.mem_singleton.mp hnew]
          exact ⟨rfl, Nat.lt_succ_self _⟩

/-! ### What is seen of the table -/

/-- What the readers of the table see: these entries, in this order. -/
structure World.Sees (w : World) (seen : List RootEntry) : Prop where
  count : ∀ kind, w.count kind = (seen.filter fun entry => decide (entry.kind = kind)).length
  totalCount : w.totalCount = seen.length
  visit : ∀ (σ : Type) (kind : RootKind) (f : σ → ObjectRef → σ) (s : σ), w.visit kind f s
    = ((seen.filter fun entry => decide (entry.kind = kind)).map RootEntry.object).foldl f s
  tryVisitAll : ∀ (σ : Type) (f : ObjectRef → Prog σ VmError Unit),
    w.tryVisitAll f = (seen.map RootEntry.object).forM f

/-- The active entries are seen. -/
theorem World.sees (w : World) :
    w.Sees (w.roots.entries.filter (RootEntry.isActive w.leases)) := by
  constructor
  · intro kind
    rw [List.filter_filter, ← List.countP_eq_length_filter]
    rfl
  · exact List.countP_eq_length_filter
  · intro σ kind f s
    unfold World.visit
    rw [List.filter_filter, List.foldl_map, List.foldl_filter]
    congr 1
    funext s entry
    simp only [Bool.and_eq_true, decide_eq_true_eq]
  · intro σ f
    unfold World.tryVisitAll World.tryVisitLabeled
    induction w.roots.entries with
    | nil => rfl
    | cons entry rest ih =>
      show ((if entry.isActive w.leases then f entry.object else pure ()) >>= fun _ =>
        List.forM rest _) = _
      rw [ih]
      by_cases hactive : entry.isActive w.leases = true
      · rw [if_pos hactive, List.filter_cons_of_pos hactive]
        rfl
      · rw [if_neg hactive, List.filter_cons_of_neg hactive]
        rfl

/-- What holds of the table of a run: no identity is given out twice; exactly the roots that stand
    are seen; the ledger counts what they cost, and the charge of a root is dropped once, when it
    no longer stands; `remove` finds what stands, and a refused registration drops nothing but
    what does not stand. -/
structure Integrity (layout : Layout) (external : Bool) (history : List Event) (others : Others)
    (w : World) : Prop where
  fresh : (history.filterMap Event.issued).Nodup
  seen : ∃ seen, seen.Perm ((standing layout external history).map Root.entry) ∧ w.Sees seen
  ledgered : Ledgered external others (standing layout external history) w.books
  followed : ∀ op, Ledgered external others (standAfter layout external
    (standing layout external history) (op, (w.step layout op).1)) (w.step layout op).2.books
  removes : ∀ id,
    (∃ root ∈ standing layout external history, root.id = id
      ∧ (w.step layout (.remove id)).1 = .ok (.removed root.object))
    ∨ ((∀ root ∈ standing layout external history, root.id ≠ id)
      ∧ (w.step layout (.remove id)).1
        = .error (if id.vm = w.roots.vm then .staleRoot else .wrongVm))
  refuses : ∀ op e, (∀ id, op ≠ .remove id) → (w.step layout op).1 = .error e →
    (w.step layout op).2.roots = w.compact.roots ∧ (w.step layout op).2.leases = w.leases
      ∧ (w.step layout op).2.books.state.balances = w.books.state.balances

/-- A refused registration leaves the balances as they were. -/
theorem World.Refused.unchanged {roots : List Root} (h : w.Shows external others roots)
    {w' : World} (hrefused : w.Refused external others roots w') :
    w'.roots = w.compact.roots ∧ w'.leases = w.leases
      ∧ w'.books.state.balances = w.books.state.balances := by
  obtain ⟨books, rfl, hbooks⟩ := hrefused
  exact ⟨rfl, rfl, h.ledgered.2.balances_eq hbooks.2⟩

/-- **The root table keeps what stands, and nothing else**, in every run. -/
theorem roots_integrity (h : Run layout external history others w) :
    Integrity layout external history others w := by
  have hshows := h.shows
  refine ⟨h.issued.1, ⟨_, hshows.visible, w.sees⟩, hshows.ledgered,
    fun op => (hshows.step layout op).shows.ledgered, fun id => ?_, fun op e hremove he => ?_⟩
  · have hreply := hshows.remove_reply id
    rw [World.step, Prog.bind_apply]
    rcases hrun : remove id w with ⟨e | object, w'⟩
    all_goals
      rw [hrun] at hreply
      rcases hreply with ⟨root, hroot, hid, hok⟩ | ⟨hnone, herror⟩
    · cases hok
    · exact .inr ⟨hnone, congrArg _ (Except.error.inj herror)⟩
    · refine .inl ⟨root, hroot, hid, ?_⟩
      cases hok
      rfl
    · cases herror
  · cases op with
    | add kind object answer room =>
      have hadd := add_triple hshows layout kind object answer room w rfl
      rw [World.step, Prog.bind_apply] at he ⊢
      rcases hrun : add layout kind object answer room w with ⟨e' | id, w'⟩
      · rw [hrun] at hadd
        exact World.Refused.unchanged hshows hadd
      · rw [hrun] at he
        cases he
    | addHost object answer room =>
      have hadd := addHost_triple hshows layout object answer room w rfl
      rw [World.step, Prog.bind_apply] at he ⊢
      rcases hrun : addHost layout object answer room w with ⟨e' | ⟨id, lease⟩, w'⟩
      · rw [hrun] at hadd
        exact World.Refused.unchanged hshows hadd
      · rw [hrun] at he
        cases he
    | remove id => exact absurd rfl (hremove id)
    | deactivate lease => cases he
    | compact => cases he
    | releaseAllOnVmDrop => cases he

end Runs

/-! ### A small table -/

/-- A layout with small sizes. -/
def Layout.sample : Layout := ⟨8, 64, 40⟩

/-- No other owners. -/
def Others.none : Others := ⟨fun _ => 0, fun _ => 0, fun _ => 0⟩

/-- The books of a new ledger. -/
def newBooks (limit : Nat) : Books := ⟨.new limit, false, [], []⟩

theorem ledgered_new (limit : Nat) : Ledgered false .none [] (newBooks limit) := by
  refine ⟨rfl, rfl, ?_, ?_, rfl, rfl, by simp [newBooks, LedgerState.new], fun _ => rfl⟩
  · intro d
    cases d <;> rfl
  · intro d
    cases d <;> rfl

/-- A host root whose lease the host ends, and a root that stays. -/
theorem roots_integrity_sample : ∃ history w, Integrity .sample false history .none w
    ∧ standing .sample false history
      = [⟨⟨⟨0⟩, 2⟩, .stack, .opaqueId 2, none, ⟨64, .host, some 1⟩⟩] := by
  have hrun : Run .sample false _ .none _ :=
    .step (.step (.step (.new ⟨0⟩ (ledgered_new 1000)) (.addHost (.opaqueId 1) none true))
      (.add .stack (.opaqueId 2) none true)) (.deactivate 0)
  exact ⟨_, _, roots_integrity hrun, by decide⟩

/-- A registration that fails drops the entry whose lease has ended, and the ledger notes the
    attempt. -/
theorem refused_add_compacts : ∃ history w, Run .sample false history .none w
    ∧ ∃ w', w.step .sample (.add .stack (.opaqueId 3) none false) = (.error .allocationFailed, w')
      ∧ w'.roots.entries ≠ w.roots.entries ∧ w'.books.state ≠ w.books.state := by
  have hrun : Run .sample false _ .none _ :=
    .step (.step (.step (.new ⟨0⟩ (ledgered_new 1000)) (.addHost (.opaqueId 1) none true))
      (.add .stack (.opaqueId 2) none true)) (.deactivate 0)
  exact ⟨_, _, hrun, _, rfl, by decide, by decide⟩

end RivetLua.Runtime.RootLeases
