import RivetLua.Stdlib.Pattern

namespace RivetLua.Stdlib.Pattern

open RivetLua.Core

/-!
# Stdlib — what a pattern means

A pattern is read into a list of items, and an item says which continuations are tried in which
order: the first one that lets the rest of the pattern match is taken.  There are no steps, no
depth and no state to restore here.  The meaning is that of `lstrlib.c`: a mistake in a pattern is
reported only when the matcher comes to it.  The manual gives no meaning to a `%` that a range
leaves alone before the bracket that closes its set; `lstrlib.c` reads that bracket as the class,
so the class such an escape stands for is a parameter.

* `parse` — the items of a pattern;
* `matchItems` — the match of a list of items from one place of the subject on;
* `matchItems_bounds` — where a match ends and where its captures lie;
* `matchItems_of_tidy` — patterns for which that parameter does not matter.
-/

/-! ### Items -/

/-- An item of a set.  `loose` is a `%` with no byte of the set behind it, which a range can leave
    over, as in `[a-%%]`. -/
inductive SetItem where
  | escaped (symbol : UInt8)
  | range (low high : UInt8)
  | byte (byte : UInt8)
  | loose
  deriving DecidableEq, Repr

/-- What stands for one character of the subject. -/
inductive Single where
  | any
  | escaped (symbol : UInt8)
  | literal (byte : UInt8)
  | set (positive : Bool) (items : List SetItem)
  deriving DecidableEq, Repr

/-- How often a character may be repeated. -/
inductive Repetition where
  | once | optional | star | plus | lazy
  deriving DecidableEq, Repr

/-- An item of a pattern. -/
inductive Item where
  | openCapture (position : Bool)
  | closeCapture
  | endAnchor
  | balance (opening closing : UInt8)
  | frontier (set : Single)
  | backReference (code : UInt8)
  | single (one : Single) (repetition : Repetition)
  | malformed
  deriving DecidableEq, Repr

/-- Whether an item of a set has a byte; `loose` is the class a loose escape stands for. -/
def SetItem.has (loose byte : UInt8) : SetItem → Bool
  | .escaped symbol => inClass byte symbol
  | .range low high => decide (low ≤ byte ∧ byte ≤ high)
  | .byte candidate => byte == candidate
  | .loose => inClass byte loose

/-- Whether a class has a byte. -/
def Single.has (loose byte : UInt8) : Single → Bool
  | .any => true
  | .escaped symbol => inClass byte symbol
  | .literal candidate => byte == candidate
  | .set positive items => if items.any (SetItem.has loose byte) then positive else !positive

/-! ### Reading a pattern -/

/-- The bytes up to the bracket that closes a set, and the pattern behind it; the first byte of a
    set and an escaped byte close nothing. -/
def splitSet : Nat → List UInt8 → Option (List UInt8 × List UInt8)
  | 0, _ => none
  | _ + 1, [] => none
  | fuel + 1, byte :: cursor =>
    let taken := if byte = 0x25 then byte :: cursor.take 1 else [byte]
    let cursor := if byte = 0x25 then cursor.drop 1 else cursor
    if cursor.head? = some 0x5d then some (taken, cursor.drop 1)
    else (splitSet fuel cursor).map fun (set, rest) => (taken ++ set, rest)

/-- The items of a set. -/
def setItems : Nat → List UInt8 → List SetItem
  | 0, _ => []
  | _ + 1, [] => []
  | _ + 1, [0x25] => [.loose]
  | fuel + 1, 0x25 :: symbol :: rest => .escaped symbol :: setItems fuel rest
  | fuel + 1, low :: 0x2d :: high :: rest => .range low high :: setItems fuel rest
  | fuel + 1, candidate :: rest => .byte candidate :: setItems fuel rest

/-- A set, from behind its first bracket. -/
def parseSet (rest : List UInt8) : Option (Single × List UInt8) :=
  if rest.head? = some 0x5e then
    (splitSet rest.length (rest.drop 1)).map fun (set, rest) =>
      (.set false (setItems set.length set), rest)
  else
    (splitSet (rest.length + 1) rest).map fun (set, rest) =>
      (.set true (setItems set.length set), rest)

/-- A class and the pattern behind it. -/
def parseSingle : List UInt8 → Option (Single × List UInt8)
  | [] => none
  | byte :: rest =>
    if byte = 0x25 then
      match rest with
      | [] => none
      | symbol :: rest => some (.escaped symbol, rest)
    else if byte = 0x5b then parseSet rest
    else if byte = 0x2e then some (.any, rest)
    else some (.literal byte, rest)

/-- The repetition behind a class. -/
def parseRepetition : List UInt8 → Repetition × List UInt8
  | 0x3f :: rest => (.optional, rest)
  | 0x2a :: rest => (.star, rest)
  | 0x2b :: rest => (.plus, rest)
  | 0x2d :: rest => (.lazy, rest)
  | rest => (.once, rest)

/-- A class with its repetition. -/
def parseRepeated (p : List UInt8) : Item × List UInt8 :=
  match parseSingle p with
  | none => (.malformed, [])
  | some (single, rest) =>
    (.single single (parseRepetition rest).1, (parseRepetition rest).2)

/-- The item an escape starts. -/
def parseEscape (p : List UInt8) : List UInt8 → Item × List UInt8
  | [] => (.malformed, [])
  | code :: rest =>
    if code = 0x62 then
      match rest with
      | opening :: closing :: rest => (.balance opening closing, rest)
      | _ => (.malformed, [])
    else if code = 0x66 then
      if rest.head? ≠ some 0x5b then (.malformed, [])
      else
        match parseSet (rest.drop 1) with
        | none => (.malformed, [])
        | some (set, rest) => (.frontier set, rest)
    else if isAsciiDigit code then (.backReference code, rest)
    else parseRepeated p

/-- The first item of a pattern and the pattern behind it. -/
def parseItem (byte : UInt8) (rest : List UInt8) : Item × List UInt8 :=
  if byte = 0x28 then
    if rest.head? = some 0x29 then (.openCapture true, rest.drop 1)
    else (.openCapture false, rest)
  else if byte = 0x29 then (.closeCapture, rest)
  else if byte = 0x24 ∧ rest = [] then (.endAnchor, [])
  else if byte = 0x25 then parseEscape (byte :: rest) rest
  else parseRepeated (byte :: rest)

/-- The items of a pattern; each one takes a byte at least. -/
def parse : Nat → List UInt8 → List Item
  | 0, _ => []
  | _ + 1, [] => []
  | fuel + 1, byte :: rest =>
    (parseItem byte rest).1 :: parse fuel (parseItem byte rest).2

/-! ### Matching -/

/-- The end of a balanced string, from behind its first byte. -/
def balanced (opening closing : UInt8) : List UInt8 → Nat → Nat → Option Nat
  | [], _, _ => none
  | byte :: rest, level, s =>
    if byte = closing then
      if level = 1 then some (s + 1) else balanced opening closing rest (level - 1) (s + 1)
    else if byte = opening then balanced opening closing rest (level + 1) (s + 1)
    else balanced opening closing rest level (s + 1)

/-- The number of characters from a place of the subject on that a class has. -/
def runLength (loose : UInt8) (source : List UInt8) (single : Single) (s : Nat) : Nat :=
  ((source.drop s).takeWhile fun byte => single.has loose byte).length

/-- The answer of a match: the end of the match and its captures. -/
abbrev Answer := Except PatternError (Option (Nat × List Capture))

/-- The first continuation that matches. -/
def firstMatch (next : Nat → Answer) : List Nat → Answer
  | [] => .ok none
  | candidate :: rest =>
    match next candidate with
    | .error e => .error e
    | .ok (some found) => .ok (some found)
    | .ok none => firstMatch next rest

/-- The places a class with its repetition can lead to, in the order in which they are tried. -/
def candidates (loose : UInt8) (source : List UInt8) (single : Single) (s : Nat) :
    Repetition → List Nat
  | .once => if runLength loose source single s = 0 then [] else [s + 1]
  | .optional => if runLength loose source single s = 0 then [s] else [s + 1, s]
  | .star => (List.range (runLength loose source single s + 1)).reverse.map (s + ·)
  | .plus => (List.range (runLength loose source single s)).reverse.map (s + 1 + ·)
  | .lazy => (List.range (runLength loose source single s + 1)).map (s + ·)

/-- The match of a list of items. -/
def matchItems (loose : UInt8) (source : List UInt8) :
    List Item → Nat → List Capture → Answer
  | [], s, captures => .ok (some (s, captures))
  | .openCapture position :: items, s, captures =>
    if captures.length = 32 then .error .malformed
    else matchItems loose source items s
      (captures ++ [⟨s, if position then some s else none, position⟩])
  | .closeCapture :: items, s, captures =>
    match lastOpen captures with
    | none => .error .malformed
    | some index => matchItems loose source items s (closeAt captures index s)
  | .endAnchor :: items, s, captures =>
    if s = source.length then matchItems loose source items s captures else .ok none
  | .balance opening closing :: items, s, captures =>
    if source[s]? ≠ some opening then .ok none
    else
      match balanced opening closing (source.drop (s + 1)) 1 (s + 1) with
      | none => .ok none
      | some s => matchItems loose source items s captures
  | .frontier set :: items, s, captures =>
    let previous := if s = 0 then 0 else source.getD (s - 1) 0
    if set.has loose previous = false ∧ set.has loose (source.getD s 0) = true then
      matchItems loose source items s captures
    else .ok none
  | .backReference code :: items, s, captures =>
    if code < 0x31 then .error .malformed
    else
      match captures[(code - 0x31).toNat]? with
      | none => .error .malformed
      | some ⟨_, none, _⟩ => .error .malformed
      | some ⟨_, some _, true⟩ => .ok none
      | some ⟨start, some stop, false⟩ =>
        if ((source.drop start).take (stop - start)).isPrefixOf (source.drop s) then
          matchItems loose source items (s + (stop - start)) captures
        else .ok none
  | .single single repetition :: items, s, captures =>
    firstMatch (fun candidate => matchItems loose source items candidate captures)
      (candidates loose source single s repetition)
  | .malformed :: _, _, _ => .error .malformed

/-- The first of the places at which a pattern matches and does not end where the last match did. -/
def searchItems (loose : UInt8) (source : List UInt8) (items : List Item) (last : Option Nat) :
    List Nat → Except PatternError (Option Found)
  | [] => .ok none
  | position :: rest =>
    match matchItems loose source items position [] with
    | .error e => .error e
    | .ok none => searchItems loose source items last rest
    | .ok (some (stop, captures)) =>
      if some stop ≠ last then .ok (some ⟨position, stop, captures⟩)
      else searchItems loose source items last rest

/-- The items of a pattern, behind its anchor if it has one. -/
def patternItems (pattern : List UInt8) (anchor : Bool) : List Item :=
  parse (pattern.length + 1) (if anchor then pattern.drop 1 else pattern)

/-- The places that are tried: an anchored pattern matches at the first one only. -/
def searchPlaces (source : List UInt8) (start : Nat) (anchor : Bool) : List Nat :=
  if start > source.length then []
  else if anchor then [start]
  else List.range' start (source.length + 1 - start)

/-- The answer of a search. -/
def referenceSearch (loose : UInt8) (source pattern : List UInt8) (start : Nat) (anchor : Bool)
    (last : Option Nat) : Except PatternError (Option Found) :=
  searchItems loose source (patternItems pattern anchor) last (searchPlaces source start anchor)

/-! ### Where a match and its captures lie -/

/-- The captures of a match that has come to the place `s` of the subject lie before it. -/
structure Inside (source : List UInt8) (s : Nat) (captures : List Capture) : Prop where
  le : s ≤ source.length
  captures : ∀ capture ∈ captures, capture.start ≤ s
    ∧ ∀ stop, capture.stop = some stop → capture.start ≤ stop ∧ stop ≤ s

variable {loose : UInt8} {source : List UInt8} {s : Nat} {captures : List Capture}

theorem inside_nil (h : s ≤ source.length) : Inside source s [] :=
  ⟨h, by simp⟩

theorem Inside.mono (h : Inside source s captures) {s' : Nat} (hle : s ≤ s')
    (hlen : s' ≤ source.length) : Inside source s' captures := by
  refine ⟨hlen, fun capture hcapture => ?_⟩
  obtain ⟨hstart, hstop⟩ := h.captures capture hcapture
  refine ⟨hstart.trans hle, fun stop heq => ?_⟩
  obtain ⟨hfirst, hlast⟩ := hstop stop heq
  exact ⟨hfirst, hlast.trans hle⟩

theorem Inside.openCapture (h : Inside source s captures) (position : Bool) :
    Inside source s (captures ++ [⟨s, if position then some s else none, position⟩]) := by
  refine ⟨h.le, fun capture hcapture => ?_⟩
  rw [List.mem_append, List.mem_singleton] at hcapture
  obtain hcapture | rfl := hcapture
  · exact h.captures capture hcapture
  · refine ⟨le_refl _, fun stop heq => ?_⟩
    cases position with
    | true =>
      cases heq
      exact ⟨le_refl _, le_refl _⟩
    | false => cases heq

theorem mem_closeAt {index : Nat} {capture : Capture} (h : capture ∈ closeAt captures index s) :
    capture ∈ captures ∨ ∃ opened ∈ captures, capture = { opened with stop := some s } := by
  induction captures generalizing index with
  | nil => simp [closeAt] at h
  | cons first captures ih =>
    cases index with
    | zero =>
      simp only [closeAt, List.modify_zero_cons, List.mem_cons] at h
      obtain rfl | h := h
      · exact .inr ⟨first, List.mem_cons_self, rfl⟩
      · exact .inl (List.mem_cons_of_mem _ h)
    | succ index =>
      simp only [closeAt, List.modify_succ_cons, List.mem_cons] at h
      obtain rfl | h := h
      · exact .inl List.mem_cons_self
      · obtain h | ⟨opened, hopened, rfl⟩ := ih h
        · exact .inl (List.mem_cons_of_mem _ h)
        · exact .inr ⟨opened, List.mem_cons_of_mem _ hopened, rfl⟩

theorem Inside.closeAt (h : Inside source s captures) (index : Nat) :
    Inside source s (closeAt captures index s) := by
  refine ⟨h.le, fun capture hcapture => ?_⟩
  obtain hcapture | ⟨opened, hopened, rfl⟩ := mem_closeAt hcapture
  · exact h.captures capture hcapture
  · have hstart := (h.captures opened hopened).1
    refine ⟨hstart, fun stop heq => ?_⟩
    cases heq
    exact ⟨hstart, le_refl _⟩

theorem balanced_bounds {opening closing : UInt8} {text : List UInt8} {level stop : Nat}
    (h : balanced opening closing text level s = some stop) :
    s < stop ∧ stop ≤ s + text.length := by
  induction text generalizing level s with
  | nil => cases h
  | cons byte text ih =>
    simp only [balanced] at h
    rw [List.length_cons]
    split at h
    · split at h
      · cases h
        omega
      · have := ih h
        omega
    · split at h
      · have := ih h
        omega
      · have := ih h
        omega

theorem runLength_le (single : Single) (s : Nat) :
    runLength loose source single s ≤ source.length - s := by
  rw [← List.length_drop]
  exact (List.takeWhile_sublist _).length_le

theorem candidates_bounds {single : Single} {repetition : Repetition} {candidate : Nat}
    (hle : s ≤ source.length) (h : candidate ∈ candidates loose source single s repetition) :
    s ≤ candidate ∧ candidate ≤ source.length := by
  have hrun := @runLength_le loose source single s
  cases repetition with
  | once =>
    simp only [candidates] at h
    split at h <;> simp at h
    omega
  | optional =>
    simp only [candidates] at h
    split at h <;> simp at h <;> omega
  | star | plus | lazy =>
    simp only [candidates, List.mem_map, List.mem_reverse, List.mem_range] at h
    obtain ⟨i, hi, rfl⟩ := h
    omega

/-- What holds of every continuation that matches holds of the one that is taken. -/
theorem firstMatch_induction {next : Nat → Answer} {places : List Nat}
    {found : Nat × List Capture} {P : Nat × List Capture → Prop}
    (h : firstMatch next places = .ok (some found))
    (hnext : ∀ place ∈ places, ∀ found, next place = .ok (some found) → P found) : P found := by
  induction places with
  | nil => cases h
  | cons place places ih =>
    simp only [firstMatch] at h
    split at h
    · cases h
    · rename_i heq
      cases h
      exact hnext place List.mem_cons_self _ heq
    · exact ih h fun place hplace => hnext place (List.mem_cons_of_mem _ hplace)

/-- **Bounds.**  A match ends behind its start and within the subject, and so do its captures. -/
theorem matchItems_bounds {items : List Item} {stop : Nat} {captures' : List Capture}
    (hinside : Inside source s captures)
    (h : matchItems loose source items s captures = .ok (some (stop, captures'))) :
    s ≤ stop ∧ Inside source stop captures' := by
  induction items generalizing s captures stop captures' with
  | nil =>
    cases h
    exact ⟨le_refl _, hinside⟩
  | cons item items ih =>
    cases item with
    | openCapture position =>
      simp only [matchItems] at h
      split at h
      · cases h
      · exact ih (hinside.openCapture position) h
    | closeCapture =>
      simp only [matchItems] at h
      split at h
      · cases h
      · exact ih (hinside.closeAt _) h
    | endAnchor =>
      simp only [matchItems] at h
      split at h
      · exact ih hinside h
      · cases h
    | balance opening closing =>
      simp only [matchItems] at h
      split at h
      · cases h
      · split at h
        · cases h
        · rename_i hopen _ s' hbalanced
          have hbounds := balanced_bounds hbalanced
          have hlt : s < source.length := by
            by_contra hnot
            rw [List.getElem?_eq_none (by omega)] at hopen
            exact hopen (by simp)
          rw [List.length_drop] at hbounds
          obtain ⟨hle, hinside'⟩ := ih (hinside.mono (by omega) (by omega)) h
          exact ⟨by omega, hinside'⟩
    | frontier set =>
      simp only [matchItems] at h
      obtain ⟨-, h⟩ | ⟨-, h⟩ := ite_eq_iff.mp h
      · exact ih hinside h
      · cases h
    | backReference code =>
      simp only [matchItems] at h
      split at h
      · cases h
      · split at h
        · cases h
        · cases h
        · cases h
        · rename_i start stop' hcapture
          split at h
          · rename_i hprefix
            have hend : s + (stop' - start) ≤ source.length := by
              have hmem := List.mem_of_getElem? hcapture
              obtain ⟨hstart, hstop⟩ := hinside.captures _ hmem
              obtain ⟨hfirst, hlast⟩ := hstop stop' rfl
              have hlength := (List.isPrefixOf_iff_prefix.mp hprefix).length_le
              have hle := hinside.le
              simp only [List.length_take, List.length_drop] at hlength
              omega
            obtain ⟨hle, hinside'⟩ := ih (hinside.mono (by omega) hend) h
            exact ⟨by omega, hinside'⟩
          · cases h
    | single one repetition =>
      simp only [matchItems] at h
      refine firstMatch_induction (P := fun found => s ≤ found.1 ∧ Inside source found.1 found.2) h
        fun candidate hcandidate found heq => ?_
      obtain ⟨hfirst, hlast⟩ := candidates_bounds hinside.le hcandidate
      obtain ⟨hle, hinside'⟩ := ih (hinside.mono hfirst hlast) heq
      exact ⟨hfirst.trans hle, hinside'⟩
    | malformed => cases h

/-! ### Loose escapes -/

/-- No `%` of a set is left without a byte behind it. -/
def Single.tidy : Single → Bool
  | .set _ items => items.all (· != .loose)
  | _ => true

/-- No set of an item has a loose escape. -/
def Item.tidy : Item → Bool
  | .frontier set => set.tidy
  | .single one _ => one.tidy
  | _ => true

theorem Single.has_of_tidy {one : Single} (h : one.tidy = true) (loose loose' byte : UInt8) :
    one.has loose byte = one.has loose' byte := by
  cases one with
  | set positive items =>
    have hitems : items.any (SetItem.has loose byte) = items.any (SetItem.has loose' byte) := by
      induction items with
      | nil => rfl
      | cons item items ih =>
        simp only [Single.tidy, List.all_cons, Bool.and_eq_true, bne_iff_ne] at h ih
        rw [List.any_cons, List.any_cons, ih h.2]
        congr 1
        cases item with
        | loose => exact absurd rfl h.1
        | _ => rfl
    rw [Single.has, Single.has, hitems]
  | _ => rfl

theorem candidates_of_tidy {one : Single} (h : one.tidy = true) (loose loose' : UInt8)
    (repetition : Repetition) :
    candidates loose source one s repetition = candidates loose' source one s repetition := by
  have hrun : runLength loose source one s = runLength loose' source one s := by
    unfold runLength
    congr 2
    funext byte
    exact one.has_of_tidy h loose loose' byte
  cases repetition <;> simp only [candidates, hrun]

/-- Without loose escapes their meaning does not matter. -/
theorem matchItems_of_tidy {items : List Item} (h : items.all Item.tidy = true)
    (loose loose' : UInt8) :
    matchItems loose source items = matchItems loose' source items := by
  induction items with
  | nil => rfl
  | cons item items ih =>
    simp only [List.all_cons, Bool.and_eq_true] at h
    obtain ⟨hitem, hitems⟩ := h
    have hrest := ih hitems
    funext s captures
    cases item with
    | frontier set =>
      simp only [matchItems, hrest, set.has_of_tidy hitem loose loose']
    | single one repetition =>
      simp only [matchItems, hrest, candidates_of_tidy hitem loose loose']
    | _ => simp only [matchItems, hrest]

theorem searchItems_of_tidy {items : List Item} (h : items.all Item.tidy = true)
    (loose loose' : UInt8) (last : Option Nat) (places : List Nat) :
    searchItems loose source items last places = searchItems loose' source items last places := by
  induction places with
  | nil => rfl
  | cons place places ih => simp only [searchItems, matchItems_of_tidy h loose loose', ih]

/-- What a search finds lies where it was looked for. -/
theorem searchItems_bounds {items : List Item} {last : Option Nat} {places : List Nat}
    {found : Found} (hplaces : ∀ place ∈ places, place ≤ source.length)
    (h : searchItems loose source items last places = .ok (some found)) :
    found.start ∈ places ∧ found.start ≤ found.stop
      ∧ Inside source found.stop found.captures := by
  induction places with
  | nil => cases h
  | cons place places ih =>
    have hrest := fun h' => ih (fun place hplace => hplaces place (List.mem_cons_of_mem _ hplace)) h'
    have hplace := inside_nil (hplaces place List.mem_cons_self)
    simp only [searchItems] at h
    split at h
    · cases h
    · obtain ⟨hmem, hbounds⟩ := hrest h
      exact ⟨List.mem_cons_of_mem _ hmem, hbounds⟩
    · rename_i stop captures hmatch
      split at h
      · cases h
        obtain ⟨hle, hinside⟩ := matchItems_bounds hplace hmatch
        exact ⟨List.mem_cons_self, hle, hinside⟩
      · obtain ⟨hmem, hbounds⟩ := hrest h
        exact ⟨List.mem_cons_of_mem _ hmem, hbounds⟩

end RivetLua.Stdlib.Pattern
