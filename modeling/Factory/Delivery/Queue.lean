import Mathlib.Data.Finmap
import Mathlib.Data.List.Basic
import Mathlib.Data.List.Dedup

/-!
# The bounded record queue

Model of `internal/realtime/delivery/queue.go`: records partitioned by what a bounded
path may do to them, and a queue that never chooses an enduring or a control record as
the victim of its bound. A full queue holding nothing droppable answers `overflow`
and is unchanged; the caller owes a repair.

`Queue` carries its bound: a queue longer than its capacity cannot be built. The scan
of `selectVictim` keeps the two maps of the source, and its second loop runs over the
keys of the count map in an order that is an argument (`selectVictimIn`), because a map
range has no order of its own.
-/

namespace Factory.Delivery

open List

/-- Every error of the package that the queue answers with. -/
inductive DeliveryError where
  | invalidConfig (capacity : Int)
  | queueClosed
  | overflow
  | dropped
deriving DecidableEq

/-- What a bounded path may do to a record. -/
inductive Class where
  | enduring
  | ephemeral
  | control
deriving DecidableEq

def Class.droppable (c : Class) : Bool := c == .ephemeral

/-- One queued session-channel record. `encoded` is what is published, unchanged; `seq`
belongs to an enduring record and `coalesceKey` to an ephemeral one. -/
structure Record (E : Type) where
  cls : Class
  encoded : E
  seq : Nat := 0
  coalesceKey : String := ""
deriving DecidableEq

variable {E : Type}

/-! ## The victim of a full queue -/

/-- The locals of the scan in `selectVictim`. -/
structure Scan where
  oldestOfKey : Finmap (fun _ : String => Nat) := ∅
  countOfKey : Finmap (fun _ : String => Nat) := ∅
  oldestEphemeral : Int := -1

/-- One iteration of the scan, at index `i`. -/
def Scan.visit (s : Scan) (i : Nat) (r : Record E) : Scan :=
  if r.cls.droppable then
    let s := if s.oldestEphemeral < 0 then { s with oldestEphemeral := i } else s
    if r.coalesceKey = "" then s
    else
      { s with
        countOfKey := s.countOfKey.insert r.coalesceKey
          ((s.countOfKey.lookup r.coalesceKey).getD 0 + 1)
        oldestOfKey := if r.coalesceKey ∈ s.oldestOfKey then s.oldestOfKey
          else s.oldestOfKey.insert r.coalesceKey i }
  else s

def scanFrom (s : Scan) (i : Nat) : List (Record E) → Scan
  | [] => s
  | r :: rs => scanFrom (s.visit i r) (i + 1) rs

/-- One iteration of the second loop: the busiest key so far, ties to the older one. -/
def Scan.prefer (s : Scan) (acc : Int × Nat) (key : String) : Int × Nat :=
  let count := (s.countOfKey.lookup key).getD 0
  let oldest : Int := ((s.oldestOfKey.lookup key).getD 0 : Nat)
  if acc.2 < count ∨ (count = acc.2 ∧ oldest < acc.1) then (oldest, count) else acc

/-- `selectVictim` with the count map ranged over in the given order. -/
def selectVictimIn (order : List String) (buf : List (Record E)) : Int :=
  let s := scanFrom {} 0 buf
  let victim := (order.foldl s.prefer (-1, 0)).1
  if 0 ≤ victim then victim else s.oldestEphemeral

/-- The keys of the count map, in one order; `selectVictim` does not depend on it. -/
def coalesceKeys (buf : List (Record E)) : List String :=
  (((buf.filter (·.cls.droppable)).map (·.coalesceKey)).filter (· ≠ "")).dedup

/-- The index of the record a full queue may discard, or `-1`. -/
def selectVictim (buf : List (Record E)) : Int := selectVictimIn (coalesceKeys buf) buf

/-- The record is ephemeral and has the given coalesce key, which is not empty. -/
def Record.keyed (key : String) (r : Record E) : Bool :=
  r.cls.droppable && r.coalesceKey == key && key != ""

/-- How many ephemeral records have the key. -/
def occurrences (buf : List (Record E)) (key : String) : Nat := buf.countP (Record.keyed key)

/-- The index of the oldest ephemeral record that has the key. -/
def oldest (buf : List (Record E)) (key : String) : Nat :=
  (buf.findIdx? (Record.keyed key)).getD 0

/-- The victim of a buffer: none without an ephemeral record; the oldest record of the busiest
key, ties to the key whose oldest record is oldest; the oldest ephemeral one if none has a key. -/
structure IsVictim (buf : List (Record E)) (victim : Int) : Prop where
  none_iff : victim = -1 ↔ ∀ r ∈ buf, r.cls ≠ .ephemeral
  keyed : (∃ key, 0 < occurrences buf key) → ∃ key, 0 < occurrences buf key ∧
    victim = oldest buf key ∧ ∀ key', occurrences buf key' < occurrences buf key ∨
      occurrences buf key' = occurrences buf key ∧ oldest buf key ≤ oldest buf key'
  unkeyed : (∀ key, occurrences buf key = 0) → ∀ j,
    buf.findIdx? (·.cls.droppable) = some j → victim = j

/-- An order in which the count map can be ranged over. -/
structure Ranges (order : List String) (buf : List (Record E)) : Prop where
  nodup : order.Nodup
  mem_iff : ∀ key, key ∈ order ↔ key ∈ (scanFrom {} 0 buf).countOfKey

def EphemeralAt (buf : List (Record E)) (j : Nat) : Prop :=
  ∃ r, buf[j]? = some r ∧ r.cls = .ephemeral

/-- Every index the scan holds is one of an ephemeral record, and every counted key
has an oldest member. -/
structure Scan.Sound (s : Scan) (buf : List (Record E)) : Prop where
  oldest : s.oldestEphemeral = -1 ∨ ∃ j : Nat, s.oldestEphemeral = j ∧ EphemeralAt buf j
  keyed : ∀ k j, s.oldestOfKey.lookup k = some j → EphemeralAt buf j
  counted : ∀ k, k ∈ s.countOfKey → k ∈ s.oldestOfKey

section Victim

variable {s : Scan} {buf : List (Record E)} {p : Record E → Bool} {key : String} {v v' : Int}

theorem Record.keyed_iff {r : Record E} :
    r.keyed key = true ↔ r.cls.droppable = true ∧ r.coalesceKey = key ∧ key ≠ "" := by
  simp [Record.keyed, and_assoc]

theorem exists_findIdx? (h : ∃ r ∈ buf, p r = true) : ∃ j, buf.findIdx? p = some j := by
  rwa [← Option.isSome_iff_exists, findIdx?_isSome, any_eq_true]

theorem ephemeralAt_of_findIdx? {j : Nat} (hp : ∀ r, p r = true → r.cls.droppable = true)
    (h : buf.findIdx? p = some j) : EphemeralAt buf j := by
  obtain ⟨hj, hpj, -⟩ := findIdx?_eq_some_iff_getElem.mp h
  exact ⟨buf[j], getElem?_eq_getElem hj, by simpa [Class.droppable] using hp _ hpj⟩

/-- The locals of the scan once it has read the records of `buf`. -/
structure Scan.Of (s : Scan) (buf : List (Record E)) : Prop where
  count : ∀ key, s.countOfKey.lookup key =
    if occurrences buf key = 0 then none else some (occurrences buf key)
  oldestOfKey : ∀ key, s.oldestOfKey.lookup key = buf.findIdx? (Record.keyed key)
  oldestEphemeral : s.oldestEphemeral = (buf.findIdx? (·.cls.droppable)).elim (-1) (↑·)

theorem Scan.Of.visit (h : s.Of buf) (r : Record E) : (s.visit buf.length r).Of (buf ++ [r]) := by
  have hcounts : ∀ key, occurrences (buf ++ [r]) key =
      occurrences buf key + if r.keyed key then 1 else 0 := by simp [occurrences]
  have holdest : ∀ key, (buf ++ [r]).findIdx? (Record.keyed key) =
      (s.oldestOfKey.lookup key).or (if r.keyed key then some buf.length else none) := by
    intro key
    rw [h.oldestOfKey, findIdx?_append]
    by_cases hkeyed : r.keyed key = true
    · simp [hkeyed]
    · simp [hkeyed]
  unfold Scan.visit
  by_cases hdrop : r.cls.droppable = true
  · have hlocals : (if s.oldestEphemeral < 0 then { s with oldestEphemeral := (buf.length : Int) }
        else s) = { s with oldestEphemeral :=
          ((buf ++ [r]).findIdx? (·.cls.droppable)).elim (-1) (↑·) } := by
      have hold := h.oldestEphemeral
      rw [findIdx?_append]
      cases hidx : buf.findIdx? (·.cls.droppable) with
      | none =>
        rw [hidx] at hold
        rw [if_pos (by simp [hold])]
        simp [hdrop]
      | some j =>
        rw [hidx] at hold
        rw [if_neg (by simp [hold])]
        simp [← hold]
    rw [if_pos hdrop]
    rw [hlocals]
    by_cases hempty : r.coalesceKey = ""
    · have hkeyed : ∀ key, r.keyed key = false := by simp [Record.keyed, hempty]
      rw [if_pos hempty]
      exact ⟨by simp [h.count, hcounts, hkeyed], by simp [holdest, hkeyed], rfl⟩
    · rw [if_neg hempty]
      have hown : r.keyed r.coalesceKey = true := Record.keyed_iff.mpr ⟨hdrop, rfl, hempty⟩
      have hother : ∀ key, key ≠ r.coalesceKey → r.keyed key = false := by
        intro key hkey
        simp [Record.keyed, Ne.symm hkey]
      refine ⟨fun key => ?_, fun key => ?_, rfl⟩
      · by_cases hkey : key = r.coalesceKey
        · subst hkey
          rw [Finmap.lookup_insert, h.count, hcounts, if_pos hown, if_neg (Nat.succ_ne_zero _)]
          split
          · simp [*]
          · rfl
        · simp [Finmap.lookup_insert_of_ne _ hkey, h.count, hcounts, hother key hkey]
      · rw [holdest]
        by_cases hkey : key = r.coalesceKey
        · subst hkey
          split
          · rename_i hmem
            obtain ⟨j, hj⟩ := Finmap.mem_iff.mp hmem
            simp [hj]
          · rename_i hmem
            simp [Finmap.lookup_eq_none.mpr hmem]
        · split
          · simp [hother key hkey]
          · simp [hother key hkey, Finmap.lookup_insert_of_ne _ hkey]
  · have hkeyed : ∀ key, r.keyed key = false := by simp [Record.keyed, hdrop]
    rw [if_neg hdrop]
    exact ⟨by simp [h.count, hcounts, hkeyed], by simp [holdest, hkeyed],
      by simp [h.oldestEphemeral, hdrop]⟩

theorem scanFrom_of (buf : List (Record E)) : (scanFrom {} 0 buf).Of buf := by
  have hrun : ∀ (rs pre : List (Record E)) (s : Scan), s.Of pre →
      (scanFrom s pre.length rs).Of (pre ++ rs) := by
    intro rs
    induction rs with
    | nil => exact fun pre s h => by simpa [scanFrom] using h
    | cons r rs ih =>
      intro pre s h
      simpa [scanFrom] using ih (pre ++ [r]) _ (h.visit r)
  exact hrun buf [] {} ⟨by simp [occurrences], by simp, by simp⟩

theorem Scan.Of.mem_countOfKey (h : s.Of buf) : key ∈ s.countOfKey ↔ 0 < occurrences buf key := by
  rw [Finmap.mem_iff, h.count]
  split
  · simp [*]
  · rename_i hcount
    exact ⟨fun _ => Nat.pos_of_ne_zero hcount, fun _ => ⟨_, rfl⟩⟩

theorem Scan.Of.sound (h : s.Of buf) : s.Sound buf where
  oldest := by
    rw [h.oldestEphemeral]
    cases hidx : buf.findIdx? (·.cls.droppable) with
    | none => exact .inl rfl
    | some j => exact .inr ⟨j, rfl, ephemeralAt_of_findIdx? (fun _ => id) hidx⟩
  keyed key j hj := by
    rw [h.oldestOfKey] at hj
    exact ephemeralAt_of_findIdx? (fun r hr => (Record.keyed_iff.mp hr).1) hj
  counted key hkey := by
    rw [Finmap.mem_iff, h.oldestOfKey]
    exact exists_findIdx? (countP_pos_iff.mp (h.mem_countOfKey.mp hkey))

theorem oldest_ephemeralAt (h : 0 < occurrences buf key) : EphemeralAt buf (oldest buf key) := by
  have hs := scanFrom_of buf
  obtain ⟨j, hj⟩ := Finmap.mem_iff.mp (hs.sound.counted key (hs.mem_countOfKey.mpr h))
  rw [oldest, ← hs.oldestOfKey, hj]
  exact hs.sound.keyed key j hj

theorem Scan.Of.prefer (h : s.Of buf) (acc : Int × Nat) : s.prefer acc key =
      if acc.2 < occurrences buf key ∨ occurrences buf key = acc.2 ∧ (oldest buf key : Int) < acc.1
      then ((oldest buf key : Int), occurrences buf key) else acc := by
  have hcount : (s.countOfKey.lookup key).getD 0 = occurrences buf key := by
    rw [h.count]
    split
    · simp [*]
    · rfl
  rw [Scan.prefer, hcount, h.oldestOfKey]
  rfl

/-- The second loop over keys that were all counted ends at one that no other one beats. -/
theorem Scan.Of.foldl_prefer (h : s.Of buf) {order : List String} (hne : order ≠ [])
    (hcounted : ∀ key ∈ order, 0 < occurrences buf key) :
    ∃ key ∈ order,
      order.foldl s.prefer (-1, 0) = ((oldest buf key : Int), occurrences buf key) ∧
      ∀ key' ∈ order, occurrences buf key' < occurrences buf key ∨
        occurrences buf key' = occurrences buf key ∧ oldest buf key ≤ oldest buf key' := by
  induction order using List.reverseRecOn with
  | nil => exact absurd rfl hne
  | append_singleton order last ih =>
    have hlast := hcounted last (by simp)
    rw [foldl_append, foldl_cons, foldl_nil, h.prefer]
    by_cases hnil : order = []
    · subst hnil
      exact ⟨last, by simp, if_pos (.inl hlast), by simp⟩
    · obtain ⟨key, hkey, hacc, hbest⟩ := ih hnil fun k hk => hcounted k (by simp [hk])
      rw [hacc]
      split
      · refine ⟨last, by simp, rfl, fun k hk => ?_⟩
        rcases mem_append.mp hk with hk | hk
        · have := hbest k hk
          omega
        · simp [mem_singleton.mp hk]
      · refine ⟨key, by simp [hkey], rfl, fun k hk => ?_⟩
        rcases mem_append.mp hk with hk | hk
        · exact hbest k hk
        · rw [mem_singleton.mp hk]
          omega

theorem ranges_coalesceKeys (buf : List (Record E)) : Ranges (coalesceKeys buf) buf := by
  refine ⟨nodup_dedup _, fun key => ?_⟩
  rw [(scanFrom_of buf).mem_countOfKey, occurrences, countP_pos_iff]
  simp only [coalesceKeys, mem_dedup, mem_filter, mem_map, Record.keyed_iff]
  constructor
  · rintro ⟨⟨r, ⟨hr, hdrop⟩, rfl⟩, hne⟩
    exact ⟨r, hr, hdrop, rfl, by simpa using hne⟩
  · rintro ⟨r, hr, hdrop, rfl, hne⟩
    exact ⟨⟨r, ⟨hr, hdrop⟩, rfl⟩, by simpa using hne⟩

/-- The scan finds the victim, whatever the order of the map range. -/
theorem selectVictimIn_isVictim {order : List String} (h : Ranges order buf) :
    IsVictim buf (selectVictimIn order buf) := by
  have hs := scanFrom_of buf
  have hmem : ∀ key, key ∈ order ↔ 0 < occurrences buf key :=
    fun key => (h.mem_iff key).trans hs.mem_countOfKey
  unfold selectVictimIn
  dsimp only
  by_cases hnil : order = []
  · -- no record has a key, and the loop leaves `victim` as it was
    subst hnil
    rw [foldl_nil, if_neg (by decide), hs.oldestEphemeral]
    refine ⟨?_, fun ⟨key, hkey⟩ => absurd ((hmem key).mpr hkey) not_mem_nil, ?_⟩
    · cases hidx : buf.findIdx? (·.cls.droppable) with
      | none => simpa [Class.droppable] using findIdx?_eq_none_iff.mp hidx
      | some j =>
        obtain ⟨r, hr, hcls⟩ := ephemeralAt_of_findIdx? (fun _ => id) hidx
        refine ⟨fun hj => absurd hj (by simp), fun hnone => ?_⟩
        exact absurd hcls (hnone r (mem_of_getElem? hr))
    · intro _ j hj
      simp [hj]
  · obtain ⟨key, hkey, hfold, hbest⟩ := hs.foldl_prefer hnil fun key => (hmem key).mp
    have hpos := (hmem key).mp hkey
    obtain ⟨r, hr, hcls⟩ := oldest_ephemeralAt hpos
    rw [hfold, if_pos (Int.natCast_nonneg _)]
    refine ⟨⟨fun hneg => absurd hneg (by simp), fun hnone => ?_⟩, ?_, ?_⟩
    · exact absurd hcls (hnone r (mem_of_getElem? hr))
    · refine fun _ => ⟨key, hpos, rfl, fun key' => ?_⟩
      by_cases hkey' : key' ∈ order
      · exact hbest key' hkey'
      · rw [hmem] at hkey'
        omega
    · intro hzero
      exact absurd (hzero key) hpos.ne'

theorem IsVictim.unique (h : IsVictim buf v) (h' : IsVictim buf v') : v = v' := by
  by_cases hkeyed : ∃ key, 0 < occurrences buf key
  · obtain ⟨key, -, rfl, hbest⟩ := h.keyed hkeyed
    obtain ⟨key', -, rfl, hbest'⟩ := h'.keyed hkeyed
    have := hbest key'
    have := hbest' key
    omega
  · have hzero : ∀ key, occurrences buf key = 0 := by simpa using hkeyed
    cases hidx : buf.findIdx? (·.cls.droppable) with
    | none =>
      have hnone : ∀ r ∈ buf, r.cls ≠ .ephemeral := by
        simpa [Class.droppable] using findIdx?_eq_none_iff.mp hidx
      rw [h.none_iff.mpr hnone, h'.none_iff.mpr hnone]
    | some j => rw [h.unkeyed hzero j hidx, h'.unkeyed hzero j hidx]

theorem IsVictim.ephemeralAt (h : IsVictim buf v) (hsome : ∃ r ∈ buf, r.cls = .ephemeral) :
    ∃ j : Nat, v = j ∧ EphemeralAt buf j := by
  by_cases hkeyed : ∃ key, 0 < occurrences buf key
  · obtain ⟨key, hpos, hv, -⟩ := h.keyed hkeyed
    exact ⟨_, hv, oldest_ephemeralAt hpos⟩
  · have hdrop : ∃ r ∈ buf, r.cls.droppable = true := by simpa [Class.droppable] using hsome
    obtain ⟨j, hj⟩ := exists_findIdx? hdrop
    exact ⟨j, h.unkeyed (by simpa using hkeyed) j hj, ephemeralAt_of_findIdx? (fun _ => id) hj⟩

/-- The victim is a function of the buffer, whatever the order of the count map. -/
theorem selectVictim_of_buffer (buf : List (Record E)) : IsVictim buf (selectVictim buf) ∧
    ∀ order, Ranges order buf → selectVictimIn order buf = selectVictim buf := by
  have hvictim : IsVictim buf (selectVictim buf) :=
    selectVictimIn_isVictim (ranges_coalesceKeys buf)
  exact ⟨hvictim, fun order hrange => (selectVictimIn_isVictim hrange).unique hvictim⟩

/-- A victim is the index of an ephemeral record. -/
theorem selectVictim_ephemeral (h : 0 ≤ selectVictim buf) :
    ∃ j : Nat, selectVictim buf = j ∧ EphemeralAt buf j := by
  have hvictim : IsVictim buf (selectVictim buf) :=
    selectVictimIn_isVictim (ranges_coalesceKeys buf)
  refine hvictim.ephemeralAt ?_
  by_contra hnone
  have := hvictim.none_iff.mpr fun r hr hcls => hnone ⟨r, hr, hcls⟩
  omega

end Victim

/-! ## The queue -/

/-- One bounded record queue above the transport. -/
structure Queue (E : Type) where
  capacity : Nat
  closed : Bool
  buf : List (Record E)
  pos : 0 < capacity
  bounded : buf.length ≤ capacity

namespace Queue

/-- `NewQueue`. -/
def new (capacity : Int) : Except DeliveryError (Queue E) :=
  if h : capacity < 1 then .error (.invalidConfig capacity)
  else .ok ⟨capacity.toNat, false, [], by omega, Nat.zero_le _⟩

def len (q : Queue E) : Nat := q.buf.length

/-- Discard the record at a victim's index and append the arrival. -/
def replaceVictim (q : Queue E) (victim : Nat) (record : Record E)
    (h : victim < q.buf.length) : Queue E :=
  { q with
    buf := q.buf.eraseIdx victim ++ [record]
    bounded := by
      have := q.bounded
      rw [length_append, length_eraseIdx_of_lt h, length_singleton]
      omega }

/-- `Enqueue`: the queue afterwards and the error answered, `none` for a nil one. -/
def enqueue (q : Queue E) (record : Record E) : Queue E × Option DeliveryError :=
  if q.closed then (q, some .queueClosed)
  else if h : q.buf.length < q.capacity then
    ({ q with
        buf := q.buf ++ [record]
        bounded := by rw [length_append, length_singleton]; omega }, none)
  else
    let victim := selectVictim q.buf
    if victim < 0 then
      if record.cls.droppable then (q, some .dropped) else (q, some .overflow)
    else if hv : victim.toNat < q.buf.length then (q.replaceVictim victim.toNat record hv, none)
    else (q, some .overflow)

def head (q : Queue E) : Option (Record E) := if q.closed then none else q.buf.head?

/-- `Next`: the oldest record, removed. -/
def next (q : Queue E) : Option (Record E × Queue E) :=
  if q.closed then none
  else
    match h : q.buf with
    | [] => none
    | record :: rest =>
      some (record, { q with
        buf := rest
        bounded := by have := q.bounded; rw [h, length_cons] at this; omega })

def clear (q : Queue E) : Queue E :=
  if q.closed then q else { q with buf := [], bounded := Nat.zero_le _ }

/-- `Repair`: everything unapplied is discarded and one control record takes its place. -/
def repair (q : Queue E) (control : Record E) : Queue E × Option DeliveryError :=
  if q.closed then (q, some .queueClosed)
  else ({ q with buf := [control], bounded := q.pos }, none)

def close (q : Queue E) : Queue E :=
  { q with closed := true, buf := [], bounded := Nat.zero_le _ }

/-! ## What each operation leaves behind -/

variable {q : Queue E}

theorem new_ok {capacity : Int} (h : new capacity = .ok q) : q.closed = false ∧ q.buf = [] := by
  unfold new at h
  split at h
  · cases h
  · cases h
    exact ⟨rfl, rfl⟩

@[simp] theorem enqueue_closed (q : Queue E) (record : Record E) :
    (q.enqueue record).1.closed = q.closed := by
  unfold enqueue
  split
  · rfl
  · split
    · rfl
    · dsimp only
      split
      · split <;> rfl
      · split <;> rfl

@[simp] theorem clear_closed (q : Queue E) : q.clear.closed = q.closed := by
  unfold clear
  split <;> rfl

theorem clear_buf (h : q.closed = false) : q.clear.buf = [] := by
  simp [clear, h]

/-- `Next` of an open queue: nothing, or the oldest record. -/
theorem next_open (h : q.closed = false) :
    (q.next = none ∧ q.buf = []) ∨
      ∃ record q', q.next = some (record, q') ∧ q.buf = record :: q'.buf ∧
        q'.closed = false ∧ q'.capacity = q.capacity := by
  obtain ⟨capacity, closed, buf, pos, bounded⟩ := q
  cases h
  cases buf with
  | nil => exact .inl ⟨rfl, rfl⟩
  | cons record rest => exact .inr ⟨record, _, rfl, rfl, rfl, rfl⟩

/-- An open queue takes an arrival, discarding at most one ephemeral record, or is
unchanged and says whether the arrival was droppable. -/
theorem enqueue_open (h : q.closed = false) (record : Record E) :
    ((q.enqueue record).2 = none ∧ (q.enqueue record).1.buf = q.buf ++ [record]) ∨
    ((q.enqueue record).2 = none ∧ ∃ j, EphemeralAt q.buf j ∧
      (q.enqueue record).1.buf = q.buf.eraseIdx j ++ [record]) ∨
    (q.enqueue record = (q, some .dropped) ∧ record.cls = .ephemeral) ∨
    (q.enqueue record = (q, some .overflow) ∧ record.cls ≠ .ephemeral) := by
  unfold enqueue
  rw [if_neg (by simp [h])]
  split
  · exact .inl ⟨rfl, rfl⟩
  · dsimp only
    split
    · split
      · rename_i hd
        exact .inr (.inr (.inl ⟨rfl, by simpa [Class.droppable] using hd⟩))
      · rename_i hd
        exact .inr (.inr (.inr ⟨rfl, by simpa [Class.droppable] using hd⟩))
    · have hpos : 0 ≤ selectVictim q.buf := by omega
      obtain ⟨j, hj, he⟩ := selectVictim_ephemeral hpos
      have hlt : j < q.buf.length := by
        obtain ⟨r, hr, -⟩ := he
        exact (List.getElem?_eq_some_iff.mp hr).1
      rw [dif_pos (by rw [hj]; exact hlt)]
      refine .inr (.inl ⟨rfl, j, he, ?_⟩)
      simp [replaceVictim, hj]

variable {record : Record E}

/-- An overflow leaves the queue as it was, and is never of an ephemeral. -/
theorem enqueue_overflow (h : q.closed = false) (hover : (q.enqueue record).2 = some .overflow) :
    q.enqueue record = (q, some .overflow) ∧ record.cls ≠ .ephemeral := by
  rcases enqueue_open h record with ⟨he, -⟩ | ⟨he, -⟩ | ⟨he, -⟩ | hboth
  · cases he.symm.trans hover
  · rw [he] at hover
    cases hover
  · rw [he] at hover
    cases hover
  · exact hboth

/-- Anything else is taken, or dropped on arrival. -/
theorem enqueue_fits (h : q.closed = false) (hne : (q.enqueue record).2 ≠ some .overflow) :
    (∃ queue, q.enqueue record = (queue, none)) ∨ q.enqueue record = (q, some .dropped) := by
  rcases enqueue_open h record with ⟨he, -⟩ | ⟨he, -⟩ | ⟨he, -⟩ | ⟨he, -⟩
  · exact .inl ⟨_, Prod.ext rfl he⟩
  · exact .inl ⟨_, Prod.ext rfl he⟩
  · exact .inr he
  · rw [he] at hne
    exact absurd rfl hne

theorem filterMap_eraseIdx {β : Type*} {f : Record E → Option β}
    (hf : ∀ r, r.cls = .ephemeral → f r = none) {buf : List (Record E)} {j : Nat}
    (h : EphemeralAt buf j) : (buf.eraseIdx j).filterMap f = buf.filterMap f := by
  obtain ⟨r, hr, hc⟩ := h
  induction buf generalizing j with
  | nil => simp at hr
  | cons a rest ih =>
    cases j with
    | zero =>
      simp only [getElem?_cons_zero, Option.some.injEq] at hr
      subst hr
      rw [eraseIdx_cons_zero, filterMap_cons_none (hf a hc)]
    | succ n =>
      rw [eraseIdx_cons_succ, filterMap_cons, filterMap_cons, ih hr]

/-- Whatever is read off the records that are not ephemeral, an arrival the queue did
not overflow on is appended to it and nothing before it changes. -/
theorem enqueue_filterMap {β : Type*} {f : Record E → Option β}
    (hf : ∀ r, r.cls = .ephemeral → f r = none) (h : q.closed = false)
    (hok : (q.enqueue record).2 ≠ some .overflow) :
    (q.enqueue record).1.buf.filterMap f = q.buf.filterMap f ++ [record].filterMap f := by
  rcases enqueue_open h record with ⟨-, hb⟩ | ⟨-, j, hj, hb⟩ | ⟨he, hc⟩ | ⟨he, -⟩
  · rw [hb, filterMap_append]
  · rw [hb, filterMap_append, filterMap_eraseIdx hf hj]
  · rw [he]
    simp [hf record hc]
  · rw [he] at hok
    exact absurd rfl hok

end Queue

end Factory.Delivery
