import Factory.Delivery.Queue
import Factory.Lib.Marked

/-!
# Runs of the record queue

A run of the queue is a list of calls of its methods, and its log the calls with what each of them
answered. Two lists are read off a log: the records the queue took (`accepted`: an `Enqueue` or a
`Repair` that answered nil) and the records it gave out (`handed`: a `Next` that had one).

`Clear`, `Repair` and `Close` discard what is queued. Between two of them the queue conserves its
records: what it held and took is what it gave out and holds, less some ephemeral records
(`run_thins`). Over a whole run, what was given out is a subsequence of what was taken
(`run_handed`).
-/

namespace Factory.Delivery

open List Marked

variable {E : Type}

/-! ## When there is a victim -/

/-- There is a victim exactly when the buffer has an ephemeral record. -/
theorem selectVictim_nonneg_iff {buf : List (Record E)} :
    0 ≤ selectVictim buf ↔ ∃ r ∈ buf, r.cls = .ephemeral := by
  constructor
  · intro h
    obtain ⟨j, -, r, hr, hc⟩ := selectVictim_ephemeral h
    exact ⟨r, mem_of_getElem? hr, hc⟩
  · intro h
    obtain ⟨j, hj, -⟩ := (selectVictimIn_isVictim (ranges_coalesceKeys buf)).ephemeralAt h
    rw [selectVictim, hj]
    exact Int.natCast_nonneg j

namespace Queue

/-! ## The answers of an arrival -/

/-- The queue is open, full, and holds nothing it may discard. -/
def Stuck (q : Queue E) : Prop :=
  q.closed = false ∧ q.len = q.capacity ∧ ∀ r ∈ q.buf, r.cls ≠ .ephemeral

variable {q : Queue E}

theorem enqueue_stuck (h : q.Stuck) (record : Record E) :
    q.enqueue record = (q, some (if record.cls.droppable then .dropped else .overflow)) := by
  obtain ⟨hopen, hfull, hnone⟩ := h
  have hvictim : selectVictim q.buf < 0 := by
    by_contra hnonneg
    obtain ⟨r, hr, hc⟩ := selectVictim_nonneg_iff.mp (Int.not_lt.mp hnonneg)
    exact hnone r hr hc
  have hroom : ¬q.buf.length < q.capacity := Nat.not_lt.mpr hfull.ge
  unfold enqueue
  rw [if_neg (by simp [hopen]), dif_neg hroom]
  rw [if_pos hvictim]
  split <;> rfl

/-- Any other open queue takes the arrival, and loses at most one record for it: an ephemeral one,
when it is full. -/
theorem enqueue_taken (hopen : q.closed = false) (hstuck : ¬q.Stuck) (record : Record E) :
    (q.enqueue record).2 = none ∧
      ((q.enqueue record).1.buf = q.buf ++ [record] ∨
        q.len = q.capacity ∧ ∃ j, EphemeralAt q.buf j ∧
          (q.enqueue record).1.buf = q.buf.eraseIdx j ++ [record]) := by
  unfold enqueue
  rw [if_neg (by simp [hopen])]
  split
  · exact ⟨rfl, .inl rfl⟩
  · next hfull =>
    have hlen : q.len = q.capacity := Nat.le_antisymm q.bounded (Nat.not_lt.mp hfull)
    have hvictim : 0 ≤ selectVictim q.buf := by
      refine selectVictim_nonneg_iff.mpr ?_
      by_contra hnone
      exact hstuck ⟨hopen, hlen, fun r hr hc => hnone ⟨r, hr, hc⟩⟩
    obtain ⟨j, hj, heph⟩ := selectVictim_ephemeral hvictim
    have hlt : j < q.buf.length := by
      obtain ⟨r, hr, -⟩ := heph
      exact (List.getElem?_eq_some_iff.mp hr).1
    rw [if_neg (Int.not_lt.mpr hvictim), dif_pos (by rw [hj]; exact hlt)]
    refine ⟨rfl, .inr ⟨hlen, j, heph, ?_⟩⟩
    simp [replaceVictim, hj]

theorem enqueue_of_closed (h : q.closed = true) (record : Record E) :
    q.enqueue record = (q, some .queueClosed) := if_pos h

variable {record : Record E}

theorem enqueue_none (h : (q.enqueue record).2 = none) : q.closed = false ∧ ¬q.Stuck := by
  constructor
  · by_contra hclosed
    rw [enqueue_of_closed (by simpa using hclosed)] at h
    cases h
  · intro hstuck
    rw [enqueue_stuck hstuck] at h
    cases h

theorem enqueue_refused (h : (q.enqueue record).2 ≠ none) : (q.enqueue record).1 = q := by
  by_cases hopen : q.closed = false
  · by_cases hstuck : q.Stuck
    · rw [enqueue_stuck hstuck]
    · exact absurd (enqueue_taken hopen hstuck record).1 h
  · rw [enqueue_of_closed (by simpa using hopen)]

theorem enqueue_overflow_iff :
    (q.enqueue record).2 = some .overflow ↔ q.Stuck ∧ record.cls ≠ .ephemeral := by
  by_cases hopen : q.closed = false
  · by_cases hstuck : q.Stuck
    · rw [enqueue_stuck hstuck]
      simp [hstuck, Class.droppable]
    · rw [(enqueue_taken hopen hstuck record).1]
      simp [hstuck]
  · rw [enqueue_of_closed (by simpa using hopen)]
    simp [Stuck, hopen]

theorem enqueue_dropped_iff :
    (q.enqueue record).2 = some .dropped ↔ q.Stuck ∧ record.cls = .ephemeral := by
  by_cases hopen : q.closed = false
  · by_cases hstuck : q.Stuck
    · rw [enqueue_stuck hstuck]
      simp [hstuck, Class.droppable]
    · rw [(enqueue_taken hopen hstuck record).1]
      simp [hstuck]
  · rw [enqueue_of_closed (by simpa using hopen)]
    simp [Stuck, hopen]

end Queue

/-! ## Calls and logs -/

/-- A call of a method of the queue. -/
inductive Op (E : Type) where
  | enqueue (record : Record E)
  | head
  | next
  | clear
  | repair (control : Record E)
  | close
deriving DecidableEq

/-- The call discards what is queued. -/
def Op.discards : Op E → Bool
  | .clear | .repair _ | .close => true
  | .enqueue _ | .head | .next => false

inductive Answer (E : Type) where
  | err (err : Option DeliveryError)
  | record (record : Option (Record E))
  | nothing
deriving DecidableEq

/-- A call and its answer. -/
structure Event (E : Type) where
  op : Op E
  answer : Answer E
deriving DecidableEq

def Event.accepted : Event E → List (Record E)
  | ⟨.enqueue record, .err none⟩ => [record]
  | ⟨.repair control, .err none⟩ => [control]
  | _ => []

/-- The record the queue gave out. -/
def Event.handed : Event E → List (Record E)
  | ⟨.next, .record (some record)⟩ => [record]
  | _ => []

namespace Queue

/-- One call. -/
def apply (q : Queue E) : Op E → Queue E × Answer E
  | .enqueue record => ((q.enqueue record).1, .err (q.enqueue record).2)
  | .head => (q, .record q.head)
  | .next =>
    match q.next with
    | some (record, q') => (q', .record (some record))
    | none => (q, .record none)
  | .clear => (q.clear, .nothing)
  | .repair control => ((q.repair control).1, .err (q.repair control).2)
  | .close => (q.close, .nothing)

/-- The queue after a list of calls. -/
def after (q : Queue E) : List (Op E) → Queue E
  | [] => q
  | op :: ops => (q.apply op).1.after ops

/-- The calls with their answers. -/
def log (q : Queue E) : List (Op E) → List (Event E)
  | [] => []
  | op :: ops => ⟨op, (q.apply op).2⟩ :: (q.apply op).1.log ops

/-- The records taken over a list of calls. -/
def accepted (q : Queue E) (ops : List (Op E)) : List (Record E) :=
  (q.log ops).flatMap Event.accepted

/-- The records given out over a list of calls. -/
def handed (q : Queue E) (ops : List (Op E)) : List (Record E) :=
  (q.log ops).flatMap Event.handed

variable (q : Queue E) (op : Op E) (ops : List (Op E))

@[simp] theorem accepted_cons :
    q.accepted (op :: ops) =
      Event.accepted ⟨op, (q.apply op).2⟩ ++ (q.apply op).1.accepted ops := rfl

@[simp] theorem handed_cons :
    q.handed (op :: ops) = Event.handed ⟨op, (q.apply op).2⟩ ++ (q.apply op).1.handed ops := rfl

/-! ## One call -/

theorem next_closed {q : Queue E} (h : q.closed = true) : q.next = none := if_pos h

theorem apply_next :
    (∃ record q', q.apply .next = (q', .record (some record)) ∧ q.buf = record :: q'.buf ∧
      q'.closed = q.closed ∧ q'.capacity = q.capacity) ∨
    q.apply .next = (q, .record none) ∧ (q.closed = true ∨ q.buf = []) := by
  unfold apply
  cases hclosed : q.closed with
  | true =>
    rw [next_closed hclosed]
    exact .inr ⟨rfl, .inl rfl⟩
  | false =>
    rcases next_open hclosed with ⟨hnext, hbuf⟩ | ⟨record, q', hnext, hbuf, hclosed', hcapacity⟩
    · rw [hnext]
      exact .inr ⟨rfl, .inr hbuf⟩
    · rw [hnext]
      exact .inl ⟨record, q', rfl, hbuf, hclosed', hcapacity⟩

@[simp] theorem enqueue_capacity (record : Record E) :
    (q.enqueue record).1.capacity = q.capacity := by
  unfold enqueue
  split
  · rfl
  · split
    · rfl
    · dsimp only
      split
      · split <;> rfl
      · split <;> rfl

theorem apply_capacity : (q.apply op).1.capacity = q.capacity := by
  cases op with
  | enqueue record => exact enqueue_capacity q record
  | head => rfl
  | next =>
    rcases apply_next q with ⟨record, q', hnext, -, -, hcapacity⟩ | ⟨hnext, -⟩
    · rw [hnext]
      exact hcapacity
    · rw [hnext]
  | clear =>
    show q.clear.capacity = q.capacity
    unfold clear
    split <;> rfl
  | repair control =>
    show (q.repair control).1.capacity = q.capacity
    unfold repair
    split <;> rfl
  | close => rfl

theorem thins_eraseIdx {buf : List (Record E)} {j : Nat} (h : EphemeralAt buf j) :
    Thins (·.cls.droppable) buf (buf.eraseIdx j) := by
  obtain ⟨r, hr, hc⟩ := h
  induction buf generalizing j with
  | nil => simp at hr
  | cons a rest ih =>
    cases j with
    | zero =>
      simp only [getElem?_cons_zero, Option.some.injEq] at hr
      subst hr
      exact .drop (by simp [Class.droppable, hc]) (Thins.refl rest)
    | succ n =>
      exact .keep a (ih hr)

theorem apply_enqueue_thins (record : Record E) :
    Thins (·.cls.droppable) (q.buf ++ Event.accepted ⟨.enqueue record, .err (q.enqueue record).2⟩)
      (q.enqueue record).1.buf := by
  by_cases htaken : (q.enqueue record).2 = none
  · obtain ⟨hopen, hstuck⟩ := enqueue_none htaken
    rw [htaken]
    rcases (enqueue_taken hopen hstuck record).2 with hbuf | ⟨-, j, heph, hbuf⟩
    · rw [hbuf]
      exact Thins.refl _
    · rw [hbuf]
      exact (thins_eraseIdx heph).append_right [record]
  · rw [enqueue_refused htaken]
    cases herr : (q.enqueue record).2 with
    | none => exact absurd herr htaken
    | some err =>
      show Thins _ (q.buf ++ []) _
      rw [append_nil]
      exact Thins.refl _

theorem apply_thins {op : Op E} (hop : op.discards = false) :
    Thins (·.cls.droppable) (q.buf ++ Event.accepted ⟨op, (q.apply op).2⟩)
      (Event.handed ⟨op, (q.apply op).2⟩ ++ (q.apply op).1.buf) := by
  cases op with
  | enqueue record => exact apply_enqueue_thins q record
  | head =>
    show Thins _ (q.buf ++ []) q.buf
    rw [append_nil]
    exact Thins.refl _
  | next =>
    rcases apply_next q with ⟨record, q', hnext, hbuf, -, -⟩ | ⟨hnext, -⟩
    · rw [hnext, hbuf]
      show Thins _ (record :: q'.buf ++ []) (record :: q'.buf)
      rw [append_nil]
      exact Thins.refl _
    · rw [hnext]
      show Thins _ (q.buf ++ []) q.buf
      rw [append_nil]
      exact Thins.refl _
  | _ => cases hop

theorem apply_discards {op : Op E} (hop : op.discards = true) :
    Event.handed ⟨op, (q.apply op).2⟩ = [] ∧
      ((q.apply op).1.buf = Event.accepted ⟨op, (q.apply op).2⟩ ∨
        (q.apply op).1 = q ∧ Event.accepted ⟨op, (q.apply op).2⟩ = []) := by
  cases op with
  | enqueue | head | next => cases hop
  | clear =>
    refine ⟨rfl, ?_⟩
    cases hclosed : q.closed with
    | false => exact .inl (clear_buf hclosed)
    | true => exact .inr ⟨if_pos hclosed, rfl⟩
  | repair control =>
    refine ⟨rfl, ?_⟩
    show (q.repair control).1.buf = Event.accepted ⟨_, .err (q.repair control).2⟩ ∨
      (q.repair control).1 = q ∧ Event.accepted ⟨_, .err (q.repair control).2⟩ = []
    unfold repair
    split
    · exact .inr ⟨rfl, rfl⟩
    · exact .inl rfl
  | close => exact ⟨rfl, .inl rfl⟩

/-! ## Runs -/

theorem after_capacity (ops : List (Op E)) : (q.after ops).capacity = q.capacity := by
  induction ops generalizing q with
  | nil => rfl
  | cons op ops ih => exact (ih (q.apply op).1).trans (q.apply_capacity op)

theorem run_thins (q : Queue E) {ops : List (Op E)} (hops : ∀ op ∈ ops, op.discards = false) :
    Thins (·.cls.droppable) (q.buf ++ q.accepted ops) (q.handed ops ++ (q.after ops).buf) := by
  induction ops generalizing q with
  | nil =>
    show Thins _ (q.buf ++ []) q.buf
    rw [append_nil]
    exact Thins.refl _
  | cons op ops ih =>
    have hfirst := q.apply_thins (hops op mem_cons_self)
    have hrest := ih (q.apply op).1 fun op' h => hops op' (mem_cons_of_mem op h)
    rw [accepted_cons, handed_cons, ← append_assoc, append_assoc _ (handed _ _)]
    refine (hfirst.append_right _).trans ?_
    rw [append_assoc]
    exact hrest.append_left _

theorem run_handed (q : Queue E) (ops : List (Op E)) :
    (q.handed ops ++ (q.after ops).buf).Sublist (q.buf ++ q.accepted ops) := by
  induction ops generalizing q with
  | nil =>
    show q.buf.Sublist (q.buf ++ [])
    rw [append_nil]
  | cons op ops ih =>
    have hfirst : (Event.handed ⟨op, (q.apply op).2⟩ ++ (q.apply op).1.buf).Sublist
        (q.buf ++ Event.accepted ⟨op, (q.apply op).2⟩) := by
      cases hop : op.discards with
      | false => exact (q.apply_thins hop).sublist
      | true =>
        obtain ⟨hhanded, hbuf | ⟨hq, haccepted⟩⟩ := q.apply_discards hop
        · rw [hhanded, hbuf]
          exact sublist_append_right _ _
        · rw [hhanded, hq, haccepted, append_nil]
          exact List.Sublist.refl _
    rw [accepted_cons, handed_cons, ← append_assoc, append_assoc _ (handed _ _)]
    refine ((ih (q.apply op).1).append_left _).trans ?_
    rw [← append_assoc]
    exact hfirst.append_right _

theorem apply_of_closed {q : Queue E} (h : q.closed = true) (op : Op E) :
    (q.apply op).1.closed = true ∧ Event.handed ⟨op, (q.apply op).2⟩ = [] := by
  cases op with
  | enqueue record => exact ⟨(enqueue_closed q record).trans h, rfl⟩
  | head => exact ⟨h, rfl⟩
  | next =>
    unfold apply
    rw [next_closed h]
    exact ⟨h, rfl⟩
  | clear => exact ⟨(clear_closed q).trans h, rfl⟩
  | repair control =>
    refine ⟨?_, rfl⟩
    show (q.repair control).1.closed = true
    unfold repair
    rw [if_pos h]
    exact h
  | close => exact ⟨rfl, rfl⟩

theorem handed_of_closed {q : Queue E} (h : q.closed = true) (ops : List (Op E)) :
    q.handed ops = [] := by
  induction ops generalizing q with
  | nil => rfl
  | cons op ops ih =>
    obtain ⟨hclosed, hhanded⟩ := apply_of_closed h op
    rw [handed_cons, hhanded, ih hclosed]
    rfl

/-- What is true of the queue made with a capacity after some calls. -/
structure BoundedFifo (capacity : Int) (q : Queue E) (ops : List (Op E)) : Prop where
  /-- The length never exceeds the capacity. -/
  bounded : ((q.after ops).len : Int) ≤ capacity
  /-- An arrival that is taken stands behind the old contents, which lose at most one record for
  it: an ephemeral one, when the queue is full. -/
  taken : ∀ record, ((q.after ops).enqueue record).2 = none →
    ((q.after ops).enqueue record).1.buf = (q.after ops).buf ++ [record] ∨
      ((q.after ops).len : Int) = capacity ∧ ∃ j, EphemeralAt (q.after ops).buf j ∧
        ((q.after ops).enqueue record).1.buf = (q.after ops).buf.eraseIdx j ++ [record]
  overflow : ∀ record, ((q.after ops).enqueue record).2 = some .overflow ↔
    (q.after ops).closed = false ∧ ((q.after ops).len : Int) = capacity ∧
      (∀ r ∈ (q.after ops).buf, r.cls ≠ .ephemeral) ∧ record.cls ≠ .ephemeral
  dropped : ∀ record, ((q.after ops).enqueue record).2 = some .dropped ↔
    (q.after ops).closed = false ∧ ((q.after ops).len : Int) = capacity ∧
      (∀ r ∈ (q.after ops).buf, r.cls ≠ .ephemeral) ∧ record.cls = .ephemeral
  /-- A refusal leaves the queue as it was. -/
  refused : ∀ record, ((q.after ops).enqueue record).2 ≠ none →
    ((q.after ops).enqueue record).1 = q.after ops
  /-- What was given out is a subsequence of what was taken. -/
  subsequence : (q.handed ops).Sublist (q.accepted ops)
  /-- As long as no call discards, what the queue held and takes is given out or still held, in
  arrival order, and of the enduring and the control records none is missing. -/
  kept : ∀ more : List (Op E), (∀ op ∈ more, op.discards = false) →
    ((q.after ops).handed more ++ ((q.after ops).after more).buf).Sublist
      ((q.after ops).buf ++ (q.after ops).accepted more) ∧
    ((q.after ops).handed more ++ ((q.after ops).after more).buf).filter
        (fun r => !r.cls.droppable) =
      ((q.after ops).buf ++ (q.after ops).accepted more).filter (fun r => !r.cls.droppable)
  /-- `Repair` leaves exactly its control record. -/
  repaired : ∀ control, (q.after ops).closed = false →
    ((q.after ops).repair control).2 = none ∧ ((q.after ops).repair control).1.buf = [control]
  /-- `Clear` and `Close` leave nothing. -/
  emptied : ((q.after ops).closed = false → (q.after ops).clear.buf = []) ∧
    (q.after ops).close.buf = []
  /-- A closed queue gives out nothing. -/
  silent : (q.after ops).closed = true →
    (q.after ops).head = none ∧ ∀ more, (q.after ops).handed more = []

theorem boundedFifo_of_new {capacity : Int} {q : Queue E} (h : new capacity = .ok q)
    (ops : List (Op E)) : BoundedFifo capacity q ops := by
  have hcapacity : ((q.after ops).capacity : Int) = capacity := by
    rw [after_capacity]
    unfold new at h
    split at h
    · cases h
    · cases h
      show ((capacity.toNat : Nat) : Int) = capacity
      omega
  have hfull : ((q.after ops).len : Int) = capacity ↔
      (q.after ops).len = (q.after ops).capacity := by
    omega
  refine ⟨?_, ?_, ?_, ?_, fun _ => enqueue_refused, ?_, ?_, ?_, ⟨clear_buf, rfl⟩, ?_⟩
  · have hbounded : (q.after ops).len ≤ (q.after ops).capacity := (q.after ops).bounded
    omega
  · intro record htaken
    obtain ⟨hopen, hstuck⟩ := enqueue_none htaken
    rw [hfull]
    exact (enqueue_taken hopen hstuck record).2
  · intro record
    rw [enqueue_overflow_iff, hfull, Stuck, and_assoc, and_assoc]
  · intro record
    rw [enqueue_dropped_iff, hfull, Stuck, and_assoc, and_assoc]
  · have hhanded := q.run_handed ops
    rw [(new_ok h).2, nil_append] at hhanded
    exact (sublist_append_left _ _).trans hhanded
  · intro more hmore
    have hthins := (q.after ops).run_thins hmore
    exact ⟨hthins.sublist, hthins.filter_not⟩
  · intro control hopen
    unfold repair
    rw [if_neg (by simp [hopen])]
    exact ⟨rfl, rfl⟩
  · intro hclosed
    exact ⟨if_pos hclosed, handed_of_closed hclosed⟩

/-- A queue of two that is filled with an enduring and an ephemeral record and then overrun. -/
def overrun : List (Op Nat) :=
  [.enqueue ⟨.enduring, 0, 1, ""⟩, .enqueue ⟨.ephemeral, 1, 0, "k"⟩, .enqueue ⟨.enduring, 2, 2, ""⟩,
    .enqueue ⟨.ephemeral, 3, 0, "k"⟩, .next, .next]

end Queue

end Factory.Delivery
