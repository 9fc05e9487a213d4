import Factory.Lib.Pipeline
import Factory.Livetail.FirstViewer

/-!
# What is owed to the first viewer

`System.Inv` is the invariant of the runs whose steps meet `Anchorable`. A public record
above the viewer's read is owed to the viewer (`System.Owed`) in one of three ways: it is
covered by what was published; or the Host relays it and the pipeline from the Host to the
relay still carries it, or a hole before anything above it; or the Host does not relay it
and the relay's tail is still below it, so that the next record is probed.

Here the steps of the Host are shown to keep it; the others follow in the next modules.
-/

namespace Factory.Livetail

open List Factory.Delivery Factory.Routing
open DeliveryLog (Item Gapless Covered)
open Pipeline

/-! ## The pipeline from the Host to the relay -/

variable (cfg : Config)

/-- What a frame is in the pipeline. -/
def partsOf (data : Bytes) : List Part := (seqOf cfg data).toList.map .record

/-- What a mailbox event is in the pipeline. -/
def Event.parts : Event → List Part
  | .frame data _ => partsOf cfg data
  | ev => if ev.full then [.hole] else []

/-- What the wire will bring a sink whose accepted generation is `gen`, and the generation
accepted after it. -/
def scan (cfg : Config) : Nat → List Message → List Part × Nat
  | gen, [] => ([], gen)
  | _, .subscribed g :: wire => (.hole :: (scan cfg g wire).1, (scan cfg g wire).2)
  | gen, .publication g data :: wire =>
    ((if gen ≠ 0 ∧ gen = g then partsOf cfg data else []) ++ (scan cfg gen wire).1,
      (scan cfg gen wire).2)
  | gen, .ended g :: wire =>
    if gen ≠ 0 ∧ gen = g then (.hole :: (scan cfg 0 wire).1, (scan cfg 0 wire).2)
    else scan cfg gen wire

/-- What the Host will add: the records it has still to relay, while the subscription
live there is the accepted one. Otherwise nothing comes before a new tail does. -/
def ending (tail : Option Nat) (backlog : List Nat) (gen : Nat) : List Part :=
  if gen ≠ 0 ∧ tail = some gen then backlog.map .record else [.hole]

/-- What lies between the mailbox and the Host. -/
def upstream (tail : Option Nat) (backlog : List Nat) (gen : Nat) (wire : List Message) :
    List Part :=
  (scan cfg gen wire).1 ++ ending tail backlog (scan cfg gen wire).2

theorem scan_append (gen : Nat) (wire wire' : List Message) :
    scan cfg gen (wire ++ wire') =
      ((scan cfg gen wire).1 ++ (scan cfg (scan cfg gen wire).2 wire').1,
        (scan cfg (scan cfg gen wire).2 wire').2) := by
  induction wire generalizing gen with
  | nil => rfl
  | cons message wire ih =>
    cases message with
    | subscribed g => simp [scan, ih]
    | publication g data => simp [scan, ih]
    | ended g =>
      by_cases hg : gen ≠ 0 ∧ gen = g
      · simp only [cons_append, scan, if_pos hg, ih]
      · simp only [cons_append, scan, if_neg hg, ih]

theorem scan_zero (wire : List Message) :
    scan cfg 0 wire = ([], 0) ∨ ∃ ps, (scan cfg 0 wire).1 = .hole :: ps := by
  induction wire with
  | nil => exact .inl rfl
  | cons message wire ih =>
    cases message with
    | subscribed g => exact .inr ⟨_, rfl⟩
    | publication g data => simpa [scan] using ih
    | ended g => simpa [scan] using ih

theorem upstream_zero_waits (tail : Option Nat) (backlog : List Nat) (wire : List Message)
    (p : Nat) : Waits (upstream cfg tail backlog 0 wire) p := by
  unfold upstream
  rcases scan_zero cfg wire with hs | ⟨ps, hs⟩
  · rw [hs]
    simp [ending, Waits]
  · rw [hs]
    trivial

theorem record_mem_partsOf {cfg : Config} {data : Bytes} {s : Nat} :
    Part.record s ∈ partsOf cfg data ↔ seqOf cfg data = some s := by
  simp [partsOf]

/-- The sequence of the frame a message carries. -/
def Message.seq : Message → Option Nat
  | .publication _ data => seqOf cfg data
  | _ => none

variable {backlog : List Nat} {tail : Option Nat}

theorem record_mem_ending {gen s : Nat} (h : Part.record s ∈ ending tail backlog gen) :
    s ∈ backlog := by
  unfold ending at h
  split at h
  · simpa using h
  · simp at h

theorem record_mem_upstream {cfg : Config} {gen : Nat} {wire : List Message} {s : Nat}
    (h : Part.record s ∈ upstream cfg tail backlog gen wire) :
    s ∈ backlog ∨ ∃ message ∈ wire, message.seq cfg = some s := by
  induction wire generalizing gen with
  | nil => exact .inl (record_mem_ending h)
  | cons message wire ih =>
    have hlater : ∀ g, Part.record s ∈ upstream cfg tail backlog g wire →
        s ∈ backlog ∨ ∃ m ∈ message :: wire, m.seq cfg = some s := by
      intro g hg
      rcases ih hg with hb | ⟨m, hm, hs⟩
      · exact .inl hb
      · exact .inr ⟨m, mem_cons_of_mem _ hm, hs⟩
    cases message with
    | subscribed g =>
      simp only [upstream, scan, cons_append, mem_cons, reduceCtorEq, false_or] at h
      exact hlater g h
    | publication g data =>
      simp only [upstream, scan, append_assoc, mem_append] at h
      rcases h with h | h
      · split at h
        · exact .inr ⟨_, mem_cons_self, record_mem_partsOf.mp h⟩
        · simp at h
      · exact hlater gen (mem_append.mpr h)
    | ended g =>
      by_cases hg : gen ≠ 0 ∧ gen = g
      · simp only [upstream, scan, if_pos hg, cons_append, mem_cons, reduceCtorEq, false_or] at h
        exact hlater 0 h
      · simp only [upstream, scan, if_neg hg] at h
        exact hlater gen h

/-! ## The invariant -/

namespace System

variable {S : Setting} {σ : System}

/-- The session's entry in the plane, empty before the first watch. -/
def mail (σ : System) : SessionState := σ.plane.session.getD {}

/-- The record the drainer has in hand. -/
def handParts (cfg : Config) : Option (Event × Nat) → List Part
  | some (.frame data _, _) => partsOf cfg data
  | _ => []

/-- Everything between the Host and the relay. -/
def parts (S : Setting) (σ : System) : List Part :=
  handParts S.cfg σ.hand ++ (σ.mail.events.flatMap (Event.parts S.cfg) ++
    upstream S.cfg σ.tail σ.backlog σ.mail.gen σ.wire)

/-- What the viewer has been given, and will be by the publishes under way. -/
def stream (σ : System) : List Item :=
  σ.viewer.log ++ if σ.viewer.closed then [] else heard σ.outbox

/-- The viewer is open and stays so through the publishes under way. -/
def Open (σ : System) : Prop := σ.viewer.closed = false ∧ closes σ.outbox = false

/-- How a public record above the viewer's read is accounted for. -/
def Owed (S : Setting) (σ : System) (p : Nat) : Prop :=
  Covered σ.stream p ∨
    (S.relayed p = true ∧ (Waits (parts S σ) p ∨
      ∃ ev taken, σ.hand = some (ev, taken) ∧ ev.full = true ∧ p ≤ taken)) ∨
    (S.relayed p = false ∧ ∀ m, tailOf σ.relay = some m → m < p)

/-- The facts about the session that do not mention the viewer's read. -/
structure Sound (S : Setting) (σ : System) : Prop where
  small : σ.committed + 1 < 2 ^ 64
  planeOpen : σ.plane.closed = false
  quiet : Quiet σ.relay
  tail_le : ∀ m, tailOf σ.relay = some m → m ≤ σ.committed
  backlog : ∀ s ∈ σ.backlog, S.relayed s = true ∧ s ≤ σ.committed
  wire : ∀ message ∈ σ.wire, ∀ s, message.seq S.cfg = some s → s ≤ σ.committed
  mailbox : ∀ ev ∈ σ.mail.events, ev ≠ .forget ∧ (ev.ephemeral = true → ev.seq S.cfg = none) ∧
    ∀ s, ev.seq S.cfg = some s → s ≤ σ.committed
  hand : ∀ ev taken, σ.hand = some (ev, taken) → ev ≠ .forget ∧ taken ≤ σ.committed ∧
    σ.outbox = [] ∧ ∀ s, ev.seq S.cfg = some s → s ≤ taken
  joined : σ.viewer.joined = true → σ.phase = .returned
  watched : σ.phase ≠ .idle → σ.mail.watched = true ∧ σ.plane.session.isSome
  initial : σ.phase = .returned → σ.mail.initial = false
  records : ∀ s, Item.record s ∈ σ.stream → s ≤ σ.committed
  plain : ∀ x ∈ σ.stream, x.Plain

/-- The invariant. -/
structure Inv (S : Setting) (σ : System) : Prop where
  sound : Sound S σ
  read : ∀ r, σ.viewer.read = some r → σ.viewer.joined = true
  gapless : ∀ r, σ.viewer.read = some r → Gapless (fun p => S.pub p = true) (.trusted r :: σ.stream)
  owed : ∀ r, σ.viewer.read = some r → σ.Open →
    ∀ p, S.pub p = true → r < p → p ≤ σ.committed → Owed S σ p

theorem inv_init (S : Setting) (limit : Nat) (hlimit : 0 < limit) {committed : Nat}
    (hsmall : committed + 1 < 2 ^ 64) : Inv S (init limit hlimit committed) where
  sound :=
    { small := hsmall
      planeOpen := rfl
      quiet := ⟨rfl, by simp [init]⟩
      tail_le := by simp [init, tailOf]
      backlog := by simp [init]
      wire := by simp [init]
      mailbox := by simp [init, mail]
      hand := by simp [init]
      joined := by simp [init]
      watched := by simp [init]
      initial := by simp [init]
      records := by simp [init, stream, heard]
      plain := by simp [init, stream, heard] }
  read := by simp [init]
  gapless := by simp [init]
  owed := by simp [init]

/-- A step of the parties between the Host and the mailbox keeps the invariant when what
waited in the pipeline still does. -/
theorem Inv.of_parts (h : Inv S σ) {σ' : System} (hs : Sound S σ')
    (hcommitted : σ'.committed = σ.committed) (hviewer : σ'.viewer = σ.viewer)
    (houtbox : σ'.outbox = σ.outbox) (hrelay : σ'.relay = σ.relay) (hhand : σ'.hand = σ.hand)
    (hwaits : σ.phase = .returned → ∀ p, Waits (parts S σ) p → Waits (parts S σ') p) :
    Inv S σ' := by
  have hstream : σ'.stream = σ.stream := by simp only [stream, hviewer, houtbox]
  refine ⟨hs, ?_, ?_, ?_⟩
  · rw [hviewer]
    exact h.read
  · rw [hviewer, hstream]
    exact h.gapless
  · intro r hr hopen p hp hrp hpn
    rw [hviewer] at hr
    rw [hcommitted] at hpn
    have hopen' : σ.Open := by
      unfold Open at hopen ⊢
      rwa [hviewer, houtbox] at hopen
    have howed := h.owed r hr hopen' p hp hrp hpn
    unfold Owed at howed ⊢
    rw [hstream, hhand, hrelay]
    refine howed.imp_right (Or.imp_left (And.imp_right (Or.imp_left ?_)))
    exact hwaits (h.sound.joined (h.read r hr)) p

theorem waits_of_upstream {σ' : System} (hhand : σ'.hand = σ.hand)
    (hevents : σ'.mail.events = σ.mail.events)
    (hup : ∀ p, Waits (upstream S.cfg σ.tail σ.backlog σ.mail.gen σ.wire) p →
      Waits (upstream S.cfg σ'.tail σ'.backlog σ'.mail.gen σ'.wire) p) (p : Nat)
    (h : Waits (parts S σ) p) : Waits (parts S σ') p := by
  unfold parts at h ⊢
  rw [hhand, hevents]
  exact h.append_mono fun h => h.append_mono (hup p)

/-! ## The Host -/

theorem upstream_append (cfg : Config) (tail : Option Nat) (backlog : List Nat) (gen : Nat)
    (wire wire' : List Message) :
    upstream cfg tail backlog gen (wire ++ wire') =
      (scan cfg gen wire).1 ++ upstream cfg tail backlog (scan cfg gen wire).2 wire' := by
  simp only [upstream, scan_append, append_assoc]

theorem upstream_relay (S : Setting) (gen g s : Nat) (backlog : List Nat)
    (wire : List Message) (hs : S.relayed s = true) :
    upstream S.cfg (some g) backlog gen (wire ++ [.publication g (S.encode s)]) =
      upstream S.cfg (some g) (s :: backlog) gen wire := by
  rw [upstream_append]
  unfold upstream
  simp only [scan, append_nil]
  congr 1
  by_cases hg : (scan S.cfg gen wire).2 ≠ 0 ∧ (scan S.cfg gen wire).2 = g
  · have hg' : (scan S.cfg gen wire).2 ≠ 0 ∧ some g = some (scan S.cfg gen wire).2 :=
      ⟨hg.1, by rw [hg.2]⟩
    simp only [if_pos hg, ending, if_pos hg', partsOf, S.encode_seq s hs]
    rfl
  · have hg' : ¬ ((scan S.cfg gen wire).2 ≠ 0 ∧ some g = some (scan S.cfg gen wire).2) := by
      rintro ⟨h0, he⟩
      exact hg ⟨h0, (Option.some.inj he).symm⟩
    simp only [if_neg hg, ending, if_neg hg', nil_append]

theorem Sound.wire_append (h : Sound S σ) {message : Message}
    (hmessage : ∀ s, message.seq S.cfg = some s → s ≤ σ.committed) :
    ∀ m ∈ σ.wire ++ [message], ∀ s, m.seq S.cfg = some s → s ≤ σ.committed := by
  intro m hm
  rcases mem_append.mp hm with hm | hm
  · exact h.wire m hm
  · rwa [mem_singleton.mp hm]

/-- The Host relays the oldest record that waits. -/
theorem Inv.relay (h : Inv S σ) {s : Nat} (hb : σ.backlog = s :: backlog) :
    (∀ gen, σ.tail = some gen → Inv S { σ with
      backlog := backlog, wire := σ.wire ++ [.publication gen (S.encode s)] }) ∧
    (σ.tail = none → Inv S { σ with backlog := backlog }) := by
  obtain ⟨hs, hle⟩ := h.sound.backlog s (by rw [hb]; exact mem_cons_self)
  have hrest : ∀ s' ∈ backlog, S.relayed s' = true ∧ s' ≤ σ.committed := by
    intro s' hs'
    exact h.sound.backlog s' (by rw [hb]; exact mem_cons_of_mem _ hs')
  constructor
  · intro gen htail
    refine h.of_parts { h.sound with backlog := hrest, wire := h.sound.wire_append fun t ht => ?_ }
      rfl rfl rfl rfl rfl ?_
    · simp only [Message.seq, S.encode_seq s hs, Option.some.injEq] at ht
      exact ht ▸ hle
    · intro _
      refine waits_of_upstream rfl rfl fun p hw => ?_
      rw [htail, hb, ← upstream_relay S _ _ _ _ _ hs] at hw
      rw [htail]
      exact hw
  · intro htail
    refine h.of_parts { h.sound with backlog := hrest } rfl rfl rfl rfl rfl ?_
    intro _
    refine waits_of_upstream rfl rfl fun p hw => ?_
    have hsame : upstream S.cfg σ.tail σ.backlog σ.mail.gen σ.wire =
        upstream S.cfg σ.tail backlog σ.mail.gen σ.wire := by
      simp [upstream, ending, htail]
    rw [hsame] at hw
    exact hw

theorem Inv.noise (h : Inv S σ) {data : Bytes} (hdata : seqOf S.cfg data = none) (gen : Nat) :
    Inv S { σ with wire := σ.wire ++ [.publication gen data] } := by
  refine h.of_parts { h.sound with wire := h.sound.wire_append (by simp [Message.seq, hdata]) }
    rfl rfl rfl rfl rfl ?_
  · intro _
    refine waits_of_upstream rfl rfl fun p hw => ?_
    rw [upstream_append]
    have hsame : ∀ g, upstream S.cfg σ.tail σ.backlog g [.publication gen data] =
        upstream S.cfg σ.tail σ.backlog g [] := by
      simp [upstream, scan, partsOf, hdata]
    rw [hsame, ← upstream_append, append_nil]
    exact hw

theorem waits_upstream_of_hole {cfg : Config} {tail' : Option Nat} {gen p : Nat}
    {wire later : List Message} (hw : Waits (upstream cfg tail backlog gen wire) p)
    (hlater : Waits (upstream cfg tail' backlog (scan cfg gen wire).2 later) p) :
    Waits (upstream cfg tail' backlog gen (wire ++ later)) p := by
  rw [upstream_append]
  exact Waits.append_mono hw fun _ => hlater

theorem Inv.accept (h : Inv S σ) :
    Inv S { σ with
      plane := σ.plane.newSink.2, tail := some σ.plane.newSink.1
      wire := σ.wire ++ [.subscribed σ.plane.newSink.1] } := by
  refine h.of_parts { h.sound with wire := h.sound.wire_append (by simp [Message.seq]) }
    rfl rfl rfl rfl rfl ?_
  · intro _
    refine waits_of_upstream rfl rfl fun p hw => ?_
    exact waits_upstream_of_hole hw (waits_hole _ _)

theorem Inv.drop (h : Inv S σ) (gen : Nat) (notify : Bool) :
    Inv S { σ with
      tail := none, wire := if notify then σ.wire ++ [.ended gen] else σ.wire } := by
  refine h.of_parts { h.sound with wire := ?_ } rfl rfl rfl rfl rfl ?_
  · cases notify with
    | false => exact h.sound.wire
    | true => exact h.sound.wire_append (by simp [Message.seq])
  · intro _
    refine waits_of_upstream rfl rfl fun p hw => ?_
    have hend : ∀ g later, later = [] ∨ later = [Message.ended gen] →
        Waits (upstream S.cfg none σ.backlog g later) p := by
      intro g later hl
      rcases hl with rfl | rfl
      · simp [upstream, scan, ending, Waits]
      · by_cases hg : g ≠ 0 ∧ g = gen
        · simp only [upstream, scan, if_pos hg]
          trivial
        · simp only [upstream, scan, if_neg hg]
          simp [ending, Waits]
    cases notify with
    | false =>
      have := waits_upstream_of_hole hw (hend _ [] (.inl rfl))
      rwa [append_nil] at this
    | true => exact waits_upstream_of_hole hw (hend _ _ (.inr rfl))

theorem Inv.stopTail (h : Inv S σ) : Inv S { σ with plane := σ.plane.stopTail, tail := none } := by
  have hmail : ({ σ with plane := σ.plane.stopTail, tail := none } : System).mail =
      { σ.mail with gen := 0 } := by
    simp only [mail, Plane.stopTail]
    cases σ.plane.session <;> rfl
  refine h.of_parts { h.sound with mailbox := ?_, watched := ?_, initial := ?_ }
    rfl rfl rfl rfl rfl ?_
  · rw [hmail]
    exact h.sound.mailbox
  · rw [hmail]
    intro hphase
    obtain ⟨hw, hs⟩ := h.sound.watched hphase
    exact ⟨hw, by simpa [Plane.stopTail] using hs⟩
  · rw [hmail]
    exact h.sound.initial
  · intro _
    refine waits_of_upstream rfl (by rw [hmail]) fun p _ => ?_
    rw [hmail]
    exact upstream_zero_waits _ _ _ _ _

/-! ## A commit -/

theorem Sound.record_le (h : Sound S σ) {s : Nat} (hs : Part.record s ∈ parts S σ) :
    s ≤ σ.committed := by
  rcases mem_append.mp hs with hs | hs
  · cases hhand : σ.hand with
    | none => simp [handParts, hhand] at hs
    | some held =>
      obtain ⟨ev, taken⟩ := held
      rw [hhand] at hs
      obtain ⟨-, hle, -, hseq⟩ := h.hand ev taken hhand
      cases ev with
      | frame data ephemeral => exact (hseq s (record_mem_partsOf.mp hs)).trans hle
      | _ => simp [handParts] at hs
  · rcases mem_append.mp hs with hs | hs
    · obtain ⟨ev, hev, hpart⟩ := mem_flatMap.mp hs
      obtain ⟨-, -, hseq⟩ := h.mailbox ev hev
      cases ev with
      | frame data ephemeral => exact hseq s (record_mem_partsOf.mp hpart)
      | live initial => cases initial <;> simp [Event.parts, Event.full] at hpart
      | _ => simp [Event.parts, Event.full] at hpart
    · rcases record_mem_upstream hs with hb | ⟨message, hm, hseq⟩
      · exact (h.backlog s hb).2
      · exact h.wire message hm s hseq

theorem waits_ending_append (tail : Option Nat) (backlog : List Nat) (gen p : Nat)
    (h : ∀ s ∈ backlog, s < p) : Waits (ending tail (backlog ++ [p]) gen) p := by
  unfold ending
  split
  · rw [map_append]
    refine waits_append_record ?_ (.inl rfl)
    intro s hs
    obtain ⟨s', hs', ⟨⟩⟩ := mem_map.mp hs
    exact h s hs'
  · exact waits_hole _ _

theorem waits_ending_mono {gen p : Nat} (h : Waits (ending tail backlog gen) p) (later : List Nat) :
    Waits (ending tail (backlog ++ later) gen) p := by
  unfold ending at h ⊢
  split
  · rename_i hg
    rw [if_pos hg] at h
    rw [map_append]
    exact h.append _
  · exact waits_hole _ _

/-- The Host commits one more record. -/
theorem Inv.commit (h : Inv S σ) (hsmall : σ.committed + 2 < 2 ^ 64) :
    Inv S { σ with
      committed := σ.committed + 1
      backlog := if S.relayed (σ.committed + 1) then σ.backlog ++ [σ.committed + 1]
        else σ.backlog } := by
  have hs := h.sound
  -- the Host's backlog is the old one, and the new record when it is relayed
  obtain ⟨later, hback, hlater⟩ : ∃ later,
      (if S.relayed (σ.committed + 1) then σ.backlog ++ [σ.committed + 1] else σ.backlog) =
        σ.backlog ++ later ∧
      ((S.relayed (σ.committed + 1) = true ∧ later = [σ.committed + 1]) ∨
        (S.relayed (σ.committed + 1) = false ∧ later = [])) := by
    cases hr : S.relayed (σ.committed + 1) with
    | true => exact ⟨[σ.committed + 1], by simp, .inl ⟨rfl, rfl⟩⟩
    | false => exact ⟨[], by simp, .inr ⟨rfl, rfl⟩⟩
  rw [hback]
  have hold : ∀ p, Waits (parts S σ) p → Waits (parts S { σ with
      committed := σ.committed + 1, backlog := σ.backlog ++ later }) p := by
    intro p hw
    refine Waits.append_mono hw fun hw => Waits.append_mono hw fun hw => ?_
    exact Waits.append_mono hw fun hend => waits_ending_mono hend later
  refine ⟨{ hs with
      small := by omega
      tail_le := fun m hm => Nat.le_succ_of_le (hs.tail_le m hm)
      backlog := ?_
      wire := fun message hm s hseq => Nat.le_succ_of_le (hs.wire message hm s hseq)
      mailbox := ?_
      hand := ?_
      records := fun s hrec => Nat.le_succ_of_le (hs.records s hrec) }, h.read, h.gapless, ?_⟩
  · intro s hmem
    rcases mem_append.mp hmem with hmem | hmem
    · obtain ⟨hr, hle⟩ := hs.backlog s hmem
      exact ⟨hr, Nat.le_succ_of_le hle⟩
    · rcases hlater with ⟨hr, rfl⟩ | ⟨-, rfl⟩
      · rw [mem_singleton.mp hmem]
        exact ⟨hr, le_refl _⟩
      · simp at hmem
  · intro ev hev
    obtain ⟨hf, he, hle⟩ := hs.mailbox ev hev
    exact ⟨hf, he, fun s hseq => Nat.le_succ_of_le (hle s hseq)⟩
  · intro ev taken hhand
    obtain ⟨hf, hle, ho, hseq⟩ := hs.hand ev taken hhand
    exact ⟨hf, Nat.le_succ_of_le hle, ho, hseq⟩
  · intro r hr hopen p hp hrp hpn
    by_cases hnew : p ≤ σ.committed
    · refine (h.owed r hr hopen p hp hrp hnew).imp_right ?_
      exact Or.imp_left (And.imp_right (Or.imp_left (hold p)))
    · have hp' : p = σ.committed + 1 := by
        have : p ≤ σ.committed + 1 := hpn
        omega
      subst hp'
      refine .inr ?_
      rcases hlater with ⟨hrel, rfl⟩ | ⟨hrel, -⟩
      · refine .inl ⟨hrel, .inl ?_⟩
        have hless : ∀ s, Part.record s ∈ parts S σ → s < σ.committed + 1 :=
          fun s hpart => Nat.lt_succ_of_le (hs.record_le hpart)
        refine waits_append_record (fun s hpart => hless s (mem_append_left _ hpart)) ?_
        refine waits_append_record (fun s hpart => hless s ?_) ?_
        · exact mem_append_right _ (mem_append_left _ hpart)
        · refine waits_append_record (fun s hpart => hless s ?_) ?_
          · exact mem_append_right _ (mem_append_right _ (mem_append_left _ hpart))
          · refine waits_ending_append _ _ _ _ fun s hb => ?_
            exact Nat.lt_succ_of_le (hs.backlog s hb).2
      · refine .inr ⟨hrel, fun m hm => ?_⟩
        exact Nat.lt_succ_of_le (hs.tail_le m hm)

end System

end Factory.Livetail
