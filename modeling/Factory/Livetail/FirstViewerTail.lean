import Factory.Livetail.FirstViewerSteps

/-!
# No hole in the first viewer's tail

The drainer's step keeps the invariant when it meets `Anchorable` (`Inv.finish`), so in
every run whose steps all meet it each public record above the viewer's read was
published, or lies under a reset published before, at every later enduring record the
viewer is given (`first_viewer_unbroken`).

Without the condition the record is lost silently: the drainer reads the tip it anchors
at after `Acquire` has returned, so the viewer may read the journal first, and a record
committed in between that the Host does not relay lies above the one read and at or below
the other (`anchored_past_read`).
-/

namespace Factory.Livetail

open List Factory.Delivery Factory.Routing
open DeliveryLog (Item Gapless Covered)
open Pipeline

/-! ## One event of the drainer -/

variable {ev : Event} {taken : Nat}

section event

variable {pub : Nat → Prop} {relayed : Nat → Bool} {lo hi r : Nat} {cfg : Config}
  {tail tail' : Option Nat} {log out : List Item} {rest : List Part}

theorem Event.full_of_seq {s : Nat} (h : ev.seq cfg = some s) : ev.full = false := by
  cases ev with
  | frame data ephemeral => rfl
  | _ => cases h

/-- How a public record above the viewer's read is accounted for while an event is in
hand. -/
def InHand (relayed : Nat → Bool) (cfg : Config) (lo : Nat) (tail : Option Nat) (ev : Event)
    (log : List Item) (rest : List Part) (p : Nat) : Prop :=
  Covered log p ∨
    (relayed p = true ∧ (Waits ((ev.seq cfg).toList.map .record ++ rest) p ∨
      (ev.full = true ∧ p ≤ lo))) ∨
    (relayed p = false ∧ ∀ m, tail = some m → m < p)

theorem InHand.covered_below {p s : Nat} (h : InHand relayed cfg lo tail ev log rest p)
    (hseq : ev.seq cfg = some s) (hlt : p < s)
    (hgap : ∀ n, tail = some n → n < p → False)
    (hcond : tail = none → relayed p = true) : Covered log p := by
  rcases h with hcov | ⟨-, hwaits | ⟨hfull, -⟩⟩ | ⟨hrel, htail⟩
  · exact hcov
  · rw [hseq] at hwaits
    exact absurd hwaits.le (Nat.not_le.mpr hlt)
  · rw [Event.full_of_seq hseq] at hfull
    cases hfull
  · cases ht : tail with
    | none =>
      rw [hcond ht] at hrel
      cases hrel
    | some n => exact (hgap n ht (htail n ht)).elim

theorem floor_trusted (hplain : ∀ x ∈ log, x.Plain) :
    DeliveryLog.floor (.trusted r :: log) = some r := by
  have := DeliveryLog.floor_append_plain (l := [.trusted r]) hplain
  simpa [DeliveryLog.floor, DeliveryLog.floorStep] using this

theorem Served.gapless (h : Served pub lo hi cfg tail ev tail' out)
    (hgap : Gapless pub (.trusted r :: log)) (hplain : ∀ x ∈ log, x.Plain)
    (howed : ∀ p, pub p → r < p → p ≤ hi → InHand relayed cfg lo tail ev log rest p)
    (hs : ∀ s, ev.seq cfg = some s → s ≤ lo) (hlohi : lo ≤ hi)
    (hcond : tail = none → ∀ s, ev.seq cfg = some s →
      ∀ p, pub p → r < p → p < s → relayed p = true) :
    Gapless pub (.trusted r :: (log ++ out)) := by
  cases h with
  | idle | anchored => simpa using hgap
  | reset | gapFull => exact hgap.append_mark (by simp)
  | @record ev s hseq hclear =>
    refine hgap.append_record ?_
    intro f hf p hp hfp hps
    rw [floor_trusted hplain] at hf
    cases hf
    have hle := (hs s hseq).trans hlohi
    have hcov := (howed p hp hfp (by omega)).covered_below hseq hps
      (fun n hn hnp => hclear n hn p hp hnp hps) (fun ht => hcond ht s hseq p hp hfp hps)
    exact hcov.mono (subset_cons_self _ _)
  | @gap ev s t hseq hlo hhi hreach =>
    rw [append_cons]
    refine (hgap.append_mark (by simp)).append_record ?_
    intro f _ p _ _ hps
    exact DeliveryLog.covered_of_reset (t := t) (by simp) (by omega)

theorem Served.owed (h : Served pub lo hi cfg tail ev tail' out) {p : Nat} (hp : pub p)
    (hrp : r < p) (howed : InHand relayed cfg lo tail ev log rest p)
    (hs : ∀ s, ev.seq cfg = some s → s ≤ lo)
    (hcond : tail = none → ∀ s, ev.seq cfg = some s → ∀ p, pub p → r < p → p < s → relayed p = true)
    (hanchor : ∀ t, ev = .live true → tail' = some t → tail = some t ∨ (p ≤ t → relayed p = true)) :
    Covered (log ++ out) p ∨ (relayed p = true ∧ Waits rest p) ∨
      (relayed p = false ∧ ∀ m, tail' = some m → m < p) := by
  have hleft : Covered log p → Covered (log ++ out) p :=
    fun hcov => DeliveryLog.covered_append.mpr (.inl hcov)
  have hout : ∀ x ∈ out, x.Covers p → Covered (log ++ out) p :=
    fun x hx hcov => ⟨x, mem_append_right log hx, hcov⟩
  cases h with
  | @idle ev hfull hseq =>
    refine howed.imp hleft (Or.imp (And.imp_right ?_) id)
    rintro (hwaits | ⟨hf, -⟩)
    · rw [hseq] at hwaits
      exact hwaits
    · cases hfull.symm.trans hf
  | @anchored t hlo hhi =>
    refine howed.imp hleft (Or.imp (And.imp_right ?_) ?_)
    · rintro (hwaits | ⟨hf, -⟩)
      · exact hwaits
      · cases hf
    · rintro ⟨hrel, htail⟩
      refine ⟨hrel, fun m hm => ?_⟩
      cases hm
      rcases hanchor t rfl rfl with ht | hcover
      · exact htail t ht
      · by_contra hle
        rw [hcover (Nat.not_lt.mp hle)] at hrel
        cases hrel
  | @reset ev t hinit hseq hlo hhi =>
    by_cases hpt : p ≤ t
    · exact .inl (hout (.reset t) (by simp) hpt)
    · refine howed.imp hleft (Or.imp (And.imp_right ?_) (And.imp_right ?_))
      · rintro (hwaits | ⟨-, hpl⟩)
        · rw [hseq] at hwaits
          exact hwaits
        · omega
      · intro _ m hm
        cases hm
        omega
  | @record ev s hseq hclear =>
    by_cases hps : p = s
    · exact .inl (hout (.record s) (by simp) hps)
    · by_cases hlt : p < s
      · exact .inl (hleft (howed.covered_below hseq hlt
          (fun n hn hnp => hclear n hn p hp hnp hlt) (fun ht => hcond ht s hseq p hp hrp hlt)))
      · refine howed.imp hleft (Or.imp (And.imp_right ?_) (And.imp_right ?_))
        · rintro (hwaits | ⟨hf, -⟩)
          · rw [hseq] at hwaits
            exact (hwaits.tail hps).2
          · rw [Event.full_of_seq hseq] at hf
            cases hf
        · intro htail m hm
          obtain ⟨n, hn, rfl⟩ := Option.map_eq_some_iff.mp hm
          have := htail n hn
          omega
  | @gap ev s t hseq hlo hhi hreach =>
    by_cases hpt : p ≤ t
    · exact .inl (hout (.reset t) (by simp) hpt)
    · by_cases hps : p = s
      · exact .inl (hout (.record s) (by simp) hps)
      · refine howed.imp hleft (Or.imp (And.imp_right ?_) (And.imp_right ?_))
        · rintro (hwaits | ⟨-, hpl⟩)
          · rw [hseq] at hwaits
            exact (hwaits.tail hps).2
          · omega
        · intro _ m hm
          cases hm
          omega
  | @gapFull ev s t t' hseq hlo hle hhi =>
    by_cases hpt : p ≤ t'
    · exact .inl (hout (.reset t') (by simp) hpt)
    · have := hs s hseq
      refine howed.imp hleft (Or.imp (And.imp_right ?_) (And.imp_right ?_))
      · rintro (hwaits | ⟨-, hpl⟩)
        · rw [hseq] at hwaits
          exact (hwaits.tail (by omega)).2
        · omega
      · intro _ m hm
        cases hm
        omega

end event

namespace System

variable {S : Setting} {σ : System}

variable {a : Seams}

/-- What waits behind the event in hand. -/
def behind (S : Setting) (σ : System) : List Part :=
  σ.mail.events.flatMap (Event.parts S.cfg) ++ upstream S.cfg σ.tail σ.backlog σ.mail.gen σ.wire

theorem Owed.inHand {p : Nat} (hhand : σ.hand = some (ev, taken)) (hout : σ.outbox = [])
    (h : Owed S σ p) :
    InHand S.relayed S.cfg taken (tailOf σ.relay) ev σ.viewer.log (behind S σ) p := by
  have hlog : σ.stream = σ.viewer.log := by simp [stream, hout, heard]
  unfold Owed at h
  rw [hlog] at h
  refine h.imp_right (Or.imp_left (And.imp_right ?_))
  rintro (hwaits | ⟨ev', taken', heq, hfull, hle⟩)
  · rw [parts, hhand] at hwaits
    cases ev <;> exact .inl hwaits
  · cases hhand.symm.trans heq
    exact .inr ⟨hfull, hle⟩

theorem Anchorable.unanchored {r : Nat} (hhand : σ.hand = some (ev, taken))
    (hread : σ.viewer.read = some r) (h : Anchorable S σ (.finish a))
    (htail : tailOf σ.relay = none) (s : Nat) (hseq : ev.seq S.cfg = some s) (p : Nat)
    (hp : S.pub p = true) (hrp : r < p) (hps : p < s) : S.relayed p = true := by
  simp only [Anchorable, hhand, hread] at h
  cases ev with
  | frame data ephemeral => exact h htail s hseq p hps hrp hp
  | _ => cases hseq

theorem Anchorable.anchored {r : Nat} (hhand : σ.hand = some (ev, taken))
    (hread : σ.viewer.read = some r) (h : Anchorable S σ (.finish a)) (hquiet : Quiet σ.relay)
    {p : Nat} (hp : S.pub p = true) (hrp : r < p) (t : Nat) (hev : ev = .live true)
    (ht : tailOf (handle S.cfg σ.relay a ev) = some t) :
    tailOf σ.relay = some t ∨ (p ≤ t → S.relayed p = true) := by
  subst hev
  simp only [Anchorable, hhand, hread] at h
  rcases handle_anchor S.limits_ok hquiet a with ⟨tip, htip, heq⟩ | heq
  · obtain rfl : tip = t := Option.some.inj (heq.symm.trans ht)
    exact .inr fun hle => h tip (by simp [htip]) p hle hrp hp
  · exact .inl (heq.symm.trans ht)

theorem Inv.finish (h : Inv S σ) (hhand : σ.hand = some (ev, taken))
    (hfresh : Fresh (fun p => S.pub p = true) taken σ.committed (readsOf S σ a ev))
    (hmeets : Anchorable S σ (.finish a)) :
    Inv S { σ with
      hand := none, relay := handle S.cfg σ.relay a ev, outbox := callsOf S σ a ev } := by
  have hs := h.sound
  obtain ⟨hforget, hle, hout, hseq⟩ := hs.hand ev taken hhand
  obtain ⟨hquiet, htail, calls, hcalls, houtcome⟩ := handle_served S.limits_ok hs.small hs.quiet
    hs.tail_le hforget (fun s hev => (hseq s hev).trans hle) a hfresh
  rw [callsOf, hcalls, drop_left]
  -- every item published is one of an abstract step
  have hheard : ∀ x ∈ heard calls, x.Plain ∧ ∀ s, x = .record s → s ≤ σ.committed := by
    rcases houtcome with ⟨-, hnil⟩ | ⟨out, hserved, hsent⟩
    · simp [hnil]
    · have hsub : heard calls ⊆ out := by
        rcases hsent with ⟨-, rfl⟩ | ⟨-, hpre⟩
        · exact List.Subset.refl _
        · exact hpre.subset
      intro x hx
      refine ⟨hserved.plain x (hsub hx), ?_⟩
      rintro s rfl
      exact (hseq s (hserved.record_seq (hsub hx))).trans hle
  have hlog : σ.stream = σ.viewer.log := by simp [stream, hout, heard]
  have hinhand : ∀ r, σ.viewer.read = some r → σ.viewer.closed = false → ∀ p, S.pub p = true →
      r < p → p ≤ σ.committed →
      InHand S.relayed S.cfg taken (tailOf σ.relay) ev σ.viewer.log (behind S σ) p := by
    intro r hr hopen p hp hrp hpn
    exact (h.owed r hr ⟨hopen, by rw [hout]; rfl⟩ p hp hrp hpn).inHand hhand hout
  refine ⟨{ hs with quiet := hquiet, tail_le := htail, hand := ?_, records := ?_, plain := ?_ },
    h.read, ?_, ?_⟩
  · intro ev' taken' heq
    cases heq
  · intro s hrec
    rcases mem_append.mp hrec with hrec | hrec
    · exact hs.records s (by rw [hlog]; exact hrec)
    · split at hrec
      · simp at hrec
      · exact (hheard _ hrec).2 s rfl
  · intro x hx
    rcases mem_append.mp hx with hx | hx
    · exact hs.plain x (by rw [hlog]; exact hx)
    · split at hx
      · simp at hx
      · exact (hheard x hx).1
  · intro r hr
    have hgap := h.gapless r hr
    rw [hlog] at hgap
    unfold stream
    cases hc : σ.viewer.closed with
    | true => simpa using hgap
    | false =>
      simp only [Bool.false_eq_true, if_false]
      rcases houtcome with ⟨-, hnil⟩ | ⟨out, hserved, hsent⟩
      · rw [hnil, append_nil]
        exact hgap
      · have hfull := hserved.gapless hgap (hlog ▸ hs.plain) (hinhand r hr hc) hseq hle
          (hmeets.unanchored hhand hr)
        rcases hsent with ⟨-, heq⟩ | ⟨-, m, hm⟩
        · rw [heq]
          exact hfull
        · rw [← hm, ← append_assoc, ← cons_append] at hfull
          exact hfull.left
  · intro r hr hopen p hp hrp hpn
    have hc : σ.viewer.closed = false := hopen.1
    rcases houtcome with ⟨hclose, -⟩ | ⟨out, hserved, ⟨-, heq⟩ | ⟨hclose, -⟩⟩
    · exact absurd hopen.2 (by simp [hclose])
    · have hstep := hserved.owed hp hrp (hinhand r hr hc p hp hrp hpn) hseq
        (hmeets.unanchored hhand hr) (hmeets.anchored hhand hr hs.quiet hp hrp)
      unfold Owed stream
      simp only [hc, Bool.false_eq_true, if_false, heq]
      exact hstep.imp_right (Or.imp_left (And.imp_right .inl))
    · exact absurd hopen.2 (by simp [hclose])

/-! ## Runs -/

theorem Inv.step {σ' : System} {act : Act} (hmeets : Anchorable S σ act)
    (hstep : step S σ act = some σ') (h : Inv S σ) : Inv S σ' := by
  cases act with
  | commit =>
    simp only [System.step, Option.ite_none_right_eq_some, Option.some.injEq] at hstep
    obtain ⟨hsmall, rfl⟩ := hstep
    exact h.commit hsmall
  | relay =>
    simp only [System.step] at hstep
    split at hstep
    · cases hstep
    · rename_i s backlog hb
      split at hstep
      · rename_i htail
        cases hstep
        exact (h.relay hb).2 htail
      · rename_i gen htail
        cases hstep
        exact (h.relay hb).1 gen htail
  | noise data =>
    simp only [System.step] at hstep
    split at hstep
    · cases hstep
    · rename_i gen htail
      simp only [Option.ite_none_right_eq_some, Option.some.injEq] at hstep
      obtain ⟨hdata, rfl⟩ := hstep
      exact h.noise hdata gen
  | accept =>
    simp only [System.step, Option.ite_none_left_eq_some, Option.some.injEq] at hstep
    obtain ⟨-, rfl⟩ := hstep
    exact h.accept
  | drop notify =>
    simp only [System.step] at hstep
    split at hstep
    · cases hstep
    · rename_i gen htail
      cases hstep
      exact h.drop gen notify
  | stopTail =>
    cases hstep
    exact h.stopTail
  | receive =>
    simp only [System.step] at hstep
    split at hstep
    · cases hstep
    · rename_i message wire hwire
      cases hstep
      exact h.receive hwire
  | restored =>
    cases hstep
    exact h.restored
  | watching =>
    simp only [System.step, Option.ite_none_right_eq_some, Option.some.injEq] at hstep
    obtain ⟨hphase, rfl⟩ := hstep
    exact h.watching hphase
  | served =>
    simp only [System.step, Option.ite_none_right_eq_some, Option.some.injEq] at hstep
    obtain ⟨hphase, rfl⟩ := hstep
    exact h.served hphase
  | read =>
    simp only [System.step, Option.ite_none_right_eq_some, Option.some.injEq] at hstep
    obtain ⟨⟨hjoined, -⟩, rfl⟩ := hstep
    exact h.reads hjoined
  | take =>
    simp only [System.step] at hstep
    split at hstep
    · rename_i hidle
      split at hstep
      · rename_i ev plane hdrain
        cases hstep
        exact (h.take hidle.1 hidle.2).1 ev plane hdrain
      · rename_i plane hdrain
        cases hstep
        exact (h.take hidle.1 hidle.2).2 plane hdrain
    · cases hstep
  | finish a =>
    simp only [System.step] at hstep
    split at hstep
    · cases hstep
    · rename_i ev taken hhand
      split at hstep
      · rename_i hfresh
        cases hstep
        exact h.finish hhand hfresh hmeets
      · cases hstep
  | publish =>
    simp only [System.step] at hstep
    split at hstep
    · cases hstep
    · rename_i call outbox hout
      cases hstep
      exact h.publish hout

/-- In every run whose steps meet the condition, when an enduring record is given to the
first viewer, every public record above the viewer's durable read and below it was given
to the viewer before, or lies under a session.reset that was. -/
theorem first_viewer_unbroken (S : Setting) (limit : Nat) (hlimit : 0 < limit) (committed : Nat)
    (hsmall : committed + 1 < 2 ^ 64) (acts : List Act) (σ : System)
    (hrun : Runs.exec (System.step S) (init limit hlimit committed) acts = some σ)
    (hmeets : Runs.Meets (System.step S) (Anchorable S) (init limit hlimit committed) acts)
    (r : Nat) (hread : σ.viewer.read = some r) (pre post : List Item) (s : Nat)
    (hlog : σ.viewer.log = pre ++ .record s :: post) (p : Nat) (hpub : S.pub p = true)
    (hrp : r < p) (hps : p < s) :
    .record p ∈ pre ∨ ∃ tip, p ≤ tip ∧ .reset tip ∈ pre := by
  have hinv : Inv S σ := Runs.exec_invariant_of_meets (fun _ _ _ => Inv.step) hrun hmeets
    (inv_init S limit hlimit hsmall)
  have hgap : Gapless (fun p => S.pub p = true) (.trusted r :: σ.viewer.log) := by
    have := hinv.gapless r hread
    exact this.left
  have hplain : ∀ x ∈ pre, x.Plain := by
    intro x hx
    refine hinv.sound.plain x (mem_append_left _ ?_)
    rw [hlog]
    exact mem_append_left _ hx
  rw [hlog, ← cons_append] at hgap
  obtain ⟨x, hx, hcov⟩ :=
    hgap (.trusted r :: pre) s post rfl r (floor_trusted hplain) p hpub hrp hps
  rcases mem_cons.mp hx with rfl | hx
  · exact hcov.elim
  · cases x with
    | record s' =>
      cases hcov
      exact .inl hx
    | reset tip => exact .inr ⟨tip, hcov, hx⟩
    | _ => exact hcov.elim

/-! ## Two runs -/

/-- A session whose public record 1 the Host never relays. -/
def byteSetting : Setting where
  cfg := byteConfig 4 4
  pub p := decide (p < 256)
  relayed p := decide (p < 256 ∧ p ≠ 1)
  encode s := [UInt8.ofNat s]
  limits_ok := rfl
  encode_seq s hs := by
    have hlt : s < 256 := (of_decide_eq_true hs).1
    simp [seqOf, classify, frameOf, coveredThrough, byteConfig, byteCore, parseEnduring,
      Config.owns, Enduring.record]
    omega

/-- The tail is anchored at 0 before the viewer reads 0. Record 1 is not relayed, so
record 2 is probed and comes after a reset. -/
def anchoredRun : List Act :=
  [.watching, .accept, .receive, .served, .take, .finish { call := { tips := [some 0] } }, .read,
    .commit, .commit, .relay, .receive, .take,
    .finish { call := { page := some { events := [1], coveredThrough := 1, capturedTip := 2 } }
              published := [true, true] },
    .publish, .publish]

theorem first_viewer_unbroken_anchoredRun :
    ∃ σ, Runs.exec (System.step byteSetting) (init 4 (by decide) 0) anchoredRun = some σ ∧
      σ.viewer.log = [.reset 2, .record 2] ∧
      (Item.record 1 ∈ [Item.reset 2] ∨ ∃ tip, 1 ≤ tip ∧ Item.reset tip ∈ [Item.reset 2]) := by
  refine ⟨_, rfl, by decide +kernel, ?_⟩
  exact first_viewer_unbroken byteSetting 4 (by decide) 0 (by decide) anchoredRun _ rfl
    (by decide +kernel) 0 rfl [.reset 2] [] 2 (by decide +kernel) 1 rfl (by decide) (by decide)

/-- The viewer reads 0 as soon as its `Acquire` has returned. Record 1 is committed and not
relayed, the drainer then anchors the tail at 1, and record 2 is taken to follow it. -/
def lateAnchorRun : List Act :=
  [.watching, .accept, .receive, .served, .read, .commit, .take,
    .finish { call := { tips := [some 1] } }, .commit, .relay, .receive, .take,
    .finish { published := [true] }, .publish]

/-- A run in which the open viewer is given record 2 and neither the public record 1 nor a
reset. -/
theorem anchored_past_read :
    ∃ σ, Runs.exec (System.step byteSetting) (init 4 (by decide) 0) lateAnchorRun = some σ ∧
      σ.viewer.closed = false ∧ σ.viewer.read = some 0 ∧ byteSetting.pub 1 = true ∧
      ∃ pre post, σ.viewer.log = pre ++ .record 2 :: post ∧
        ¬ (Item.record 1 ∈ pre ∨ ∃ tip, 1 ≤ tip ∧ Item.reset tip ∈ pre) :=
  ⟨_, rfl, rfl, rfl, rfl, [], [], by decide +kernel, by simp⟩

end System

end Factory.Livetail
