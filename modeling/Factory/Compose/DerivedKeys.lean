import Factory.Admission.Service
import Factory.Routing.Bindings

/-!
# Keys derived by hashing fields

The idempotency keys of binds, attaches, desired-state writes and revivals, and the runtime session
of a create, are hashes of several fields in a row. A store takes an equal key for a replay, so two
different field lists must not be hashed as the same bytes: each field is written after its length
in decimal, and that is a self-delimiting code (`Framing.counted`), whatever bytes the fields hold.
-/

namespace Factory.Compose

open List Admission Framing Placement Routing

/-! ## Preimages -/

theorem frames_injective : Function.Injective fun fields : List Bytes =>
    fields.flatMap (counted 0) :=
  (selfDelimiting_counted (by decide)).flatMap fun field => by simp [counted]

theorem framed_injective : Function.Injective framed := fun _ _ h =>
  map_injective_iff.mpr utf8_injective (frames_injective h)

theorem runtimeSessionBytes_inj {tenant session command tenant' session' command' : Bytes}
    (h : runtimeSessionBytes tenant session command =
      runtimeSessionBytes tenant' session' command') :
    tenant = tenant' ∧ session = session' ∧ command = command' := by
  have hmember : SelfDelimiting fun member : Bytes => 124 :: counted 58 member :=
    fun _ _ _ _ heq => selfDelimiting_counted (by decide) (List.cons.inj heq).2
  have hmembers := hmember.flatMap (fun _ => cons_ne_nil _ _) (append_cancel_left h)
  simpa using hmembers

theorem runtimeSessionPreimage_injective : Function.Injective runtimeSessionPreimage := by
  rintro ⟨tenant, session, command⟩ ⟨tenant', session', command'⟩ h
  obtain ⟨htenant, hsession, hcommand⟩ := runtimeSessionBytes_inj h
  cases utf8_injective htenant
  cases utf8_injective hsession
  cases utf8_injective hcommand
  rfl

/-- The fields `bindIdempotencyKey` frames. -/
def bindFields (key : BindingKey) : List String :=
  ["hostbind/v1", key.tenant, key.session, key.host, toString key.hostGeneration,
    toString key.leaseEpoch]

theorem bindIdempotencyKey_eq (core : BindCore) (key : BindingKey) :
    bindIdempotencyKey core key = core.digest (framed (bindFields key)) := by
  simp [bindIdempotencyKey, framed, bindFields, frame]

/-! ## Runtime sessions -/

theorem hexEncode_injective : Function.Injective hexEncode := by
  have hdigit : ∀ m n : Fin 16, hexDigit m = hexDigit n → m = n := by decide
  have hbyte : Function.Injective fun b : UInt8 =>
      [hexDigit (b.toNat / 16), hexDigit (b.toNat % 16)] := by
    intro b c h
    have hb := b.toNat_lt
    have hc := c.toNat_lt
    obtain ⟨hhigh, hlow⟩ := List.cons.inj h
    have h1 := hdigit ⟨b.toNat / 16, by omega⟩ ⟨c.toNat / 16, by omega⟩ hhigh
    have h2 := hdigit ⟨b.toNat % 16, by omega⟩ ⟨c.toNat % 16, by omega⟩ (List.cons.inj hlow).1
    rw [Fin.mk.injEq] at h1 h2
    exact UInt8.toNat_inj.mp (by omega)
  exact (selfDelimiting_fixed hbyte fun _ _ => rfl).flatMap fun _ => cons_ne_nil _ _

theorem dash_notMem_hexEncode (bytes : Bytes) : '-' ∉ hexEncode bytes := by
  have hdigit : ∀ n : Fin 16, hexDigit n ≠ '-' := by decide
  intro hmem
  obtain ⟨b, -, hb⟩ := mem_flatMap.mp hmem
  have hlt := b.toNat_lt
  rcases mem_pair.mp hb with hb | hb
  · exact hdigit ⟨b.toNat / 16, by omega⟩ hb.symm
  · exact hdigit ⟨b.toNat % 16, by omega⟩ hb.symm

/-- Without its dashes a runtime session is the hexadecimal text of its bytes. -/
theorem deriveRuntimeSessionID_filter (sha256 : Bytes → Bytes) (key : CommandDescriptor) :
    (deriveRuntimeSessionID sha256 key).toList.filter (· ≠ '-') =
      hexEncode (stampUUID ((sha256 (runtimeSessionPreimage key)).take 16)) := by
  have hlength (raw : Bytes) : (hexEncode raw).length = raw.length * 2 := by
    simp [hexEncode, length_flatMap]
  have hall : (hexEncode (stampUUID ((sha256 (runtimeSessionPreimage key)).take 16))).length ≤
      32 := by
    simp only [hlength, stampUUID, length_modify, length_take]
    omega
  have hfree := dash_notMem_hexEncode (stampUUID ((sha256 (runtimeSessionPreimage key)).take 16))
  unfold deriveRuntimeSessionID
  generalize hexEncode (stampUUID ((sha256 (runtimeSessionPreimage key)).take 16)) = h
    at hall hfree ⊢
  have hpart (i j : Nat) : ((h.take j).drop i).filter (· ≠ '-') = (h.take j).drop i := by
    refine filter_eq_self.mpr fun c hc => decide_eq_true fun heq => hfree ?_
    exact heq ▸ mem_of_mem_take (mem_of_mem_drop hc)
  have hjoin {i j : Nat} (hij : i ≤ j) : h.take i ++ (h.take j).drop i = h.take j := by
    have := take_append_drop i (h.take j)
    rwa [take_take, Nat.min_eq_left hij] at this
  simp only [String.toList_ofList, filter_append, filter_cons, hpart]
  simp only [ne_eq, not_true_eq_false, decide_false, Bool.false_eq_true, if_false, drop_zero]
  rw [hjoin (by decide), hjoin (by decide), hjoin (by decide), hjoin (by decide),
    take_of_length_le hall]

theorem deriveRuntimeSessionID_injOn {sha256 : Bytes → Bytes} {keys : Set CommandDescriptor}
    (h : Set.InjOn (fun bytes => stampUUID ((sha256 bytes).take 16))
      (Set.image runtimeSessionPreimage keys)) :
    Set.InjOn (deriveRuntimeSessionID sha256) keys := by
  intro key hkey key' hkey' heq
  have hhex := congrArg (fun id => id.toList.filter (· ≠ '-')) heq
  simp only [deriveRuntimeSessionID_filter] at hhex
  exact runtimeSessionPreimage_injective (h (Set.mem_image_of_mem _ hkey)
    (Set.mem_image_of_mem _ hkey') (hexEncode_injective hhex))

/-! ## Keys -/

/-- What equal keys have in common. -/
structure KeysInjective (core : BindCore) (cfg : Placement.ReconcilerConfig)
    (sha256 : Bytes → String) : Prop where
  binds : Function.Injective (bindIdempotencyKey core)
  placementBinds : ∀ o o' : HostLinkRegistryObservation,
    (cfg.bindRequestFor o).idempotencyKey = (cfg.bindRequestFor o').idempotencyKey →
      o.tenant = o'.tenant ∧ o.session = o'.session ∧ o.host = o'.host ∧
      o.hostGeneration = o'.hostGeneration ∧ o.leaseEpoch = o'.leaseEpoch
  attaches : ∀ (r r' : CatalogRecord) (mode mode' : AttachMode),
    cfg.attachKey r mode = cfg.attachKey r' mode' →
      r.tenant = r'.tenant ∧ r.session = r'.session ∧ r.agent = r'.agent ∧
      r.runtimeCompatibility = r'.runtimeCompatibility ∧ mode = mode' ∧
      r.desiredGeneration = r'.desiredGeneration
  desires : ∀ (key key' : SessionKey) (d d' : Desired),
    desiredKey sha256 key d = desiredKey sha256 key' d' →
      key = key' ∧ d.placement.name = d'.placement.name ∧
      d.runtimeCompatibility = d'.runtimeCompatibility ∧ d.workload = d'.workload
  revivals : ∀ (key key' : SessionKey) (d d' : Desired) (n n' : Nat),
    reviveKey sha256 key d n = reviveKey sha256 key' d' n' →
      key = key' ∧ d.placement.name = d'.placement.name ∧
      d.runtimeCompatibility = d'.runtimeCompatibility ∧ d.workload = d'.workload ∧ n = n'
  apart : ∀ (r : CatalogRecord) (mode : AttachMode) (o : HostLinkRegistryObservation),
    cfg.attachKey r mode ≠ (cfg.bindRequestFor o).idempotencyKey

theorem mode_name_inj {mode mode' : AttachMode} (h : mode.name = mode'.name) : mode = mode' := by
  revert h
  cases mode <;> cases mode' <;> decide

theorem intentFields_inj {key key' : SessionKey} {d d' : Desired}
    (h : intentFields key d = intentFields key' d') :
    key = key' ∧ d.placement.name = d'.placement.name ∧
      d.runtimeCompatibility = d'.runtimeCompatibility ∧ d.workload = d'.workload := by
  obtain ⟨tenant, session⟩ := key
  obtain ⟨placement, runtime, version, payload⟩ := d
  obtain ⟨tenant', session'⟩ := key'
  obtain ⟨placement', runtime', version', payload'⟩ := d'
  simp only [intentFields, map_cons, map_nil, cons_append, nil_append,
    List.cons.injEq, and_true] at h
  obtain ⟨htenant, hsession, hplacement, hruntime, hversion, rfl⟩ := h
  cases utf8_injective htenant
  cases utf8_injective hsession
  cases utf8_injective hruntime
  cases utf8_injective hversion
  exact ⟨rfl, utf8_injective hplacement, rfl, rfl⟩

/-- No two field lists are hashed as the same bytes, however many fields there are and whatever
bytes they hold. So, as far as SHA-256 is injective, equal keys name the same fields, and an attach
and a bind of placement never have one key. -/
theorem derived_keys_injective {core : BindCore} {cfg : Placement.ReconcilerConfig}
    {sha256 : Bytes → String} (hcore : Function.Injective core.digest)
    (hcfg : Function.Injective cfg.sha256) (hsha : Function.Injective sha256) :
    (Function.Injective fun fields : List Bytes => fields.flatMap (counted 0)) ∧
    (∀ tenant session command tenant' session' command',
      runtimeSessionBytes tenant session command = runtimeSessionBytes tenant' session' command' →
      tenant = tenant' ∧ session = session' ∧ command = command') ∧
    Function.Injective runtimeSessionPreimage ∧
    (∀ digest keys, Set.InjOn (fun bytes => stampUUID ((digest bytes).take 16))
      (Set.image runtimeSessionPreimage keys) → Set.InjOn (deriveRuntimeSessionID digest) keys) ∧
    KeysInjective core cfg sha256 := by
  refine ⟨frames_injective, fun _ _ _ _ _ _ => runtimeSessionBytes_inj,
    runtimeSessionPreimage_injective, fun _ _ => deriveRuntimeSessionID_injOn, ?_⟩
  have hframed : ∀ {domain domain' : String} {fields fields' : List String},
      cfg.framedKey domain fields = cfg.framedKey domain' fields' →
        domain = domain' ∧ fields = fields' :=
    fun h => List.cons.inj (framed_injective (hcfg h))
  have hdigest : ∀ {text : String} {fields fields' : List Bytes},
      text ++ framedDigest sha256 fields = text ++ framedDigest sha256 fields' → fields = fields' :=
    fun h => frames_injective (hsha ((String.append_right_inj _).mp h))
  refine ⟨?_, ?_, ?_, ?_, ?_, ?_⟩
  · intro key key' h
    rw [bindIdempotencyKey_eq, bindIdempotencyKey_eq] at h
    have hfields := framed_injective (hcore h)
    simp only [bindFields, List.cons.injEq, and_true, true_and] at hfields
    obtain ⟨htenant, hsession, hhost, hgeneration, hepoch⟩ := hfields
    cases key
    cases key'
    simp only [BindingKey.mk.injEq]
    exact ⟨htenant, hsession, hhost, toString_inj hgeneration, toString_inj hepoch⟩
  · intro o o' h
    have hfields := (hframed h).2
    simp only [List.cons.injEq, and_true] at hfields
    obtain ⟨htenant, hsession, hhost, hgeneration, hepoch⟩ := hfields
    exact ⟨htenant, hsession, hhost, toString_inj hgeneration, toString_inj hepoch⟩
  · intro r r' mode mode' h
    have hfields := (hframed h).2
    simp only [List.cons.injEq, and_true] at hfields
    obtain ⟨htenant, hsession, hagent, hruntime, hmode, hgeneration⟩ := hfields
    exact ⟨htenant, hsession, hagent, hruntime, mode_name_inj hmode, toString_inj hgeneration⟩
  · intro key key' d d' h
    exact intentFields_inj (hdigest h)
  · intro key key' d d' n n' h
    obtain ⟨hintent, hgeneration⟩ := append_inj (hdigest h) rfl
    obtain ⟨hkey, hplacement, hruntime, hworkload⟩ := intentFields_inj hintent
    exact ⟨hkey, hplacement, hruntime, hworkload,
      toString_inj (utf8_injective (singleton_inj.mp hgeneration))⟩
  · intro r mode o h
    exact absurd (hframed h).1 (by decide)

/-- A hash that is injective: the bytes themselves, in hexadecimal. -/
def hexText (bytes : Bytes) : String := String.ofList (hexEncode bytes)

theorem hexText_injective : Function.Injective hexText := fun _ _ h =>
  hexEncode_injective (String.ofList_injective h)

/-- A placer that hashes so. -/
def hexConfig : Placement.ReconcilerConfig where
  actorID := "placer"
  candidateLimit := 1
  replaceAttempts := 1
  replaceBackoff := 1
  currentWireVersion := 1
  sha256 := hexText
  actorID_ne := by decide
  replaceAttempts_le := by decide
  replaceBackoff_le := by decide

/-- Two commands, with the last bytes for a digest that keeps sixteen. -/
theorem derived_keys_injective_hexText :
    KeysInjective ⟨1, fun _ => true, hexText⟩ hexConfig hexText ∧
      deriveRuntimeSessionID List.reverse ⟨"t", "s", "c"⟩ ≠
        deriveRuntimeSessionID List.reverse ⟨"t", "s", "d"⟩ := by
  obtain ⟨-, -, -, hsessions, hkeys⟩ := @derived_keys_injective ⟨1, fun _ => true, hexText⟩
    hexConfig hexText hexText_injective hexText_injective hexText_injective
  refine ⟨hkeys, fun heq => ?_⟩
  have hdigest : stampUUID ((runtimeSessionPreimage ⟨"t", "s", "c"⟩).reverse.take 16) ≠
      stampUUID ((runtimeSessionPreimage ⟨"t", "s", "d"⟩).reverse.take 16) := by
    decide +kernel
  have hinj : Set.InjOn (fun bytes : Bytes => stampUUID (bytes.reverse.take 16))
      (Set.image runtimeSessionPreimage {⟨"t", "s", "c"⟩, ⟨"t", "s", "d"⟩}) := by
    rw [Set.image_pair, Set.injOn_pair]
    exact fun h => absurd h hdigest
  have hkey := hsessions List.reverse _ hinj (Set.mem_insert _ _) (Set.mem_insert_of_mem _ rfl) heq
  exact absurd hkey (by decide)

end Factory.Compose
