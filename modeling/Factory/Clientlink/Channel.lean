import Factory.Clientlink.Engine
import Mathlib.Data.List.TakeWhile

/-!
# The channel grammars

The authorizer of `internal/identity/authorize.go` reads a session channel with a regular
expression, the ClientLink edge with two cuts (`demandKeyOf`), and the publisher writes one
(`SessionChannel`). All three are the one grammar `Names`. A character stands for a byte.
-/

namespace Factory.Clientlink

open List

/-! ## The authorizer's parse -/

/-- A piece of a pattern between `\A` and `\z`: a text, or the group `([^c]+)`. -/
inductive Piece where
  | text (s : List Char)
  | group (c : Char)

/-- The submatches of a pattern, in the order in which a greedy leftmost-first match tries them. -/
def submatches : List Piece → List Char → List (List (List Char))
  | [], cs => if cs = [] then [[]] else []
  | .text s :: ps, cs => if s.isPrefixOf cs then submatches ps (cs.drop s.length) else []
  | .group c :: ps, cs =>
    (List.range (cs.takeWhile (· ≠ c)).length).reverse.flatMap fun n =>
      (submatches ps (cs.drop (n + 1))).map (cs.take (n + 1) :: ·)

def sessionChannelPattern : List Piece :=
  [.text "session:".toList, .group ':', .text ":".toList, .group ':']

structure ParsedSessionChannel where
  tenant : TenantID := ""
  session : SessionID := ""
  valid : Bool := false
deriving DecidableEq

def parseSessionChannel (core : Identifiers) (channel : String) : ParsedSessionChannel :=
  match (submatches sessionChannelPattern channel.toList).head? with
  | some [t, s] =>
    let tenant := String.ofList t
    let session := String.ofList s
    ⟨tenant, session, core.validTenant tenant && core.validSession session⟩
  | _ => {}

def sessionChannel (tenant : TenantID) (session : SessionID) : String :=
  String.ofList channelPrefix ++ tenant ++ ":" ++ session

/-- Core's validations, which refuse the empty string. -/
structure CoreIdentifiers extends Identifiers where
  tenant_nonempty : validTenant "" = false
  session_nonempty : validSession "" = false

/-! ## The grammar -/

/-- The channel names this tenant's session. -/
structure Names (core : Identifiers) (channel : String) (tenant : TenantID)
    (session : SessionID) : Prop where
  channel_eq : channel = sessionChannel tenant session
  tenant_free : ':' ∉ tenant.toList
  session_free : ':' ∉ session.toList
  tenant_valid : core.validTenant tenant = true
  session_valid : core.validSession session = true

variable {core : Identifiers} {channel t s : String}

theorem toList_sessionChannel (t s : String) :
    (sessionChannel t s).toList = channelPrefix ++ (t.toList ++ ':' :: s.toList) := by
  simp [sessionChannel]

variable {l m : List Char}

theorem cut_append (hl : ':' ∉ l) :
    (l ++ ':' :: m).takeWhile (· ≠ ':') = l ∧ (l ++ ':' :: m).dropWhile (· ≠ ':') = ':' :: m := by
  have hall : ∀ c ∈ l, decide (c ≠ ':') = true := fun c hc =>
    decide_eq_true fun heq => hl (heq ▸ hc)
  rw [takeWhile_append_of_pos hall, dropWhile_append_of_pos hall]
  simp

theorem eq_append_of_dropWhile {c : Char} (h : l.dropWhile (· ≠ ':') = c :: m)
    : l = l.takeWhile (· ≠ ':') ++ ':' :: m := by
  have hc : c = ':' := by
    have hhead := head?_dropWhile_not (· ≠ ':') l
    rw [h] at hhead
    simpa using hhead
  have happend := takeWhile_append_dropWhile (p := (· ≠ ':')) (l := l)
  rw [h, hc] at happend
  exact happend.symm

theorem cut_unique {l' m' : List Char} (hl : ':' ∉ l) (hl' : ':' ∉ l')
    (h : l ++ ':' :: m = l' ++ ':' :: m') : l = l' ∧ m = m' := by
  have ht := congrArg (List.takeWhile (· ≠ ':')) h
  have hd := congrArg (List.dropWhile (· ≠ ':')) h
  rw [(cut_append hl).1, (cut_append hl').1] at ht
  rw [(cut_append hl).2, (cut_append hl').2] at hd
  exact ⟨ht, (List.cons.inj hd).2⟩

/-- What `demandKeyOf` answers: a key or a denial at a channel that names a session, a fault at any
other. -/
theorem demandKeyOf_cases (core : Identifiers) (p : Principal) (channel : String) :
    (∃ t s, Names core channel t s ∧ demandKeyOf core p channel =
      if t = p.tenant then .ok ⟨p.tenant, s⟩ else .error .anotherTenant) ∨
    (∀ t s, ¬ Names core channel t s) ∧
      ∃ what, demandKeyOf core p channel = .error (.unroutable what) := by
  by_cases hnames : ∃ t s, Names core channel t s
  · obtain ⟨t, s, h⟩ := hnames
    refine .inl ⟨t, s, h, ?_⟩
    have hpre : channelPrefix.isPrefixOf channel.toList = true := by
      rw [h.channel_eq, toList_sessionChannel]
      simp
    have hdrop : channel.toList.drop channelPrefix.length = t.toList ++ ':' :: s.toList := by
      rw [h.channel_eq, toList_sessionChannel, drop_left]
    unfold demandKeyOf
    simp only [hpre, hdrop, cut_append h.tenant_free, h.session_free, String.ofList_toList,
      h.tenant_valid, h.session_valid]
    by_cases heq : t = p.tenant <;> simp [heq]
  · refine .inr ⟨fun t s h => hnames ⟨t, s, h⟩, ?_⟩
    unfold demandKeyOf
    split
    · exact ⟨_, rfl⟩
    next hpre =>
      rw [Bool.not_eq_true, Bool.not_eq_false'] at hpre
      obtain ⟨rest, hrest⟩ := isPrefixOf_iff_prefix.mp hpre
      rw [← hrest, drop_left]
      dsimp only
      split
      · exact ⟨_, rfl⟩
      next session hcut =>
        split_ifs with hcolon htenant hsession
        · exact ⟨_, rfl⟩
        · exact ⟨_, rfl⟩
        · exact ⟨_, rfl⟩
        -- every check passed, so the cuts name a session
        all_goals
          refine absurd ⟨String.ofList (rest.takeWhile (· ≠ ':')), String.ofList session,
            ⟨?_, ?_, ?_, ?_, ?_⟩⟩ hnames
          · rw [← String.toList_inj, toList_sessionChannel, ← hrest, String.toList_ofList,
              String.toList_ofList, ← eq_append_of_dropWhile hcut]
          · rw [String.toList_ofList]
            exact fun hmem => by simpa using mem_takeWhile_imp hmem
          · rwa [String.toList_ofList]
          · simpa using htenant
          · simpa using hsession

/-! ## The pattern -/

variable {caps : List (List Char)}

variable {cs : List Char}

theorem mem_submatches_group {c : Char} {ps : List Piece} :
    caps ∈ submatches (.group c :: ps) cs ↔
      ∃ g rest caps', cs = g ++ rest ∧ g ≠ [] ∧ c ∉ g ∧ caps = g :: caps' ∧
        caps' ∈ submatches ps rest := by
  simp only [submatches, mem_flatMap, mem_reverse, mem_range, mem_map]
  constructor
  · rintro ⟨n, hn, caps', hcaps', rfl⟩
    have hlength := ( takeWhile_prefix (l := cs) (· ≠ c)).length_le
    refine ⟨cs.take (n + 1), cs.drop (n + 1), caps', (take_append_drop _ _).symm, ?_, ?_, rfl,
      hcaps'⟩
    · intro hnil
      have := congrArg List.length hnil
      rw [length_take, length_nil] at this
      omega
    · intro hmem
      have hpre : cs.take (n + 1) <+: cs.takeWhile (· ≠ c) :=
        prefix_of_prefix_length_le ( take_prefix _ _) ( takeWhile_prefix _)
          (by rw [length_take]; omega)
      simpa using mem_takeWhile_imp (hpre.subset hmem)
  · rintro ⟨g, rest, caps', rfl, hne, hfree, rfl, hcaps'⟩
    have hpos := length_pos_iff.mpr hne
    have hall : ∀ a ∈ g, decide (a ≠ c) = true := fun a ha =>
      decide_eq_true fun heq => hfree (heq ▸ ha)
    refine ⟨g.length - 1, ?_, caps', ?_, ?_⟩
    · rw [takeWhile_append_of_pos hall, length_append]
      omega
    · rwa [Nat.sub_add_cancel hpos, drop_left]
    · rw [Nat.sub_add_cancel hpos, take_left]

theorem mem_submatches_text {x : List Char} {ps : List Piece} :
    caps ∈ submatches (.text x :: ps) cs ↔ ∃ rest, cs = x ++ rest ∧ caps ∈ submatches ps rest := by
  rw [submatches]
  split
  next hpre =>
    obtain ⟨rest, rfl⟩ := isPrefixOf_iff_prefix.mp hpre
    rw [drop_left]
    refine ⟨fun h => ⟨rest, rfl, h⟩, ?_⟩
    rintro ⟨rest', heq, h⟩
    rwa [append_cancel_left heq]
  next hpre =>
    refine ⟨fun h => absurd h not_mem_nil, ?_⟩
    rintro ⟨rest, rfl, -⟩
    exact absurd ( isPrefixOf_iff_prefix.mpr (prefix_append _ _)) hpre

theorem mem_submatches_pattern :
    caps ∈ submatches sessionChannelPattern cs ↔ ∃ l m, caps = [l, m] ∧
      cs = channelPrefix ++ (l ++ ':' :: m) ∧ l ≠ [] ∧ ':' ∉ l ∧ m ≠ [] ∧ ':' ∉ m := by
  simp only [sessionChannelPattern, mem_submatches_text, mem_submatches_group]
  constructor
  · rintro ⟨_, rfl, l, _, _, rfl, hl, hlfree, rfl, _, rfl, m, rest, _, rfl, hm, hmfree, rfl, hend⟩
    rw [submatches] at hend
    split at hend
    next hnil =>
      obtain rfl := mem_singleton.mp hend
      subst hnil
      refine ⟨l, m, rfl, ?_, hl, hlfree, hm, hmfree⟩
      rw [append_nil]
      rfl
    next => exact absurd hend not_mem_nil
  · rintro ⟨l, m, rfl, rfl, hl, hlfree, hm, hmfree⟩
    exact ⟨_, rfl, l, _, _, rfl, hl, hlfree, rfl, m, rfl, m, [], _, (append_nil m).symm, hm,
      hmfree, rfl, mem_singleton.mpr rfl⟩

theorem Names.parse {core : CoreIdentifiers} (h : Names core.toIdentifiers channel t s) :
    parseSessionChannel core.toIdentifiers channel = ⟨t, s, true⟩ := by
  have hmem : [t.toList, s.toList] ∈ submatches sessionChannelPattern channel.toList := by
    refine mem_submatches_pattern.mpr ⟨_, _, rfl, ?_, ?_, h.tenant_free, ?_, h.session_free⟩
    · rw [h.channel_eq, toList_sessionChannel]
    · intro hnil
      have hvalid := h.tenant_valid
      rw [String.toList_eq_nil_iff.mp hnil, core.tenant_nonempty] at hvalid
      cases hvalid
    · intro hnil
      have hvalid := h.session_valid
      rw [String.toList_eq_nil_iff.mp hnil, core.session_nonempty] at hvalid
      cases hvalid
  unfold parseSessionChannel
  cases hhead : (submatches sessionChannelPattern channel.toList).head? with
  | none =>
    rw [head?_eq_none_iff.mp hhead] at hmem
    exact absurd hmem not_mem_nil
  | some caps =>
    obtain ⟨l, m, rfl, hchannel, -, hlfree, -, -⟩ :=
      mem_submatches_pattern.mp (mem_of_head? hhead)
    rw [h.channel_eq, toList_sessionChannel, append_cancel_left_eq] at hchannel
    obtain ⟨rfl, rfl⟩ := cut_unique h.tenant_free hlfree hchannel
    simp [h.tenant_valid, h.session_valid]

theorem parse_valid_names (hvalid : (parseSessionChannel core channel).valid = true) :
    ∃ t s, Names core channel t s := by
  unfold parseSessionChannel at hvalid
  split at hvalid
  next l m hhead =>
    obtain ⟨l', m', heq, hchannel, -, hlfree, -, hmfree⟩ :=
      mem_submatches_pattern.mp (mem_of_head? hhead)
    cases heq
    rw [Bool.and_eq_true] at hvalid
    refine ⟨String.ofList l, String.ofList m, ?_, ?_, ?_, hvalid.1, hvalid.2⟩
    · rw [← String.toList_inj, toList_sessionChannel, hchannel, String.toList_ofList,
        String.toList_ofList]
    · rwa [String.toList_ofList]
    · rwa [String.toList_ofList]
  next => cases hvalid

/-- The edge, the authorizer and the publisher share one grammar. -/
structure OneGrammar (core : Identifiers) : Prop where
  key_iff : ∀ p channel key, demandKeyOf core p channel = .ok key ↔
    (parseSessionChannel core channel).valid ∧
      (parseSessionChannel core channel).tenant = p.tenant ∧
      key = ⟨p.tenant, (parseSessionChannel core channel).session⟩
  denial_iff : ∀ p channel, demandKeyOf core p channel = .error .anotherTenant ↔
    (parseSessionChannel core channel).valid ∧ (parseSessionChannel core channel).tenant ≠ p.tenant
  fault_iff : ∀ p channel, (∃ what, demandKeyOf core p channel = .error (.unroutable what)) ↔
    (parseSessionChannel core channel).valid = false
  channel_iff : ∀ t s channel, core.validTenant t → core.validSession s → ':' ∉ t.toList →
    ':' ∉ s.toList → (parseSessionChannel core channel = ⟨t, s, true⟩ ↔
      channel = sessionChannel t s)
  distinct : ∀ t s t' s', ':' ∉ t.toList → ':' ∉ s.toList → ':' ∉ t'.toList → ':' ∉ s'.toList →
    sessionChannel t s = sessionChannel t' s' → t = t' ∧ s = s'

theorem answers_cases (core : CoreIdentifiers) (p : Principal) (channel : String) :
    (∃ t s, Names core.toIdentifiers channel t s ∧
      parseSessionChannel core.toIdentifiers channel = ⟨t, s, true⟩ ∧
      demandKeyOf core.toIdentifiers p channel =
        if t = p.tenant then .ok ⟨p.tenant, s⟩ else .error .anotherTenant) ∨
    (parseSessionChannel core.toIdentifiers channel).valid = false ∧
      ∃ what, demandKeyOf core.toIdentifiers p channel = .error (.unroutable what) := by
  obtain ⟨t, s, h, hkey⟩ | ⟨hnone, hkey⟩ := demandKeyOf_cases core.toIdentifiers p channel
  · exact .inl ⟨t, s, h, h.parse, hkey⟩
  · refine .inr ⟨Bool.not_eq_true _ ▸ fun hvalid => ?_, hkey⟩
    obtain ⟨t, s, h⟩ := parse_valid_names hvalid
    exact hnone t s h

/-- Whatever Core's validations are, the edge binds exactly the channels the authorizer parses for
the caller's tenant, and denies exactly those it parses for another. -/
theorem channels_one_grammar (core : CoreIdentifiers) : OneGrammar core.toIdentifiers := by
  refine ⟨?_, ?_, ?_, ?_, ?_⟩
  · intro p channel key
    obtain ⟨t, s, -, hparse, hkey⟩ | ⟨hvalid, what, hkey⟩ := answers_cases core p channel
    · rw [hkey, hparse]
      split_ifs with htenant <;> simp [htenant, eq_comm]
    · simp [hkey, hvalid]
  · intro p channel
    obtain ⟨t, s, -, hparse, hkey⟩ | ⟨hvalid, what, hkey⟩ := answers_cases core p channel
    · rw [hkey, hparse]
      split_ifs with htenant <;> simp [htenant]
    · simp [hkey, hvalid]
  · intro p channel
    obtain ⟨t, s, -, hparse, hkey⟩ | ⟨hvalid, what, hkey⟩ := answers_cases core p channel
    · rw [hkey, hparse]
      split_ifs with htenant <;> simp
    · simp [hkey, hvalid]
  · intro t s channel ht hs htfree hsfree
    refine ⟨fun hparse => ?_, fun heq => Names.parse ⟨heq, htfree, hsfree, ht, hs⟩⟩
    obtain ⟨t', s', h⟩ := parse_valid_names (congrArg ParsedSessionChannel.valid hparse)
    cases h.parse.symm.trans hparse
    exact h.channel_eq
  · intro t s t' s' ht _ ht' _ heq
    have hlist := congrArg String.toList heq
    rw [toList_sessionChannel, toList_sessionChannel, append_cancel_left_eq] at hlist
    obtain ⟨htenant, hsession⟩ := cut_unique ht ht' hlist
    exact ⟨String.toList_inj.mp htenant, String.toList_inj.mp hsession⟩

/-- Every string but the empty one is an identifier. -/
def nonemptyIdentifiers : CoreIdentifiers where
  validTenant t := t ≠ ""
  validSession s := s ≠ ""
  tenant_nonempty := rfl
  session_nonempty := rfl

/-- A session of the caller's tenant, one of another, and a channel without a tenant. -/
theorem channels_one_grammar_nonempty :
    demandKeyOf nonemptyIdentifiers.toIdentifiers ⟨"t"⟩ "session:t:s" = .ok ⟨"t", "s"⟩ ∧
    demandKeyOf nonemptyIdentifiers.toIdentifiers ⟨"t"⟩ "session:u:s" = .error .anotherTenant ∧
    ∃ what, demandKeyOf nonemptyIdentifiers.toIdentifiers ⟨"t"⟩ "session::s" =
      .error (.unroutable what) := by
  have grammar := channels_one_grammar nonemptyIdentifiers
  exact ⟨(grammar.key_iff _ _ _).mpr (by decide +kernel),
    (grammar.denial_iff _ _).mpr (by decide +kernel),
    (grammar.fault_iff _ _).mpr (by decide +kernel)⟩

end Factory.Clientlink
