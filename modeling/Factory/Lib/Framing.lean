import Mathlib.Data.Nat.Digits.Defs
import Mathlib.Data.List.Basic
import Mathlib.Logic.Function.Basic

/-!
# Self-delimiting codes

A code is self-delimiting when a word of it can be read off the front of any text. Sequences of
such words are then read in one way only, whatever their symbols are: a word ended by a symbol it
does not contain, a word of a fixed length, and a word after a self-delimiting word for its length
are self-delimiting. Bytes after their number in decimal and a symbol that is no digit are one
(`counted`).
-/

namespace Framing

open List

variable {α β L : Type*}

def SelfDelimiting (code : α → List β) : Prop :=
  ∀ ⦃a b : α⦄ ⦃x y : List β⦄, code a ++ x = code b ++ y → a = b ∧ x = y

variable {code : α → List β}

/-- A sequence of words is read in one way, however many there are. -/
theorem SelfDelimiting.flatMap (h : SelfDelimiting code) (hne : ∀ a, code a ≠ [])
    : Function.Injective fun as : List α => as.flatMap code := by
  intro as
  induction as with
  | nil =>
    intro bs heq
    cases bs with
    | nil => rfl
    | cons b bs => exact absurd (append_eq_nil_iff.mp heq.symm).1 (hne b)
  | cons a as ih =>
    intro bs heq
    cases bs with
    | nil => exact absurd (append_eq_nil_iff.mp heq).1 (hne a)
    | cons b bs =>
      obtain ⟨rfl, hrest⟩ := h heq
      rw [ih hrest]

/-- Words ended by a symbol that none of them contains. -/
theorem selfDelimiting_terminated (hcode : Function.Injective code) {stop : β}
    (hstop : ∀ a, stop ∉ code a) : SelfDelimiting fun a => code a ++ [stop] := by
  have hread : ∀ {l m x y : List β}, stop ∉ l → stop ∉ m →
      l ++ stop :: x = m ++ stop :: y → l = m ∧ x = y := by
    intro l
    induction l with
    | nil =>
      intro m x y _ hm heq
      cases m with
      | nil => exact ⟨rfl, (List.cons.inj heq).2⟩
      | cons c m => exact absurd (List.cons.inj heq).1 (ne_of_not_mem_cons hm)
    | cons c l ih =>
      intro m x y hl hm heq
      cases m with
      | nil => exact absurd (List.cons.inj heq).1.symm (ne_of_not_mem_cons hl)
      | cons d m =>
        obtain ⟨rfl, hrest⟩ := List.cons.inj heq
        obtain ⟨rfl, hxy⟩ := ih (not_mem_of_not_mem_cons hl) (not_mem_of_not_mem_cons hm) hrest
        exact ⟨rfl, hxy⟩
  intro a b x y heq
  rw [append_assoc, append_assoc] at heq
  obtain ⟨hab, hxy⟩ := hread (hstop a) (hstop b) heq
  exact ⟨hcode hab, hxy⟩

/-- A code of fixed length delimits itself. -/
theorem selfDelimiting_fixed (hcode : Function.Injective code)
    (hlength : ∀ a b, (code a).length = (code b).length) : SelfDelimiting code := by
  intro a b x y heq
  obtain ⟨hab, hxy⟩ := append_inj heq (hlength a b)
  exact ⟨hcode hab, hxy⟩

/-- Words after a self-delimiting word for their length. -/
theorem selfDelimiting_lengthPrefixed {size : α → L} {length : L → List β} {bytes : α → List β}
    (hlength : SelfDelimiting length)
    (hsize : ∀ a b, size a = size b → (bytes a).length = (bytes b).length)
    (hbytes : Function.Injective bytes) :
    SelfDelimiting fun a => length (size a) ++ bytes a := by
  intro a b x y heq
  rw [append_assoc, append_assoc] at heq
  obtain ⟨hsame, hrest⟩ := hlength heq
  obtain ⟨hab, hxy⟩ := append_inj hrest (hsize a b hsame)
  exact ⟨hbytes hab, hxy⟩

/-! ## Texts as bytes -/

/-- The bytes of a text. -/
def utf8 (s : String) : List UInt8 := s.toUTF8.toList

theorem toList_loop (b : ByteArray) (i : Nat) (r : List UInt8) :
    ByteArray.toList.loop b i r = r.reverse ++ b.data.toList.drop i := by
  fun_induction ByteArray.toList.loop b i r with
  | case1 i r h ih =>
    have hlt : i < b.data.toList.length := h
    have hget : b.get! i = b.data.toList[i] := getElem!_pos b.data i h
    rw [ih, drop_eq_getElem_cons hlt, hget, reverse_cons, append_assoc]
    rfl
  | case2 i r h => rw [drop_eq_nil_of_le (Nat.le_of_not_lt h), append_nil]

theorem toList_eq_data (b : ByteArray) : b.toList = b.data.toList := toList_loop b 0 []

theorem utf8_injective : Function.Injective utf8 := by
  intro s t h
  unfold utf8 at h
  rw [toList_eq_data, toList_eq_data] at h
  exact String.toByteArray_inj.mp (ByteArray.ext (Array.toList_inj.mp h))

/-- The bytes of a number are digits. -/
theorem digit_of_mem_utf8 {n : Nat} {b : UInt8} (h : b ∈ utf8 (toString n)) :
    48 ≤ b.toNat ∧ b.toNat ≤ 57 := by
  unfold utf8 at h
  rw [toList_eq_data, String.toUTF8_eq_toByteArray, ← String.utf8Encode_toList, List.utf8Encode,
    toList_data_toByteArray, Nat.toString_eq_ofList_toDigits, String.toList_ofList] at h
  obtain ⟨c, hc, hb⟩ := mem_flatMap.mp h
  have hdigit : c.isDigit = true := Nat.isDigit_of_mem_toDigits (by decide) (by decide) hc
  have hrange : 48 ≤ c.toNat ∧ c.toNat ≤ 57 := by
    simpa [Char.isDigit, UInt32.le_iff_toNat_le] using hdigit
  have hsize : c.utf8Size = 1 := by
    unfold Char.utf8Size
    rw [if_pos]
    exact hrange.2.trans (by decide)
  rw [String.utf8EncodeChar_eq_singleton hsize, mem_singleton] at hb
  have hval : b.toNat = c.toNat := by
    rw [hb, UInt32.toNat_toUInt8]
    exact Nat.mod_eq_of_lt (hrange.2.trans_lt (by decide))
  rwa [hval]

theorem toString_inj {m n : Nat} (h : toString m = toString n) : m = n := by
  have hchars := congrArg (fun s => Nat.ofDigitChars 10 s.toList 0) h
  simpa [Nat.ofDigitChars_ten_toDigits] using hchars

/-- The number of the bytes in decimal, a symbol, and the bytes. -/
def counted (stop : UInt8) (bytes : List UInt8) : List UInt8 :=
  utf8 (toString bytes.length) ++ [stop] ++ bytes

/-- So does a word after its length, when the stop byte is no digit. -/
theorem selfDelimiting_counted {stop : UInt8} (hstop : ¬ (48 ≤ stop.toNat ∧ stop.toNat ≤ 57)) :
    SelfDelimiting (counted stop) := by
  have hdecimal : SelfDelimiting fun n : Nat => utf8 (toString n) ++ [stop] := by
    refine selfDelimiting_terminated ?_ fun n hmem => hstop (digit_of_mem_utf8 hmem)
    exact fun m n heq => toString_inj (utf8_injective heq)
  exact selfDelimiting_lengthPrefixed hdecimal (fun _ _ h => h) Function.injective_id

end Framing
