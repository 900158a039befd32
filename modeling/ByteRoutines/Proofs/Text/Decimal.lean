import ByteRoutines.Text.Decimal
import ByteRoutines.Proofs.Text.Reads

/-!
# Decimal sizes, exactly

`IsSize text n` says that the text is the size `n` in decimal digits, possibly
with a plus sign and with zeros in front. `NoSize text fault` says what is wrong
with any other text. A text is read from the left, so what counts is the first
character that is no digit or takes the number out of its range.

The size that is read is the value of the digits (`readSize_reads`), and what
the library writes for a number is read back (`isSize_decimal`).
-/

namespace ByteRoutines.Text

/-- All characters are decimal digits. -/
def Digits (text : List Char) : Prop := ∀ c ∈ text, c.isDigit = true

instance (text : List Char) : Decidable (Digits text) :=
  decidable_of_iff (text.all Char.isDigit = true) List.all_eq_true

/-- The text without the plus sign that it may start with. -/
def unsigned : List Char → List Char
  | '+' :: rest => rest
  | text => text

/-- The text is a size in decimal digits, after an optional plus sign. -/
structure IsSize (text : List Char) (n : UInt64) : Prop where
  ne_nil : unsigned text ≠ []
  digits : Digits (unsigned text)
  value : Nat.ofDigitChars 10 (unsigned text) 0 = n.toNat

/-- Why a text is no size. -/
inductive NoSize (text : List Char) : NumberFault → Prop
  | empty : text = [] → NoSize text .empty
  /-- Nothing follows the plus sign. -/
  | sign : text ≠ [] → unsigned text = [] → NoSize text .invalidDigit
  /-- The digits up to here are a size, and what follows them is no digit. -/
  | invalidDigit {lead rest : List Char} {c : Char} : unsigned text = lead ++ c :: rest →
      Digits lead → Nat.ofDigitChars 10 lead 0 < UInt64.size → c.isDigit = false →
        NoSize text .invalidDigit
  /-- The digits up to here are a size, and with the next one they are too large. -/
  | tooLarge {lead rest : List Char} {c : Char} : unsigned text = lead ++ c :: rest →
      Digits lead → Nat.ofDigitChars 10 lead 0 < UInt64.size → c.isDigit = true →
        UInt64.size ≤ Nat.ofDigitChars 10 (lead ++ [c]) 0 → NoSize text .tooLarge

/-! ### Digits -/

variable {acc : Nat} {lead rest text : List Char} {c : Char}

theorem isDigit_iff : c.isDigit = true ↔ 48 ≤ c.toNat ∧ c.toNat ≤ 57 := by
  simp only [Char.isDigit, Bool.and_eq_true, decide_eq_true_eq]
  exact Iff.rfl

theorem digit?_eq_some (h : c.isDigit = true) : digit? c = some (c.toNat - 48) := by
  rw [digit?, if_pos (isDigit_iff.mp h)]

theorem digit?_eq_none (h : c.isDigit = false) : digit? c = none := by
  rw [digit?, if_neg (mt isDigit_iff.mpr (Bool.eq_false_iff.mp h))]

/-- Further digits do not make a number smaller. -/
theorem le_ofDigitChars (acc : Nat) (text : List Char) : acc ≤ Nat.ofDigitChars 10 text acc := by
  induction text generalizing acc with
  | nil => simp
  | cons c rest ih =>
    rw [Nat.ofDigitChars_cons]
    have := ih (10 * acc + (c.toNat - '0'.toNat))
    omega

/-! ### Reading digits -/

/-- Digits that stay in range are read, and the rest is read onto their value. -/
theorem readDigits_append (hdigits : Digits lead)
    (hlt : Nat.ofDigitChars 10 lead acc < UInt64.size) (rest : List Char) :
    readDigits acc (lead ++ rest) = readDigits (Nat.ofDigitChars 10 lead acc) rest := by
  induction lead generalizing acc with
  | nil => simp
  | cons c lead ih =>
    rw [Nat.ofDigitChars_cons] at hlt ⊢
    have hstep : 10 * acc + (c.toNat - 48) < UInt64.size :=
      Nat.lt_of_le_of_lt (le_ofDigitChars _ lead) hlt
    rw [List.cons_append, readDigits, digit?_eq_some (hdigits c List.mem_cons_self)]
    simp only
    rw [if_pos hstep]
    exact ih (fun d hd => hdigits d (List.mem_cons_of_mem c hd)) hlt

theorem readDigits_eq_ok (hdigits : Digits text)
    (hlt : Nat.ofDigitChars 10 text acc < UInt64.size) :
    readDigits acc text = .ok (UInt64.ofNat (Nat.ofDigitChars 10 text acc)) := by
  have h := readDigits_append hdigits hlt []
  rwa [List.append_nil] at h

/-- A text consists of digits that stay in range, or has a first character that is not read. -/
theorem digits_or_stops (hacc : acc < UInt64.size) (text : List Char) :
    (Digits text ∧ Nat.ofDigitChars 10 text acc < UInt64.size) ∨
      ∃ lead c rest, text = lead ++ c :: rest ∧ Digits lead ∧
        Nat.ofDigitChars 10 lead acc < UInt64.size ∧ (c.isDigit = false ∨
          c.isDigit = true ∧ UInt64.size ≤ Nat.ofDigitChars 10 (lead ++ [c]) acc) := by
  induction text generalizing acc with
  | nil => exact Or.inl ⟨by simp [Digits], by simpa using hacc⟩
  | cons c rest ih =>
    cases hc : c.isDigit with
    | false => exact Or.inr ⟨[], c, rest, rfl, by simp [Digits], by simpa using hacc, Or.inl hc⟩
    | true =>
      by_cases hlt : 10 * acc + (c.toNat - '0'.toNat) < UInt64.size
      · rcases ih hlt with ⟨hdigits, hvalue⟩ | ⟨lead, d, rest, rfl, hlead, hvalue, hstop⟩
        · refine Or.inl ⟨?_, by rwa [Nat.ofDigitChars_cons]⟩
          exact List.forall_mem_cons.mpr ⟨hc, hdigits⟩
        · refine Or.inr ⟨c :: lead, d, rest, rfl, List.forall_mem_cons.mpr ⟨hc, hlead⟩, ?_, ?_⟩
          · rwa [Nat.ofDigitChars_cons]
          · rwa [List.cons_append, Nat.ofDigitChars_cons]
      · refine Or.inr ⟨[], c, rest, rfl, by simp [Digits], by simpa using hacc, Or.inr ⟨hc, ?_⟩⟩
        rw [List.nil_append, Nat.ofDigitChars_cons, Nat.ofDigitChars_nil]
        omega

/-! ### Reading sizes -/

theorem readSize_of_ne_nil (h : unsigned text ≠ []) :
    readSize text = readDigits 0 (unsigned text) := by
  unfold unsigned at h ⊢
  split at h
  · obtain ⟨c, rest, rfl⟩ := List.exists_cons_of_ne_nil h
    rfl
  · rename_i hsign
    obtain ⟨c, rest, rfl⟩ := List.exists_cons_of_ne_nil h
    have hplus : c ≠ '+' := fun hc => hsign rest (by rw [hc])
    rw [readSize]
    · exact fun hc => absurd hc hplus
    · exact fun _ _ hc => absurd hc hplus

theorem readSize_of_sign (hne : text ≠ []) (h : unsigned text = []) :
    readSize text = .error .invalidDigit := by
  unfold unsigned at h
  split at h
  · rw [h]
    rfl
  · exact absurd h hne

/-- **Sizes are read exactly.** -/
theorem readSize_reads (text : List Char) : Reads (readSize text) (IsSize text) (NoSize text) := by
  have hstop : ∀ {lead rest : List Char} {c : Char}, unsigned text = lead ++ c :: rest →
      Digits lead → Nat.ofDigitChars 10 lead 0 < UInt64.size →
        readSize text = readDigits (Nat.ofDigitChars 10 lead 0) (c :: rest) := by
    intro lead rest c hsplit hlead hlt
    rw [readSize_of_ne_nil (by simp [hsplit]), hsplit, readDigits_append hlead hlt]
  refine Reads.of_total ?_ ?_ ?_
  · rintro n ⟨hne, hdigits, hvalue⟩
    have hlt : Nat.ofDigitChars 10 (unsigned text) 0 < UInt64.size := hvalue ▸ n.toNat_lt
    rw [readSize_of_ne_nil hne, readDigits_eq_ok hdigits hlt, hvalue, UInt64.ofNat_toNat]
  · intro fault hfault
    cases hfault with
    | empty h => rw [h]; rfl
    | sign hne h => exact readSize_of_sign hne h
    | invalidDigit hsplit hlead hlt hc =>
      rw [hstop hsplit hlead hlt, readDigits, digit?_eq_none hc]
    | tooLarge hsplit hlead hlt hc hlarge =>
      rw [Nat.ofDigitChars_append, Nat.ofDigitChars_cons, Nat.ofDigitChars_nil] at hlarge
      rw [hstop hsplit hlead hlt, readDigits, digit?_eq_some hc]
      exact if_neg (Nat.not_lt.mpr hlarge)
  · by_cases hempty : text = []
    · exact Or.inr ⟨_, .empty hempty⟩
    by_cases hsign : unsigned text = []
    · exact Or.inr ⟨_, .sign hempty hsign⟩
    have hzero : 0 < UInt64.size := by decide
    rcases digits_or_stops hzero (unsigned text) with
      ⟨hdigits, hlt⟩ | ⟨lead, c, rest, hsplit, hlead, hlt, hc | ⟨hc, hlarge⟩⟩
    · refine Or.inl ⟨UInt64.ofNat (Nat.ofDigitChars 10 (unsigned text) 0), hsign, hdigits, ?_⟩
      rw [UInt64.toNat_ofNat_of_lt' hlt]
    · exact Or.inr ⟨_, .invalidDigit hsplit hlead hlt hc⟩
    · exact Or.inr ⟨_, .tooLarge hsplit hlead hlt hc hlarge⟩

/-! ### Written sizes -/

/-- The decimal digits of a size. -/
def decimal (n : UInt64) : List Char := Nat.toDigits 10 n.toNat

theorem digits_decimal (n : UInt64) : Digits (decimal n) :=
  fun _ hc => Nat.isDigit_of_mem_toDigits (by decide) (by decide) hc

theorem unsigned_of_digits (h : Digits text) : unsigned text = text := by
  unfold unsigned
  split
  · exact absurd (h '+' List.mem_cons_self) (by decide)
  · rfl

theorem isSize_decimal (n : UInt64) : IsSize (decimal n) n := by
  have hunsigned := unsigned_of_digits (digits_decimal n)
  constructor
  · rw [hunsigned]
    exact Nat.toDigits_ne_nil
  · rw [hunsigned]
    exact digits_decimal n
  · rw [hunsigned]
    exact Nat.ofDigitChars_ten_toDigits

end ByteRoutines.Text
