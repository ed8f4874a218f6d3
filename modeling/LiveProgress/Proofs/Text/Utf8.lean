import LiveProgress.Text.Utf8
import Mathlib.Tactic.Common

/-!
# Decoding encoded text

The streaming decoder undoes the encoding of well-formed text. The bytes of one character
bring the decoder back to where no sequence is open, so the characters of a text are read
one after the other. Only a byte order mark in front of all other characters is lost.
-/

namespace LiveProgress.Utf8

theorem toUTF8_eq_encode (s : String) : s.toUTF8.data.toList = encode s.toList := by
  rw [String.toUTF8, ← String.utf8Encode_toList]
  simp [List.utf8Encode, encode]

theorem not_surrogate (c : Char) : ¬ (0xD800 ≤ c.toNat ∧ c.toNat < 0xE000) := by
  have h := c.valid
  simp only [UInt32.isValidChar, Nat.isValidChar] at h
  change ¬ (0xD800 ≤ c.val.toNat ∧ c.val.toNat < 0xE000)
  omega

theorem toNat_lt_limit (c : Char) : c.toNat < 0x110000 := by
  have h := c.valid
  simp only [UInt32.isValidChar, Nat.isValidChar] at h
  change c.val.toNat < 0x110000
  omega

/-! ### The bytes of one sequence -/

theorem toNat_byte {n : Nat} (h : n < 256) : (UInt8.ofNat n).toNat = n := by
  rw [UInt8.toNat_ofNat']
  omega

theorem first_ascii {n : Nat} (h : n ≤ 0x7f) :
    first (UInt8.ofNat n) = ([Char.ofNat n], none) := by
  unfold first
  rw [toNat_byte (by omega)]
  exact if_pos (by omega)

theorem first_two {n : Nat} (h₁ : 2 ≤ n) (h₂ : n < 32) :
    first (UInt8.ofNat (n + 0xc0)) = ([], some ⟨n, 0, 0x80, 0xBF⟩) := by
  unfold first
  rw [toNat_byte (by omega)]
  dsimp only
  rw [if_neg (by omega), if_pos (by omega), Nat.add_sub_cancel]

theorem first_three {n : Nat} (h : n < 16) :
    first (UInt8.ofNat (n + 0xe0)) =
      ([], some ⟨n, 1, if n = 0 then 0xA0 else 0x80, if n = 13 then 0x9F else 0xBF⟩) := by
  unfold first
  rw [toNat_byte (by omega)]
  dsimp only
  rw [if_neg (by omega), if_neg (by omega), if_pos (by omega), Nat.add_sub_cancel]
  simp only [Nat.add_eq_right, show n + 0xe0 = 0xED ↔ n = 13 by omega]

theorem first_four {n : Nat} (h : n < 5) :
    first (UInt8.ofNat (n + 0xf0)) =
      ([], some ⟨n, 2, if n = 0 then 0x90 else 0x80, if n = 4 then 0x8F else 0xBF⟩) := by
  unfold first
  rw [toNat_byte (by omega)]
  dsimp only
  rw [if_neg (by omega), if_neg (by omega), if_neg (by omega), if_pos (by omega),
    Nat.add_sub_cancel]
  simp only [Nat.add_eq_right, show n + 0xf0 = 0xF4 ↔ n = 4 by omega]

/-- A byte within the bounds adds six bits. -/
theorem next_more {m k n : Nat} {a b : UInt8} (h₁ : a.toNat ≤ n + 0x80)
    (h₂ : n + 0x80 ≤ b.toNat) (h : n < 64) :
    next (some ⟨m, k + 1, a, b⟩) (UInt8.ofNat (n + 0x80)) =
      ([], some ⟨m * 64 + n, k, 0x80, 0xBF⟩) := by
  have hb : a ≤ UInt8.ofNat (n + 0x80) ∧ UInt8.ofNat (n + 0x80) ≤ b := by
    rw [UInt8.le_iff_toNat_le, UInt8.le_iff_toNat_le, toNat_byte (by omega)]
    exact ⟨h₁, h₂⟩
  unfold next
  dsimp only
  rw [if_pos hb, toNat_byte (by omega), Nat.add_sub_cancel]

theorem next_last {m n : Nat} {a b : UInt8} {c : Char} (h₁ : a.toNat ≤ n + 0x80)
    (h₂ : n + 0x80 ≤ b.toNat) (h : n < 64) (hc : m * 64 + n = c.toNat) :
    next (some ⟨m, 0, a, b⟩) (UInt8.ofNat (n + 0x80)) = ([c], none) := by
  have hb : a ≤ UInt8.ofNat (n + 0x80) ∧ UInt8.ofNat (n + 0x80) ≤ b := by
    rw [UInt8.le_iff_toNat_le, UInt8.le_iff_toNat_le, toNat_byte (by omega)]
    exact ⟨h₁, h₂⟩
  unfold next
  dsimp only
  rw [if_pos hb, toNat_byte (by omega), Nat.add_sub_cancel, hc, Char.ofNat_toNat]

namespace Decoder

theorem emit_nil (d : Decoder) (p : Option Partial) :
    d.emit p [] = ([], { d with pending := p }) := by
  unfold emit
  split
  · simp_all
  · rfl

theorem emit_char {d : Decoder} {c : Char} (p : Option Partial)
    (h : d.atStart = true → c ≠ '\uFEFF') : d.emit p [c] = ([c], ⟨p, false⟩) := by
  unfold emit
  cases hs : d.atStart with
  | true => simp [h hs]
  | false => cases d; simp_all

theorem push_open {d : Decoder} {b : UInt8} {p : Partial} (bytes : List UInt8)
    (h : next d.pending b = ([], some p)) :
    d.push (b :: bytes) = ({ d with pending := some p } : Decoder).push bytes := by
  rw [push_cons]
  simp only [step, h, emit_nil, List.nil_append]

theorem push_last {d : Decoder} {b : UInt8} {c : Char} (h : next d.pending b = ([c], none))
    (hc : d.atStart = true → c ≠ '\uFEFF') : d.push [b] = ([c], ⟨none, false⟩) := by
  rw [push_cons, push_nil]
  simp only [step, h, emit_char none hc, List.append_nil]

/-- The bytes of a character are read as that character. -/
theorem push_utf8EncodeChar {d : Decoder} {c : Char} (hp : d.pending = none)
    (hc : d.atStart = true → c ≠ '\uFEFF') :
    d.push (String.utf8EncodeChar c) = ([c], ⟨none, false⟩) := by
  have hs := not_surrogate c
  have hl := toNat_lt_limit c
  unfold String.utf8EncodeChar
  rw [show c.val.toNat = c.toNat from rfl]
  dsimp only
  split
  · -- one byte
    refine push_last ?_ hc
    rw [hp]
    simp only [next]
    rw [first_ascii (by omega), Char.ofNat_toNat]
  split
  · -- two bytes
    rw [Nat.mod_eq_of_lt (show c.toNat / 64 < 0x20 by omega)]
    rw [push_open (p := ⟨c.toNat / 64, 0, 0x80, 0xBF⟩)]
    · exact push_last (next_last (by simp) (by simp; omega) (by omega) (by omega)) hc
    · rw [hp]
      exact first_two (by omega) (by omega)
  split
  · -- three bytes
    rw [Nat.mod_eq_of_lt (show c.toNat / 4096 < 0x10 by omega)]
    have h₁ := first_three (n := c.toNat / 4096) (by omega)
    have h₂ := next_more (m := c.toNat / 4096) (k := 0) (n := c.toNat / 64 % 64)
      (a := if c.toNat / 4096 = 0 then 0xA0 else 0x80)
      (b := if c.toNat / 4096 = 13 then 0x9F else 0xBF)
      (by split <;> simp; omega) (by split <;> simp <;> omega) (by omega)
    rw [push_open _ (by rw [hp]; exact h₁), push_open _ h₂]
    exact push_last (next_last (by simp) (by simp; omega) (by omega) (by omega)) hc
  · -- four bytes
    rw [Nat.mod_eq_of_lt (show c.toNat / 262144 < 0x08 by omega)]
    have h₁ := first_four (n := c.toNat / 262144) (by omega)
    have h₂ := next_more (m := c.toNat / 262144) (k := 1) (n := c.toNat / 4096 % 64)
      (a := if c.toNat / 262144 = 0 then 0x90 else 0x80)
      (b := if c.toNat / 262144 = 4 then 0x8F else 0xBF)
      (by split <;> simp; omega) (by split <;> simp <;> omega) (by omega)
    have h₃ := next_more (m := c.toNat / 262144 * 64 + c.toNat / 4096 % 64) (k := 0)
      (n := c.toNat / 64 % 64) (a := 0x80) (b := 0xBF) (by simp)
      (by simp; omega) (by omega)
    rw [push_open _ (by rw [hp]; exact h₁), push_open _ h₂, push_open _ h₃]
    exact push_last (next_last (by simp) (by simp; omega) (by omega) (by omega)) hc

/-- Once a character has come, a text is read as it was encoded. -/
theorem push_encode (s : List Char) :
    push ⟨none, false⟩ (encode s) = (s, ⟨none, false⟩) := by
  induction s with
  | nil => rfl
  | cons c s ih =>
    rw [encode, List.flatMap_cons, push_append, push_utf8EncodeChar rfl (by simp)]
    simp only [List.singleton_append]
    rw [← encode, ih]

/-- From the start a text is read as it was encoded unless it begins with a byte order
mark. -/
theorem push_encode_start {s : List Char} (h : s.head? ≠ some '\uFEFF') :
    push {} (encode s) = (s, ⟨none, s.isEmpty⟩) := by
  cases s with
  | nil => rfl
  | cons c s =>
    have hc : c ≠ '\uFEFF' := by simpa using h
    rw [encode, List.flatMap_cons, push_append, push_utf8EncodeChar rfl fun _ => hc, ← encode,
      push_encode]
    rfl

theorem finish_of_pending_none {d : Decoder} (h : d.pending = none) : d.finish = [] := by
  unfold finish
  rw [h]
  simp [emit_nil]

end Decoder
end LiveProgress.Utf8
