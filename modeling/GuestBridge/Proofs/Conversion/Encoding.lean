import GuestBridge.Config.Basic
import GuestBridge.Text.Utf8
import Mathlib.Tactic.SplitIfs

/-!
# Texts and their bytes

Reading the bytes of a text back gives the text (`Utf8.decodeLossy_encode`), since the first byte of
a character says how many belong to it and each of the others is one that may follow. So different
texts have different bytes (`Utf8.encode_injective`).

No character but NUL has a zero byte in it. Bytes that are cut at the first zero byte are therefore
those of a text, the one cut at its first NUL (`StringPolicy.apply_encode`).
-/

namespace GuestBridge

namespace Utf8

theorem toNat_lt (c : Char) : c.toNat < 0x110000 := by
  rcases c.valid with h | ⟨-, h⟩
  · exact Nat.lt_trans h (by decide)
  · exact h

/-- No character lies among the surrogates. -/
theorem not_surrogate (c : Char) : c.toNat < 0xD800 ∨ 0xE000 ≤ c.toNat := by
  rcases c.valid with h | ⟨h, -⟩
  · exact .inl h
  · exact .inr h

theorem toNat_byte {n : Nat} (hn : n < 256) : (UInt8.ofNat n).toNat = n := by
  rw [UInt8.toNat_ofNat']
  omega

theorem continues_byte {n : Nat} (hn : n < 64) : continues (UInt8.ofNat (0x80 + n)) = true := by
  rw [continues, toNat_byte (by omega)]
  exact decide_eq_true ⟨by omega, by omega⟩

/-! ## Reading one character -/

section

variable {b x y z : UInt8} {rest : Bytes}

theorem next_one (hb : b.toNat < 0x80) : next b rest = (Char.ofNat b.toNat, 0) := by
  simp only [next, if_pos hb]

theorem next_two (hb : 0xC2 ≤ b.toNat ∧ b.toNat < 0xE0) (hx : continues x = true) :
    next b (x :: rest) = (Char.ofNat ((b.toNat - 0xC0) * 64 + (x.toNat - 0x80)), 1) := by
  have h1 : ¬ b.toNat < 0x80 := by omega
  simp only [next, if_neg h1, if_pos hb, if_pos hx]

theorem next_three (hb : 0xE0 ≤ b.toNat ∧ b.toNat < 0xF0)
    (hx : followsOfThree b.toNat x = true) (hy : continues y = true) :
    next b (x :: y :: rest) = (Char.ofNat ((b.toNat - 0xE0) * 4096 + (x.toNat - 0x80) * 64
      + (y.toNat - 0x80)), 2) := by
  have h1 : ¬ b.toNat < 0x80 := by omega
  have h2 : ¬ (0xC2 ≤ b.toNat ∧ b.toNat < 0xE0) := by omega
  simp only [next, if_neg h1, if_neg h2, if_pos hb, if_pos hx, if_pos hy]

theorem next_four (hb : 0xF0 ≤ b.toNat ∧ b.toNat < 0xF5)
    (hx : followsOfFour b.toNat x = true) (hy : continues y = true) (hz : continues z = true) :
    next b (x :: y :: z :: rest) = (Char.ofNat ((b.toNat - 0xF0) * 262144
      + (x.toNat - 0x80) * 4096 + (y.toNat - 0x80) * 64 + (z.toNat - 0x80)), 3) := by
  have h1 : ¬ b.toNat < 0x80 := by omega
  have h2 : ¬ (0xC2 ≤ b.toNat ∧ b.toNat < 0xE0) := by omega
  have h3 : ¬ (0xE0 ≤ b.toNat ∧ b.toNat < 0xF0) := by omega
  simp only [next, if_neg h1, if_neg h2, if_neg h3, if_pos hb, if_pos hx, if_pos hy, if_pos hz]

end

/-- The bytes of a character are read back as this character, whatever comes after them. -/
theorem next_encodeChar (c : Char) (rest : Bytes) :
    ∃ b tail, encodeChar c = b :: tail ∧ next b (tail ++ rest) = (c, tail.length) := by
  have hlt := toNat_lt c
  have hsurrogate := not_surrogate c
  have hchar : ∀ n, n = c.toNat → Char.ofNat n = c := fun n hn => hn ▸ Char.ofNat_toNat c
  unfold encodeChar
  dsimp only
  split_ifs with h1 h2 h3
  · have hb := toNat_byte (n := c.toNat) (by omega)
    refine ⟨_, [], rfl, ?_⟩
    rw [next_one (by omega), hchar _ hb]
    rfl
  · have hb := toNat_byte (n := 0xC0 + c.toNat / 64) (by omega)
    have hx := toNat_byte (n := 0x80 + c.toNat % 64) (by omega)
    refine ⟨_, [_], rfl, ?_⟩
    rw [List.cons_append, next_two (by omega) (continues_byte (by omega)), hchar _ (by omega)]
    rfl
  · have hb := toNat_byte (n := 0xE0 + c.toNat / 4096) (by omega)
    have hx := toNat_byte (n := 0x80 + c.toNat / 64 % 64) (by omega)
    have hy := toNat_byte (n := 0x80 + c.toNat % 64) (by omega)
    have hfollows : followsOfThree (UInt8.ofNat (0xE0 + c.toNat / 4096)).toNat
        (UInt8.ofNat (0x80 + c.toNat / 64 % 64)) = true := by
      rw [followsOfThree, continues_byte (by omega), hx, hb]
      exact decide_eq_true ⟨rfl, by omega, by omega⟩
    refine ⟨_, [_, _], rfl, ?_⟩
    rw [List.cons_append, List.cons_append,
      next_three (by omega) hfollows (continues_byte (by omega)), hchar _ (by omega)]
    rfl
  · have hb := toNat_byte (n := 0xF0 + c.toNat / 262144) (by omega)
    have hx := toNat_byte (n := 0x80 + c.toNat / 4096 % 64) (by omega)
    have hy := toNat_byte (n := 0x80 + c.toNat / 64 % 64) (by omega)
    have hz := toNat_byte (n := 0x80 + c.toNat % 64) (by omega)
    have hfollows : followsOfFour (UInt8.ofNat (0xF0 + c.toNat / 262144)).toNat
        (UInt8.ofNat (0x80 + c.toNat / 4096 % 64)) = true := by
      rw [followsOfFour, continues_byte (by omega), hx, hb]
      exact decide_eq_true ⟨rfl, by omega, by omega⟩
    refine ⟨_, [_, _, _], rfl, ?_⟩
    rw [List.cons_append, List.cons_append, List.cons_append,
      next_four (by omega) hfollows (continues_byte (by omega)) (continues_byte (by omega)),
      hchar _ (by omega)]
    rfl

/-! ## Reading a text -/

theorem decodeChars_encodeChar (c : Char) (rest : Bytes) :
    decodeChars (encodeChar c ++ rest) = c :: decodeChars rest := by
  obtain ⟨b, tail, hbytes, hnext⟩ := next_encodeChar c rest
  rw [hbytes, List.cons_append, decodeChars_cons, hnext, List.drop_left]

/-- The bytes of a text are read back as this text. -/
theorem decodeLossy_encode (s : String) : decodeLossy (encode s) = s := by
  suffices h : ∀ cs : List Char, decodeChars (cs.flatMap encodeChar) = cs by
    rw [decodeLossy, encode, h, String.ofList_toList]
  intro cs
  induction cs with
  | nil => exact decodeChars_nil
  | cons c cs ih => rw [List.flatMap_cons, decodeChars_encodeChar, ih]

/-- Different texts have different bytes. -/
theorem encode_injective : Function.Injective encode := fun s t hbytes => by
  rw [← decodeLossy_encode s, hbytes, decodeLossy_encode]

/-! ## Zero bytes -/

/-- No character but NUL is encoded with a zero byte. -/
theorem ne_zero_of_mem_encodeChar {c : Char} (hc : c ≠ '\x00') {b : UInt8}
    (hb : b ∈ encodeChar c) : b ≠ 0 := by
  have hpos : c.toNat ≠ 0 := fun hzero => hc (Char.toNat_inj.1 hzero)
  have hlt := toNat_lt c
  rw [Ne, ← UInt8.toNat_inj, UInt8.toNat_zero]
  unfold encodeChar at hb
  dsimp only at hb
  split_ifs at hb <;> simp only [List.mem_cons, List.not_mem_nil, or_false] at hb
  · subst hb
    rw [toNat_byte (by omega)]
    omega
  · rcases hb with rfl | rfl <;> rw [toNat_byte (by omega)] <;> omega
  · rcases hb with rfl | rfl | rfl <;> rw [toNat_byte (by omega)] <;> omega
  · rcases hb with rfl | rfl | rfl | rfl <;> rw [toNat_byte (by omega)] <;> omega

/-- The part of a text before its first NUL. -/
def beforeNul (s : String) : String := String.ofList (s.toList.takeWhile (· ≠ '\x00'))

/-- Cutting the bytes of a text at the first zero byte cuts the text at the first NUL. -/
theorem takeWhile_encode (s : String) : (encode s).takeWhile (· ≠ 0) = encode (beforeNul s) := by
  suffices h : ∀ cs : List Char, (cs.flatMap encodeChar).takeWhile (· ≠ 0) =
      (cs.takeWhile (· ≠ '\x00')).flatMap encodeChar by
    rw [encode, h, beforeNul, encode, String.toList_ofList]
  intro cs
  induction cs with
  | nil => rfl
  | cons c cs ih =>
    rw [List.flatMap_cons]
    by_cases hc : c = '\x00'
    · -- NUL itself is one zero byte, and both are cut there
      subst hc
      rfl
    · have hkept : (c :: cs).takeWhile (· ≠ '\x00') = c :: cs.takeWhile (· ≠ '\x00') :=
        List.takeWhile_cons_of_pos (decide_eq_true hc)
      rw [List.takeWhile_append_of_pos fun b hb => decide_eq_true (ne_zero_of_mem_encodeChar hc hb),
        ih, hkept, List.flatMap_cons]

/-- The part before the first NUL is the longest that a text begins with and that has no NUL. -/
theorem beforeNul_longest (s : String) :
    (beforeNul s).toList <+: s.toList ∧ '\x00' ∉ (beforeNul s).toList ∧
      ∀ cs, cs <+: s.toList → '\x00' ∉ cs → cs <+: (beforeNul s).toList := by
  rw [beforeNul, String.toList_ofList]
  refine ⟨List.takeWhile_prefix _, fun hmem => ?_, ?_⟩
  · have hall := List.all_takeWhile (p := (· ≠ '\x00')) (l := s.toList)
    simpa using List.all_eq_true.1 hall _ hmem
  · rintro cs ⟨rest, hrest⟩ hnul
    have hcs : ∀ c ∈ cs, decide (c ≠ '\x00') = true := fun c hc =>
      decide_eq_true fun he => hnul (he ▸ hc)
    rw [← hrest, List.takeWhile_append_of_pos hcs]
    exact List.prefix_append _ _

end Utf8

/-- The text that a policy lets through. -/
def StringPolicy.applyText : StringPolicy → String → String
  | preserve, s => s
  | truncateAtNul, s => Utf8.beforeNul s

/-- The bytes that a policy lets through are those of a text. -/
theorem StringPolicy.apply_encode (policy : StringPolicy) (s : String) :
    policy.apply (Utf8.encode s) = Utf8.encode (policy.applyText s) := by
  cases policy with
  | preserve => rfl
  | truncateAtNul => exact Utf8.takeWhile_encode s

end GuestBridge
