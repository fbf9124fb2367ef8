import BehaviorTree.Proofs.Result
import BehaviorTree.Text.Encoding

/-!
UTF-8 there and back. The bytes of a character are read as the character, whatever comes behind them, and no other bytes are.
-/

set_option autoImplicit false

namespace BehaviorTree.Text

variable {a b c d n : Nat} {r : List Nat} {cs : List Char}

theorem isTail_add (h : n < 64) : isTail (0x80 + n) := by
  simp [isTail]
  omega

theorem utf8Head_two (ha : 0xC2 ≤ a) (ha' : a < 0xE0) (hb : isTail b) :
    utf8Head a (b :: r) = .char (Char.ofNat ((a - 0xC0) * 64 + (b - 0x80))) 2 := by
  have hfits : fits a b = true := by
    simp [fits, hb, show a ≠ 0xE0 by omega, show a ≠ 0xED by omega, show a ≠ 0xF0 by omega, show a ≠ 0xF4 by omega]
  simp [utf8Head, hfits, ha', show ¬a < 0x80 by omega, show ¬a < 0xC2 by omega, show ¬0xF5 ≤ a by omega]

theorem utf8Head_three (ha : 0xE0 ≤ a) (ha' : a < 0xF0) (hb : fits a b) (hc : isTail c) :
    utf8Head a (b :: c :: r) = .char (Char.ofNat (((a - 0xE0) * 64 + (b - 0x80)) * 64 + (c - 0x80))) 3 := by
  simp [utf8Head, hb, hc, ha', show ¬a < 0x80 by omega, show ¬a < 0xC2 by omega, show ¬0xF5 ≤ a by omega, show ¬a < 0xE0 by omega]

theorem utf8Head_four (ha : 0xF0 ≤ a) (ha' : a < 0xF5) (hb : fits a b) (hc : isTail c) (hd : isTail d) :
    utf8Head a (b :: c :: d :: r) =
      .char (Char.ofNat ((((a - 0xF0) * 64 + (b - 0x80)) * 64 + (c - 0x80)) * 64 + (d - 0x80))) 4 := by
  simp [utf8Head, hb, hc, hd, show ¬a < 0x80 by omega, show ¬a < 0xC2 by omega, show ¬0xF5 ≤ a by omega,
    show ¬a < 0xE0 by omega, show ¬a < 0xF0 by omega]

theorem utf8Head_utf8Bytes (c : Char) (r : List Nat) :
    ∃ a bs, utf8Bytes c = a :: bs ∧ utf8Head a (bs ++ r) = .char c (bs.length + 1) := by
  have hvalid : c.toNat < 0xD800 ∨ 0xDFFF < c.toNat ∧ c.toNat < 0x110000 := c.valid
  have hof : ∀ n, n = c.toNat → Char.ofNat n = c := by
    rintro n rfl
    exact Char.ofNat_toNat c
  unfold utf8Bytes
  dsimp only
  generalize c.toNat = n at *
  split_ifs with hone htwo hthree
  · exact ⟨n, [], rfl, by simp [utf8Head, hone, hof]⟩
  · refine ⟨_, _, rfl, ?_⟩
    rw [List.cons_append, utf8Head_two (by omega) (by omega) (isTail_add (by omega)), hof _ (by omega)]
    rfl
  · have hfits : fits (0xE0 + n / 4096) (0x80 + n / 64 % 64) := by
      rw [fits, isTail_add (by omega), Bool.true_and]
      split_ifs <;> simp <;> omega
    refine ⟨_, _, rfl, ?_⟩
    rw [List.cons_append, List.cons_append, utf8Head_three (by omega) (by omega) hfits (isTail_add (by omega)), hof _ (by omega)]
    rfl
  · have hfits : fits (0xF0 + n / 262144) (0x80 + n / 4096 % 64) := by
      rw [fits, isTail_add (by omega), Bool.true_and]
      split_ifs <;> simp <;> omega
    refine ⟨_, _, rfl, ?_⟩
    rw [List.cons_append, List.cons_append, List.cons_append,
      utf8Head_four (by omega) (by omega) hfits (isTail_add (by omega)) (isTail_add (by omega)), hof _ (by omega)]
    rfl

theorem toNat_ofNat (h : n < 0xD800 ∨ 0xDFFF < n ∧ n < 0x110000) : (Char.ofNat n).toNat = n := by
  rw [Char.ofNat, dif_pos h]
  rfl

theorem isTail_iff : isTail b = true ↔ 0x80 ≤ b ∧ b < 0xC0 := by simp [isTail]

theorem utf8Bytes_two (ha : 0xC2 ≤ a) (ha' : a < 0xE0) (hb : fits a b) :
    utf8Bytes (Char.ofNat ((a - 0xC0) * 64 + (b - 0x80))) = [a, b] := by
  have hb' := isTail_iff.1 (Bool.and_eq_true_iff.1 hb).1
  rw [utf8Bytes, toNat_ofNat (by omega), if_neg (by omega), if_pos (by omega)]
  simp only [List.cons.injEq, and_true]
  omega

theorem utf8Bytes_three (ha : 0xE0 ≤ a) (ha' : a < 0xF0) (hb : fits a b) (hc : isTail c) :
    utf8Bytes (Char.ofNat (((a - 0xE0) * 64 + (b - 0x80)) * 64 + (c - 0x80))) = [a, b, c] := by
  obtain ⟨hb, hrange⟩ := Bool.and_eq_true_iff.1 hb
  have hb' := isTail_iff.1 hb
  have hc' := isTail_iff.1 hc
  have hfirst : a = 0xE0 → 0xA0 ≤ b := by rintro rfl; simpa using hrange
  have hsurrogate : a = 0xED → b < 0xA0 := by rintro rfl; simpa using hrange
  rw [utf8Bytes, toNat_ofNat (by omega), if_neg (by omega), if_neg (by omega), if_pos (by omega)]
  simp only [List.cons.injEq, and_true]
  omega

theorem utf8Bytes_four (ha : 0xF0 ≤ a) (ha' : a < 0xF5) (hb : fits a b) (hc : isTail c) (hd : isTail d) :
    utf8Bytes (Char.ofNat ((((a - 0xF0) * 64 + (b - 0x80)) * 64 + (c - 0x80)) * 64 + (d - 0x80))) = [a, b, c, d] := by
  obtain ⟨hb, hrange⟩ := Bool.and_eq_true_iff.1 hb
  have hb' := isTail_iff.1 hb
  have hc' := isTail_iff.1 hc
  have hd' := isTail_iff.1 hd
  have hfirst : a = 0xF0 → 0x90 ≤ b := by rintro rfl; simpa using hrange
  have hlast : a = 0xF4 → b < 0x90 := by rintro rfl; simpa using hrange
  rw [utf8Bytes, toNat_ofNat (by omega), if_neg (by omega), if_neg (by omega), if_neg (by omega)]
  simp only [List.cons.injEq, and_true]
  omega

theorem utf8Bytes_of_utf8Head {x : Char} (h : utf8Head a r = .char x n) :
    ∃ bs rest, r = bs ++ rest ∧ n = bs.length + 1 ∧ utf8Bytes x = a :: bs := by
  unfold utf8Head at h
  split at h
  · obtain ⟨rfl, rfl⟩ := Unit8.char.inj h
    exact ⟨[], r, rfl, rfl, by simp [utf8Bytes, toNat_ofNat (n := a) (by omega), *]⟩
  split at h
  · cases h
  rename_i hstart
  simp only [Bool.or_eq_true, decide_eq_true_eq, not_or, Nat.not_lt, Nat.not_le] at hstart
  split at h
  · cases h
  split at h
  · cases h
  rename_i b rest hfits
  rw [Bool.not_eq_true, Bool.not_eq_false'] at hfits
  split at h
  · obtain ⟨rfl, rfl⟩ := Unit8.char.inj h
    exact ⟨[b], rest, rfl, rfl, utf8Bytes_two hstart.1 ‹_› hfits⟩
  split at h
  · cases h
  split at h
  · cases h
  rename_i c rest htail
  rw [Bool.not_eq_true, Bool.not_eq_false'] at htail
  split at h
  · obtain ⟨rfl, rfl⟩ := Unit8.char.inj h
    exact ⟨[b, c], rest, rfl, rfl, utf8Bytes_three (by omega) ‹_› hfits htail⟩
  split at h
  · cases h
  split at h
  · cases h
  rename_i d rest hlast
  rw [Bool.not_eq_true, Bool.not_eq_false'] at hlast
  obtain ⟨rfl, rfl⟩ := Unit8.char.inj h
  exact ⟨[b, c, d], rest, rfl, rfl, utf8Bytes_four (by omega) hstart.2 hfits htail hlast⟩

theorem utf8Chars_append (bs r : List Nat) (p : Nat) : utf8Chars bs.length p (bs ++ r) = utf8Chars 0 (p + bs.length) r := by
  induction bs generalizing p with
  | nil => rfl
  | cons b bs ih => rw [List.cons_append, List.length_cons, utf8Chars, ih, Nat.add_assoc, Nat.add_comm 1]

theorem utf8_cons (c : Char) (cs : List Char) :
    ∃ a bs, utf8 (c :: cs) = a :: (bs ++ utf8 cs) ∧ utf8Head a (bs ++ utf8 cs) = .char c (bs.length + 1) := by
  obtain ⟨a, bs, hbytes, hhead⟩ := utf8Head_utf8Bytes c (utf8 cs)
  exact ⟨a, bs, by rw [utf8, List.flatMap_cons, hbytes]; rfl, hhead⟩

theorem utf8Chars_utf8 (cs : List Char) (p : Nat) : utf8Chars 0 p (utf8 cs) = .ok cs := by
  induction cs generalizing p with
  | nil => rfl
  | cons c r ih =>
    obtain ⟨a, bs, hutf8, hhead⟩ := utf8_cons c r
    rw [hutf8, utf8Chars]
    simp only [hhead, Nat.add_sub_cancel, utf8Chars_append, ih]
    rfl

theorem utf8Replaced_append (bs r : List Nat) : utf8Replaced bs.length (bs ++ r) = utf8Replaced 0 r := by
  induction bs with
  | nil => rfl
  | cons b bs ih => rw [List.cons_append, List.length_cons, utf8Replaced, ih]

theorem utf8Replaced_utf8 (cs : List Char) : utf8Replaced 0 (utf8 cs) = cs := by
  induction cs with
  | nil => rfl
  | cons c r ih =>
    obtain ⟨a, bs, hutf8, hhead⟩ := utf8_cons c r
    rw [hutf8, utf8Replaced]
    simp only [hhead, Nat.add_sub_cancel, utf8Replaced_append, ih]

theorem ne_nil_of_utf8Chars {p : Nat} (h : utf8Chars 0 p (b :: r) = .ok cs) : cs ≠ [] := by
  rw [utf8Chars] at h
  split at h
  · cases h
  · obtain ⟨rest, _, rfl⟩ := map_eq_ok.1 h
    exact List.cons_ne_nil _ _

theorem utf8Chars_eq_ok {bs : List Nat} {p : Nat} : utf8Chars 0 p bs = .ok cs ↔ bs = utf8 cs := by
  refine ⟨fun h => ?_, fun h => h ▸ utf8Chars_utf8 cs p⟩
  induction cs generalizing bs p with
  | nil =>
    cases bs with
    | nil => rfl
    | cons a r => exact absurd rfl (ne_nil_of_utf8Chars h)
  | cons x xs ih =>
    cases bs with
    | nil => cases h
    | cons a r =>
      rw [utf8Chars] at h
      split at h
      · cases h
      · rename_i y n hhead
        obtain ⟨rest, hrest, hcons⟩ := map_eq_ok.1 h
        obtain ⟨rfl, rfl⟩ := List.cons.inj hcons
        obtain ⟨tail, after, rfl, rfl, hbytes⟩ := utf8Bytes_of_utf8Head hhead
        rw [Nat.add_sub_cancel, utf8Chars_append] at hrest
        rw [ih hrest, utf8, utf8, List.flatMap_cons, hbytes]
        rfl

theorem plainLineEnds_of_not_mem (h : '\r' ∉ cs) : plainLineEnds cs = cs := by
  induction cs with
  | nil => rfl
  | cons c r ih =>
    obtain ⟨hc, hr⟩ := List.ne_and_not_mem_of_not_mem_cons h
    rw [plainLineEnds, ih hr]
    · exact fun _ hcr => absurd hcr.symm hc
    · exact fun hcr => absurd hcr.symm hc

end BehaviorTree.Text
