import Offside.Proofs.Text
import Offside.Text.Quoted

/-!
# Numerals and quoted characters can be read back

A number has one numeral in each base, and no two numbers share it. So a number written behind a label is known
from the end of a text: the digits are the last run of it, and the label stops the run.

A quoted character is known from what stands between the quotes. It is written in one, two or more than three
characters, as itself, by a letter or by its code point, and the three ways never meet. Which characters are hidden
plays no part in that.
-/

namespace Offside.Text

/-! ### Numerals -/

/-- There are sixteen digits. -/
theorem digitChar_inj : ∀ m < 16, ∀ n < 16, Nat.digitChar m = Nat.digitChar n → m = n := by decide

/-- No two numbers have the same numeral. -/
theorem toDigits_inj {base : Nat} (hbase : 1 < base) (hdigits : base ≤ 16) {m n : Nat}
    (h : Nat.toDigits base m = Nat.toDigits base n) : m = n := by
  induction m using Nat.strongRecOn generalizing n with
  | ind m ih =>
    have hsingle : m < base ↔ n < base := by
      have hm := Nat.length_toDigits_le_iff hbase Nat.one_pos (n := m)
      have hn := Nat.length_toDigits_le_iff hbase Nat.one_pos (n := n)
      rw [Nat.pow_one] at hm hn
      rw [← hm, ← hn, h]
    by_cases hm : m < base
    · have hn := hsingle.1 hm
      rw [Nat.toDigits_of_lt_base hm, Nat.toDigits_of_lt_base hn] at h
      exact digitChar_inj m (by omega) n (by omega) (List.singleton_inj.1 h)
    · have hn := mt hsingle.2 hm
      rw [Nat.toDigits_of_base_le hbase (Nat.not_lt.1 hm), Nat.toDigits_of_base_le hbase (Nat.not_lt.1 hn)] at h
      obtain ⟨hfront, hlast⟩ := List.append_inj' h rfl
      -- the last digit is the remainder, and the digits in front of it are the numeral of the quotient
      have hquotient : m / base = n / base := ih _ (Nat.div_lt_self (by omega) hbase) hfront
      have hremainder : m % base = n % base := by
        have hlt := Nat.mod_lt m (by omega : base > 0)
        have hlt' := Nat.mod_lt n (by omega : base > 0)
        exact digitChar_inj _ (by omega) _ (by omega) (List.singleton_inj.1 hlast)
      rw [← Nat.div_add_mod m base, ← Nat.div_add_mod n base, hquotient, hremainder]

/-- A number behind a label is read from the end of a text, where the label does not end in a digit. -/
theorem append_toDigits_inj {label : List Char} (hlabel : label.getLast?.any (!·.isDigit) = true)
    {front front' : List Char} {m n : Nat}
    (h : front ++ label ++ Nat.toDigits 10 m = front' ++ label ++ Nat.toDigits 10 n) : front = front' ∧ m = n := by
  have hstop (text : List Char) : ∀ c, (text ++ label).getLast? = some c → c.isDigit = false := by
    intro c hc
    have hne : label ≠ [] := by
      rintro rfl
      cases hlabel
    rw [List.getLast?_append_of_ne_nil _ hne] at hc
    simpa [hc] using hlabel
  have hnumeral (k : Nat) : ∀ c ∈ Nat.toDigits 10 k, c.isDigit = true := fun c hc =>
    Nat.isDigit_of_mem_toDigits (by decide) (by decide) hc
  obtain ⟨hfront, hdigits⟩ := append_run_inj (hnumeral m) (hnumeral n) (hstop front) (hstop front') h
  exact ⟨List.append_cancel_right hfront, toDigits_inj (by decide) (by decide) hdigits⟩

/-! ### Quoted characters -/

/-- No two characters share a letter. -/
theorem escapeLetter?_inj {c d letter : Char} (hc : escapeLetter? c = some letter)
    (hd : escapeLetter? d = some letter) : c = d := by
  unfold escapeLetter? at hc hd
  grind

/-- A character is written by a letter, by its code point or as itself. -/
theorem escapeChar_cases (c : Char) :
    (∃ letter, escapeLetter? c = some letter ∧ escapeChar c = ['\\', letter]) ∨
      escapeChar c = ['\\', 'u', '\x7b'] ++ Nat.toDigits 16 c.toNat ++ ['\x7d'] ∨ escapeChar c = [c] := by
  unfold escapeChar
  split
  · rename_i letter hletter
    exact .inl ⟨letter, hletter, rfl⟩
  · split
    · exact .inr (.inl rfl)
    · exact .inr (.inr rfl)

/-- No two characters are written the same. -/
theorem escapeChar_inj {c d : Char} (h : escapeChar c = escapeChar d) : c = d := by
  have hlength := congrArg List.length h
  -- the three ways to write a character differ in length
  rcases escapeChar_cases c with ⟨letter, hletter, hc⟩ | hc | hc <;>
    rcases escapeChar_cases d with ⟨letter', hletter', hd⟩ | hd | hd <;>
    simp only [hc, hd, List.length_append, List.length_cons, List.length_nil] at h hlength
  · obtain rfl : letter = letter' := by simpa using h
    exact escapeLetter?_inj hletter hletter'
  · omega
  · omega
  · omega
  · have hcode : Nat.toDigits 16 c.toNat = Nat.toDigits 16 d.toNat :=
      List.append_cancel_left (List.append_cancel_right h)
    exact Char.toNat_inj.1 (toDigits_inj (by decide) (by decide) hcode)
  · omega
  · omega
  · omega
  · exact List.singleton_inj.1 h

/-- No two characters look the same between quotes. -/
theorem quoteChar_inj {c d : Char} (h : quoteChar c = quoteChar d) : c = d := by
  have hlists := String.ofList_injective h
  rw [List.cons_append, List.cons_append] at hlists
  exact escapeChar_inj (List.append_cancel_right (List.cons.inj hlists).2)

end Offside.Text
