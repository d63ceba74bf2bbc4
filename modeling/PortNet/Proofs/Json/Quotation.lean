import Mathlib.Tactic.SplitIfs
import PortNet.Json.Printer
import PortNet.Json.Quotation

namespace PortNet.Json
variable {c : Char} {read tail : List Char}

theorem hexValue_hexDigit : ∀ n < 16, hexValue (hexDigit n) = some n := by decide

/-- The four digits of a written escape are as many as a reader asks for. -/
theorem fourBytes_control : ∀ n < 32,
    fourBytes ['0', '0', hexDigit (n / 16), hexDigit (n % 16)] = true := by
  decide +kernel

/-- An escape below the surrogates stands for a character by itself. -/
theorem closeHex_of_lt {value : Nat} (h : value < 0xD800) :
    closeHex none value read = .ok (.plain, Char.ofNat value :: read) := by
  have htrailing : isTrailing value = false := by
    simp only [isTrailing, Bool.and_eq_false_iff, decide_eq_false_iff_not]
    omega
  have hleading : isLeading value = false := by
    simp only [isLeading, Bool.and_eq_false_iff, decide_eq_false_iff_not]
    omega
  simp only [closeHex, htrailing, hleading, Bool.false_eq_true, if_false]

theorem scanString_control (hc : c < ' ') :
    scanString .plain read ('\\' :: 'u' :: '0' :: '0' :: hexDigit (c.toNat / 16) ::
      hexDigit (c.toNat % 16) :: tail) = scanString .plain (c :: read) tail := by
  have hsmall : c.toNat < 32 := hc
  have hbytes : fourBytes ('0' :: '0' :: hexDigit (c.toNat / 16) :: hexDigit (c.toNat % 16) ::
      tail) = true := fourBytes_control c.toNat hsmall
  have hzero : hexValue '0' = some 0 := by decide
  have hhigh := hexValue_hexDigit (c.toNat / 16) (by omega)
  have hlow := hexValue_hexDigit (c.toNat % 16) (by omega)
  have hclose : closeHex none (16 * (c.toNat / 16) + c.toNat % 16) read =
      .ok (.plain, c :: read) := by
    rw [Nat.div_add_mod, closeHex_of_lt (by omega), Char.ofNat_toNat]
  simp [scanString, stepString, hbytes, hzero, hhigh, hlow, hclose]

theorem scanString_short {d : Char} (hu : d ≠ 'u') (hd : shortEscape d = some c) :
    scanString .plain read ('\\' :: d :: tail) = scanString .plain (c :: read) tail := by
  simp [scanString, stepString, hu, hd]

/-- A character is read back from what is written for it. -/
theorem scanString_escaped (c : Char) :
    scanString .plain read (escaped c ++ tail) = scanString .plain (c :: read) tail := by
  unfold escaped
  split_ifs with hquote hbackslash hb hf hn hr ht hcontrol
  · subst hquote
    exact scanString_short (by decide) rfl
  · subst hbackslash
    exact scanString_short (by decide) rfl
  · exact scanString_short (by decide) (hb ▸ rfl)
  · exact scanString_short (by decide) (hf ▸ rfl)
  · exact scanString_short (by decide) (hn ▸ rfl)
  · exact scanString_short (by decide) (hr ▸ rfl)
  · exact scanString_short (by decide) (ht ▸ rfl)
  · exact scanString_control hcontrol
  · simp [scanString, stepString, hquote, hbackslash, hcontrol]

theorem scanString_flatMap (cs : List Char) :
    scanString .plain read (cs.flatMap escaped ++ '"' :: tail) =
      .ok (String.ofList (read.reverse ++ cs), tail) := by
  induction cs generalizing read with
  | nil => simp [scanString]
  | cons c cs ih =>
    rw [List.flatMap_cons, List.append_assoc, scanString_escaped, ih]
    simp

/-- A string is read back from what is written for it behind the opening quote. -/
theorem scanString_written (s : String) (tail : List Char) :
    scanString .plain [] (s.toList.flatMap escaped ++ '"' :: tail) = .ok (s, tail) := by
  rw [scanString_flatMap, List.reverse_nil, List.nil_append, String.ofList_toList]

end PortNet.Json
