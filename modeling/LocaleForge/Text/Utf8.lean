/-!
UTF-8 read back from bytes: strictly, or with each faulty stretch replaced by U+FFFD.
-/

namespace LocaleForge.Text

/-- The bytes of a text. -/
def encode (s : String) : ByteArray :=
  s.toByteArray

/-- The text that the bytes encode, if they are valid UTF-8. -/
def decode? (bytes : ByteArray) : Option String :=
  String.fromUTF8? bytes

theorem decode?_encode (s : String) : decode? (encode s) = some s := by
  change String.fromUTF8? s.toByteArray = some s
  unfold String.fromUTF8?
  rw [dif_pos s.isValidUTF8]
  rfl

/-- The range that a character's second byte lies in and the number of bytes after the first, by
the first byte. -/
def leadByte? (b : UInt8) : Option (Nat × Nat × Nat) :=
  let n := b.toNat
  if 0xC2 ≤ n ∧ n ≤ 0xDF then some (0x80, 0xBF, 1)
  else if n = 0xE0 then some (0xA0, 0xBF, 2)
  else if n = 0xED then some (0x80, 0x9F, 2)
  else if 0xE1 ≤ n ∧ n ≤ 0xEF then some (0x80, 0xBF, 2)
  else if n = 0xF0 then some (0x90, 0xBF, 3)
  else if 0xF1 ≤ n ∧ n ≤ 0xF3 then some (0x80, 0xBF, 3)
  else if n = 0xF4 then some (0x80, 0x8F, 3)
  else none

/-- Takes up to `n` continuation bytes into the code point read so far; the first of them must lie
between `lo` and `hi`. Gives the code point if all were there, and the bytes that remain. -/
def tailBytes (lo hi : Nat) : Nat → Nat → List UInt8 → Option Nat × List UInt8
  | 0, point, bs => (some point, bs)
  | _ + 1, _, [] => (none, [])
  | n + 1, point, b :: bs =>
    if lo ≤ b.toNat ∧ b.toNat ≤ hi then tailBytes 0x80 0xBF n (point * 64 + b.toNat % 64) bs
    else (none, b :: bs)

theorem length_tailBytes_le (lo hi n point : Nat) (bs : List UInt8) :
    (tailBytes lo hi n point bs).2.length ≤ bs.length := by
  induction bs generalizing lo hi n point with
  | nil => cases n <;> simp [tailBytes]
  | cons b bs ih =>
    cases n with
    | zero => simp [tailBytes]
    | succ n =>
      rw [tailBytes]
      split
      · exact Nat.le_succ_of_le (ih _ _ _ _)
      · simp

/-- The characters that the bytes encode; the longest start of a character that is cut short, and
each byte that starts none, count as one U+FFFD. -/
def decodeLossyList : List UInt8 → List Char
  | [] => []
  | b :: bs =>
    if b.toNat < 0x80 then Char.ofNat b.toNat :: decodeLossyList bs
    else
      match leadByte? b with
      | none => Char.ofNat 0xFFFD :: decodeLossyList bs
      | some (lo, hi, n) =>
        let r := tailBytes lo hi n (b.toNat % (64 >>> n)) bs
        have := length_tailBytes_le lo hi n (b.toNat % (64 >>> n)) bs
        Char.ofNat (r.1.getD 0xFFFD) :: decodeLossyList r.2
termination_by bs => bs.length
decreasing_by
  all_goals simp_wf
  omega

/-- The text that the bytes encode, with U+FFFD for what is not UTF-8. -/
def decodeLossy (bytes : ByteArray) : String :=
  match decode? bytes with
  | some s => s
  | none => String.ofList (decodeLossyList bytes.data.toList)

end LocaleForge.Text
