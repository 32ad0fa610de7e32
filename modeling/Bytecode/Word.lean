/-!
# Two-byte words

Operands of two bytes are written big-endian: the high byte stands first.

## Main definitions

* `Word.high`, `Word.low`: the two bytes of a word
* `Word.ofBytes`: the word of two bytes

## Main results

* `Word.ofBytes_high_low`, `Word.high_ofBytes`, `Word.low_ofBytes`: taking a word apart and
  putting it together are inverse to each other
-/

namespace Bytecode.Word

/-- The high byte of a word. -/
def high (word : UInt16) : UInt8 := UInt8.ofNat (word.toNat / 256)

/-- The low byte of a word. -/
def low (word : UInt16) : UInt8 := UInt8.ofNat (word.toNat % 256)

/-- The word of a high and a low byte. -/
def ofBytes (hi lo : UInt8) : UInt16 := UInt16.ofNat (hi.toNat * 256 + lo.toNat)

@[simp] theorem toNat_high (word : UInt16) : (high word).toNat = word.toNat / 256 := by
  have := word.toNat_lt
  simp only [high, UInt8.toNat_ofNat']
  omega

@[simp] theorem toNat_low (word : UInt16) : (low word).toNat = word.toNat % 256 := by
  simp only [low, UInt8.toNat_ofNat']
  omega

@[simp] theorem toNat_ofBytes (hi lo : UInt8) :
    (ofBytes hi lo).toNat = hi.toNat * 256 + lo.toNat := by
  have := hi.toNat_lt
  have := lo.toNat_lt
  simp only [ofBytes, UInt16.toNat_ofNat']
  omega

theorem eq_ofBytes_of_toNat {word : UInt16} {hi lo : UInt8}
    (h : word.toNat = hi.toNat * 256 + lo.toNat) : word = ofBytes hi lo := by
  apply UInt16.toNat_inj.mp
  rw [h, toNat_ofBytes]

@[simp] theorem ofBytes_high_low (word : UInt16) : ofBytes (high word) (low word) = word := by
  apply UInt16.toNat_inj.mp
  simp
  omega

@[simp] theorem high_ofBytes (hi lo : UInt8) : high (ofBytes hi lo) = hi := by
  have := lo.toNat_lt
  apply UInt8.toNat_inj.mp
  simp
  omega

@[simp] theorem low_ofBytes (hi lo : UInt8) : low (ofBytes hi lo) = lo := by
  have := lo.toNat_lt
  apply UInt8.toNat_inj.mp
  simp

end Bytecode.Word
