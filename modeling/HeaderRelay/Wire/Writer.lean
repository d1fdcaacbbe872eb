import HeaderRelay.Wire.Reader

/-!
# Written forms of words

Every word goes out least significant byte first; signed words in two's complement.

* `Writer.u8` … `Writer.i32` — the bytes of a word;
* `Reader.u8_write` … `Reader.i32_write` — what was written is read back, whatever follows it.
-/

namespace HeaderRelay
namespace Writer

def u8 (n : UInt8) : List UInt8 :=
  [n]

def u16 (n : UInt16) : List UInt8 :=
  LittleEndian.split 2 n.toNat

def u32 (n : UInt32) : List UInt8 :=
  LittleEndian.split 4 n.toNat

def u64 (n : UInt64) : List UInt8 :=
  LittleEndian.split 8 n.toNat

def i16 (n : Int16) : List UInt8 :=
  u16 n.toUInt16

def i32 (n : Int32) : List UInt8 :=
  u32 n.toUInt32

/-! ## Widths -/

@[simp] theorem length_u8 (n : UInt8) : (u8 n).length = 1 := rfl

@[simp] theorem length_u16 (n : UInt16) : (u16 n).length = 2 := by simp [u16]

@[simp] theorem length_u32 (n : UInt32) : (u32 n).length = 4 := by simp [u32]

@[simp] theorem length_u64 (n : UInt64) : (u64 n).length = 8 := by simp [u64]

@[simp] theorem length_i16 (n : Int16) : (i16 n).length = 2 := by simp [i16]

@[simp] theorem length_i32 (n : Int32) : (i32 n).length = 4 := by simp [i32]

end Writer

/-! ## Reading back -/

namespace Reader

theorem u8_write (field : String) (n : UInt8) (rest : List UInt8) (offset : Nat)
    (log : Array Event) :
    u8 field { offset, rest := Writer.u8 n ++ rest, log } =
      .ok n { offset := offset + 1, rest, log } := by
  have h : Writer.u8 n = LittleEndian.split 1 n.toNat := by
    simp [Writer.u8, LittleEndian.split]
  simp only [u8, h, bind, EStateM.bind, word_split, pure, EStateM.pure]
  congr 1
  simp [LittleEndian.bound]

theorem u16_write (field : String) (n : UInt16) (rest : List UInt8) (offset : Nat)
    (log : Array Event) :
    u16 field { offset, rest := Writer.u16 n ++ rest, log } =
      .ok n { offset := offset + 2, rest, log } := by
  simp only [u16, Writer.u16, bind, EStateM.bind, word_split, pure, EStateM.pure]
  congr 1
  simp [LittleEndian.bound, Nat.mod_eq_of_lt n.toNat_lt]

theorem u32_write (field : String) (n : UInt32) (rest : List UInt8) (offset : Nat)
    (log : Array Event) :
    u32 field { offset, rest := Writer.u32 n ++ rest, log } =
      .ok n { offset := offset + 4, rest, log } := by
  simp only [u32, Writer.u32, bind, EStateM.bind, word_split, pure, EStateM.pure]
  congr 1
  simp [LittleEndian.bound, Nat.mod_eq_of_lt n.toNat_lt]

theorem u64_write (field : String) (n : UInt64) (rest : List UInt8) (offset : Nat)
    (log : Array Event) :
    u64 field { offset, rest := Writer.u64 n ++ rest, log } =
      .ok n { offset := offset + 8, rest, log } := by
  simp only [u64, Writer.u64, bind, EStateM.bind, word_split, pure, EStateM.pure]
  congr 1
  simp [LittleEndian.bound, Nat.mod_eq_of_lt n.toNat_lt]

theorem i16_write (field : String) (n : Int16) (rest : List UInt8) (offset : Nat)
    (log : Array Event) :
    i16 field { offset, rest := Writer.i16 n ++ rest, log } =
      .ok n { offset := offset + 2, rest, log } := by
  simp only [i16, Writer.i16, bind, EStateM.bind, u16_write, pure, EStateM.pure]
  simp

theorem i32_write (field : String) (n : Int32) (rest : List UInt8) (offset : Nat)
    (log : Array Event) :
    i32 field { offset, rest := Writer.i32 n ++ rest, log } =
      .ok n { offset := offset + 4, rest, log } := by
  simp only [i32, Writer.i32, bind, EStateM.bind, u32_write, pure, EStateM.pure]
  simp

end Reader
end HeaderRelay
