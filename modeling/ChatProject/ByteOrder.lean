import ChatProject.Memory

/-!
# Four-byte words in memory

Loading and storing a 32-bit word on a host of either byte order, and the
conversions between host and network order. Network order is big-endian, so on a
little-endian host a conversion reverses the four bytes in place and on a big-endian
host it changes nothing.
-/

namespace ChatProject
open Memory

inductive ByteOrder
  | little
  | big
  deriving DecidableEq

namespace ByteOrder

def bytesLE (x : UInt32) : Bytes :=
  [x.toUInt8, (x >>> 8).toUInt8, (x >>> 16).toUInt8, (x >>> 24).toUInt8]

def ofBytesLE (b0 b1 b2 b3 : UInt8) : UInt32 :=
  UInt32.ofNat (b0.toNat + 2 ^ 8 * b1.toNat + 2 ^ 16 * b2.toNat + 2 ^ 24 * b3.toNat)

theorem ofBytesLE_bytesLE (x : UInt32) :
    ofBytesLE x.toUInt8 (x >>> 8).toUInt8 (x >>> 16).toUInt8 (x >>> 24).toUInt8 = x := by
  apply UInt32.toNat_inj.mp
  have hx := x.toNat_lt
  simp [ofBytesLE, Nat.shiftRight_eq_div_pow]
  omega

theorem bytesLE_ofBytesLE (b0 b1 b2 b3 : UInt8) :
    bytesLE (ofBytesLE b0 b1 b2 b3) = [b0, b1, b2, b3] := by
  have h0 := b0.toNat_lt
  have h1 := b1.toNat_lt
  have h2 := b2.toNat_lt
  have h3 := b3.toNat_lt
  simp only [bytesLE, List.cons.injEq, and_true, ← UInt8.toNat_inj]
  simp [ofBytesLE, Nat.shiftRight_eq_div_pow]
  omega

def wordBytes : ByteOrder → UInt32 → Bytes
  | .little, x => bytesLE x
  | .big, x => (bytesLE x).reverse

/-- The word that four bytes hold; bytes beyond the fourth are not read. -/
def ofBytes : ByteOrder → Bytes → UInt32
  | .little, b0 :: b1 :: b2 :: b3 :: _ => ofBytesLE b0 b1 b2 b3
  | .big, b0 :: b1 :: b2 :: b3 :: _ => ofBytesLE b3 b2 b1 b0
  | _, _ => 0

def load32 (bo : ByteOrder) (b : Bytes) (off : ℕ) : UInt32 := ofBytes bo (b.drop off)

def store32 (bo : ByteOrder) (b : Bytes) (off : ℕ) (x : UInt32) : Bytes :=
  store b off (bo.wordBytes x)

def htonl : ByteOrder → UInt32 → UInt32
  | .little, x => ofBytes .big (bytesLE x)
  | .big, x => x

@[simp] theorem wordBytes_length (bo : ByteOrder) (x : UInt32) : (bo.wordBytes x).length = 4 := by
  cases bo <;> rfl

theorem ofBytes_wordBytes (bo : ByteOrder) (x : UInt32) (rest : Bytes) :
    ofBytes bo (bo.wordBytes x ++ rest) = x := by
  cases bo with
  | little => exact ofBytesLE_bytesLE x
  | big => exact ofBytesLE_bytesLE x

theorem htonl_eq_ofBytes (bo : ByteOrder) (x : UInt32) :
    bo.htonl x = ofBytes .big (bo.wordBytes x) := by
  cases bo with
  | little => rfl
  | big => exact (ofBytesLE_bytesLE x).symm

theorem wordBytes_htonl (bo : ByteOrder) (x : UInt32) :
    bo.wordBytes (bo.htonl x) = wordBytes .big x := by
  cases bo with
  | little => exact bytesLE_ofBytesLE _ _ _ _
  | big => rfl

theorem wordBytes_ofBytes (bo : ByteOrder) (b0 b1 b2 b3 : UInt8) :
    bo.wordBytes (ofBytes bo [b0, b1, b2, b3]) = [b0, b1, b2, b3] := by
  cases bo with
  | little => exact bytesLE_ofBytesLE b0 b1 b2 b3
  | big => simp [wordBytes, ofBytes, bytesLE_ofBytesLE]

end ByteOrder
end ChatProject
