import CloneDetection.Text.Utf8

/-!
# Window digests

The digest of a list of texts is the eight-byte BLAKE2b hash of their UTF-8 bytes, each text ended
by a line feed, read as a number with its first byte on top.
-/
namespace CloneDetection

namespace Blake2b

abbrev Words (n : Nat) := Vector UInt64 n

def initial : Words 8 :=
  #v[0x6A09E667F3BCC908, 0xBB67AE8584CAA73B, 0x3C6EF372FE94F82B, 0xA54FF53A5F1D36F1,
     0x510E527FADE682D1, 0x9B05688C2B3E6C1F, 0x1F83D9ABFB41BD6B, 0x5BE0CD19137E2179]

def permutations : List (Vector (Fin 16) 16) :=
  [#v[0, 1, 2, 3, 4, 5, 6, 7, 8, 9, 10, 11, 12, 13, 14, 15],
   #v[14, 10, 4, 8, 9, 15, 13, 6, 1, 12, 0, 2, 11, 7, 5, 3],
   #v[11, 8, 12, 0, 5, 2, 15, 13, 10, 14, 3, 6, 7, 1, 9, 4],
   #v[7, 9, 3, 1, 13, 12, 11, 14, 2, 6, 5, 10, 4, 0, 15, 8],
   #v[9, 0, 5, 7, 2, 4, 10, 15, 14, 1, 11, 12, 6, 8, 3, 13],
   #v[2, 12, 6, 10, 0, 11, 8, 3, 4, 13, 7, 5, 15, 14, 1, 9],
   #v[12, 5, 1, 15, 14, 13, 4, 10, 0, 7, 6, 3, 9, 2, 8, 11],
   #v[13, 11, 7, 14, 12, 1, 3, 9, 5, 0, 15, 4, 8, 6, 2, 10],
   #v[6, 15, 14, 9, 11, 3, 0, 8, 12, 2, 13, 7, 1, 4, 10, 5],
   #v[10, 2, 8, 4, 7, 6, 1, 5, 15, 11, 9, 14, 3, 12, 13, 0]]

/-- Twelve rounds: after the ten permutations the first two come again. -/
def rounds : List (Vector (Fin 16) 16) :=
  permutations ++ permutations.take 2

def rotateRight (w : UInt64) (k : UInt64) : UInt64 :=
  (w >>> k) ||| (w <<< (64 - k))

def mix (v : Words 16) (a b c d : Fin 16) (x y : UInt64) : Words 16 :=
  let v := v.set a (v[a] + v[b] + x)
  let v := v.set d (rotateRight (v[d] ^^^ v[a]) 32)
  let v := v.set c (v[c] + v[d])
  let v := v.set b (rotateRight (v[b] ^^^ v[c]) 24)
  let v := v.set a (v[a] + v[b] + y)
  let v := v.set d (rotateRight (v[d] ^^^ v[a]) 16)
  let v := v.set c (v[c] + v[d])
  v.set b (rotateRight (v[b] ^^^ v[c]) 63)

def round (m : Words 16) (v : Words 16) (p : Vector (Fin 16) 16) : Words 16 :=
  let v := mix v 0 4 8 12 m[p[0]] m[p[1]]
  let v := mix v 1 5 9 13 m[p[2]] m[p[3]]
  let v := mix v 2 6 10 14 m[p[4]] m[p[5]]
  let v := mix v 3 7 11 15 m[p[6]] m[p[7]]
  let v := mix v 0 5 10 15 m[p[8]] m[p[9]]
  let v := mix v 1 6 11 12 m[p[10]] m[p[11]]
  let v := mix v 2 7 8 13 m[p[12]] m[p[13]]
  mix v 3 4 9 14 m[p[14]] m[p[15]]

/-- One block into the state; `count` bytes have been taken in with it, and `final` marks the
last. -/
def compress (h : Words 8) (m : Words 16) (count : Nat) (final : Bool) : Words 8 :=
  let v : Words 16 := h ++ initial
  let v := v.set 12 (v[12] ^^^ UInt64.ofNat count)
  let v := v.set 13 (v[13] ^^^ UInt64.ofNat (count / 0x10000000000000000))
  let v := if final then v.set 14 (~~~v[14]) else v
  let v := rounds.foldl (round m) v
  Vector.ofFn fun i : Fin 8 => h[i] ^^^ v[i.val] ^^^ v[i.val + 8]

/-- A number from its bytes, the last one on top. -/
def littleEndian (bytes : Bytes) : Nat :=
  bytes.foldr (fun b n => n * 256 + b.toNat) 0

/-- The sixteen words of a block; bytes that are missing at its end are zero. -/
def block (bytes : Bytes) : Words 16 :=
  Vector.ofFn fun i : Fin 16 => UInt64.ofNat (littleEndian ((bytes.drop (8 * i)).take 8))

/-- Blocks of 128 bytes; the last one holds what is left, at least a byte unless all is empty. -/
def blocks (bytes : Bytes) : List Bytes :=
  if 128 < bytes.length then bytes.take 128 :: blocks (bytes.drop 128) else [bytes]
termination_by bytes.length
decreasing_by simp only [List.length_drop]; omega

def absorb (h : Words 8) (count : Nat) : List Bytes → Words 8
  | [] => h
  | [last] => compress h (block last) (count + last.length) true
  | b :: rest => absorb (compress h (block b) (count + b.length) false) (count + b.length) rest

/-- The state for an eight-byte hash without a key. -/
def start : Words 8 :=
  initial.set 0 (initial[0] ^^^ 0x01010008)

/-- The eight bytes of the hash, which are the first word of the final state, lowest byte first. -/
def hash (bytes : Bytes) : Bytes :=
  let word := (absorb start 0 (blocks bytes))[0]
  (List.range 8).map fun i : Nat => (word >>> UInt64.ofNat (8 * i)).toUInt8

end Blake2b

namespace Digest

/-- What is hashed for a window. -/
def message (texts : List Text) : Bytes :=
  texts.flatMap fun t => Utf8.encode t ++ [10]

end Digest

/-- The digest of a window's texts. -/
def digest (texts : List Text) : Nat :=
  (Blake2b.hash (Digest.message texts)).foldl (fun n b => n * 256 + b.toNat) 0

end CloneDetection
