import Reclaim.Text.Utf8

/-!
# MD5 digests

The digest of a text is a number of 128 bits.  Here it only spreads keys
evenly, so that nothing depends on it but which of several equal places a key
goes to.

The text is padded to blocks of sixteen words.  Each block goes through 64
steps, which mix four words of state with the words of the block.
-/

namespace Reclaim
namespace Digest

/-- The four words of state. -/
structure State where
  a : UInt32
  b : UInt32
  c : UInt32
  d : UInt32
  deriving DecidableEq

namespace State

/-- The state before the first block. -/
def start : State :=
  ⟨0x67452301, 0xefcdab89, 0x98badcfe, 0x10325476⟩

/-- The sums of the words of two states. -/
def add (s t : State) : State :=
  ⟨s.a + t.a, s.b + t.b, s.c + t.c, s.d + t.d⟩

end State

/-- The integer parts of the sines of 1 to 64, scaled by `2 ^ 32`. -/
def sines : List UInt32 :=
  [0xd76aa478, 0xe8c7b756, 0x242070db, 0xc1bdceee,
    0xf57c0faf, 0x4787c62a, 0xa8304613, 0xfd469501,
    0x698098d8, 0x8b44f7af, 0xffff5bb1, 0x895cd7be,
    0x6b901122, 0xfd987193, 0xa679438e, 0x49b40821,
    0xf61e2562, 0xc040b340, 0x265e5a51, 0xe9b6c7aa,
    0xd62f105d, 0x02441453, 0xd8a1e681, 0xe7d3fbc8,
    0x21e1cde6, 0xc33707d6, 0xf4d50d87, 0x455a14ed,
    0xa9e3e905, 0xfcefa3f8, 0x676f02d9, 0x8d2a4c8a,
    0xfffa3942, 0x8771f681, 0x6d9d6122, 0xfde5380c,
    0xa4beea44, 0x4bdecfa9, 0xf6bb4b60, 0xbebfbc70,
    0x289b7ec6, 0xeaa127fa, 0xd4ef3085, 0x04881d05,
    0xd9d4d039, 0xe6db99e5, 0x1fa27cf8, 0xc4ac5665,
    0xf4292244, 0x432aff97, 0xab9423a7, 0xfc93a039,
    0x655b59c3, 0x8f0ccc92, 0xffeff47d, 0x85845dd1,
    0x6fa87e4f, 0xfe2ce6e0, 0xa3014314, 0x4e0811a1,
    0xf7537e82, 0xbd3af235, 0x2ad7d2bb, 0xeb86d391]

/-- How far the four rounds rotate, in turn. -/
def rotations : List (List UInt32) :=
  [[7, 12, 17, 22], [5, 9, 14, 20], [4, 11, 16, 23], [6, 10, 15, 21]]

/-- A word rotated to the left. -/
def rotate (x n : UInt32) : UInt32 :=
  (x <<< n) ||| (x >>> (32 - n))

/-- What the step `i` mixes in, and the word of the block that it takes. -/
def mix (s : State) (i : Nat) : UInt32 × Nat :=
  if i < 16 then ((s.b &&& s.c) ||| (~~~s.b &&& s.d), i)
  else if i < 32 then
    ((s.d &&& s.b) ||| (~~~s.d &&& s.c), (5 * i + 1) % 16)
  else if i < 48 then (s.b ^^^ s.c ^^^ s.d, (3 * i + 5) % 16)
  else (s.c ^^^ (s.b ||| ~~~s.d), 7 * i % 16)

/-- The step `i` with its sine. -/
def step (block : List UInt32) (s : State) (numbered : UInt32 × Nat) : State :=
  let (sine, i) := numbered
  let (f, k) := mix s i
  let turn := (rotations.getD (i / 16) []).getD (i % 4) 0
  let sum := f + s.a + sine + block.getD k 0
  ⟨s.d, s.b + rotate sum turn, s.b, s.c⟩

/-- A block of sixteen words goes through all steps. -/
def absorb (s : State) (block : List UInt32) : State :=
  s.add (sines.zipIdx.foldl (step block) s)

/-- A word of four bytes, the lowest one first. -/
def wordOf (bytes : List UInt8) : UInt32 :=
  bytes.foldr (fun b w => w * 256 + b.toUInt32) 0

/-- The bytes of a number, the lowest one first. -/
def bytesOf : Nat → Nat → List UInt8
  | 0, _ => []
  | count + 1, n => UInt8.ofNat n :: bytesOf count (n / 256)

/-- The parts of `size` items, as many as `count`. -/
def parts {α : Type} (size : Nat) : Nat → List α → List (List α)
  | 0, _ => []
  | count + 1, xs => xs.take size :: parts size count (xs.drop size)

/-- The bytes with a mark, zeros and their number of bits, in whole blocks. -/
def pad (bytes : List UInt8) : List UInt8 :=
  let rest := (bytes.length + 9) % 64
  bytes ++ 0x80 :: List.replicate ((64 - rest) % 64) 0 ++
    bytesOf 8 (bytes.length * 8)

/-- The bytes of the digest. -/
def md5Bytes (bytes : List UInt8) : List UInt8 :=
  let padded := pad bytes
  let blocks := parts 64 (padded.length / 64) padded
  let s := blocks.foldl
    (fun s block => absorb s ((parts 4 16 block).map wordOf)) State.start
  [s.a, s.b, s.c, s.d].flatMap fun w => bytesOf 4 w.toNat

/-- The digest of a text as a number whose first byte is the highest. -/
def md5 (s : String) : Nat :=
  (md5Bytes (Text.Utf8.encode s.toList)).foldl (fun n b => n * 256 + b.toNat) 0

end Digest
end Reclaim
