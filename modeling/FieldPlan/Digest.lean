import FieldPlan.Text.Quoted
/-!
# MD5 digests

The digest of a byte sequence: four 32-bit words, changed by sixty-four steps for every block of
sixty-four bytes, and written as thirty-two hexadecimal digits.
-/
namespace FieldPlan.Digest

structure Words where
  a : UInt32
  b : UInt32
  c : UInt32
  d : UInt32
  deriving DecidableEq

def start : Words := ⟨0x67452301, 0xefcdab89, 0x98badcfe, 0x10325476⟩

/-- The constants of the steps: the integer parts of `2 ^ 32 * |sin i|`. -/
def sines : List UInt32 := [
  0xd76aa478, 0xe8c7b756, 0x242070db, 0xc1bdceee, 0xf57c0faf, 0x4787c62a,
  0xa8304613, 0xfd469501, 0x698098d8, 0x8b44f7af, 0xffff5bb1, 0x895cd7be,
  0x6b901122, 0xfd987193, 0xa679438e, 0x49b40821, 0xf61e2562, 0xc040b340,
  0x265e5a51, 0xe9b6c7aa, 0xd62f105d, 0x02441453, 0xd8a1e681, 0xe7d3fbc8,
  0x21e1cde6, 0xc33707d6, 0xf4d50d87, 0x455a14ed, 0xa9e3e905, 0xfcefa3f8,
  0x676f02d9, 0x8d2a4c8a, 0xfffa3942, 0x8771f681, 0x6d9d6122, 0xfde5380c,
  0xa4beea44, 0x4bdecfa9, 0xf6bb4b60, 0xbebfbc70, 0x289b7ec6, 0xeaa127fa,
  0xd4ef3085, 0x04881d05, 0xd9d4d039, 0xe6db99e5, 0x1fa27cf8, 0xc4ac5665,
  0xf4292244, 0x432aff97, 0xab9423a7, 0xfc93a039, 0x655b59c3, 0x8f0ccc92,
  0xffeff47d, 0x85845dd1, 0x6fa87e4f, 0xfe2ce6e0, 0xa3014314, 0x4e0811a1,
  0xf7537e82, 0xbd3af235, 0x2ad7d2bb, 0xeb86d391]

def rotateLeft (x : UInt32) (n : UInt32) : UInt32 := (x <<< n) ||| (x >>> (32 - n))

/-- The rotation of step `i`: four amounts in turn, others for each quarter. -/
def rotation (i : Nat) : UInt32 :=
  let amounts : List UInt32 := match i / 16 with
    | 0 => [7, 12, 17, 22]
    | 1 => [5, 9, 14, 20]
    | 2 => [4, 11, 16, 23]
    | _ => [6, 10, 15, 21]
  amounts.getD (i % 4) 0

/-- The mixing function of step `i` and the block word that it reads. -/
def mix (i : Nat) (w : Words) : UInt32 × Nat :=
  match i / 16 with
  | 0 => ((w.b &&& w.c) ||| (~~~w.b &&& w.d), i)
  | 1 => ((w.d &&& w.b) ||| (~~~w.d &&& w.c), (5 * i + 1) % 16)
  | 2 => (w.b ^^^ w.c ^^^ w.d, (3 * i + 5) % 16)
  | _ => (w.c ^^^ (w.b ||| ~~~w.d), 7 * i % 16)

def step (block : Array UInt32) (w : Words) (i : Nat) (sine : UInt32) : Words :=
  let (f, g) := mix i w
  let sum := f + w.a + sine + block.getD g 0
  ⟨w.d, w.b + rotateLeft sum (rotation i), w.b, w.c⟩

/-- The word of four bytes, least significant first. -/
def word : List UInt8 → UInt32
  | [] => 0
  | b :: rest => b.toUInt32 ||| (word rest <<< 8)

/-- Cuts a list to pieces of `n + 1`. -/
def chunks {α : Type} (n : Nat) (l : List α) : List (List α) :=
  match l with
  | [] => []
  | x :: rest => (x :: rest.take n) :: chunks n (rest.drop n)
termination_by l.length
decreasing_by simp only [List.length_drop, List.length_cons]; omega

def compress (w : Words) (block : List UInt8) : Words :=
  let ws := ((chunks 3 block).map word).toArray
  let r := sines.zipIdx.foldl (fun w (sine, i) => step ws w i sine) w
  ⟨w.a + r.a, w.b + r.b, w.c + r.c, w.d + r.d⟩

/-- The least significant bytes of a number, least significant first. -/
def littleEndian (width n : Nat) : List UInt8 :=
  match width with
  | 0 => []
  | k + 1 => UInt8.ofNat n :: littleEndian k (n / 256)

/-- A one bit, zeros up to eight bytes before a whole block, and the length in bits. -/
def pad (message : List UInt8) : List UInt8 :=
  let zeros := (119 - message.length % 64) % 64
  message ++ 0x80 :: List.replicate zeros 0 ++ littleEndian 8 (8 * message.length)

def ofBytes (message : List UInt8) : Words := (chunks 63 (pad message)).foldl compress start

/-- A word as eight hexadecimal digits, byte by byte. -/
def wordHex (w : UInt32) : List Char :=
  (littleEndian 4 w.toNat).flatMap fun b => Text.hexDigits 2 b.toNat

def Words.hex (w : Words) : String :=
  String.ofList (wordHex w.a ++ wordHex w.b ++ wordHex w.c ++ wordHex w.d)

/-- The digest of a text's UTF-8 bytes in hexadecimal. -/
def md5 (s : String) : String := (ofBytes s.toUTF8.toList).hex

end FieldPlan.Digest
