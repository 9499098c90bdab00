/-!
# `Digest` — SHA-1

The secure hash standard's 160-bit digest of a byte string, on 32-bit words. Program fingerprints are digests of the
programs' text.

* `Digest.blocks` — the padded message in blocks of sixteen words;
* `Digest.compress` — one block mixed into the chaining value;
* `Digest.hex` — the digest in hexadecimal.
-/

namespace RegisterEvolution.Digest

/-- The five words that are carried from block to block. -/
structure Chain where
  a : UInt32
  b : UInt32
  c : UInt32
  d : UInt32
  e : UInt32

/-- The chaining value before the first block. -/
def Chain.initial : Chain := ⟨0x67452301, 0xEFCDAB89, 0x98BADCFE, 0x10325476, 0xC3D2E1F0⟩

/-- The word-wise sum of two chaining values. -/
def Chain.add (x y : Chain) : Chain := ⟨x.a + y.a, x.b + y.b, x.c + y.c, x.d + y.d, x.e + y.e⟩

/-- `x` rotated to the left by `n` bits, for `0 < n < 32`. -/
def rotate (x n : UInt32) : UInt32 := (x <<< n) ||| (x >>> (32 - n))

/-- `n` as eight bytes, the most significant first. -/
def bigEndian64 (n : Nat) : List UInt8 :=
  (List.range 8).map fun i => UInt8.ofNat (n / Nat.pow 256 (7 - i))

/-- The message followed by a one bit, zero bits, and its length in bits, a multiple of 64 bytes in all. -/
def pad (message : List UInt8) : List UInt8 :=
  let zeros := (119 - message.length % 64) % 64
  message ++ 0x80 :: (List.replicate zeros 0 ++ bigEndian64 (8 * message.length))

/-- The big-endian words of a byte string; bytes short of a word are dropped. -/
def words : List UInt8 → List UInt32
  | p :: q :: r :: s :: rest =>
    ((p.toUInt32 <<< 24) ||| (q.toUInt32 <<< 16) ||| (r.toUInt32 <<< 8) ||| s.toUInt32) :: words rest
  | _ => []

/-- Lists of sixteen words, `count` of them at most. -/
def chunks : Nat → List UInt32 → List (List UInt32)
  | 0, _ => []
  | count + 1, ws => if ws.isEmpty then [] else ws.take 16 :: chunks count (ws.drop 16)

/-- The blocks of a message. -/
def blocks (message : List UInt8) : List (List UInt32) :=
  let ws := words (pad message)
  chunks ws.length ws

/-- The eighty words of the schedule of a block. -/
def schedule (block : List UInt32) : Array UInt32 :=
  (List.range 64).foldl
    (fun ws i => ws.push (rotate (ws.getD (i + 13) 0 ^^^ ws.getD (i + 8) 0 ^^^ ws.getD (i + 2) 0 ^^^ ws.getD i 0) 1))
    block.toArray

/-- The function and the constant of round `t` on the three middle words. -/
def mix (t : Nat) (b c d : UInt32) : UInt32 :=
  if t < 20 then ((b &&& c) ||| ((b ^^^ 0xFFFFFFFF) &&& d)) + 0x5A827999
  else if t < 40 then (b ^^^ c ^^^ d) + 0x6ED9EBA1
  else if t < 60 then ((b &&& c) ||| (b &&& d) ||| (c &&& d)) + 0x8F1BBCDC
  else (b ^^^ c ^^^ d) + 0xCA62C1D6

/-- Round `t` with its word of the schedule. -/
def round (x : Chain) (t : Nat) (w : UInt32) : Chain :=
  ⟨rotate x.a 5 + mix t x.b x.c x.d + x.e + w, x.a, rotate x.b 30, x.c, x.d⟩

/-- The chaining value after a block. -/
def compress (x : Chain) (block : List UInt32) : Chain :=
  x.add ((schedule block).toList.zipIdx.foldl (fun y (w, t) => round y t w) x)

/-- A word as eight hexadecimal digits. -/
def hexWord (w : UInt32) : List Char :=
  let digits := Nat.toDigits 16 w.toNat
  List.replicate (8 - digits.length) '0' ++ digits

/-- The digest of a message in hexadecimal. -/
def hex (message : List UInt8) : String :=
  let x := (blocks message).foldl compress .initial
  String.ofList ([x.a, x.b, x.c, x.d, x.e].flatMap hexWord)

end RegisterEvolution.Digest
