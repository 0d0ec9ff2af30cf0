/-!
# The SHA-1 digest

The digest of a list of bytes, as FIPS 180-4 lays it down: the message is padded to blocks of 64
bytes, and each block is mixed into five words of 32 bits in eighty rounds.
-/

namespace Crosswalk.Digest

/-- The bytes of a number, most significant first. -/
def bigEndian (count n : Nat) : List UInt8 :=
  (List.range count).reverse.map fun i => UInt8.ofNat (n / Nat.pow 256 i % 256)

def wordOf (bytes : List UInt8) : UInt32 :=
  bytes.foldl (fun w b => w * 256 + UInt32.ofNat b.toNat) 0

def rotateLeft (w : UInt32) (n : UInt32) : UInt32 :=
  (w <<< n) ||| (w >>> (32 - n))

/-- A message with a one bit, zeros and its length in bits appended, to a multiple of 64 bytes. -/
def pad (message : List UInt8) : List UInt8 :=
  let zeros := (119 - message.length % 64) % 64
  message ++ 0x80 :: List.replicate zeros 0 ++ bigEndian 8 (8 * message.length)

def blockWords (block : List UInt8) : Array UInt32 :=
  ((List.range 16).map fun i => wordOf ((block.drop (4 * i)).take 4)).toArray

/-- The eighty words of the rounds: those of the block, then mixtures of earlier ones. -/
def schedule (block : List UInt8) : Array UInt32 :=
  (List.range 64).foldl (fun ws j =>
    let i := j + 16
    let word (back : Nat) := ws.getD (i - back) 0
    ws.push (rotateLeft (word 3 ^^^ word 8 ^^^ word 14 ^^^ word 16) 1))
    (blockWords block)

structure Sha1State where
  a : UInt32
  b : UInt32
  c : UInt32
  d : UInt32
  e : UInt32

def Sha1State.initial : Sha1State :=
  ⟨0x67452301, 0xEFCDAB89, 0x98BADCFE, 0x10325476, 0xC3D2E1F0⟩

def roundMix (i : Nat) (s : Sha1State) : UInt32 × UInt32 :=
  if i < 20 then ((s.b &&& s.c) ||| (~~~ s.b &&& s.d), 0x5A827999)
  else if i < 40 then (s.b ^^^ s.c ^^^ s.d, 0x6ED9EBA1)
  else if i < 60 then ((s.b &&& s.c) ||| (s.b &&& s.d) ||| (s.c &&& s.d), 0x8F1BBCDC)
  else (s.b ^^^ s.c ^^^ s.d, 0xCA62C1D6)

def Sha1State.round (s : Sha1State) (i : Nat) (w : UInt32) : Sha1State :=
  let (f, k) := roundMix i s
  ⟨rotateLeft s.a 5 + f + s.e + k + w, s.a, rotateLeft s.b 30, s.c, s.d⟩

def Sha1State.absorb (s : Sha1State) (block : List UInt8) : Sha1State :=
  let ws := schedule block
  let t := (List.range 80).foldl (fun t i => t.round i (ws.getD i 0)) s
  ⟨s.a + t.a, s.b + t.b, s.c + t.c, s.d + t.d, s.e + t.e⟩

def Sha1State.bytes (s : Sha1State) : List UInt8 :=
  [s.a, s.b, s.c, s.d, s.e].flatMap fun w => bigEndian 4 w.toNat

def sha1 (message : List UInt8) : List UInt8 :=
  let padded := pad message
  let blocks := (List.range (padded.length / 64)).map fun i => (padded.drop (64 * i)).take 64
  (blocks.foldl Sha1State.absorb .initial).bytes

end Crosswalk.Digest
