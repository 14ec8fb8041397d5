import AppBuilder.Encoding.Json

/-! SHA-256 (FIPS 180-4) of a byte string. Words are numbers below `2 ^ 32`. -/
namespace AppBuilder.Encoding.Sha256

def initialHash : List ℕ :=
  [0x6a09e667, 0xbb67ae85, 0x3c6ef372, 0xa54ff53a, 0x510e527f, 0x9b05688c, 0x1f83d9ab, 0x5be0cd19]

def roundConstants : List ℕ :=
  [0x428a2f98, 0x71374491, 0xb5c0fbcf, 0xe9b5dba5, 0x3956c25b, 0x59f111f1, 0x923f82a4, 0xab1c5ed5,
   0xd807aa98, 0x12835b01, 0x243185be, 0x550c7dc3, 0x72be5d74, 0x80deb1fe, 0x9bdc06a7, 0xc19bf174,
   0xe49b69c1, 0xefbe4786, 0x0fc19dc6, 0x240ca1cc, 0x2de92c6f, 0x4a7484aa, 0x5cb0a9dc, 0x76f988da,
   0x983e5152, 0xa831c66d, 0xb00327c8, 0xbf597fc7, 0xc6e00bf3, 0xd5a79147, 0x06ca6351, 0x14292967,
   0x27b70a85, 0x2e1b2138, 0x4d2c6dfc, 0x53380d13, 0x650a7354, 0x766a0abb, 0x81c2c92e, 0x92722c85,
   0xa2bfe8a1, 0xa81a664b, 0xc24b8b70, 0xc76c51a3, 0xd192e819, 0xd6990624, 0xf40e3585, 0x106aa070,
   0x19a4c116, 0x1e376c08, 0x2748774c, 0x34b0bcb5, 0x391c0cb3, 0x4ed8aa4a, 0x5b9cca4f, 0x682e6ff3,
   0x748f82ee, 0x78a5636f, 0x84c87814, 0x8cc70208, 0x90befffa, 0xa4506ceb, 0xbef9a3f7, 0xc67178f2]

def add (a b : ℕ) : ℕ := (a + b) % 2 ^ 32

def rotr (n a : ℕ) : ℕ := (a >>> n) ||| ((a <<< (32 - n)) % 2 ^ 32)

def not (a : ℕ) : ℕ := (2 ^ 32 - 1) ^^^ a

/-- The message, a bit 1, zeros, and the length in bits, in blocks of 64 bytes. -/
def pad (bytes : List ℕ) : List ℕ :=
  let zeros := (119 - bytes.length % 64) % 64
  let bits := 8 * bytes.length
  bytes ++ 0x80 :: List.replicate zeros 0 ++
    (List.range 8).map fun i => (bits >>> (8 * (7 - i))) % 256

/-- Big-endian words. -/
def words : List ℕ → List ℕ
  | a :: b :: c :: d :: rest => (a <<< 24 ||| b <<< 16 ||| c <<< 8 ||| d) :: words rest
  | _ => []

/-- The message schedule, newest word first, extended by `n` words. -/
def schedule : ℕ → List ℕ → List ℕ
  | 0, w => w
  | n + 1, w =>
    let w2 := w.getD 1 0
    let w15 := w.getD 14 0
    let s0 := rotr 7 w15 ^^^ rotr 18 w15 ^^^ (w15 >>> 3)
    let s1 := rotr 17 w2 ^^^ rotr 19 w2 ^^^ (w2 >>> 10)
    schedule n (add (add (w.getD 15 0) s0) (add (w.getD 6 0) s1) :: w)

def round (h : List ℕ) (kw : ℕ × ℕ) : List ℕ :=
  match h with
  | [a, b, c, d, e, f, g, h] =>
    let s1 := rotr 6 e ^^^ rotr 11 e ^^^ rotr 25 e
    let ch := (e &&& f) ^^^ (not e &&& g)
    let t1 := add (add (add h s1) (add ch kw.1)) kw.2
    let s0 := rotr 2 a ^^^ rotr 13 a ^^^ rotr 22 a
    let maj := (a &&& b) ^^^ (a &&& c) ^^^ (b &&& c)
    [add t1 (add s0 maj), a, b, c, add d t1, e, f, g]
  | h => h

def compress (h block : List ℕ) : List ℕ :=
  let w := (schedule 48 (words block).reverse).reverse
  List.zipWith add h ((roundConstants.zip w).foldl round h)

/-- The digest after `n` more blocks. -/
def blocks : ℕ → List ℕ → List ℕ → List ℕ
  | 0, h, _ => h
  | n + 1, h, bytes => blocks n (compress h (bytes.take 64)) (bytes.drop 64)

/-- `createHash('sha256').update(bytes).digest('hex')`. -/
def digest (bytes : List ℕ) : Text :=
  (blocks ((pad bytes).length / 64) initialHash (pad bytes)).flatMap fun word =>
    (List.range 8).map fun i => hexDigit (word >>> (4 * (7 - i)) % 16)

/-- `createHash('sha256').update(s).digest('hex')`. -/
def hex (s : Text) : Text :=
  let padded := pad ((s.flatMap String.utf8EncodeChar).map (·.toNat))
  (blocks (padded.length / 64) initialHash padded).flatMap fun word =>
    (List.range 8).map fun i => hexDigit (word >>> (4 * (7 - i)) % 16)

example : hex (text "abc") =
    text "ba7816bf8f01cfea414140de5dae2223b00361a396177a9cb410ff61f20015ad" := by decide +kernel

end AppBuilder.Encoding.Sha256
